import Mathlib.Data.List.Dedup
import Toolstack.Broker.Requests
import Toolstack.Forwarder.Secrets
import Toolstack.Loaders

/-! The envelope of a REST call is checked twice, by the broker's gateway before the call is
reserved and by the forwarder as it builds the request. -/

namespace Toolstack.RestArguments

open Forwarder (RestConfig Operation OutboundRequest build buildUrl buildHeaders buildBody
  resolve run_pureStep step_ok run_world loadConfig)
open Broker (ToolOp Registry)
open Broker.Lifecycle (validateRestArguments stringMap bodyProblem base64Size base64Char utf8Length)
open Loaders (kindOf LoadedOperation Kept)
open Fallible (bind_ok pure_ok guard_ok throw_ok)

/-! ## Sizes -/

/-- A Base64 text of `n` bytes: its digits, and the padding of the last four characters. -/
structure Base64 (s : PyStr) (n : Nat) (digits padding : PyStr) : Prop where
  text : s = digits ++ padding
  digitChars : ∀ c ∈ digits, base64Char c = true
  paddingChars : ∀ c ∈ padding, c = Url.ch '='
  short : padding.length ≤ 2
  whole : (digits.length + padding.length) % 4 = 0
  size : n = digits.length * 6 / 8

theorem Base64.base64Size {s : PyStr} {n : Nat} {digits padding : PyStr} (h : Base64 s n digits padding) :
    base64Size s = some n := by
  have hstop : ∀ c ∈ padding, base64Char c = false := by
    intro c hc
    rw [h.paddingChars c hc]
    rfl
  have htake : s.takeWhile base64Char = digits := by
    rw [h.text, List.takeWhile_append_of_pos h.digitChars]
    cases hpadding : padding with
    | nil => simp
    | cons c rest =>
      have hc : base64Char c = false := hstop c (hpadding ▸ List.mem_cons_self ..)
      simp [hc]
  have hdrop : s.drop digits.length = padding := by
    rw [h.text, List.drop_left]
  have hequals : padding.all (fun c => c.val = 0x3D) = true := by
    rw [List.all_eq_true]
    intro c hc
    rw [h.paddingChars c hc]
    rfl
  simp only [Broker.Lifecycle.base64Size, htake, hdrop]
  rw [if_pos ⟨hequals, h.short, h.whole⟩, h.size]

section Broker
variable {netlocOk : PyStr → Bool} {config : RestConfig} {manifest : Broker.Manifest}

/-- The broker's entry for an operation, and no earlier entry under its name. -/
theorem addOperation_kept {secrets : List Forwarder.SecretDecl} {t : Forwarder.Table} {op : Operation}
    (hop : LoadedOperation secrets t op) {host : String} {ops ops' : Broker.Dict Broker.OpMeta}
    (h : Registry.addOperation (some host) ops (.obj t) = .ok ops') :
    ∃ o, ops' = ops ++ [o] ∧ Kept host op o ∧ ops.get o.1 = none := by
  simp only [Registry.addOperation, Registry.get, hop.name, Option.getD_some, Option.mapM_some,
    Loaders.restFields_loaded hop, guard_ok, bind_ok, pure_ok] at h
  obtain ⟨hid, hfresh, rest, ⟨fields, rfl, rfl⟩, approval, -, rfl⟩ := h
  refine ⟨_, rfl, ⟨rfl, Loaders.py_string (by simpa using hid), rfl⟩, ?_⟩
  simpa using hfresh

theorem addOperations_kept {secrets : List Forwarder.SecretDecl} {items : List Json} {ops : List Operation}
    (hitems : List.Forall₂ (Loaders.ItemOperation secrets) items ops) {host : String}
    {acc out : Broker.Dict Broker.OpMeta} (h : items.foldlM (Registry.addOperation (some host)) acc = .ok out) :
    ∃ bops, out = acc ++ bops ∧ List.Forall₂ (Kept host) ops bops := by
  induction hitems generalizing acc with
  | nil =>
    obtain rfl := Except.ok.inj h
    exact ⟨[], (List.append_nil acc).symm, .nil⟩
  | cons hitem _ ih =>
    obtain ⟨t, rfl, hop⟩ := hitem
    rw [List.foldlM_cons] at h
    obtain ⟨acc', hadd, hrest⟩ := bind_ok.1 h
    obtain ⟨o, rfl, ho, -⟩ := addOperation_kept hop hadd
    obtain ⟨bops, rfl, hbops⟩ := ih hrest
    exact ⟨o :: bops, by rw [List.append_assoc, List.singleton_append], .cons ho hbops⟩

theorem injectRefresh_ok {secrets : Json} {ops out : Broker.Dict Broker.OpMeta}
    (h : Registry.injectRefresh secrets ops = .ok out) : ∃ extra, out = ops ++ extra := by
  unfold Registry.injectRefresh at h
  split_ifs at h
  · exact ⟨[], by rw [List.append_nil, pure_ok.1 h]⟩
  · exact ⟨_, (pure_ok.1 h).symm⟩

/-- The broker's entry for a manifest that the forwarder has loaded too. -/
theorem addToml_kept {H : Broker.Hash} {catalog catalog' : Registry}
    (h : Loaders.Loaded netlocOk manifest.data config)
    (hadd : Registry.addToml H netlocOk catalog manifest = .ok catalog') :
    ∃ id e host bops extra, catalog' = catalog.set id e ∧ py id = config.toolId ∧ e.type = .rest ∧
      e.manifest = some (manifest.path, H.digest manifest.raw) ∧ e.ops = bops ++ extra ∧
      List.Forall₂ (Kept host) config.operations bops := by
  simp only [Registry.addToml, bind_ok, pure_ok] at hadd
  obtain ⟨id, hid, type, htype, port, -, host, hhost, items, hitems, ops, hops, ops', hinject, rfl⟩ := hadd
  obtain ⟨hfind, -⟩ := Loaders.toolId_loaded h
  have hid : id = Registry.string config.toolId ∧ Registry.idFullmatch config.toolId = true := by
    rw [Registry.get, hfind, Option.getD_some, Registry.toolId] at hid
    split_ifs at hid with hfull
    exact ⟨(pure_ok.1 hid).symm, hfull⟩
  have htype : type = .rest := by
    rw [Registry.getD, Loaders.type_loaded h] at htype
    exact (Except.ok.inj htype).symm
  obtain ⟨hid, hfull⟩ := hid
  subst hid htype
  have hhost : ∃ host', host = some host' := by
    rw [Registry.restHost, if_pos rfl] at hhost
    cases hbase : Registry.restBaseUrlHost netlocOk manifest.data with
    | error e =>
      rw [hbase] at hhost
      cases hhost
    | ok host' =>
      rw [hbase] at hhost
      exact ⟨host', (Except.ok.inj hhost).symm⟩
  obtain ⟨host, rfl⟩ := hhost
  obtain ⟨items', hraw, hoperations, -⟩ := Loaders.loadOperations_loaded h.operations
  have hitems : items = items' := by
    have hraw : Registry.getD manifest.data "operations" (.arr []) = .arr items' := hraw
    rw [hraw] at hitems
    exact (Except.ok.inj hitems).symm
  subst hitems
  obtain ⟨bops, hbops, hkept⟩ := addOperations_kept hoperations hops
  obtain ⟨extra, rfl⟩ := injectRefresh_ok hinject
  rw [List.nil_append] at hbops
  subst hbops
  exact ⟨_, _, host, ops, extra, rfl, Loaders.py_string hfull, rfl, rfl, rfl, hkept⟩

/-- The operation the gateway looks up for one the forwarder has. -/
structure Served (config : RestConfig) (op : Operation) (toolOp : ToolOp) : Prop where
  tool : py toolOp.tool = config.toolId
  type : toolOp.type = .rest
  bodyKind : toolOp.bodyKind = kindOf op.bodyKind
  name : py toolOp.op = op.name

/-- Every operation of the forwarder is in the broker's catalog, and found as long as the manifest
on disk is the one loaded. -/
theorem lookup_served {H : Broker.Hash} {catalog catalog' : Registry}
    (hload : loadConfig netlocOk (.obj manifest.data) = .ok config)
    (hadd : Registry.addToml H netlocOk catalog manifest = .ok catalog') {op : Operation}
    (hop : op ∈ config.operations) (disk : Broker.Disk) :
    ∃ tool name, py tool = config.toolId ∧ py name = op.name ∧
      (disk.get manifest.path = some manifest.raw →
        (Registry.lookup H disk catalog' tool name).isSome = true) ∧
      ∀ toolOp, Registry.lookup H disk catalog' tool name = some toolOp → Served config op toolOp := by
  have h := Loaders.loaded hload
  obtain ⟨-, -, -, hnodup⟩ := Loaders.loadOperations_loaded h.operations
  obtain ⟨id, e, host, bops, extra, rfl, hid, htype, hmanifest, hops, hkept⟩ := addToml_kept h hadd
  obtain ⟨o, ho, hname, hpy, hrest⟩ := Fallible.exists_of_mem_left hkept hop
  have hentry : (catalog.set id e).get id = some e := by
    refine (Mapping.get_set catalog id e id).trans (if_pos rfl)
  have hget : ∃ m, e.ops.get o.1 = some m ∧ m.rest = o.2.rest := by
    rw [hops, Broker.Dict.get, List.find?_append]
    cases hfind : bops.find? fun kv => decide (kv.1 = o.1) with
    | none => exact absurd (decide_eq_true rfl) (List.find?_eq_none.1 hfind o ho)
    | some o' =>
      have hsame : o'.1 = o.1 := by simpa using List.find?_some hfind
      obtain ⟨op', hop', hkept'⟩ := Fallible.exists_of_mem_right hkept (List.mem_of_find?_eq_some hfind)
      have hnames : op'.name = op.name := by rw [← hkept'.2.1, hsame, hpy]
      obtain rfl := List.inj_on_of_nodup_map hnodup hop' hop hnames
      exact ⟨o'.2, rfl, hkept'.2.2.trans hrest.symm⟩
  obtain ⟨m, hget, hm⟩ := hget
  refine ⟨id, o.1, hid, hpy, fun hdisk => ?_, fun toolOp hlookup => ?_⟩
  · have hcurrent : Registry.current H disk e = true := by
      simp only [Registry.current, hmanifest, Option.all_some, hdisk, Option.any_some, decide_true]
    simp [Registry.lookup, hentry, hget, hcurrent]
  · simp only [Registry.lookup, Option.bind_eq_bind, hentry, hget, Option.bind_some] at hlookup
    split_ifs at hlookup
    obtain rfl := Option.some.inj hlookup
    refine ⟨hid, htype, ?_, hpy⟩
    rw [ToolOp.bodyKind]
    simp only [hm, hrest]
    rfl

end Broker

/-! ## The two checks -/

/-- A request's body is within the limit. -/
def Within (bodyMax : Int) (body : Option Forwarder.Bytes) : Prop :=
  ∀ data, body = some data → (data.length : Int) ≤ bodyMax

section Request
variable {netlocOk : PyStr → Bool} {data : Json} {config : RestConfig} {op : Operation}
  {secrets : PyStr → Option PyStr} {maxBody : Nat}

theorem build_eq_ok {name : PyStr} (hop : config.operation? name = some op) {arguments : Forwarder.Table}
    {req : OutboundRequest} :
    (build netlocOk config name (.obj arguments) maxBody secrets).result = .ok req ↔
      ∃ url headers body, buildUrl netlocOk config op arguments = .ok url ∧
        ((buildHeaders op arguments).run resolve secrets).result = .ok headers ∧
        ((buildBody op arguments maxBody).run resolve secrets).result = .ok body ∧
        req = { method := op.verb.name, url, headers := Forwarder.withContentType op body headers, body } := by
  simp only [build, Forwarder.buildRequest, hop, Forwarder.run_step, run_pureStep]
  constructor
  · rintro ⟨url, hurl, headers, hheaders, body, hbody, hreq⟩
    exact ⟨url, headers, body, hurl, hheaders, hbody, (Except.ok.inj hreq).symm⟩
  · rintro ⟨url, headers, body, hurl, hheaders, hbody, rfl⟩
    exact ⟨url, hurl, headers, hheaders, body, hbody, rfl⟩

end Request

/-! ## The agreement -/

theorem placement_of_loadOperation {secrets : List Forwarder.SecretDecl} {ops ops' : List Operation}
    {raw : Json} {idx : Nat} (h : Forwarder.loadOperation secrets ops raw idx = .ok ops') :
    ∃ op item declared, ops' = ops ++ [op] ∧
      Forwarder.validateSecretPlacement item declared op.bodyKind =
        .ok (op.headers, op.allowedSecrets, op.bodyTemplate) := by
  unfold Forwarder.loadOperation at h
  split at h
  · simp only [bind_ok, guard_ok, Forwarder.err] at h
    obtain ⟨name, -, -, -, -, verbText, -, h⟩ := h
    split at h
    · simp only [bind_ok, guard_ok, pure_ok] at h
      obtain ⟨path, -, ⟨⟩, -, allowed, -, kind, -, type, -, substitution, -, -, placed, hplaced, -, _, -, _, -,
        rules, -, -, rfl⟩ := h
      exact ⟨_, _, _, rfl, hplaced⟩
    · cases h
  · cases h

theorem text_of_placement {item : Forwarder.Table} {declared allowed : List PyStr}
    {kind : Forwarder.BodyKind} {headers : List (PyStr × PyStr)} {template : PyStr}
    (h : Forwarder.validateSecretPlacement item declared kind = .ok (headers, allowed, some template)) :
    kind = .text := by
  unfold Forwarder.validateSecretPlacement at h
  split at h
  · split at h
    · obtain ⟨headers, -, h⟩ := bind_ok.1 h
      split at h
      · simp only [bind_ok, pure_ok] at h
        obtain ⟨-, rfl, -, -, h⟩ := h
        cases h
      · simp only [bind_ok, pure_ok] at h
        obtain ⟨-, rfl, -, -, h⟩ := h
        cases h
      · rfl
      · cases h
    · cases h
  · cases h

/-- A body template is for operations with a text body. -/
theorem bodyKind_of_template {secrets : List Forwarder.SecretDecl} {raw : Json} {ops : List Operation}
    (h : Forwarder.loadOperations secrets raw = .ok ops) :
    ∀ op ∈ ops, op.bodyTemplate ≠ none → op.bodyKind = .text := by
  unfold Forwarder.loadOperations at h
  split at h
  · refine Fallible.foldlM_ok
      (P := fun ops : List Operation => ∀ op ∈ ops, op.bodyTemplate ≠ none → op.bodyKind = .text)
      (by simp) (fun ops item ops' _ hops hitem => ?_) h
    obtain ⟨op, t, declared, rfl, hplaced⟩ := placement_of_loadOperation hitem
    intro o ho hsome
    rcases List.mem_append.1 ho with hold | hlast
    · exact hops o hold hsome
    · obtain rfl := List.mem_singleton.1 hlast
      obtain ⟨template, htemplate⟩ := Option.ne_none_iff_exists'.1 hsome
      rw [htemplate] at hplaced
      exact text_of_placement hplaced
  · cases h

theorem operation?_of_mem {netlocOk : PyStr → Bool} {data : Forwarder.Table} {config : RestConfig}
    (hload : loadConfig netlocOk (.obj data) = .ok config) {op : Operation} (hop : op ∈ config.operations) :
    config.operation? op.name = some op := by
  obtain ⟨-, -, -, hnodup⟩ := Loaders.loadOperations_loaded (Loaders.loaded hload).operations
  rw [Forwarder.RestConfig.operation?]
  cases hfind : config.operations.find? fun o => decide (o.name = op.name) with
  | none => exact absurd (decide_eq_true rfl) (List.find?_eq_none.1 hfind op hop)
  | some o =>
    have hsame : o.name = op.name := by simpa using List.find?_some hfind
    rw [List.inj_on_of_nodup_map hnodup (List.mem_of_find?_eq_some hfind) hop hsame]

/-- No call of an operation with a body template passes both checks: the forwarder refuses any
body, and the gateway, which does not know the template, asks for one. -/
theorem template_unserved {H : Broker.Hash} {netlocOk : PyStr → Bool} {manifest : Broker.Manifest}
    {catalog catalog' : Registry} {disk : Broker.Disk} {config : RestConfig} {op : Operation}
    (hload : loadConfig netlocOk (.obj manifest.data) = .ok config)
    (hadd : Registry.addToml H netlocOk catalog manifest = .ok catalog')
    (hop : op ∈ config.operations) (htemplate : op.bodyTemplate ≠ none) :
    ∃ tool name, py tool = config.toolId ∧ py name = op.name ∧
      ∀ toolOp, Registry.lookup H disk catalog' tool name = some toolOp →
        ∀ secrets maxBody bodyMax arguments req,
          (build netlocOk config op.name (.obj arguments) maxBody secrets).result = .ok req →
          validateRestArguments bodyMax toolOp arguments ≠ .ok none := by
  obtain ⟨tool, name, htool, hname, -, hserved⟩ := lookup_served hload hadd hop disk
  refine ⟨tool, name, htool, hname, fun toolOp hlookup => ?_⟩
  intro secrets maxBody bodyMax arguments req h hvalid
  obtain ⟨template, htemplate⟩ := Option.ne_none_iff_exists'.1 htemplate
  have htext := bodyKind_of_template (Loaders.loaded hload).operations op hop (by simp [htemplate])
  obtain ⟨url, headers, body, -, -, hbody, -⟩ := (build_eq_ok (operation?_of_mem hload hop)).1 h
  obtain ⟨given, -, hbody⟩ := step_ok hbody
  obtain ⟨text, hplaced, -⟩ := step_ok hbody
  have habsent : Json.find? arguments (py "body") = none := by
    simp only [Forwarder.bodyText, htemplate] at hplaced
    split_ifs at hplaced with hpresent
    · cases hplaced
    · simpa using hpresent
  have hrefused : bodyProblem bodyMax toolOp.bodyKind arguments = .ok (some "body must be a string") := by
    rw [(hserved toolOp hlookup).bodyKind, htext]
    unfold bodyProblem
    rw [habsent]
    rfl
  rw [validateRestArguments, hrefused] at hvalid
  split at hvalid <;> cases hvalid

end Toolstack.RestArguments
