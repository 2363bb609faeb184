import Toolstack.Broker.ToolNames
import Toolstack.Forwarder.Confinement
import Toolstack.Toolyard.Config

/-! The forwarder, the toolyard and the broker read one manifest. -/

namespace Toolstack.Loaders

open Forwarder (RestConfig Operation SecretDecl loadConfig loadOperation loadOperations loadSecret
  loadSecrets loadToolId loadPort validateBaseUrl declaresRest)
open Fallible (bind_ok pure_ok guard_ok throw_ok)

/-! ## What the forwarder read -/

/-- The parts of a manifest that `load_config` accepts. -/
structure Loaded (netlocOk : PyStr → Bool) (data : Forwarder.Table) (config : RestConfig) : Prop where
  toolId : loadToolId data = .ok config.toolId
  rest : declaresRest data = true
  entry : ∃ entry, Forwarder.getD data "entrypoint" (.obj []) = .obj entry ∧
    loadPort entry = .ok config.port
  baseUrl : ∃ url, Forwarder.string data "base_url" "" = .ok url ∧ validateBaseUrl netlocOk url = .ok ()
  secrets : loadSecrets (Forwarder.getD data "secrets" (.arr [])) = .ok config.secrets
  operations : loadOperations config.secrets (Forwarder.getD data "operations" (.arr [])) =
    .ok config.operations

variable {netlocOk : PyStr → Bool} {data : Forwarder.Table} {config : RestConfig}

theorem loaded (h : loadConfig netlocOk (.obj data) = .ok config) : Loaded netlocOk data config := by
  simp only [loadConfig, bind_ok, guard_ok, Forwarder.err, Bool.not_eq_true', Bool.not_eq_false] at h
  obtain ⟨toolId, hid, hrest, h⟩ := h
  split at h
  · rename_i entry hentry
    simp only [bind_ok, guard_ok, pure_ok] at h
    obtain ⟨port, hport, url, hurl, ⟨⟩, hbase, secrets, hsecrets, operations, hoperations, -, rfl⟩ := h
    exact ⟨hid, hrest, ⟨entry, hentry, hport⟩, ⟨url, hurl, hbase⟩, hsecrets, hoperations⟩
  · cases h

/-- The parts of an operation that the other readers look at too. -/
structure LoadedOperation (secrets : List SecretDecl) (item : Forwarder.Table) (op : Operation) : Prop where
  name : Json.find? item (py "name") = some (.str op.name)
  idName : Forwarder.idName op.name = true
  notReserved : op.name ≠ py "refresh" ∧ op.name ≠ py "refresh_one"
  verb : ∃ verb, Json.find? item (py "verb") = some (.str verb) ∧
    Forwarder.verbs.find? (fun v => v.name = verb.flatMap Forwarder.upper) = some op.verb
  path : Json.find? item (py "path") = some (.str op.path) ∧ Forwarder.PathTemplate op.path
  bodyKind : ∃ field, Forwarder.loadBodyKind field op.verb (Json.find? item (py "body_kind")) =
    .ok op.bodyKind
  rules : ∃ field rules, Forwarder.loadRules field ((secrets.filter SecretDecl.writable).map SecretDecl.name)
    (Forwarder.getD item "secret_update_rules" (.arr [])) = .ok rules

theorem string_ok {item : Forwarder.Table} {key owner : String} {s : PyStr}
    (h : Forwarder.string item key owner = .ok s) : Json.find? item (py key) = some (.str s) ∧ s ≠ [] := by
  unfold Forwarder.string at h
  split at h
  · rename_i c s' hfind
    obtain rfl := Except.ok.inj h
    exact ⟨hfind, List.cons_ne_nil _ _⟩
  · cases h

theorem loadOperation_loaded {secrets : List SecretDecl} {ops ops' : List Operation} {raw : Json} {idx : Nat}
    (h : loadOperation secrets ops raw idx = .ok ops') : ∃ item op, raw = .obj item ∧ ops' = ops ++ [op] ∧
      LoadedOperation secrets item op ∧ ∀ o ∈ ops, o.name ≠ op.name := by
  unfold loadOperation at h
  split at h
  · rename_i item
    simp only [bind_ok, guard_ok, Forwarder.err] at h
    obtain ⟨name, hname, hid, hreserved, hfresh, verbText, hverbText, h⟩ := h
    split at h
    · rename_i verb hverb
      simp only [bind_ok, guard_ok, pure_ok] at h
      obtain ⟨path, hpath, ⟨⟩, htemplate, _, -, kind, hkind, _, -, _, -, -, _, -, -, _, -, _, -, rules,
        hrules, -, rfl⟩ := h
      refine ⟨item, _, rfl, rfl, ⟨(string_ok hname).1, by simpa using hid, not_or.1 hreserved,
        ⟨verbText, (string_ok hverbText).1, hverb⟩, ⟨(string_ok hpath).1, ?_⟩, ⟨_, hkind⟩,
        ⟨_, _, hrules⟩⟩, fun o ho hsame => hfresh ?_⟩
      · exact Forwarder.validatePathTemplate_ok htemplate
      · exact List.any_eq_true.2 ⟨o, ho, decide_eq_true hsame⟩
    · cases h
  · cases h

def ItemOperation (secrets : List SecretDecl) (item : Json) (op : Operation) : Prop :=
  ∃ t, item = .obj t ∧ LoadedOperation secrets t op

theorem loadOperations_loaded {secrets : List SecretDecl} {raw : Json} {ops : List Operation}
    (h : loadOperations secrets raw = .ok ops) : ∃ items, raw = .arr items ∧
      List.Forall₂ (ItemOperation secrets) items ops ∧ (ops.map Operation.name).Nodup := by
  unfold loadOperations at h
  split at h
  · rename_i items
    refine ⟨items, rfl, ?_, ?_⟩
    · have hstep : ∀ (acc : List Operation) (x : Json × Nat) acc',
          loadOperation secrets acc x.1 x.2 = .ok acc' →
            ∃ op, acc' = acc ++ [op] ∧ ItemOperation secrets x.1 op := by
        intro acc x acc' hx
        obtain ⟨t, op, hitem, hacc, hop, -⟩ := loadOperation_loaded hx
        exact ⟨op, hacc, t, hitem, hop⟩
      obtain ⟨ys, rfl, hys⟩ := Fallible.foldlM_append hstep h
      exact Fallible.forall₂_zipIdx hys
    · refine Fallible.foldlM_ok (P := fun ops => (ops.map Operation.name).Nodup) List.nodup_nil
        (fun acc x acc' _ hacc hx => ?_) h
      obtain ⟨-, op, -, rfl, -, hfresh⟩ := loadOperation_loaded hx
      rw [List.map_append]
      refine List.nodup_append.2 ⟨hacc, List.nodup_singleton _, ?_⟩
      rintro _ hn n hlast rfl
      obtain ⟨o, ho, hsame⟩ := List.mem_map.1 hn
      exact hfresh o ho (hsame.trans (List.mem_singleton.1 hlast))
  · cases h

/-- The parts of a secret's declaration. -/
structure LoadedSecret (item : Forwarder.Table) (d : SecretDecl) : Prop where
  name : Json.find? item (py "name") = some (.str d.name)
  nonempty : d.name ≠ []
  field : Json.find? item (py "field") = some (.str d.field)
  writable : Forwarder.getD item "writable" (.bool false) = .bool d.writable

def ItemSecret (item : Json) (d : SecretDecl) : Prop := ∃ t, item = .obj t ∧ LoadedSecret t d

theorem loadSecret_loaded {acc acc' : List SecretDecl} {item : Json} {idx : Nat}
    (h : loadSecret acc item idx = .ok acc') : ∃ d, acc' = acc ++ [d] ∧ ItemSecret item d := by
  unfold loadSecret at h
  split at h
  · rename_i t
    simp only [bind_ok, guard_ok, pure_ok, Forwarder.err] at h
    obtain ⟨name, hname, -, -, field, hfield, writable, hwritable, rfl⟩ := h
    refine ⟨_, rfl, t, rfl, (string_ok hname).1, (string_ok hname).2, (string_ok hfield).1, ?_⟩
    unfold Forwarder.boolean at hwritable
    split at hwritable
    · rename_i b hb
      rw [hb, Except.ok.inj hwritable]
    · cases hwritable
  · cases h

theorem loadSecrets_loaded {raw : Json} {secrets : List SecretDecl} (h : loadSecrets raw = .ok secrets) :
    ∃ items, raw = .arr items ∧ List.Forall₂ ItemSecret items secrets := by
  unfold loadSecrets at h
  split at h
  · rename_i items
    obtain ⟨ys, rfl, hys⟩ := Fallible.foldlM_append
      (R := fun (x : Json × Nat) d => ItemSecret x.1 d) (fun _ _ _ hx => loadSecret_loaded hx) h
    exact ⟨items, rfl, Fallible.forall₂_zipIdx hys⟩
  · cases h

/-! ## The broker -/

open Broker (OpMeta Dict)
open Broker.Registry (idFullmatch addOperation)

/-- An identifier without the line feed that `$` lets through. -/
def OneLine (s : PyStr) : Prop := s.getLast? ≠ some (Url.ch '\n')

instance OneLine.decidable (s : PyStr) : Decidable (OneLine s) := inferInstanceAs (Decidable (_ ≠ _))

theorem idFullmatch_of_idName {s : PyStr} (h : Forwarder.idName s = true) (hline : OneLine s) :
    idFullmatch s = true := by
  rw [Forwarder.idName, if_neg hline] at h
  exact h

theorem py_string {s : PyStr} (h : idFullmatch s = true) : py (Broker.Registry.string s) = s := by
  obtain ⟨-, hall⟩ := Bool.and_eq_true_iff.1 h
  rw [py, Broker.Registry.string, String.toList_ofList, List.map_map]
  refine (List.map_congr_left fun c hc => ?_).trans (List.map_id s)
  have hchar : Broker.Registry.idChar c = true := List.all_eq_true.1 hall c hc
  have hlt : c.val < 0xD800 := by
    by_contra hge
    have hne : ∀ k : Char, k.toNat < 0xD800 → c ≠ Url.ch k := by
      rintro k hk rfl
      rw [Url.ch, Fin.val_ofNat, Nat.mod_eq_of_lt (by omega)] at hge
      exact hge hk
    simp [Broker.Registry.idChar, Broker.Registry.idHead, Url.isAlpha, Url.isDigit,
      hne '_' (by decide), hne '-' (by decide)] at hchar
    omega
  apply Fin.ext
  show (Char.ofNat c.val).toNat % 0x110000 = c.val
  rw [toNat_ofNat hlt, Nat.mod_eq_of_lt c.isLt]

def verbText : Forwarder.Verb → String
  | .get => "GET"
  | .post => "POST"
  | .put => "PUT"
  | .patch => "PATCH"
  | .delete => "DELETE"

def kindOf : Forwarder.BodyKind → Broker.BodyKind
  | .none => .none
  | .text => .text
  | .binary => .binary

theorem verb_found {text : PyStr} {verb : Forwarder.Verb}
    (h : Forwarder.verbs.find? (fun v => v.name = text) = some verb) :
    Broker.Registry.verbs.find? (fun v => py v = text) = some (verbText verb) := by
  obtain rfl : verb.name = text := by simpa using List.find?_some h
  cases verb <;> decide

theorem bodyKind_loaded {field : String} {name : Json} {verb : Forwarder.Verb} {kind : Forwarder.BodyKind}
    {raw : Option Json} (h : Forwarder.loadBodyKind field verb raw = .ok kind) :
    Broker.Registry.bodyKind name (verbText verb) (raw.getD .null) = .ok (kindOf kind) := by
  have hdefault : Broker.Registry.bodyKind name (verbText verb) .null =
      .ok (kindOf (if verb = .get ∨ verb = .delete then .none else .text)) := by
    cases verb <;> rfl
  unfold Forwarder.loadBodyKind at h
  split at h
  · obtain rfl := Except.ok.inj h
    exact hdefault
  · obtain rfl := Except.ok.inj h
    exact hdefault
  · rename_i text
    split at h
    · rename_i k hk
      obtain rfl := Except.ok.inj h
      obtain rfl : k.name = text := by simpa using List.find?_some hk
      cases k <;> rfl
    · cases h
  all_goals cases h

theorem path_head {path : PyStr} (h : Forwarder.PathTemplate path) :
    path.head? = some (Url.ch '/') ∧ path[1]? ≠ some (Url.ch '/') := by
  have hhead := h.head
  have hsingle := h.single
  rw [Url.cut] at hhead hsingle
  cases path with
  | nil => cases hhead
  | cons c path =>
    by_cases hc : c = Url.ch '?'
    · simp [hc] at hhead
    · simp only [List.takeWhile_cons, hc, ne_eq, not_false_eq_true, decide_true, if_true] at hhead hsingle
      refine ⟨hhead, ?_⟩
      cases path with
      | nil => exact Option.some_ne_none _ ∘ Eq.symm
      | cons d path =>
        by_cases hd : d = Url.ch '?'
        · subst hd
          exact fun h => absurd (Option.some.inj h) (by decide)
        · simpa [hd] using hsingle

theorem restFields_loaded {secrets : List SecretDecl} {item : Forwarder.Table} {op : Operation}
    (hop : LoadedOperation secrets item op) (host : String) :
    Broker.Registry.restFields host item =
      .ok ⟨verbText op.verb, Broker.Registry.string op.path, host, kindOf op.bodyKind⟩ := by
  obtain ⟨text, hverb, hfind⟩ := hop.verb
  obtain ⟨hpath, htemplate⟩ := hop.path
  obtain ⟨field, hkind⟩ := hop.bodyKind
  have hkind : Broker.Registry.bodyKind (Broker.Registry.get item "name") (verbText op.verb)
      (Broker.Registry.get item "body_kind") = .ok (kindOf op.bodyKind) := bodyKind_loaded hkind
  simp only [Broker.Registry.get] at hkind
  simp only [Broker.Registry.restFields, Broker.Registry.get, hverb, hpath, Option.getD_some,
    verb_found hfind, path_head htemplate, ne_eq, not_false_eq_true, and_self, if_true, hkind]
  rfl

/-- What the broker keeps of an operation the forwarder loaded. -/
theorem addOperation_loaded {secrets : List SecretDecl} {item : Forwarder.Table} {op : Operation}
    (hop : LoadedOperation secrets item op) (hline : OneLine op.name) {fields : List PyStr}
    (happroval : Broker.Registry.approvalFields
      (Broker.Registry.getD item "approval_fields" (.arr [])) = .ok fields) (host : String)
    {ops : Dict OpMeta} (hfresh : ∀ o ∈ ops, py o.1 ≠ op.name) :
    ∃ m, addOperation (some host) ops (.obj item) = .ok (ops ++ [(Broker.Registry.string op.name, m)]) ∧
      m.rest = some ⟨verbText op.verb, Broker.Registry.string op.path, host, kindOf op.bodyKind⟩ := by
  have hid := idFullmatch_of_idName hop.idName hline
  have hnew : (ops.get (Broker.Registry.string op.name)).isSome = false := by
    rw [Dict.get, Option.isSome_map, Option.isSome_eq_false_iff, Option.isNone_iff_eq_none,
      List.find?_eq_none]
    intro o ho hsame
    exact hfresh o ho ((congrArg py (of_decide_eq_true hsame)).trans (py_string hid))
  have hrest : (some host).mapM (fun host => Broker.Registry.restFields host item) =
      .ok (some ⟨verbText op.verb, Broker.Registry.string op.path, host, kindOf op.bodyKind⟩) := by
    rw [Option.mapM_some, restFields_loaded hop]
    rfl
  simp only [addOperation, Broker.Registry.get, hop.name, Option.getD_some, hid, hnew,
    Bool.not_true, Bool.false_eq_true, if_false]
  exact ⟨_, bind_ok.2 ⟨_, hrest, bind_ok.2 ⟨fields, happroval, rfl⟩⟩, rfl⟩

/-- The broker's entry for an operation. -/
def Kept (host : String) (op : Operation) (o : String × OpMeta) : Prop :=
  o.1 = Broker.Registry.string op.name ∧ py o.1 = op.name ∧
    o.2.rest = some ⟨verbText op.verb, Broker.Registry.string op.path, host, kindOf op.bodyKind⟩

theorem addOperations_loaded {secrets : List SecretDecl} {items : List Json} {ops : List Operation}
    (host : String) (h : List.Forall₂ (fun item op => ∃ t, item = .obj t ∧ LoadedOperation secrets t op ∧
      OneLine op.name ∧ ∃ fields, Broker.Registry.approvalFields
        (Broker.Registry.getD t "approval_fields" (.arr [])) = .ok fields) items ops)
    (hnodup : (ops.map Operation.name).Nodup) (acc : Dict OpMeta)
    (hfresh : ∀ o ∈ acc, ∀ op ∈ ops, py o.1 ≠ op.name) :
    ∃ bops, items.foldlM (addOperation (some host)) acc = .ok (acc ++ bops) ∧
      List.Forall₂ (Kept host) ops bops := by
  induction h generalizing acc with
  | nil => exact ⟨[], by rw [List.append_nil]; rfl, .nil⟩
  | @cons item op items ops hitem hrest ih =>
    obtain ⟨t, rfl, hop, hline, fields, happroval⟩ := hitem
    obtain ⟨hnew, hnodup⟩ := List.nodup_cons.1 hnodup
    obtain ⟨m, hadd, hm⟩ := addOperation_loaded hop hline happroval host fun o ho =>
      hfresh o ho op (List.mem_cons_self ..)
    have hname := py_string (idFullmatch_of_idName hop.idName hline)
    obtain ⟨bops, hbops, hkept⟩ := ih hnodup (acc ++ [(Broker.Registry.string op.name, m)]) fun o ho op' hop' => by
      rcases List.mem_append.1 ho with hold | hlast
      · exact hfresh o hold op' (List.mem_cons_of_mem _ hop')
      · obtain rfl := List.mem_singleton.1 hlast
        rw [hname]
        exact fun hsame => hnew (hsame ▸ List.mem_map_of_mem hop')
    refine ⟨(Broker.Registry.string op.name, m) :: bops, ?_, .cons ⟨rfl, hname, hm⟩ hkept⟩
    rw [List.foldlM_cons]
    exact bind_ok.2 ⟨_, hadd, by rw [hbops, List.append_assoc, List.singleton_append]⟩

/-- A base URL the forwarder accepts. -/
structure BaseUrl (split : Url.SplitUrl) : Prop where
  scheme : split.scheme = py "http" ∨ split.scheme = py "https"
  hasHost : split.hasHost = true
  noUser : split.hasUser = false

theorem baseUrl_loaded (h : Loaded netlocOk data config) : ∃ c url split,
    Json.find? data (py "base_url") = some (.str (c :: url)) ∧
      Url.urlsplit netlocOk (c :: url) = some split ∧ BaseUrl split := by
  obtain ⟨url, hurl, hbase⟩ := h.baseUrl
  obtain ⟨hfind, hne⟩ := string_ok hurl
  obtain ⟨c, url, rfl⟩ := List.exists_cons_of_ne_nil hne
  unfold validateBaseUrl at hbase
  split at hbase
  · cases hbase
  · rename_i split hsplit
    simp only [guard_ok, Forwarder.err] at hbase
    obtain ⟨hscheme, hhost, huser, -⟩ := hbase
    refine ⟨c, url, split, hfind, hsplit, ?_, by simpa using hhost, by simpa using huser⟩
    by_contra hnot
    exact hscheme (not_or.1 hnot)

/-- What only the control plane asks of a manifest that the forwarder has loaded. -/
structure Admissible (netlocOk : PyStr → Bool) (data : Forwarder.Table) : Prop where
  id : ∀ id, Json.find? data (py "id") = some (.str id) → OneLine id
  host : ∀ url split, Json.find? data (py "base_url") = some (.str url) →
    Url.urlsplit netlocOk url = some split →
      (Broker.Registry.hostname split).all Broker.Registry.hostChar = true ∧
        (Broker.Registry.port split).isSome = true
  names : ∀ items item name, Json.find? data (py "operations") = some (.arr items) → .obj item ∈ items →
    Json.find? item (py "name") = some (.str name) → OneLine name
  approval : ∀ items item, Json.find? data (py "operations") = some (.arr items) → .obj item ∈ items →
    ∃ fields, Broker.Registry.approvalFields
      (Broker.Registry.getD item "approval_fields" (.arr [])) = .ok fields
  egress : ∃ hosts, Toolyard.egressHosts data = .ok hosts

theorem restBaseUrlHost_loaded (h : Loaded netlocOk data config) (ha : Admissible netlocOk data) :
    ∃ host, Broker.Registry.restBaseUrlHost netlocOk data = .ok host := by
  obtain ⟨c, url, split, hfind, hsplit, hbase⟩ := baseUrl_loaded h
  obtain ⟨hchars, hport⟩ := ha.host _ split hfind hsplit
  have hscheme : ¬((split.scheme ≠ py "http" ∧ split.scheme ≠ py "https") ∨ (!split.hasHost) = true) := by
    rw [hbase.hasHost]
    rcases hbase.scheme with hs | hs <;> simp [hs]
  obtain ⟨port, hport⟩ := Option.isSome_iff_exists.1 hport
  simp only [Broker.Registry.restBaseUrlHost, Broker.Registry.get, hfind, Option.getD_some, hsplit,
    if_neg hscheme, hbase.noUser, hchars, Bool.not_true, Bool.false_eq_true, if_false, hport]
  cases port with
  | none => exact ⟨_, rfl⟩
  | some n => exact ⟨_, rfl⟩

/-! ### The refresh operations -/

theorem isEmpty_of_forall₂ {α β : Type} {R : α → β → Prop} {xs : List α} {ys : List β}
    (h : List.Forall₂ R xs ys) : xs.isEmpty = ys.isEmpty := by
  cases h <;> rfl

theorem declaresSecret_loaded (h : Loaded netlocOk data config) :
    Broker.Registry.declaresSecret (Broker.Registry.get data "secrets") = !config.secrets.isEmpty := by
  obtain ⟨items, hraw, hitems⟩ := loadSecrets_loaded h.secrets
  rw [Broker.Registry.get, ← isEmpty_of_forall₂ hitems]
  cases hfind : Json.find? data (py "secrets") with
  | none =>
    rw [Forwarder.getD, hfind] at hraw
    obtain rfl := Json.arr.inj hraw
    rfl
  | some v =>
    rw [Forwarder.getD, hfind] at hraw
    obtain rfl : v = .arr items := hraw
    cases items with
    | nil => rfl
    | cons item items =>
      obtain ⟨d, secrets, ⟨t, rfl, hsecret⟩, -⟩ := List.forall₂_cons_left_iff.1 hitems
      have htruthy : (Broker.Registry.get t "name").truthy = true := by
        rw [Broker.Registry.get, hsecret.name]
        exact decide_eq_true hsecret.nonempty
      simp [Broker.Registry.declaresSecret, htruthy]

/-- The names the broker has beside those of the manifest. -/
def refreshNames (config : RestConfig) : List PyStr :=
  if config.secrets.isEmpty then [] else [py "refresh", py "refresh_one"]

theorem injectRefresh_loaded (h : Loaded netlocOk data config) {host : String} {bops : Dict OpMeta}
    (hkept : List.Forall₂ (Kept host) config.operations bops) :
    ∃ extra, Broker.Registry.injectRefresh (Broker.Registry.get data "secrets") bops = .ok (bops ++ extra) ∧
      extra.map (fun o => py o.1) = refreshNames config := by
  unfold Broker.Registry.injectRefresh
  rw [declaresSecret_loaded h, Bool.not_not, refreshNames]
  cases hsecrets : config.secrets.isEmpty with
  | true => exact ⟨[], by rw [List.append_nil]; rfl, rfl⟩
  | false =>
    have hfree : ∀ name : String, (∀ op ∈ config.operations, op.name ≠ py name) →
        ¬(bops.get name).isSome = true := by
      intro name hne hsome
      rw [Dict.get, Option.isSome_map, List.find?_isSome] at hsome
      obtain ⟨o, ho, hsame⟩ := hsome
      obtain ⟨op, hop, -, hname, -⟩ := Fallible.exists_of_mem_right hkept ho
      exact hne op hop (hname.symm.trans (congrArg py (of_decide_eq_true hsame)))
    have hreserved : ∀ op ∈ config.operations, op.name ≠ py "refresh" ∧ op.name ≠ py "refresh_one" := by
      intro op hop
      obtain ⟨items, -, hitems, -⟩ := loadOperations_loaded h.operations
      obtain ⟨item, -, t, -, hloaded⟩ := Fallible.exists_of_mem_right hitems hop
      exact hloaded.notReserved
    rw [if_neg Bool.false_ne_true, if_neg (not_or.2 ⟨hfree _ fun op hop => (hreserved op hop).1,
      hfree _ fun op hop => (hreserved op hop).2⟩)]
    exact ⟨_, rfl, rfl⟩

theorem find_of_getD {key : String} {v : Json} (h : Forwarder.getD data key .null = v) (hv : v ≠ .null) :
    Json.find? data (py key) = some v := by
  rw [Forwarder.getD] at h
  cases hfind : Json.find? data (py key) with
  | none =>
    rw [hfind] at h
    exact absurd h.symm hv
  | some u =>
    rw [hfind] at h
    exact congrArg some h

theorem toolId_loaded (h : Loaded netlocOk data config) :
    Json.find? data (py "id") = some (.str config.toolId) ∧ Forwarder.idName config.toolId = true := by
  have hid := h.toolId
  unfold loadToolId at hid
  split at hid
  · rename_i hget
    split_ifs at hid with hname
    · obtain rfl := Except.ok.inj hid
      exact ⟨find_of_getD hget Json.noConfusion, hname⟩
    · cases hid
  · cases hid

theorem type_loaded (h : Loaded netlocOk data config) :
    Json.find? data (py "type") = some (.str (py "rest")) := by
  have hrest := h.rest
  unfold declaresRest at hrest
  split at hrest
  · rename_i kind hkind
    rw [find_of_getD hkind Json.noConfusion, of_decide_eq_true hrest]
  · cases hrest

theorem port_loaded (h : Loaded netlocOk data config) {port : Int} (hport : config.port = some port) :
    ∃ entry, Forwarder.getD data "entrypoint" (.obj []) = .obj entry ∧
      Json.find? entry (py "port") = some (.int port) ∧ 1 ≤ port ∧ port ≤ 65535 := by
  obtain ⟨entry, hentry, hload⟩ := h.entry
  rw [hport] at hload
  unfold loadPort at hload
  split at hload
  · cases hload
  · rename_i n hget
    split_ifs at hload with hrange
    · obtain rfl := Option.some.inj (Except.ok.inj hload)
      exact ⟨entry, hentry, find_of_getD hget Json.noConfusion, hrange⟩
    · cases hload
  · cases hload

theorem addToml_loaded (H : Broker.Hash) (h : Loaded netlocOk data config) (ha : Admissible netlocOk data)
    {port : Int} (hport : config.port = some port) (path : String) (raw : Text) (catalog : Broker.Registry) :
    ∃ id e host bops extra, py id = config.toolId ∧
      Broker.Registry.addToml H netlocOk catalog ⟨path, raw, data⟩ = .ok (catalog.set id e) ∧
      e.type = .rest ∧ (e.port : Int) = port ∧ e.ops = bops ++ extra ∧
      List.Forall₂ (Kept host) config.operations bops ∧
      extra.map (fun o => py o.1) = refreshNames config := by
  obtain ⟨hid, hname⟩ := toolId_loaded h
  have hfull := idFullmatch_of_idName hname (ha.id _ hid)
  obtain ⟨entry, hentry, hport, hrange⟩ := port_loaded h hport
  obtain ⟨host, hhost⟩ := restBaseUrlHost_loaded h ha
  obtain ⟨items, hraw, hitems, hnodup⟩ := loadOperations_loaded h.operations
  have hadmitted : ∀ item ∈ items, ∀ t, item = .obj t →
      (∀ name, Json.find? t (py "name") = some (.str name) → OneLine name) ∧
        ∃ fields, Broker.Registry.approvalFields
          (Broker.Registry.getD t "approval_fields" (.arr [])) = .ok fields := by
    rintro item hitem t rfl
    cases hfind : Json.find? data (py "operations") with
    | none =>
      rw [Forwarder.getD, hfind] at hraw
      obtain rfl := Json.arr.inj hraw
      cases hitem
    | some v =>
      rw [Forwarder.getD, hfind] at hraw
      obtain rfl : v = .arr items := hraw
      exact ⟨fun name => ha.names items t name hfind hitem, ha.approval items t hfind hitem⟩
  obtain ⟨bops, hbops, hkept⟩ := addOperations_loaded host
    (((List.forall₂_and_left _ _).2 ⟨hadmitted, hitems⟩).imp fun item op ⟨hadm, t, hitem, hop⟩ =>
      ⟨t, hitem, hop, (hadm t hitem).1 _ hop.name, (hadm t hitem).2⟩) hnodup [] nofun
  obtain ⟨extra, hinject, hextra⟩ := injectRefresh_loaded h hkept
  refine ⟨Broker.Registry.string config.toolId,
    ⟨port.toNat, .rest, bops ++ extra, some (path, H.digest raw)⟩, host, bops, extra, py_string hfull, ?_,
    rfl, Int.toNat_of_nonneg (by omega), rfl, hkept, hextra⟩
  simp only [Broker.Registry.addToml, bind_ok, pure_ok]
  refine ⟨_, ?_, .rest, ?_, port.toNat, ?_, some host, ?_, items, ?_, bops, hbops, _, hinject, rfl⟩
  · rw [Broker.Registry.get, hid, Option.getD_some, Broker.Registry.toolId, if_pos hfull]
    rfl
  · rw [Broker.Registry.getD, type_loaded h]
    rfl
  · have hentry : Broker.Registry.getD data "entrypoint" (.obj []) = .obj entry := hentry
    rw [hentry, Broker.Registry.entryPort, Broker.Registry.get, hport, Option.getD_some]
    exact if_pos hrange
  · rw [Broker.Registry.restHost, if_pos rfl, hhost]
    rfl
  · have hraw : Broker.Registry.getD data "operations" (.arr []) = .arr items := hraw
    rw [hraw]
    rfl

/-! ## The toolyard -/

open Toolyard (validateRule validateRules writableNames)

theorem baseUrlProblem_loaded (h : Loaded netlocOk data config) :
    Toolyard.baseUrlProblem netlocOk data = .ok () := by
  obtain ⟨c, url, split, hfind, hsplit, hbase⟩ := baseUrl_loaded h
  have hscheme : ¬((split.scheme ≠ py "http" ∧ split.scheme ≠ py "https") ∨ (!split.hasHost) = true) := by
    rw [hbase.hasHost]
    rcases hbase.scheme with hs | hs <;> simp [hs]
  simp only [Toolyard.baseUrlProblem, Toolyard.get, hfind, Option.getD_some, hsplit, if_neg hscheme,
    hbase.noUser, Bool.false_eq_true, if_false]
  rfl

/-- The secrets that are writable for the forwarder are so for the toolyard. -/
theorem writableNames_loaded {items : List Json} {secrets : List SecretDecl}
    (h : List.Forall₂ ItemSecret items secrets) : ∃ names, writableNames items = .ok names ∧
      ∀ d ∈ secrets, d.writable = true → d.name ∈ names := by
  induction h with
  | nil => exact ⟨[], rfl, fun d hd => absurd hd List.not_mem_nil⟩
  | @cons item d items secrets hitem _ ih =>
    obtain ⟨t, rfl, hsecret⟩ := hitem
    obtain ⟨names, hnames, hall⟩ := ih
    have hname : Toolyard.get t "name" = .str d.name := by
      rw [Toolyard.get, hsecret.name]
      rfl
    have hwritable : Toolyard.getD t "writable" (.bool false) = .bool d.writable := hsecret.writable
    rw [writableNames, hnames, hname, hwritable]
    cases hd : d.writable with
    | true =>
      refine ⟨d.name :: names, rfl, fun d' hd' hw => ?_⟩
      rcases List.mem_cons.1 hd' with rfl | hrest
      · exact List.mem_cons_self ..
      · exact List.mem_cons_of_mem _ (hall d' hrest hw)
    | false =>
      refine ⟨names, rfl, fun d' hd' hw => ?_⟩
      rcases List.mem_cons.1 hd' with rfl | hrest
      · exact absurd (hd.symm.trans hw) Bool.false_ne_true
      · exact hall d' hrest hw

theorem truthy_of_ne_nil {s : PyStr} (h : s ≠ []) : (Json.str s).truthy = true := decide_eq_true h

theorem validateRule_loaded {field : String} {writable names : List PyStr} {raw : Json} {idx : Nat}
    {rule : Forwarder.SecretUpdateRule} (h : Forwarder.loadRule field writable raw idx = .ok rule)
    (hnames : ∀ n ∈ writable, n ∈ names) : validateRule names raw = .ok () := by
  unfold Forwarder.loadRule at h
  split at h
  · rename_i t
    simp only [bind_ok, guard_ok, Forwarder.err] at h
    obtain ⟨secret, hsecret, hmem, response, hresponse, h⟩ := h
    split at h
    · rename_i type htype
      simp only [bind_ok, pure_ok] at h
      obtain ⟨extract, hextract, status, hstatus, -⟩ := h
      have hsecretName : secret ∈ names := hnames _ (not_not.1 hmem)
      have hresponseType : response ∈ Toolyard.ruleResponseTypes := by
        obtain rfl : type.name = response := by simpa using List.find?_some htype
        cases type <;> decide
      simp only [validateRule, Toolyard.get, (string_ok hsecret).1, (string_ok hresponse).1,
        (string_ok hextract).1, (string_ok hstatus).1, Option.getD_some, Toolyard.isOneOf,
        hsecretName, hresponseType, decide_true, truthy_of_ne_nil (string_ok hextract).2,
        truthy_of_ne_nil (string_ok hstatus).2]
      rfl
    · cases h
  · cases h

theorem validateRules_loaded {secrets : List SecretDecl} {names : List PyStr} {item : Json} {op : Operation}
    (h : ItemOperation secrets item op) (hnames : ∀ d ∈ secrets, d.writable = true → d.name ∈ names) :
    validateRules names item = .ok () := by
  obtain ⟨t, rfl, hop⟩ := h
  obtain ⟨field, rules, hrules⟩ := hop.rules
  unfold Forwarder.loadRules at hrules
  split at hrules
  · rename_i items hraw
    have hraw : Toolyard.getD t "secret_update_rules" (.arr []) = .arr items := hraw
    rw [validateRules, hraw]
    refine bind_ok.2 ⟨items, rfl, Fallible.forM_ok fun raw hmem => ?_⟩
    have hloaded := Fallible.forall₂_zipIdx (R := fun raw rule => ∃ idx, Forwarder.loadRule field
      ((secrets.filter SecretDecl.writable).map SecretDecl.name) raw idx = .ok rule)
      (Fallible.mapM_ok (fun x _ hx => ⟨x.2, hx⟩) hrules)
    obtain ⟨rule, -, idx, hrule⟩ := Fallible.exists_of_mem_left hloaded hmem
    refine validateRule_loaded hrule fun n hn => ?_
    obtain ⟨d, hd, rfl⟩ := List.mem_map.1 hn
    obtain ⟨hd, hwritable⟩ := List.mem_filter.1 hd
    exact hnames d hd hwritable
  · cases hrules

theorem validateRest_loaded (h : Loaded netlocOk data config) :
    Toolyard.validateRest netlocOk data = .ok () := by
  obtain ⟨secrets, hsecrets, hsecretItems⟩ := loadSecrets_loaded h.secrets
  obtain ⟨items, hitems, hoperations, -⟩ := loadOperations_loaded h.operations
  obtain ⟨names, hnames, hwritable⟩ := writableNames_loaded hsecretItems
  have hsecrets : Toolyard.getD data "secrets" (.arr []) = .arr secrets := hsecrets
  have hitems : Toolyard.getD data "operations" (.arr []) = .arr items := hitems
  simp only [Toolyard.validateRest, baseUrlProblem_loaded h, hsecrets, hitems]
  refine bind_ok.2 ⟨(), rfl, bind_ok.2 ⟨names, hnames, bind_ok.2 ⟨items, rfl, ?_⟩⟩⟩
  refine Fallible.forM_ok fun item hitem => ?_
  obtain ⟨op, -, hop⟩ := Fallible.exists_of_mem_left hoperations hitem
  exact validateRules_loaded hop hwritable

theorem secretSpecs_loaded {items : List Json} {secrets : List SecretDecl}
    (h : List.Forall₂ ItemSecret items secrets) : ∃ specs, items.mapM Toolyard.secretSpec = .ok specs := by
  refine Fallible.exists_mapM fun item hitem => ?_
  obtain ⟨d, -, t, rfl, hsecret⟩ := Fallible.exists_of_mem_left h hitem
  simp only [Toolyard.secretSpec, Toolyard.subscript, hsecret.name, hsecret.field]
  exact ⟨_, rfl⟩

theorem load_loaded (digest : Text → Text) (h : Loaded netlocOk data config) (ha : Admissible netlocOk data)
    {port : Int} (hport : config.port = some port) (path : String) (raw : Text) :
    ∃ d, Toolyard.load digest netlocOk path raw data = .ok d ∧ d.id = config.toolId ∧
      d.type = .rest ∧ (d.port : Int) = port := by
  obtain ⟨hid, hname⟩ := toolId_loaded h
  obtain ⟨entry, hentry, hport, hrange⟩ := port_loaded h hport
  obtain ⟨items, hitems, hsecrets⟩ := loadSecrets_loaded h.secrets
  obtain ⟨specs, hspecs⟩ := secretSpecs_loaded hsecrets
  obtain ⟨hosts, hhosts⟩ := ha.egress
  have hentry : Toolyard.getD data "entrypoint" (.obj []) = .obj entry := hentry
  have hitems : Toolyard.getD data "secrets" (.arr []) = .arr items := hitems
  have htoolId : Toolyard.toolId (Toolyard.get data "id") = .ok config.toolId := by
    rw [Toolyard.get, hid, Option.getD_some, Toolyard.toolId, if_pos hname]
    rfl
  have htype : Toolyard.toolType (Toolyard.getD data "type" (.str (py "api"))) = .ok .rest := by
    rw [Toolyard.getD, type_loaded h]
    rfl
  have htoolPort : Toolyard.toolPort entry = .ok port.toNat := by
    rw [Toolyard.toolPort, Toolyard.get, hport, Option.getD_some]
    exact if_pos hrange
  have hsecretItems : Toolyard.items (.arr items) = .ok items := rfl
  have hload : ∃ d, Toolyard.load digest netlocOk path raw data = .ok d ∧ d.id = config.toolId ∧
      d.type = .rest ∧ d.port = port.toNat := by
    unfold Toolyard.load
    rw [htoolId, htype, hentry, hitems]
    dsimp only [bind, Except.bind]
    rw [htoolPort]
    dsimp only
    rw [if_pos rfl, validateRest_loaded h, hsecretItems]
    dsimp only
    rw [hspecs, hhosts]
    exact ⟨_, rfl, rfl, rfl, rfl⟩
  obtain ⟨d, hd, hdid, hdtype, hdport⟩ := hload
  exact ⟨d, hd, hdid, hdtype, by rw [hdport, Int.toNat_of_nonneg (by omega)]⟩

/-! ## All three -/

theorem names_of_kept {host : String} {ops : List Operation} {bops : Dict OpMeta}
    (h : List.Forall₂ (Kept host) ops bops) : bops.map (fun o => py o.1) = ops.map Operation.name := by
  induction h with
  | nil => rfl
  | cons hop _ ih => rw [List.map_cons, List.map_cons, ih, hop.2.1]

/-- What the forwarder loads with a port, and the control plane's own checks let through, toolyard
and broker load too: under the same tool id, with the same operations in the same order, to which
the broker adds its refresh operations where secrets are declared. -/
theorem loaders_agree (H : Broker.Hash) (digest : Text → Text) (netlocOk : PyStr → Bool)
    (path : String) (raw : Text) (data : Forwarder.Table) (config : RestConfig) (port : Int)
    (catalog : Broker.Registry) (hload : loadConfig netlocOk (.obj data) = .ok config)
    (hport : config.port = some port) (hadmissible : Admissible netlocOk data) :
    (∃ d, Toolyard.load digest netlocOk path raw data = .ok d ∧ d.id = config.toolId ∧
      d.type = .rest ∧ (d.port : Int) = port) ∧
    ∃ id e, py id = config.toolId ∧
      Broker.Registry.addToml H netlocOk catalog ⟨path, raw, data⟩ = .ok (catalog.set id e) ∧
      e.type = .rest ∧ (e.port : Int) = port ∧
      e.ops.map (fun o => py o.1) = config.operations.map Operation.name ++ refreshNames config := by
  have h := loaded hload
  refine ⟨load_loaded digest h hadmissible hport path raw, ?_⟩
  obtain ⟨id, e, host, bops, extra, hid, hadd, htype, heport, hops, hkept, hextra⟩ :=
    addToml_loaded H h hadmissible hport path raw catalog
  exact ⟨id, e, hid, hadd, htype, heport, by rw [hops, List.map_append, names_of_kept hkept, hextra]⟩

namespace Sample

/-- One operation, of a tool at the given URL. -/
def manifest (url : String) : Forwarder.Table :=
  [(py "id", .str (py "crm")), (py "type", .str (py "rest")), (py "base_url", .str (py url)),
    (py "entrypoint", .obj [(py "port", .int 8001)]),
    (py "operations", .arr [.obj [(py "name", .str (py "get")), (py "verb", .str (py "GET")),
      (py "path", .str (py "/customers"))]])]

end Sample

/-- The broker refuses a host with an underscore. -/
theorem loaders_differ_host : ∃ config,
    loadConfig (fun _ => true) (.obj (Sample.manifest "http://crm_host")) = .ok config ∧
      config.port = some 8001 ∧
      ¬∃ catalog, Broker.Registry.addToml Broker.Mcp.Sample.hash (fun _ => true) []
        ⟨"/tools/crm/toolyard.toml", [], Sample.manifest "http://crm_host"⟩ = .ok catalog := by
  refine ⟨_, rfl, rfl, ?_⟩
  rintro ⟨catalog, hcatalog⟩
  have hrefused : (Broker.Registry.addToml Broker.Mcp.Sample.hash (fun _ => true) []
      ⟨"/tools/crm/toolyard.toml", [], Sample.manifest "http://crm_host"⟩).isOk = false := rfl
  rw [hcatalog] at hrefused
  cases hrefused

theorem loaders_agree_plain : ∃ config id e,
    loadConfig (fun _ => true) (.obj (Sample.manifest "http://crm")) = .ok config ∧
      Broker.Registry.addToml Broker.Mcp.Sample.hash (fun _ => true) []
        ⟨"/tools/crm/toolyard.toml", [], Sample.manifest "http://crm"⟩ = .ok (Dict.set [] id e) ∧
      e.ops.map (fun o => py o.1) = [py "get"] := by
  have hitem : ∀ {items item}, Json.find? (Sample.manifest "http://crm") (py "operations") =
      some (.arr items) → .obj item ∈ items → item = [(py "name", .str (py "get")),
        (py "verb", .str (py "GET")), (py "path", .str (py "/customers"))] := by
    intro items item hitems hmem
    obtain rfl := Json.arr.inj (Option.some.inj hitems)
    exact Json.obj.inj (List.mem_singleton.1 hmem)
  have hadmissible : Admissible (fun _ => true) (Sample.manifest "http://crm") := by
    refine ⟨fun id hid => ?_, fun url split hurl hsplit => ?_, fun items item name hitems hmem hname => ?_,
      fun items item hitems hmem => ?_, [], rfl⟩
    · obtain rfl := Json.str.inj (Option.some.inj hid)
      decide
    · obtain rfl := Json.str.inj (Option.some.inj hurl)
      obtain rfl := Option.some.inj hsplit
      decide +kernel
    · obtain rfl := hitem hitems hmem
      obtain rfl := Json.str.inj (Option.some.inj hname)
      decide
    · obtain rfl := hitem hitems hmem
      exact ⟨[], rfl⟩
  obtain ⟨-, id, e, -, hadd, -, -, hnames⟩ := loaders_agree Broker.Mcp.Sample.hash id (fun _ => true)
    "/tools/crm/toolyard.toml" [] (Sample.manifest "http://crm") _ 8001 [] rfl rfl hadmissible
  exact ⟨_, id, e, rfl, hadd, hnames⟩

end Toolstack.Loaders
