import Toolstack.Admin.ManifestText

/-! A checked draft, its text and what the editor reads in the text: the draft again, where no
string of it has a character that a manifest cannot hold, and otherwise nothing. -/

namespace Toolstack.Admin.ToolAuthoring

open Url
open Toml (allowed lf)

/-! ## Operations of a REST tool -/

structure RestFields.Normal (r : RestFields) : Prop where
  path : Stripped r.path
  allowedHeaders : ∀ h ∈ r.allowedHeaders, Stripped h ∧ h ≠ []
  bodyKind : Stripped r.bodyKind ∧ r.bodyKind ≠ []
  bodyContentType : Stripped r.bodyContentType
  secretUpdateRules : ∀ rule ∈ r.secretUpdateRules, rule.Normal

/-- What the checks leave of the raw values. -/
structure RestFields.Checked (r : RestFields) : Prop where
  verb : r.verb ∈ restVerbs
  headers : ∃ kvs, r.headers = .obj (textTable kvs) ∧ (kvs.map Prod.fst).Nodup
  allowedSecrets : ∃ names : List PyStr, r.allowedSecrets = .arr (names.map .str)
  bodyTemplate : r.bodyTemplate = .null ∨ ∃ t, r.bodyTemplate = .str t
  bodySubstitution : r.bodySubstitution = .bool false
  redactResponseBody : r.redactResponseBody = .null ∨ ∃ b, r.redactResponseBody = .bool b
  redactResponseHeaders : r.redactResponseHeaders = .null ∨ ∃ b, r.redactResponseHeaders = .bool b

def RestFields.strings (r : RestFields) : List PyStr :=
  r.allowedHeaders ++ [r.bodyKind] ++ [r.bodyContentType] ++ texts r.headers ++ texts r.allowedSecrets ++
    texts r.bodyTemplate ++ texts r.bodySubstitution ++ texts r.redactResponseBody ++
    texts r.redactResponseHeaders ++ r.secretUpdateRules.flatMap Rule.strings

def restTail (r : RestFields) : Fields :=
  [("allowed_headers", listIf .str r.allowedHeaders), ("body_kind", some (.str r.bodyKind)),
    ("body_content_type", textIf r.bodyContentType), ("headers", given r.headers),
    ("allowed_secrets", given r.allowedSecrets), ("body_template", present r.bodyTemplate),
    ("body_substitution", given r.bodySubstitution), ("redact_response_body", present r.redactResponseBody),
    ("redact_response_headers", present r.redactResponseHeaders),
    ("secret_update_rules", listIf (fun rule => .obj (tableOf (ruleFields rule))) r.secretUpdateRules)]

theorem writes_restLines (B : Builtins) {r : RestFields} (h : r.Checked) :
    ∃ ls, restLines B r = some ls ∧ Writes ls (restTail r) r.strings := by
  obtain ⟨kvs, hheaders, hnodup⟩ := h.headers
  obtain ⟨names, hnames⟩ := h.allowedSecrets
  obtain ⟨headerLs, hheaderLs, hheaderWrites⟩ := writes_headers B hnodup
  obtain ⟨secretLs, hsecretLs, hsecretWrites⟩ := writes_allowedSecrets B names
  rw [← hheaders] at hheaderLs hheaderWrites
  rw [← hnames] at hsecretLs hsecretWrites
  have hallowed : Writes (optional (r.allowedHeaders ≠ []) (pair "allowed_headers" (array (r.allowedHeaders.map quote))))
      [("allowed_headers", listIf .str r.allowedHeaders)] r.allowedHeaders := by
    refine Writes.optional (by decide) (fun _ => denotes_quotes r.allowedHeaders) fun hnil => ?_
    rw [not_not.1 hnil]
    rfl
  have hsubstitution : Writes (optional r.bodySubstitution.truthy (py "body_substitution = true"))
      [("body_substitution", given r.bodySubstitution)] (texts r.bodySubstitution) := by
    rw [h.bodySubstitution]
    exact Writes.absent "body_substitution"
  have hrules : Writes (optional (r.secretUpdateRules ≠ [])
      (pair "secret_update_rules" (array (r.secretUpdateRules.map ruleInline))))
      [("secret_update_rules", listIf (fun rule => .obj (tableOf (ruleFields rule))) r.secretUpdateRules)]
      (r.secretUpdateRules.flatMap Rule.strings) := by
    refine Writes.optional (by decide) (fun _ => ?_) fun hnil => ?_
    · exact denotes_tables writes_rule (fun _ => List.cons_ne_nil _ _) ruleFields_nodup r.secretUpdateRules
    · rw [not_not.1 hnil]
      rfl
  refine ⟨_, ?_, (((((((((hallowed.append (writes_text r.bodyKind (by decide))).append
    (writes_textIf r.bodyContentType (by decide))).append hheaderWrites).append hsecretWrites).append
    (writes_bodyTemplate B h.bodyTemplate)).append hsubstitution).append
    (writes_flag (by decide) h.redactResponseBody)).append
    (writes_flag (by decide) h.redactResponseHeaders)).append hrules)⟩
  rw [restLines, hheaderLs, hsecretLs]
  rfl

/-! ## Operations -/

structure Operation.Normal (rest : Bool) (o : Operation) : Prop where
  name : Stripped o.name ∧ o.name ≠ []
  description : Stripped o.description
  plain : rest = false → o.rest = none ∧ (Stripped o.risk ∧ o.risk ≠ []) ∧ ∀ a ∈ o.args, a.Normal
  rest : rest = true → ∃ r, o.rest = some r ∧ r.Normal ∧ o.risk = restVerbRisk r.verb ∧
    o.args = restEnvelopeArgs r.path r.allowedHeaders r.envelopeKind

theorem Operation.Normal.isSome {rest : Bool} {o : Operation} (h : o.Normal rest) : o.rest.isSome = rest := by
  cases rest with
  | false => rw [(h.plain rfl).1, Option.isSome_none]
  | true =>
    obtain ⟨r, hr, -⟩ := h.rest rfl
    rw [hr, Option.isSome_some]

structure Operation.Checked (o : Operation) : Prop where
  approvalFields : ∀ raw, o.approvalFields = some raw →
    ∃ fields : List PyStr, raw = .arr (fields.map .str) ∧ validateFields raw = some fields
  rest : ∀ r, o.rest = some r → r.Checked

def Operation.strings (o : Operation) : List PyStr :=
  match o.rest with
  | none =>
    [o.name] ++ o.approvalFields.elim [] texts ++ [o.risk] ++ [o.description] ++ o.args.flatMap Arg.strings
  | some r =>
    [o.name] ++ o.approvalFields.elim [] texts ++ [r.verb] ++ [r.path] ++ [o.risk] ++ [o.description] ++
      o.args.flatMap Arg.strings ++ r.strings

def operationFields (o : Operation) : Fields :=
  match o.rest with
  | none => [("name", some (.str o.name)), ("approval_fields", o.approvalFields), ("risk", some (.str o.risk)),
      ("description", textIf o.description), ("args", listIf (fun a => .obj (tableOf (argFields a))) o.args)]
  | some r => [("name", some (.str o.name)), ("approval_fields", o.approvalFields), ("verb", some (.str r.verb)),
      ("path", some (.str r.path)), ("risk", some (.str o.risk)), ("description", textIf o.description),
      ("args", listIf (fun a => .obj (tableOf (argFields a))) o.args)] ++ restTail r

theorem writes_approval {o : Operation} (h : o.Checked) : ∃ ls, approvalLines o.approvalFields = some ls ∧
    Writes ls [("approval_fields", o.approvalFields)] (o.approvalFields.elim [] texts) := by
  cases hraw : o.approvalFields with
  | none => exact ⟨[], rfl, Writes.absent "approval_fields"⟩
  | some raw =>
    obtain ⟨fields, rfl, hvalid⟩ := h.approvalFields raw hraw
    refine ⟨[pair "approval_fields" (py "[" ++ commaList (fields.map quote) ++ py "]")], ?_, ?_⟩
    · rw [approvalLines, hvalid]
      rfl
    · rw [Option.elim_some, texts_arr]
      exact Writes.one (by decide) (denotes_tight fields)

theorem writes_args (args : List Arg) : Writes (optional (args ≠ []) (pair "args" (array (args.map argInline))))
    [("args", listIf (fun a => .obj (tableOf (argFields a))) args)] (args.flatMap Arg.strings) := by
  refine Writes.optional (by decide) (fun _ => ?_) fun hnil => ?_
  · exact denotes_tables writes_arg (fun _ => List.cons_ne_nil _ _) argFields_nodup args
  · rw [not_not.1 hnil]
    rfl

theorem writes_operation (B : Builtins) {o : Operation} (h : o.Checked) :
    ∃ ls, operationLines B o.rest.isSome o = some (Toml.elementLines (py "operations") ls) ∧
      Writes ls (operationFields o) o.strings := by
  obtain ⟨approval, happroval, hwrites⟩ := writes_approval h
  have hopen : py "[[operations]]" = py "[[" ++ (py "operations" ++ py "]]") := by decide
  have hname : Writes [pair "name" (quote o.name)] [("name", some (.str o.name))] [o.name] :=
    writes_text o.name (by decide)
  have hrisk : Writes [pair "risk" (quote o.risk)] [("risk", some (.str o.risk))] [o.risk] :=
    writes_text o.risk (by decide)
  have hdescription : Writes (optional (o.description ≠ []) (pair "description" (quote o.description)))
      [("description", textIf o.description)] [o.description] := writes_textIf o.description (by decide)
  unfold operationLines operationFields Operation.strings
  cases hrest : o.rest with
  | none =>
    refine ⟨_, ?_, (((hname.append hwrites).append hrisk).append hdescription).append (writes_args o.args)⟩
    simp [happroval, hopen, Toml.elementLines]
  | some r =>
    obtain ⟨ls, hls, hlsWrites⟩ := writes_restLines B (h.rest r hrest)
    have hverb : Writes [pair "verb" (quote r.verb)] [("verb", some (.str r.verb))] [r.verb] :=
      writes_text r.verb (by decide)
    have hpath : Writes [pair "path" (quote r.path)] [("path", some (.str r.path))] [r.path] :=
      writes_text r.path (by decide)
    refine ⟨_, ?_, ((((((hname.append hwrites).append hverb).append hpath).append hrisk).append hdescription).append
      (writes_args o.args)).append hlsWrites⟩
    simp [happroval, hls, hopen, Toml.elementLines]

/-! ## Operations read back -/

def restKeys : List String :=
  ["name", "approval_fields", "verb", "path", "risk", "description", "args", "allowed_headers", "body_kind",
    "body_content_type", "headers", "allowed_secrets", "body_template", "body_substitution",
    "redact_response_body", "redact_response_headers", "secret_update_rules"]

def plainKeys : List String := ["name", "approval_fields", "risk", "description", "args"]

theorem operationFields_nodup (o : Operation) : ((operationFields o).map Prod.fst).Nodup := by
  unfold operationFields
  cases o.rest with
  | none =>
    show plainKeys.Nodup
    decide
  | some r =>
    show restKeys.Nodup
    decide

section Back
variable (B : Builtins)

theorem getD_given {v default : Json} (h : v.truthy = false → v = default) : (given v).getD default = v := by
  unfold given
  split_ifs with hv
  · rfl
  · exact (h (Bool.not_eq_true _ ▸ hv)).symm

theorem getD_present (v : Json) : (present v).getD .null = v := by
  cases v <;> rfl

theorem verb_read {verb : PyStr} (h : verb ∈ restVerbs) :
    strip verb = verb ∧ verb.flatMap Forwarder.upper = verb ∧ verb ≠ [] := by
  have hall : restVerbs.all (fun v => strip v = v ∧ v.flatMap Forwarder.upper = v ∧ v ≠ []) = true := by decide
  exact of_decide_eq_true (List.all_eq_true.1 hall verb h)

theorem headers_read {names : List PyStr} (h : ∀ n ∈ names, Stripped n ∧ n ≠ []) :
    ∃ vs, items ((listIf .str names).getD .null) = some vs ∧ (vs.map (s B)).filter (· ≠ []) = names := by
  have hread : (((names.map Json.str).map (s B)).filter (· ≠ [])) = names := by
    have hmap : (names.map Json.str).map (s B) = names := by
      rw [List.map_map]
      exact (List.map_congr_left fun n hn => (h n hn).1).trans (List.map_id names)
    rw [hmap, List.filter_eq_self]
    exact fun n hn => decide_eq_true (h n hn).2
  unfold listIf
  split_ifs with hne
  · exact ⟨_, items_arr _, hread⟩
  · obtain rfl := not_not.1 hne
    exact ⟨[], rfl, rfl⟩

theorem normRest_table {o : Operation} {r : RestFields} (hr : o.rest = some r) (h : r.Normal) (hc : r.Checked) :
    normRest B (tableOf (operationFields o)) = some r := by
  have hkeys := operationFields_nodup o
  obtain ⟨approval, name, risk, description, args, rest⟩ := o
  obtain rfl : rest = some r := hr
  obtain ⟨hstrip, hupper, hne⟩ := verb_read hc.verb
  obtain ⟨kvs, hkvs, -⟩ := hc.headers
  obtain ⟨names, hnames⟩ := hc.allowedSecrets
  obtain ⟨vs, hvs, hread⟩ := headers_read B h.allowedHeaders
  generalize ht : tableOf (operationFields ⟨approval, name, risk, description, args, some r⟩) = t
  have hverb : (s B (get t "verb")).flatMap Forwarder.upper = r.verb := by
    rw [← ht, get_tableOf hkeys 2 rfl rfl]
    exact (congrArg _ hstrip).trans hupper
  have hpath : s B (get t "path") = r.path := by
    rw [← ht, get_tableOf hkeys 3 rfl rfl]
    exact h.path
  have hallowed : items (get t "allowed_headers") = some vs := by
    rw [← ht, get_tableOf hkeys 7 rfl rfl]
    exact hvs
  have hkind : ∀ default, sOr B (get t "body_kind") default = r.bodyKind := by
    intro default
    rw [← ht, get_tableOf hkeys 8 rfl rfl]
    exact sOr_str B h.bodyKind default
  have htype : s B (get t "body_content_type") = r.bodyContentType := by
    rw [← ht, get_tableOf hkeys 9 rfl rfl]
    exact s_textIf B h.bodyContentType
  have hheaders : getD t "headers" (.obj []) = r.headers := by
    rw [← ht]
    refine getD_tableOf hkeys 10 rfl (getD_given fun hfalse => ?_)
    rw [hkvs] at hfalse ⊢
    cases kvs with
    | nil => rfl
    | cons => cases hfalse
  have hsecrets : getD t "allowed_secrets" (.arr []) = r.allowedSecrets := by
    rw [← ht]
    refine getD_tableOf hkeys 11 rfl (getD_given fun hfalse => ?_)
    rw [hnames] at hfalse ⊢
    cases names with
    | nil => rfl
    | cons => cases hfalse
  have htemplate : get t "body_template" = r.bodyTemplate := by
    rw [← ht]
    exact get_tableOf hkeys 12 rfl (getD_present _)
  have hsubstitution : getD t "body_substitution" (.bool false) = r.bodySubstitution := by
    rw [← ht]
    exact getD_tableOf hkeys 13 rfl (getD_given fun _ => hc.bodySubstitution)
  have hbody : get t "redact_response_body" = r.redactResponseBody := by
    rw [← ht]
    exact get_tableOf hkeys 14 rfl (getD_present _)
  have hresponse : get t "redact_response_headers" = r.redactResponseHeaders := by
    rw [← ht]
    exact get_tableOf hkeys 15 rfl (getD_present _)
  have hrules : rows (normRule B) (get t "secret_update_rules") = some r.secretUpdateRules := by
    rw [← ht, get_tableOf hkeys 16 rfl rfl]
    exact rows_listed fun rule hrule => normRule_table B (h.secretUpdateRules rule hrule)
  simp only [normRest, hverb, if_neg hne, hkind, hallowed, hrules, Option.bind_eq_bind, Option.bind_some, hpath,
    htype, hheaders, hsecrets, htemplate, hsubstitution, hbody, hresponse, hread]
  rfl

theorem normOperation_table {o : Operation} (h : o.Normal o.rest.isSome) (hc : o.Checked) :
    normOperation B o.rest.isSome (tableOf (operationFields o)) = some (some o) := by
  have hkeys := operationFields_nodup o
  have hname : s B (get (tableOf (operationFields o)) "name") = o.name := by
    have hget : get (tableOf (operationFields o)) "name" = .str o.name := by
      refine get_tableOf (v := some (.str o.name)) hkeys 0 ?_ rfl
      unfold operationFields
      cases o.rest <;> rfl
    rw [hget]
    exact h.name.1
  have happroval : Json.find? (tableOf (operationFields o)) (py "approval_fields") = o.approvalFields := by
    refine find?_tableOf hkeys 1 ?_
    unfold operationFields
    cases o.rest <;> rfl
  cases hrest : o.rest with
  | none =>
    rw [hrest] at h
    obtain ⟨-, hrisk, hargs⟩ := h.plain rfl
    have hgetRisk : sOr B (get (tableOf (operationFields o)) "risk") "read" = o.risk := by
      have hget : get (tableOf (operationFields o)) "risk" = .str o.risk := by
        refine get_tableOf (v := some (.str o.risk)) hkeys 2 ?_ rfl
        rw [operationFields, hrest]
        rfl
      rw [hget]
      exact sOr_str B hrisk "read"
    have hgetDescription : s B (get (tableOf (operationFields o)) "description") = o.description := by
      have hget : get (tableOf (operationFields o)) "description" = (textIf o.description).getD .null := by
        refine get_tableOf hkeys 3 ?_ rfl
        rw [operationFields, hrest]
        rfl
      rw [hget]
      exact s_textIf B h.description
    have hgetArgs : rows (normArg B) (get (tableOf (operationFields o)) "args") = some o.args := by
      have hget : get (tableOf (operationFields o)) "args" =
          (listIf (fun a => .obj (tableOf (argFields a))) o.args).getD .null := by
        refine get_tableOf hkeys 4 ?_ rfl
        rw [operationFields, hrest]
        rfl
      rw [hget]
      exact rows_listed fun a ha => normArg_table B (hargs a ha)
    simp only [normOperation, hname, if_neg h.name.2, Option.isSome_none, hgetArgs, hgetRisk, hgetDescription,
      happroval, Option.bind_eq_bind, Option.bind_some]
    rw [← hrest]
    rfl
  | some r =>
    rw [hrest] at h
    obtain ⟨r', hr', hr, hrisk, hargs⟩ := h.rest rfl
    obtain rfl : r = r' := Option.some.inj (hrest.symm.trans hr')
    have hgetDescription : s B (get (tableOf (operationFields o)) "description") = o.description := by
      have hget : get (tableOf (operationFields o)) "description" = (textIf o.description).getD .null := by
        refine get_tableOf hkeys 5 ?_ rfl
        rw [operationFields, hrest]
        rfl
      rw [hget]
      exact s_textIf B h.description
    simp only [normOperation, hname, if_neg h.name.2, Option.isSome_some,
      normRest_table B hrest hr (hc.rest r hrest), hgetDescription, happroval, Option.bind_eq_bind, Option.bind_some]
    rw [← hrisk, ← hargs, ← hrest]
    rfl

end Back

/-! ## Drafts -/

structure Draft.Normal (d : Draft) : Prop where
  id : Stripped d.id
  type : Stripped d.type ∧ d.type ≠ []
  description : Stripped d.description
  baseUrl : Stripped d.baseUrl
  command : Stripped d.command ∧ (d.type = py "rest" → d.command ≠ [])
  image : Stripped d.image
  operations : ∀ o ∈ d.operations, o.Normal (d.type = py "rest")
  secrets : ∀ sec ∈ d.secrets, sec.Normal

structure Draft.Checked (d : Draft) : Prop where
  port : ∃ n : Nat, d.port = some (n : Int)
  operations : ∀ o ∈ d.operations, o.Checked

def Draft.strings (d : Draft) : List PyStr :=
  [d.id] ++ [d.type] ++ [d.description] ++ [d.baseUrl] ++ ([d.command] ++ [d.image]) ++
    d.operations.flatMap Operation.strings ++ d.secrets.flatMap Secret.strings

def rootFields (d : Draft) : Fields :=
  [("id", some (.str d.id)), ("type", some (.str d.type)), ("description", textIf d.description),
    ("base_url", if d.type = py "rest" then some (.str d.baseUrl) else none)]

def entryFields (d : Draft) : Fields :=
  [("command", textIf d.command), ("image", textIf d.image), ("port", d.port.map .int)]

def draftFields (d : Draft) : Fields :=
  rootFields d ++ [("entrypoint", some (.obj (tableOf (entryFields d)))),
    ("operations", listIf (fun o => .obj (tableOf (operationFields o))) d.operations),
    ("secrets", listIf (fun sec => .obj (tableOf (secretFields sec))) d.secrets)]

theorem draftFields_nodup (d : Draft) : ((draftFields d).map Prod.fst).Nodup := by
  show ["id", "type", "description", "base_url", "entrypoint", "operations", "secrets"].Nodup
  decide

theorem denotes_port (n : Nat) : Denotes (portText (some n)) (.int n) [] := by
  exact ⟨Toml.reads_nat n, forbidden_eq_nil (List.all_eq_true.2 fun c hc =>
    (Toml.allowed_of_bareChar (Toml.bareChar_repr n c hc)).1)⟩

theorem writes_root {d : Draft} (hurl : d.type ≠ py "rest" → d.baseUrl = []) :
    Writes ([pair "id" (quote d.id)] ++ [pair "type" (quote d.type)] ++
      optional (d.description ≠ []) (pair "description" (quote d.description)) ++
      optional (d.type = py "rest") (pair "base_url" (quote d.baseUrl))) (rootFields d)
      ([d.id] ++ [d.type] ++ [d.description] ++ [d.baseUrl]) := by
  have hbase : Writes (optional (d.type = py "rest") (pair "base_url" (quote d.baseUrl)))
      [("base_url", if d.type = py "rest" then some (.str d.baseUrl) else none)] [d.baseUrl] := by
    refine Writes.optional (by decide) (fun _ => denotes_quote d.baseUrl) fun hrest => ?_
    rw [hurl hrest]
    rfl
  exact (((writes_text d.id (by decide)).append (writes_text d.type (by decide))).append
    (writes_textIf d.description (by decide))).append hbase

theorem writes_entry {d : Draft} (hc : d.Checked) :
    Writes (optional (d.command ≠ []) (pair "command" (quote d.command)) ++
      optional (d.image ≠ []) (pair "image" (quote d.image)) ++ [pair "port" (portText d.port)]) (entryFields d)
      ([d.command] ++ [d.image]) := by
  obtain ⟨n, hn⟩ := hc.port
  have hport : Writes [pair "port" (portText d.port)] [("port", d.port.map .int)] [] := by
    rw [hn]
    exact Writes.one (by decide) (denotes_port n)
  have hcommand : Writes (optional (d.command ≠ []) (pair "command" (quote d.command)))
      [("command", textIf d.command)] [d.command] := writes_textIf d.command (by decide)
  have himage : Writes (optional (d.image ≠ []) (pair "image" (quote d.image)))
      [("image", textIf d.image)] [d.image] := writes_textIf d.image (by decide)
  exact (hcommand.append himage).append hport

theorem mapM_writes {α : Type} {name : PyStr} {f : α → Option (List PyStr)} {fields : α → Fields}
    {strings : α → List PyStr} {xs : List α}
    (h : ∀ x ∈ xs, ∃ ls, f x = some (Toml.elementLines name ls) ∧ Writes ls (fields x) (strings x)) :
    ∃ blocks, xs.mapM f = some (blocks.map (Toml.elementLines name)) ∧
      List.Forall₂ (fun ls x => Writes ls (fields x) (strings x)) blocks xs := by
  induction xs with
  | nil => exact ⟨[], rfl, .nil⟩
  | cons x xs ih =>
    obtain ⟨ls, hls, hwrites⟩ := h x (List.mem_cons_self ..)
    obtain ⟨blocks, hblocks, hall⟩ := ih fun y hy => h y (List.mem_cons_of_mem _ hy)
    refine ⟨ls :: blocks, ?_, .cons hwrites hall⟩
    rw [List.mapM_cons, hls, hblocks]
    rfl

/-- The elements of an array of tables, as they are written and read. -/
theorem layout_rows {α : Type} {name : String} {fields : α → Fields} {strings : α → List PyStr} (hkey : BareKey name)
    {blocks : List (List PyStr)} {xs : List α}
    (h : List.Forall₂ (fun ls x => Writes ls (fields x) (strings x)) blocks xs)
    (hnodup : ∀ x, ((fields x).map Prod.fst).Nodup) {st : Toml.State} (hname : py name ∉ st.root.map Prod.fst)
    (hnew : py name ∉ st.arrays) :
    ∃ st', Toml.Layout st (blocks.flatMap (Toml.elementLines (py name))) st' ∧
      st'.root = st.root ++ tableOf [(name, listIf (fun x => .obj (tableOf (fields x))) xs)] ∧
      (∀ other, other ≠ py name → other ∉ st.arrays → other ∉ st'.arrays) ∧
      (blocks.flatMap (Toml.elementLines (py name))).flatMap forbidden = (xs.flatMap strings).flatMap unwritable := by
  have htables : List.Forall₂ (List.Forall₂ Toml.Member) blocks (xs.map fun x => tableOf (fields x)) := by
    rw [List.forall₂_map_right_iff]
    exact h.imp fun _ _ hwrites => hwrites.members
  have hnodups : ∀ t ∈ xs.map (fun x => tableOf (fields x)), (t.map Prod.fst).Nodup := by
    intro t ht
    obtain ⟨x, -, rfl⟩ := List.mem_map.1 ht
    exact nodup_tableOf (hnodup x)
  obtain ⟨st', hlayout, hroot, harrays⟩ :=
    Toml.layout_elements hkey.1 (List.all_eq_true.1 hkey.2.1) hname hnew htables hnodups
  refine ⟨st', hlayout, ?_, harrays, ?_⟩
  · rw [hroot]
    cases xs with
    | nil => rfl
    | cons x xs =>
      rw [List.map_map]
      rfl
  · have hmarks : forbidden (py "[[") = [] ∧ forbidden (py "]]") = [] := by decide
    have hopen : forbidden (py "[[" ++ (py name ++ py "]]")) = [] := by
      rw [forbidden_append, forbidden_append, hmarks.1, hmarks.2, forbidden_eq_nil hkey.2.2]
      rfl
    clear htables hnodups hlayout hroot
    induction h with
    | nil => rfl
    | @cons ls x blocks xs hwrites _ ih =>
      rw [List.flatMap_cons, List.flatMap_cons, List.flatMap_append, List.flatMap_append, ih, Toml.elementLines,
        List.flatMap_cons, List.flatMap_cons, hopen, hwrites.shows]
      rfl

/-- The pairs of a secret. -/
def secretRow (sec : Secret) : List PyStr :=
  [pair "name" (quote sec.name), pair "field" (quote sec.field)] ++
    optional (sec.item ≠ []) (pair "item" (quote sec.item)) ++ optional sec.writable (py "writable = true")

theorem secretLines_eq (sec : Secret) : secretLines sec = Toml.elementLines (py "secrets") (secretRow sec) := by
  have hopen : py "[[secrets]]" = py "[[" ++ (py "secrets" ++ py "]]") := by decide
  rw [secretLines, secretRow, Toml.elementLines, hopen]
  rfl

/-- The text of a checked draft: how it is laid out, the table it stands for, and its forbidden
characters. -/
theorem draft_lines (B : Builtins) {d : Draft} (h : d.Normal) (hc : d.Checked)
    (hurl : d.type ≠ py "rest" → d.baseUrl = []) :
    ∃ ls st, lines B d = some ls ∧ Toml.Layout {} ls st ∧ st.root = tableOf (draftFields d) ∧
      ls.flatMap forbidden = d.strings.flatMap unwritable := by
  have hopen : py "[entrypoint]" = py "[" ++ (py "entrypoint" ++ py "]") := by decide
  have hroot := writes_root hurl
  have hentry := writes_entry hc
  have hrootNodup : ((tableOf (rootFields d)).map Prod.fst).Nodup := by
    refine nodup_tableOf ?_
    show ["id", "type", "description", "base_url"].Nodup
    decide
  have hentryNodup : ((tableOf (entryFields d)).map Prod.fst).Nodup := by
    refine nodup_tableOf ?_
    show ["command", "image", "port"].Nodup
    decide
  have hfresh : ∀ key, key ∉ ["id", "type", "description", "base_url"] →
      py key ∉ (tableOf (rootFields d)).map Prod.fst := by
    intro key hkey hmem
    have hkeys := (keys_tableOf (rootFields d)).subset hmem
    obtain ⟨f, hf, hfkey⟩ := List.mem_map.1 hkeys
    obtain rfl := py_injective hfkey
    exact hkey (List.mem_map_of_mem hf)
  -- the root pairs, then the table of the entry point
  have hfillRoot := (Toml.hole_root []).layout hroot.members [] hrootNodup
  have hbare : ∀ c ∈ py "entrypoint", Toml.bareChar c = true := List.all_eq_true.1 (by decide)
  have hnew : py "entrypoint" ∉ (Toml.State.mk (tableOf (rootFields d)) [] .root).root.map Prod.fst :=
    hfresh "entrypoint" (by decide)
  have hentryLayout := Toml.layout_table (by decide) hbare hnew hentry.members hentryNodup
  -- the operations and the secrets
  have hopLines : ∀ o ∈ d.operations, ∃ ls, operationLines B (d.type = py "rest") o =
      some (Toml.elementLines (py "operations") ls) ∧ Writes ls (operationFields o) o.strings := by
    intro o ho
    have hwrites := writes_operation B (hc.operations o ho)
    rwa [(h.operations o ho).isSome] at hwrites
  obtain ⟨opBlocks, hopBlocks, hops⟩ := mapM_writes hopLines
  have hentered : ∀ key : String, key ∉ ["id", "type", "description", "base_url", "entrypoint"] →
      py key ∉ (tableOf (rootFields d) ++ [(py "entrypoint", Json.obj (tableOf (entryFields d)))]).map Prod.fst := by
    intro key hkey hmem
    rw [List.map_append, List.mem_append] at hmem
    rcases hmem with hmem | hmem
    · exact hfresh key (fun hold => hkey (List.mem_append_left ["entrypoint"] hold)) hmem
    · rw [py_injective (List.mem_singleton.1 hmem)] at hkey
      exact hkey (by decide)
  have hopFresh : py "operations" ∉ (Toml.State.mk (tableOf (rootFields d) ++ [(py "entrypoint",
      Json.obj (tableOf (entryFields d)))]) [] (.table (py "entrypoint"))).root.map Prod.fst :=
    hentered "operations" (by decide)
  obtain ⟨st, hopLayout, hopRoot, hopArrays, hopShows⟩ := layout_rows (show BareKey "operations" by decide) hops
    operationFields_nodup hopFresh (fun hmem => nomatch hmem)
  have hsecretRows : List.Forall₂ (fun ls sec => Writes ls (secretFields sec) sec.strings)
      (d.secrets.map secretRow) d.secrets := by
    rw [List.forall₂_map_left_iff, List.forall₂_same]
    exact fun sec _ => writes_secret sec
  have hsecretFresh : py "secrets" ∉ st.root.map Prod.fst := by
    rw [hopRoot, List.map_append, List.mem_append]
    rintro (hmem | hmem)
    · exact hentered "secrets" (by decide) hmem
    · have hkeys := (keys_tableOf [("operations", listIf (fun o => Json.obj (tableOf (operationFields o)))
        d.operations)]).subset hmem
      have hne : "secrets" ≠ "operations" := by decide
      exact hne (py_injective (List.mem_singleton.1 hkeys))
  obtain ⟨st', hsecretLayout, hsecretRoot, -, hsecretShows⟩ := layout_rows (show BareKey "secrets" by decide)
    hsecretRows secretFields_nodup hsecretFresh (hopArrays _ (by decide) (fun hmem => nomatch hmem))
  have hlines : lines B d = some (headLines d ++ (opBlocks.map (Toml.elementLines (py "operations"))).flatten ++
      d.secrets.flatMap secretLines) := by
    rw [lines, hopBlocks]
    rfl
  have hsecretLines : d.secrets.flatMap secretLines =
      (d.secrets.map secretRow).flatMap (Toml.elementLines (py "secrets")) := by
    rw [List.flatMap_map]
    exact List.flatMap_congr fun sec _ => secretLines_eq sec
  have hhead : Toml.Layout {} (headLines d) ⟨tableOf (rootFields d) ++ [(py "entrypoint",
      .obj (tableOf (entryFields d)))], [], .table (py "entrypoint")⟩ := by
    have hlayout := hfillRoot.append hentryLayout
    rw [headLines, hopen]
    simpa using hlayout
  refine ⟨_, st', hlines, ?_, ?_, ?_⟩
  · rw [hsecretLines, ← List.flatMap_def]
    exact (hhead.append hopLayout).append hsecretLayout
  · rw [hsecretRoot, hopRoot]
    have hsplit : draftFields d = rootFields d ++ [("entrypoint", some (.obj (tableOf (entryFields d))))] ++
      [("operations", listIf (fun o => .obj (tableOf (operationFields o))) d.operations)] ++
      [("secrets", listIf (fun sec => .obj (tableOf (secretFields sec))) d.secrets)] := rfl
    rw [hsplit, tableOf_append, tableOf_append, tableOf_append]
    rfl
  · have hheadShows : (headLines d).flatMap forbidden = ([d.id] ++ [d.type] ++ [d.description] ++ [d.baseUrl] ++
        ([d.command] ++ [d.image])).flatMap unwritable := by
      have hopenShows : forbidden (py "[entrypoint]") = [] := by decide
      rw [List.flatMap_append, ← hroot.shows, ← hentry.shows, headLines]
      simp only [List.flatMap_append, List.flatMap_cons, List.flatMap_nil, hopenShows, forbidden_nil,
        List.append_nil, List.nil_append, List.append_assoc]
    rw [hsecretLines, ← List.flatMap_def, List.flatMap_append, List.flatMap_append, hheadShows, hopShows,
      hsecretShows, Draft.strings, ← List.flatMap_append, ← List.flatMap_append]

/-! ## Drafts read back -/

theorem rows_missing {α : Type} {row : List (PyStr × Json) → Option (Option α)} {fields : α → Fields} {xs : List α}
    (h : ∀ x ∈ xs, row (tableOf (fields x)) = some (some x)) :
    rows row ((listIf (fun x => .obj (tableOf (fields x))) xs).getD (.arr [])) = some xs := by
  unfold listIf
  split_ifs with hne
  · exact rows_tables h
  · rw [not_not.1 hne]
    rfl

/-- The editor's dictionary of a draft. -/
def editedFields (d : Draft) : Fields :=
  [("id", some (.str d.id)), ("type", some (.str d.type)), ("description", some (.str d.description)),
    ("base_url", some (.str d.baseUrl)), ("command", some (.str d.command)), ("image", some (.str d.image)),
    ("port", some ((d.port.map .int).getD .null)),
    ("operations", some ((listIf (fun o => .obj (tableOf (operationFields o))) d.operations).getD (.arr []))),
    ("secrets", some ((listIf (fun sec => .obj (tableOf (secretFields sec))) d.secrets).getD (.arr [])))]

theorem editorData_table {d : Draft} (hurl : d.type ≠ py "rest" → d.baseUrl = []) :
    editorData (tableOf (draftFields d)) = some (tableOf (editedFields d)) := by
  have hkeys := draftFields_nodup d
  have hentryKeys : ((entryFields d).map Prod.fst).Nodup := by
    show ["command", "image", "port"].Nodup
    decide
  have hbase : (if d.type = py "rest" then some (Json.str d.baseUrl) else none).getD (.str []) = .str d.baseUrl := by
    split_ifs with hrest
    · rfl
    · rw [hurl hrest]
      rfl
  have hentry : getD (tableOf (draftFields d)) "entrypoint" (.obj []) = .obj (tableOf (entryFields d)) :=
    getD_tableOf hkeys 4 rfl rfl
  have hid : getD (tableOf (draftFields d)) "id" (.str []) = .str d.id := getD_tableOf hkeys 0 rfl rfl
  have htype : getD (tableOf (draftFields d)) "type" (.str (py "api")) = .str d.type :=
    getD_tableOf hkeys 1 rfl rfl
  have hdescription := getD_tableOf hkeys 2 rfl (textIf_getD d.description (.str []) fun _ => rfl)
  have hurl' := getD_tableOf hkeys 3 rfl hbase
  have hoperations : getD (tableOf (draftFields d)) "operations" (.arr []) = _ := getD_tableOf hkeys 5 rfl rfl
  have hsecrets : getD (tableOf (draftFields d)) "secrets" (.arr []) = _ := getD_tableOf hkeys 6 rfl rfl
  have hcommand := getD_tableOf hentryKeys 0 rfl (textIf_getD d.command (.str []) fun _ => rfl)
  have himage := getD_tableOf hentryKeys 1 rfl (textIf_getD d.image (.str []) fun _ => rfl)
  have hport := get_tableOf hentryKeys 2 rfl rfl
  simp only [editorData, hentry, hid, htype, hdescription, hurl', hoperations, hsecrets, hcommand, himage, hport]
  rfl

theorem normalize_table (B : Builtins) {d : Draft} (h : d.Normal) (hc : d.Checked) :
    normalize B (tableOf (editedFields d)) = some d := by
  have hkeys : ((editedFields d).map Prod.fst).Nodup := by
    show ["id", "type", "description", "base_url", "command", "image", "port", "operations", "secrets"].Nodup
    decide
  obtain ⟨n, hn⟩ := hc.port
  generalize ht : tableOf (editedFields d) = t
  have htype : sOr B (get t "type") "api" = d.type := by
    rw [← ht, get_tableOf hkeys 1 rfl rfl]
    exact sOr_str B h.type "api"
  have hoperations : rows (normOperation B (d.type = py "rest")) (get t "operations") = some d.operations := by
    rw [← ht, get_tableOf hkeys 7 rfl rfl]
    refine rows_missing fun o ho => ?_
    have hsome := (h.operations o ho).isSome
    rw [← hsome]
    exact normOperation_table B (hsome ▸ h.operations o ho) (hc.operations o ho)
  have hsecrets : rows (normSecret B) (get t "secrets") = some d.secrets := by
    rw [← ht, get_tableOf hkeys 8 rfl rfl]
    exact rows_missing fun sec hsec => normSecret_table B (h.secrets sec hsec)
  have hport : int B (get t "port") = some d.port := by
    rw [← ht, get_tableOf hkeys 6 rfl rfl, hn]
    rfl
  have hcommand : s B (get t "command") = d.command := by
    rw [← ht, get_tableOf hkeys 4 rfl rfl]
    exact h.command.1
  have hdefault : (if d.type = py "rest" ∧ d.command = [] then forwarderCommand else d.command) = d.command :=
    if_neg fun hempty => h.command.2 hempty.1 hempty.2
  have hid : s B (get t "id") = d.id := by
    rw [← ht, get_tableOf hkeys 0 rfl rfl]
    exact h.id
  have hdescription : s B (get t "description") = d.description := by
    rw [← ht, get_tableOf hkeys 2 rfl rfl]
    exact h.description
  have hurl : s B (get t "base_url") = d.baseUrl := by
    rw [← ht, get_tableOf hkeys 3 rfl rfl]
    exact h.baseUrl
  have himage : s B (get t "image") = d.image := by
    rw [← ht, get_tableOf hkeys 5 rfl rfl]
    exact h.image
  simp only [normalize, htype, hoperations, hsecrets, hport, hcommand, hdefault, hid, hdescription, hurl, himage,
    Option.bind_eq_bind, Option.bind_some]
  rfl

/-! ## What `normalize` and `validate` leave -/

theorem normRest_normal {B : Builtins} {o : List (PyStr × Json)} {r : RestFields} (h : normRest B o = some r) :
    r.Normal := by
  unfold normRest at h
  obtain ⟨headers, -, h⟩ := Option.bind_eq_some_iff.1 h
  obtain ⟨rules, hrules, h⟩ := Option.bind_eq_some_iff.1 h
  obtain rfl := Option.some.inj h
  refine ⟨s_stripped B _, fun name hname => ?_, ?_, s_stripped B _, fun rule hrule => ?_⟩
  · obtain ⟨hmem, hne⟩ := List.mem_filter.1 hname
    obtain ⟨v, -, rfl⟩ := List.mem_map.1 hmem
    exact ⟨s_stripped B v, of_decide_eq_true hne⟩
  · refine sOr_stripped B ?_ _
    split_ifs <;> decide
  · obtain ⟨kvs, hkvs⟩ := rows_spec hrules rule hrule
    exact normRule_normal B hkvs

theorem normOperation_normal {B : Builtins} {rest : Bool} {kvs : List (PyStr × Json)} {o : Operation}
    (h : normOperation B rest kvs = some (some o)) : o.Normal rest := by
  unfold normOperation at h
  split_ifs at h with hname hrest
  · cases Option.some.inj h
  · obtain ⟨r, hr, h⟩ := Option.bind_eq_some_iff.1 h
    obtain rfl := Option.some.inj (Option.some.inj h)
    exact ⟨⟨s_stripped B _, hname⟩, s_stripped B _, fun hfalse => absurd (hrest.symm.trans hfalse) (by decide),
      fun _ => ⟨r, rfl, normRest_normal hr, rfl, rfl⟩⟩
  · obtain ⟨args, hargs, h⟩ := Option.bind_eq_some_iff.1 h
    obtain rfl := Option.some.inj (Option.some.inj h)
    refine ⟨⟨s_stripped B _, hname⟩, s_stripped B _, fun _ => ⟨rfl, sOr_stripped B (by decide) _, fun a ha => ?_⟩,
      fun htrue => absurd htrue hrest⟩
    obtain ⟨kvs, hkvs⟩ := rows_spec hargs a ha
    exact normArg_normal B hkvs

theorem normalize_normal {B : Builtins} {data : List (PyStr × Json)} {d : Draft} (h : normalize B data = some d) :
    d.Normal := by
  unfold normalize at h
  obtain ⟨operations, hoperations, h⟩ := Option.bind_eq_some_iff.1 h
  obtain ⟨secrets, hsecrets, h⟩ := Option.bind_eq_some_iff.1 h
  obtain ⟨port, -, h⟩ := Option.bind_eq_some_iff.1 h
  obtain rfl := Option.some.inj h
  refine ⟨s_stripped B _, sOr_stripped B (by decide) _, s_stripped B _, s_stripped B _, ?_, s_stripped B _,
    fun o ho => ?_, fun sec hsec => ?_⟩
  · have hforwarder : Stripped forwarderCommand ∧ forwarderCommand ≠ [] := by decide
    show Stripped (if _ then _ else _) ∧ (_ → (if _ then _ else _) ≠ [])
    split_ifs with hdefault
    · exact ⟨hforwarder.1, fun _ => hforwarder.2⟩
    · exact ⟨s_stripped B _, fun hrest hnil => hdefault ⟨hrest, hnil⟩⟩
  · obtain ⟨kvs, hkvs⟩ := rows_spec hoperations o ho
    exact normOperation_normal hkvs
  · obtain ⟨kvs, hkvs⟩ := rows_spec hsecrets sec hsec
    exact normSecret_normal B hkvs

theorem strings?_some {raw : Json} {names : List PyStr} (h : Forwarder.strings? raw = some names) :
    raw = .arr (names.map .str) := by
  cases raw with
  | arr xs =>
    have hall := Fallible.mapM_some.1 h
    refine congrArg Json.arr ?_
    induction hall with
    | nil => rfl
    | @cons x name xs names hx _ ih =>
      cases x with
      | str v =>
        obtain rfl := Option.some.inj hx
        rw [List.map_cons, ih (Fallible.mapM_some.2 (by assumption))]
      | _ => cases hx
  | _ => cases h

theorem problem_eq_nil {bad : Bool} {message : PyStr} : problem bad message = [] ↔ bad = false := by
  cases bad <;> simp [problem]

/-- The names of an operator's header templates are distinct, even without case, and the values are
texts. -/
theorem headerTemplates_ok {raw : Toml.Table} {seen : List PyStr} {headers : List (PyStr × PyStr)}
    (h : Forwarder.headerTemplates seen raw = .ok headers) :
    raw = textTable headers ∧ (headers.map Prod.fst).Nodup ∧ ∀ h ∈ headers, h.1.map lower ∉ seen := by
  induction raw generalizing seen headers with
  | nil =>
    obtain rfl := Except.ok.inj h
    exact ⟨rfl, List.nodup_nil, fun _ hmem => nomatch hmem⟩
  | cons kv raw ih =>
    obtain ⟨name, value⟩ := kv
    unfold Forwarder.headerTemplates at h
    obtain ⟨hname, h⟩ := Fallible.guard_ok.1 h
    rw [not_or] at hname
    cases value with
    | str value =>
      obtain ⟨-, h⟩ := Fallible.guard_ok.1 h
      obtain ⟨rest, hrest, h⟩ := Fallible.bind_ok.1 h
      obtain rfl := Fallible.pure_ok.1 h
      obtain ⟨hraw, hnodup, hnew⟩ := ih hrest
      refine ⟨by rw [hraw]; rfl, ?_, ?_⟩
      · rw [List.map_cons, List.nodup_cons]
        refine ⟨fun hmem => ?_, hnodup⟩
        obtain ⟨header, hheader, hsame⟩ := List.mem_map.1 hmem
        exact hnew header hheader (by rw [hsame]; exact List.mem_cons_self ..)
      · rintro header hheader
        rcases List.mem_cons.1 hheader with rfl | hheader
        · exact hname.2
        · exact fun hmem => hnew header hheader (List.mem_cons_of_mem _ hmem)
    | _ => cases h

theorem placement_checked {declared : List PyStr} {r : RestFields} (h : placementErrors declared r = []) :
    (∃ kvs, r.headers = .obj (textTable kvs) ∧ (kvs.map Prod.fst).Nodup) ∧
    (∃ names : List PyStr, r.allowedSecrets = .arr (names.map .str)) ∧
    (r.bodyTemplate = .null ∨ ∃ t, r.bodyTemplate = .str t) := by
  obtain ⟨headers, hplaced⟩ : ∃ placed, Forwarder.validateSecretPlacement r.table declared
      (if r.bodyKind = py "text" then .text else .none) = .ok placed := by
    unfold placementErrors at h
    split at h
    · cases h
    · exact ⟨_, by assumption⟩
  have hsecrets : Forwarder.getD r.table "allowed_secrets" (.arr []) = r.allowedSecrets := rfl
  have hheaders : Forwarder.getD r.table "headers" (.obj []) = r.headers := rfl
  have htemplate : Json.find? r.table (py "body_template") = some r.bodyTemplate := rfl
  unfold Forwarder.validateSecretPlacement at hplaced
  rw [hsecrets, hheaders, htemplate] at hplaced
  split at hplaced
  · rename_i allowed hallowed
    split at hplaced
    · rename_i raw hraw
      obtain ⟨templates, htemplates, hplaced⟩ := Fallible.bind_ok.1 hplaced
      obtain ⟨hpairs, hnodup, -⟩ := headerTemplates_ok htemplates
      refine ⟨⟨templates, by rw [hraw, hpairs], hnodup⟩, ⟨allowed, ?_⟩, ?_⟩
      · exact strings?_some (Option.filter_eq_some_iff.1 hallowed).1
      · split at hplaced
        · rename_i heq
          cases heq
        · rename_i heq
          exact .inl (Option.some.inj heq)
        · rename_i t heq _
          exact .inr ⟨t, Option.some.inj heq⟩
        · cases hplaced
    · cases hplaced
  · cases hplaced

theorem flag_checked {name : PyStr} {rules : List Rule} {flag : String} {v : Json}
    (h : flagErrors name rules flag v = []) : v = .null ∨ ∃ b, v = .bool b := by
  unfold flagErrors at h
  split at h
  · exact .inr ⟨_, rfl⟩
  · split_ifs at h
    rw [problem_eq_nil] at h
    cases v with
    | null => exact .inl rfl
    | _ => cases h

theorem rest_checked {name : PyStr} {secrets : List Secret} {o : Operation} {r : RestFields} (hr : o.rest = some r)
    (hfields : restFieldErrors name r = []) (h : writebackErrors secrets o = []) : r.Checked := by
  unfold writebackErrors at h
  rw [hr] at h
  simp only [List.append_eq_nil_iff] at h hfields
  unfold restFieldErrors at hfields
  simp only [List.append_eq_nil_iff, problem_eq_nil, decide_eq_false_iff_not, not_not] at hfields
  obtain ⟨⟨⟨⟨hsubstitution, hplacement⟩, hbody⟩, hheaders⟩, -⟩ := h
  obtain ⟨hkvs, hnames, htemplate⟩ := placement_checked hplacement
  refine ⟨hfields.1.1.1, hkvs, hnames, htemplate, ?_, flag_checked hbody, flag_checked hheaders⟩
  rw [problem_eq_nil] at hsubstitution
  cases hvalue : r.bodySubstitution with
  | bool b =>
    rw [hvalue] at hsubstitution
    cases b with
    | false => rfl
    | true => cases hsubstitution
  | _ =>
    rw [hvalue] at hsubstitution
    cases hsubstitution

theorem approval_checked {raw : Json} (h : (validateFields raw).isNone = false) :
    ∃ fields : List PyStr, raw = .arr (fields.map .str) ∧ validateFields raw = some fields := by
  cases hfields : validateFields raw with
  | none =>
    rw [hfields] at h
    cases h
  | some fields =>
    obtain ⟨names, hnames, hvalid⟩ := Option.bind_eq_some_iff.1 hfields
    have hsame : names = fields := by
      unfold Broker.ApprovalSummary.validateFields at hvalid
      split_ifs at hvalid
      exact Option.some.inj hvalid
    exact ⟨fields, hsame ▸ strings?_some hnames, rfl⟩

theorem operationsErrors_nil {rest : Bool} {ops : List Operation} : ∀ {seen : List PyStr},
    operationsErrors rest seen ops = [] → ∀ o ∈ ops, ∃ seen, operationErrors rest seen o = [] := by
  induction ops with
  | nil => exact fun _ _ hmem => nomatch hmem
  | cons o ops ih =>
    intro seen h o' ho'
    rw [operationsErrors, List.append_eq_nil_iff] at h
    rcases List.mem_cons.1 ho' with rfl | ho'
    · exact ⟨seen, h.1⟩
    · exact ih h.2 o' ho'

theorem validate_parts {netlocOk : PyStr → Bool} {d : Draft} {confirm : Bool}
    (h : validate netlocOk d confirm = some []) :
    d.port.any (fun n => decide (1 ≤ n) && decide (n ≤ 65535)) = true ∧
    operationsErrors (d.type = py "rest") [] d.operations = [] ∧
    (d.type = py "rest" → ∀ o ∈ d.operations, writebackErrors d.secrets o = []) := by
  unfold validate at h
  by_cases hrest : d.type = py "rest"
  · simp only [hrest, decide_true, if_true, Option.bind_eq_bind] at h
    obtain ⟨url, -, h⟩ := Option.bind_eq_some_iff.1 h
    have h := Option.some.inj h
    simp only [List.append_eq_nil_iff, problem_eq_nil, Bool.not_eq_false', List.flatMap_eq_nil_iff] at h
    obtain ⟨⟨⟨⟨⟨-, hport⟩, -⟩, hops⟩, -⟩, hwriteback⟩ := h
    rw [hrest, decide_eq_true rfl]
    exact ⟨hport, hops, fun _ => hwriteback⟩
  · simp only [hrest, decide_false, Bool.false_eq_true, if_false, Option.bind_eq_bind, Option.bind_some] at h
    have h := Option.some.inj h
    simp only [List.append_eq_nil_iff, problem_eq_nil, Bool.not_eq_false'] at h
    obtain ⟨⟨⟨⟨⟨-, hport⟩, -⟩, hops⟩, -⟩, -⟩ := h
    rw [decide_eq_false hrest]
    exact ⟨hport, hops, fun htrue => absurd htrue hrest⟩

theorem validate_checked {netlocOk : PyStr → Bool} {d : Draft} {confirm : Bool} (hn : d.Normal)
    (h : validate netlocOk d confirm = some []) : d.Checked := by
  obtain ⟨hport, hops, hwriteback⟩ := validate_parts h
  constructor
  · cases hvalue : d.port with
    | none =>
      rw [hvalue] at hport
      cases hport
    | some n =>
      rw [hvalue, Option.any_some, Bool.and_eq_true, decide_eq_true_eq] at hport
      exact ⟨n.toNat, by rw [Int.toNat_of_nonneg (by omega)]⟩
  · intro o ho
    obtain ⟨seen, herrors⟩ := operationsErrors_nil hops o ho
    unfold operationErrors at herrors
    simp only [List.append_eq_nil_iff, problem_eq_nil] at herrors
    obtain ⟨⟨⟨⟨⟨happroval, -⟩, -⟩, -⟩, hfields⟩, -⟩ := herrors
    constructor
    · intro raw hraw
      rw [hraw, Option.any_some] at happroval
      exact approval_checked happroval
    · intro r hr
      by_cases hrest : d.type = py "rest"
      · rw [hr] at hfields
        simp only [hrest, decide_true, if_true] at hfields
        exact rest_checked hr hfields (hwriteback hrest o ho)
      · have hplain := ((hn.operations o ho).plain (decide_eq_false hrest)).1
        rw [hr] at hplain
        cases hplain

/-! ## The round trip -/

theorem toToml_unlines {B : Builtins} {d : Draft} {ls : List PyStr} (h : lines B d = some ls) (hne : ls ≠ []) :
    toToml B d = some (Toml.unlines ls) := by
  have hlf : py "\n" = [lf] := by decide
  obtain ⟨l, ls, rfl⟩ := List.exists_cons_of_ne_nil hne
  rw [toToml, h, Option.map_some, Toml.intercalate_cons, hlf, Toml.unlines]
  congr 1
  clear h hne
  induction ls generalizing l with
  | nil => simp
  | cons next ls ih => simpa using ih next

/-- The text is a document that the editor reads as the same draft, and writes as the same text. -/
def RoundTrips (B : Builtins) (d : Draft) : Prop :=
  ∃ text, toToml B d = some text ∧ (Toml.loads text).isSome = true ∧ read B Toml.loads text = some d ∧
    (read B Toml.loads text).bind (toToml B) = some text

theorem mem_unwritable {c : CodePoint} {strings : List PyStr} :
    c ∈ strings.flatMap unwritable ↔ writable c = false ∧ ∃ v ∈ strings, c ∈ v := by
  simp only [List.mem_flatMap, unwritable, List.mem_filter, Bool.not_eq_true']
  constructor
  · rintro ⟨v, hv, hc, hbad⟩
    exact ⟨hbad, v, hv, hc⟩
  · rintro ⟨hbad, v, hv, hc⟩
    exact ⟨v, hv, hc, hbad⟩

theorem mem_forbidden {c : CodePoint} {ls : List PyStr} :
    c ∈ ls.flatMap forbidden ↔ allowed c = false ∧ ∃ l ∈ ls, c ∈ l := by
  simp only [List.mem_flatMap, forbidden, List.mem_filter, Bool.not_eq_true']
  constructor
  · rintro ⟨l, hl, hc, hbad⟩
    exact ⟨hbad, l, hl, hc⟩
  · rintro ⟨hbad, l, hl, hc⟩
    exact ⟨l, hl, hc, hbad⟩

section RoundTrip
variable {B : Builtins} {netlocOk : PyStr → Bool} {data : List (PyStr × Json)} {d : Draft} {confirm : Bool}

/-- One character that no manifest can hold, and the text is not a document. -/
theorem not_roundTrips (h : normalize B data = some d) (hv : validate netlocOk d confirm = some [])
    (hurl : d.type ≠ py "rest" → d.baseUrl = []) {v : PyStr} {c : CodePoint} (hmem : v ∈ d.strings) (hc : c ∈ v)
    (hbad : writable c = false) : ¬ RoundTrips B d := by
  have hn := normalize_normal h
  obtain ⟨ls, st, hlines, -, -, hshows⟩ := draft_lines B hn (validate_checked hn hv) hurl
  have hforbidden : c ∈ ls.flatMap forbidden := by
    rw [hshows, mem_unwritable]
    exact ⟨hbad, v, hmem, hc⟩
  obtain ⟨hdisallowed, l, hl, hcl⟩ := mem_forbidden.1 hforbidden
  have hcr : c ≠ ch '\r' := by
    rintro rfl
    exact absurd hbad (by decide)
  rintro ⟨text, htext, hloads, -⟩
  rw [toToml_unlines hlines (List.ne_nil_of_mem hl)] at htext
  obtain rfl := Option.some.inj htext
  have hin : c ∈ Toml.unlines ls := List.mem_flatMap.2 ⟨l, hl, List.mem_append_left _ hcl⟩
  rw [Toml.loads_forbidden hin hcr hdisallowed] at hloads
  cases hloads

/-- A checked draft comes back from its manifest, text for text, exactly where no string of it has a
control character other than tab, line feed and carriage return, or a surrogate. -/
theorem manifest_round_trip (h : normalize B data = some d) (hv : validate netlocOk d confirm = some [])
    (hurl : d.type ≠ py "rest" → d.baseUrl = []) :
    RoundTrips B d ↔ ∀ v ∈ d.strings, ∀ c ∈ v, writable c = true := by
  have hn := normalize_normal h
  have hc := validate_checked hn hv
  constructor
  · intro hround v hmem c hcv
    by_contra hbad
    exact not_roundTrips h hv hurl hmem hcv (Bool.not_eq_true _ ▸ hbad) hround
  · intro hwritable
    obtain ⟨ls, st, hlines, hlayout, hroot, hshows⟩ := draft_lines B hn hc hurl
    have hallowed : ∀ l ∈ ls, ∀ c ∈ l, allowed c = true := by
      intro l hl c hcl
      by_contra hbad
      have hmem : c ∈ ls.flatMap forbidden := mem_forbidden.2 ⟨Bool.not_eq_true _ ▸ hbad, l, hl, hcl⟩
      rw [hshows, mem_unwritable] at hmem
      obtain ⟨hno, v, hv', hcv⟩ := hmem
      rw [hwritable v hv' c hcv] at hno
      cases hno
    have hne : ls ≠ [] := by
      rintro rfl
      cases hlayout
      have hid : Json.find? (tableOf (draftFields d)) (py "id") = some (.str d.id) :=
        find?_tableOf (draftFields_nodup d) 0 rfl
      rw [← hroot] at hid
      cases hid
    have htext := toToml_unlines hlines hne
    have hloads := hlayout.loads hallowed
    have hread : read B Toml.loads (Toml.unlines ls) = some d := by
      rw [read, hloads, Option.bind_eq_bind, Option.bind_some, hroot, editorData_table hurl]
      exact normalize_table B hn hc
    refine ⟨_, htext, by rw [hloads]; rfl, hread, ?_⟩
    rw [hread, Option.bind_some, htext]

end RoundTrip

/-- The editor's data of a tool with one operation. -/
def sampleData (description : PyStr) : List (PyStr × Json) :=
  [(py "id", .str (py "clock")), (py "description", .str description), (py "command", .str (py "python3 app.py")),
    (py "port", .int 8080), (py "operations", .arr [.obj [(py "name", .str (py "now"))]])]

def sampleDraft (description : PyStr) : Draft where
  id := py "clock"
  type := py "api"
  description := description
  baseUrl := []
  command := py "python3 app.py"
  image := []
  port := some 8080
  operations := [⟨none, py "now", py "read", [], [], none⟩]
  secrets := []

/-- Builtins that a manifest of texts and numbers never asks. -/
def unasked : Builtins := ⟨fun _ => [], fun _ => some none⟩

theorem manifest_round_trip_sample : RoundTrips unasked (sampleDraft (py "It is \"late\"\n\\o/")) ↔
    ∀ v ∈ (sampleDraft (py "It is \"late\"\n\\o/")).strings, ∀ c ∈ v, writable c = true := by
  have hnormalize : normalize unasked (sampleData (py "It is \"late\"\n\\o/")) =
      some (sampleDraft (py "It is \"late\"\n\\o/")) := rfl
  have hvalid : validate (fun _ => true) (sampleDraft (py "It is \"late\"\n\\o/")) false = some [] := by decide
  exact manifest_round_trip hnormalize hvalid fun _ => rfl

/-- A description of one control character. -/
theorem manifest_round_trip_control_character : ¬ ∀ (B : Builtins) (netlocOk : PyStr → Bool)
    (data : List (PyStr × Json)) (d : Draft) (confirm : Bool), normalize B data = some d →
      validate netlocOk d confirm = some [] → (d.type ≠ py "rest" → d.baseUrl = []) → RoundTrips B d := by
  intro hall
  have hnormalize : normalize unasked (sampleData [byte 1]) = some (sampleDraft [byte 1]) := rfl
  have hvalid : validate (fun _ => true) (sampleDraft [byte 1]) false = some [] := by decide
  have hbad : writable (byte 1) = false := by decide
  have hmem : [byte 1] ∈ (sampleDraft [byte 1]).strings := by decide
  exact not_roundTrips hnormalize hvalid (fun _ => rfl) hmem (List.mem_singleton_self _) hbad
    (hall unasked (fun _ => true) _ _ false hnormalize hvalid fun _ => rfl)

end Toolstack.Admin.ToolAuthoring
