import Mathlib.Data.List.DropRight
import Toolstack.Admin.ToolAuthoring
import Toolstack.Fallible
import Toolstack.Toml.Layout

/-! What the text of a manifest says: each part of it is read back as the table of that part, and
the only characters in it that no document may have are those of the draft's strings. -/

namespace Toolstack.Admin.ToolAuthoring

open Url
open Toml (Body Reads Member allowed quoteMark backslash lf)

/-! ## Characters -/

/-- What a string of a manifest may have: no control character but tab, line feed and carriage
return, and no surrogate. -/
def writable (c : CodePoint) : Bool := allowed c || c = ch '\r'

def unwritable (v : PyStr) : PyStr := v.filter fun c => !writable c

def forbidden (text : PyStr) : PyStr := text.filter fun c => !allowed c

@[simp] theorem forbidden_nil : forbidden [] = [] := rfl

@[simp] theorem forbidden_append (x y : PyStr) : forbidden (x ++ y) = forbidden x ++ forbidden y :=
  List.filter_append ..

theorem forbidden_eq_nil {text : PyStr} (h : text.all allowed = true) : forbidden text = [] := by
  rw [forbidden, List.filter_eq_nil_iff]
  intro c hc
  rw [List.all_eq_true.1 h c hc]
  exact Bool.false_ne_true

theorem forbidden_escape (c : CodePoint) : forbidden (escape c) = unwritable [c] := by
  unfold escape
  split_ifs with hbackslash hquote hlf hcr htab
  · rw [hbackslash]
    decide
  · rw [hquote]
    decide
  · rw [hlf]
    decide
  · rw [hcr]
    decide
  · rw [htab]
    decide
  · have hwritable : writable c = allowed c := by simp [writable, hcr]
    simp only [forbidden, unwritable, List.filter_cons, List.filter_nil, hwritable]

theorem forbidden_escaped (v : PyStr) : forbidden (v.flatMap escape) = unwritable v := by
  induction v with
  | nil => rfl
  | cons c v ih =>
    have hsplit : unwritable (c :: v) = unwritable [c] ++ unwritable v := List.filter_append [c] v
    rw [List.flatMap_cons, forbidden_append, ih, forbidden_escape, hsplit]

@[simp] theorem forbidden_quote (v : PyStr) : forbidden (quote v) = unwritable v := by
  have hmark : forbidden (py "\"") = [] := by decide
  rw [quote, forbidden_append, forbidden_append, forbidden_escaped, hmark, List.nil_append, List.append_nil]

/-! ## Strings -/

theorem Body.escape {body v : PyStr} (h : Body body v) (c : CodePoint) :
    Body (ToolAuthoring.escape c ++ body) (c :: v) := by
  unfold ToolAuthoring.escape
  split_ifs with hbackslash hquote hlf hcr htab
  · rw [hbackslash]
    exact h.escaped (by decide)
  · rw [hquote]
    exact h.escaped (by decide)
  · rw [hlf]
    exact h.escaped (by decide)
  · rw [hcr]
    exact h.escaped (by decide)
  · rw [htab]
    exact h.escaped (by decide)
  · exact h.plain hquote hlf hbackslash

theorem body_quote (v : PyStr) : Body (v.flatMap escape ++ py "\"") v := by
  induction v with
  | nil => exact Toml.body_nil
  | cons c v ih =>
    rw [List.flatMap_cons, List.append_assoc]
    exact Body.escape ih c

theorem escape_head (c : CodePoint) : ∃ d s, escape c = d :: s ∧ d ≠ quoteMark := by
  unfold escape
  split_ifs with hbackslash hquote
  iterate 5 exact ⟨_, _, rfl, by decide⟩
  exact ⟨c, [], rfl, hquote⟩

theorem reads_quote (v : PyStr) : Reads (quote v) (.str v) := by
  refine Toml.reads_string (body_quote v) ?_
  cases v with
  | nil => exact .inl rfl
  | cons c v =>
    obtain ⟨d, s, hcons, hd⟩ := escape_head c
    refine .inr fun hhead => hd ?_
    rw [List.flatMap_cons, hcons] at hhead
    exact Option.some.inj hhead

theorem readsKey_quote (v : PyStr) : Toml.ReadsKey (quote v) v := Toml.readsKey_quoted (body_quote v)

theorem reads_boolText (b : Bool) : Reads (boolText b) (.bool b) := by
  cases b with
  | true => exact Toml.reads_true
  | false => exact Toml.reads_false

/-- A text that is read as a value and has the forbidden characters of the given strings. -/
structure Denotes (text : PyStr) (v : Json) (strings : List PyStr) : Prop where
  reads : Reads text v
  shows : forbidden text = strings.flatMap unwritable

theorem denotes_quote (v : PyStr) : Denotes (quote v) (.str v) [v] :=
  ⟨reads_quote v, by rw [forbidden_quote, List.flatMap_singleton]⟩

theorem denotes_boolText (b : Bool) : Denotes (boolText b) (.bool b) [] :=
  ⟨reads_boolText b, by cases b <;> decide⟩

theorem forbidden_commaList (parts : List PyStr) : forbidden (commaList parts) = parts.flatMap forbidden := by
  have hcomma : forbidden (py ", ") = [] := by decide
  cases parts with
  | nil => rfl
  | cons part parts =>
    rw [commaList, Toml.intercalate_cons, forbidden_append, List.flatMap_cons]
    congr 1
    induction parts with
    | nil => rfl
    | cons next parts ih =>
      rw [List.flatMap_cons, List.flatMap_cons, forbidden_append, forbidden_append, hcomma, ih, List.nil_append]

theorem pad_space : ∀ c ∈ py " ", Toml.isWs c = true := List.all_eq_true.1 (by decide)

theorem denotes_array {parts : List PyStr} {vs : List Json} {strings : List PyStr}
    (hreads : List.Forall₂ Reads parts vs) (hshows : parts.flatMap forbidden = strings.flatMap unwritable) :
    Denotes (array parts) (.arr vs) strings := by
  constructor
  · have hread := Toml.reads_array pad_space hreads
    have htext : array parts = ch '[' :: (py " " ++ ((py ", ").intercalate parts ++ (py " " ++ [ch ']']))) := by
      rw [array, commaList, List.append_assoc]
      rfl
    rwa [htext]
  · have hmarks : forbidden (py "[ ") = [] ∧ forbidden (py " ]") = [] := by decide
    rw [array, forbidden_append, forbidden_append, forbidden_commaList, hmarks.1, hmarks.2, List.nil_append,
      List.append_nil, hshows]

theorem denotes_inlineTable {parts : List PyStr} {kvs : Toml.Table} {strings : List PyStr}
    (hmembers : List.Forall₂ Member parts kvs) (hne : kvs ≠ []) (hnodup : (kvs.map Prod.fst).Nodup)
    (hshows : parts.flatMap forbidden = strings.flatMap unwritable) :
    Denotes (inlineTable parts) (.obj kvs) strings := by
  constructor
  · have hread := Toml.reads_inlineTable pad_space hmembers hne hnodup
    have htext : inlineTable parts =
        ch '\x7b' :: (py " " ++ ((py ", ").intercalate parts ++ (py " " ++ [ch '\x7d']))) := by
      rw [inlineTable, commaList, List.append_assoc]
      rfl
    rwa [htext]
  · have hmarks : forbidden (py "\x7b ") = [] ∧ forbidden (py " \x7d") = [] := by decide
    rw [inlineTable, forbidden_append, forbidden_append, forbidden_commaList, hmarks.1, hmarks.2, List.nil_append,
      List.append_nil, hshows]

/-! ## Fields -/

/-- The fields of a table in the order they are written; one without a value is left out. -/
abbrev Fields := List (String × Option Json)

def tableOf (fields : Fields) : Toml.Table := fields.filterMap fun f => f.2.map fun v => (py f.1, v)

theorem tableOf_append (f g : Fields) : tableOf (f ++ g) = tableOf f ++ tableOf g := List.filterMap_append ..

/-- Lines that are the pairs of the fields and have the forbidden characters of the given strings. -/
structure Writes (ls : List PyStr) (fields : Fields) (strings : List PyStr) : Prop where
  members : List.Forall₂ Member ls (tableOf fields)
  shows : ls.flatMap forbidden = strings.flatMap unwritable

theorem Writes.append {ls ls' : List PyStr} {f g : Fields} {strings strings' : List PyStr} (h : Writes ls f strings)
    (h' : Writes ls' g strings') : Writes (ls ++ ls') (f ++ g) (strings ++ strings') := by
  constructor
  · rw [tableOf_append]
    exact List.rel_append h.members h'.members
  · rw [List.flatMap_append, List.flatMap_append, h.shows, h'.shows]

theorem Writes.absent (key : String) : Writes [] [(key, none)] [] := ⟨.nil, rfl⟩

/-- A key as the manifest writes it: bare. -/
def BareKey (key : String) : Prop := py key ≠ [] ∧ (py key).all Toml.bareChar = true ∧ (py key).all allowed = true

instance BareKey.decidable (key : String) : Decidable (BareKey key) :=
  inferInstanceAs (Decidable (_ ∧ _ ∧ _))

theorem Writes.one {key : String} {text : PyStr} {v : Json} {strings : List PyStr} (hkey : BareKey key)
    (h : Denotes text v strings) : Writes [pair key text] [(key, some v)] strings := by
  constructor
  · have hk : Toml.ReadsKey (py key) (py key) := Toml.readsKey_bare hkey.1 (List.all_eq_true.1 hkey.2.1)
    have hmember := Member.intro hk h.reads
    rw [← List.append_assoc] at hmember
    exact .cons hmember .nil
  · have hequals : forbidden (py " = ") = [] := by decide
    rw [List.flatMap_singleton, pair, forbidden_append, forbidden_append, forbidden_eq_nil hkey.2.2, hequals, h.shows]
    rfl

theorem Writes.optional {p : Prop} [Decidable p] {key : String} {text : PyStr} {v : Json} {strings : List PyStr}
    (hkey : BareKey key) (h : p → Denotes text v strings) (habsent : ¬ p → strings.flatMap unwritable = []) :
    Writes (optional (decide p) (pair key text)) [(key, if p then some v else none)] strings := by
  by_cases hp : p
  · rw [decide_eq_true hp, if_pos hp]
    exact Writes.one hkey (h hp)
  · rw [decide_eq_false hp, if_neg hp]
    exact ⟨.nil, (habsent hp).symm⟩

theorem keys_tableOf (fields : Fields) : ((tableOf fields).map Prod.fst).Sublist (fields.map fun f => py f.1) := by
  induction fields with
  | nil => exact .slnil
  | cons f fields ih =>
    obtain ⟨key, v⟩ := f
    cases v with
    | none => exact ih.cons _
    | some v => exact ih.cons_cons _

theorem nodup_tableOf {fields : Fields} (h : (fields.map Prod.fst).Nodup) :
    ((tableOf fields).map Prod.fst).Nodup := by
  refine (keys_tableOf fields).nodup ?_
  have hmap := h.map py_injective
  rwa [List.map_map] at hmap

theorem find?_absent {fields : Fields} {key : String} (h : key ∉ fields.map Prod.fst) :
    Json.find? (tableOf fields) (py key) = none := by
  have hnone : (tableOf fields).find? (fun kv => decide (kv.1 = py key)) = none := by
    rw [List.find?_eq_none]
    intro kv hkv heq
    have hkey := (keys_tableOf fields).subset (List.mem_map_of_mem hkv)
    rw [of_decide_eq_true heq] at hkey
    obtain ⟨f, hf, hfkey⟩ := List.mem_map.1 hkey
    exact h (List.mem_map.2 ⟨f, hf, py_injective hfkey⟩)
  rw [Json.find?, hnone]
  rfl

/-- A field is found under its key. -/
theorem find?_tableOf {fields : Fields} (h : (fields.map Prod.fst).Nodup) (i : Nat) {key : String}
    {v : Option Json} (hi : fields[i]? = some (key, v)) : Json.find? (tableOf fields) (py key) = v := by
  induction fields generalizing i with
  | nil => cases hi
  | cons f fields ih =>
    obtain ⟨key', v'⟩ := f
    obtain ⟨hnew, hnodup⟩ := List.nodup_cons.1 h
    cases i with
    | zero =>
      obtain ⟨rfl, rfl⟩ := Prod.mk.inj (Option.some.inj hi)
      cases v' with
      | some v => simp [Json.find?, tableOf]
      | none =>
        have hskip : tableOf ((key', none) :: fields) = tableOf fields := rfl
        rw [hskip]
        exact find?_absent hnew
    | succ i =>
      have hne : py key' ≠ py key := by
        intro heq
        have hmem : (key, v) ∈ fields := List.mem_of_getElem? (i := i) hi
        exact hnew (List.mem_map.2 ⟨_, hmem, (py_injective heq).symm⟩)
      have hrest := ih hnodup i hi
      cases v' with
      | none => exact hrest
      | some v' =>
        have hfind : Json.find? (tableOf ((key', some v') :: fields)) (py key) =
            Json.find? (tableOf fields) (py key) := by
          simp [Json.find?, tableOf, hne]
        rw [hfind, hrest]

theorem get_tableOf {fields : Fields} (h : (fields.map Prod.fst).Nodup) (i : Nat) {key : String} {v : Option Json}
    {x : Json} (hi : fields[i]? = some (key, v)) (hx : v.getD .null = x) : get (tableOf fields) key = x := by
  rw [get, find?_tableOf h i hi, hx]

theorem getD_tableOf {fields : Fields} (h : (fields.map Prod.fst).Nodup) (i : Nat) {key : String} {v : Option Json}
    {default x : Json} (hi : fields[i]? = some (key, v)) (hx : v.getD default = x) :
    getD (tableOf fields) key default = x := by
  rw [getD, find?_tableOf h i hi, hx]

/-! ## Arguments, rules and secrets -/

def textIf (v : PyStr) : Option Json := if v ≠ [] then some (.str v) else none

theorem textIf_getD (v : PyStr) (default : Json) (h : v = [] → default = .str []) :
    (textIf v).getD default = .str v := by
  unfold textIf
  split_ifs with hv
  · rfl
  · rw [not_not.1 hv]
    exact h (not_not.1 hv)

theorem writes_text {key : String} (v : PyStr) (hkey : BareKey key) :
    Writes [pair key (quote v)] [(key, some (.str v))] [v] :=
  Writes.one hkey (denotes_quote v)

theorem writes_textIf {key : String} (v : PyStr) (hkey : BareKey key) :
    Writes (optional (v ≠ []) (pair key (quote v))) [(key, textIf v)] [v] := by
  refine Writes.optional hkey (fun _ => denotes_quote v) fun hv => ?_
  rw [not_not.1 hv]
  rfl

/-- What the editor makes of a text of a draft. -/
def Stripped (v : PyStr) : Prop := strip v = v

instance Stripped.decidable (v : PyStr) : Decidable (Stripped v) := inferInstanceAs (Decidable (strip v = v))

theorem stripped_strip (v : PyStr) : Stripped (strip v) := by
  have hstrip : ∀ w, strip w = (w.dropWhile Broker.Redaction.isSpace).rdropWhile Broker.Redaction.isSpace :=
    fun _ => rfl
  have hhead : (strip v).dropWhile Broker.Redaction.isSpace = strip v := by
    rw [List.dropWhile_eq_self_iff]
    intro hlen
    obtain ⟨t, ht⟩ : strip v <+: v.dropWhile Broker.Redaction.isSpace :=
      List.rdropWhile_prefix Broker.Redaction.isSpace _
    have hlen' : 0 < (v.dropWhile Broker.Redaction.isSpace).length := by
      rw [← ht, List.length_append]
      omega
    have hnot := List.dropWhile_get_zero_not Broker.Redaction.isSpace v hlen'
    simp only [List.get_eq_getElem, ← ht] at hnot
    rwa [List.getElem_append_left hlen] at hnot
  rw [Stripped, hstrip (strip v), hhead, hstrip v, List.rdropWhile_idempotent]

def argFields (a : Arg) : Fields :=
  [("name", some (.str a.name)), ("type", some (.str a.type)), ("required", some (.bool a.required)),
    ("description", textIf a.description)]

def ruleFields (r : Rule) : Fields :=
  [("secret_name", some (.str r.secretName)), ("response_type", some (.str r.responseType)),
    ("extract_path", some (.str r.extractPath)), ("match_status", some (.str r.matchStatus))]

def secretFields (sec : Secret) : Fields :=
  [("name", some (.str sec.name)), ("field", some (.str sec.field)),
    ("item", textIf sec.item),
    ("writable", if sec.writable then some (.bool true) else none)]

theorem argFields_nodup (a : Arg) : ((argFields a).map Prod.fst).Nodup := by
  have hkeys : (argFields a).map Prod.fst = ["name", "type", "required", "description"] := rfl
  rw [hkeys]
  decide

theorem ruleFields_nodup (r : Rule) : ((ruleFields r).map Prod.fst).Nodup := by
  have hkeys : (ruleFields r).map Prod.fst = ["secret_name", "response_type", "extract_path", "match_status"] := rfl
  rw [hkeys]
  decide

theorem secretFields_nodup (sec : Secret) : ((secretFields sec).map Prod.fst).Nodup := by
  have hkeys : (secretFields sec).map Prod.fst = ["name", "field", "item", "writable"] := rfl
  rw [hkeys]
  decide

def Arg.strings (a : Arg) : List PyStr := [a.name, a.type, a.description]

def Rule.strings (r : Rule) : List PyStr := [r.secretName, r.responseType, r.extractPath, r.matchStatus]

def Secret.strings (sec : Secret) : List PyStr := [sec.name, sec.field, sec.item]

theorem writes_arg (a : Arg) : Writes
    ([pair "name" (quote a.name), pair "type" (quote a.type), pair "required" (boolText a.required)] ++
      optional (a.description ≠ []) (pair "description" (quote a.description))) (argFields a) a.strings :=
  (((writes_text a.name (by decide)).append (writes_text a.type (by decide))).append
    (Writes.one (by decide) (denotes_boolText a.required))).append (writes_textIf a.description (by decide))

theorem writes_rule (r : Rule) : Writes
    [pair "secret_name" (quote r.secretName), pair "response_type" (quote r.responseType),
      pair "extract_path" (quote r.extractPath), pair "match_status" (quote r.matchStatus)] (ruleFields r) r.strings :=
  (((writes_text r.secretName (by decide)).append (writes_text r.responseType (by decide))).append
    (writes_text r.extractPath (by decide))).append (writes_text r.matchStatus (by decide))

theorem writes_secret (sec : Secret) : Writes
    ([pair "name" (quote sec.name), pair "field" (quote sec.field)] ++
      optional (sec.item ≠ []) (pair "item" (quote sec.item)) ++
      optional sec.writable (py "writable = true")) (secretFields sec) sec.strings := by
  have hwritable : Writes (optional (decide (sec.writable = true)) (pair "writable" (boolText true)))
      [("writable", if sec.writable then some (.bool true) else none)] [] :=
    Writes.optional (by decide) (fun _ => denotes_boolText true) fun _ => rfl
  rw [Bool.decide_eq_true] at hwritable
  exact (((writes_text sec.name (by decide)).append (writes_text sec.field (by decide))).append
    (writes_textIf sec.item (by decide))).append hwritable

/-- A list of tables on one line. -/
theorem denotes_tables {α : Type} {fields : α → Fields} {parts : α → List PyStr} {strings : α → List PyStr}
    (h : ∀ x, Writes (parts x) (fields x) (strings x)) (hne : ∀ x, tableOf (fields x) ≠ [])
    (hnodup : ∀ x, ((fields x).map Prod.fst).Nodup) (xs : List α) :
    Denotes (array (xs.map fun x => inlineTable (parts x))) (.arr (xs.map fun x => .obj (tableOf (fields x))))
      (xs.flatMap strings) := by
  have hrow : ∀ x, Denotes (inlineTable (parts x)) (.obj (tableOf (fields x))) (strings x) := fun x =>
    denotes_inlineTable (h x).members (hne x) (nodup_tableOf (hnodup x)) (h x).shows
  refine denotes_array ?_ ?_
  · rw [List.forall₂_map_left_iff, List.forall₂_map_right_iff, List.forall₂_same]
    exact fun x _ => (hrow x).reads
  · rw [List.flatMap_map, List.flatMap_assoc]
    exact List.flatMap_congr fun x _ => (hrow x).shows

/-! ## Reading the rows back -/

section Rows
variable {α : Type} {row : List (PyStr × Json) → Option (Option α)}

/-- What a list of rows holds is what some table gave. -/
theorem rows_spec {v : Json} {xs : List α} (h : rows row v = some xs) : ∀ x ∈ xs, ∃ kvs, row kvs = some (some x) := by
  obtain ⟨vs, -, h⟩ := Option.bind_eq_some_iff.1 h
  obtain ⟨found, hfound, h⟩ := Option.bind_eq_some_iff.1 h
  obtain rfl : found.filterMap id = xs := Option.some.inj h
  intro x hx
  obtain ⟨y, hy, rfl⟩ := List.mem_filterMap.1 hx
  obtain ⟨v, -, hv⟩ := Fallible.exists_of_mem_right (Fallible.mapM_some.1 hfound) hy
  cases v with
  | obj kvs => exact ⟨kvs, hv⟩
  | _ => cases hv

theorem rows_null : rows row .null = some [] := rfl

theorem rows_tables {fields : α → Fields} {xs : List α} (h : ∀ x ∈ xs, row (tableOf (fields x)) = some (some x)) :
    rows row (.arr (xs.map fun x => .obj (tableOf (fields x)))) = some xs := by
  have hitems : items (.arr (xs.map fun x => .obj (tableOf (fields x)))) =
      some (xs.map fun x => .obj (tableOf (fields x))) := by
    cases xs <;> rfl
  refine Option.bind_eq_some_iff.2 ⟨_, hitems, Option.bind_eq_some_iff.2 ⟨xs.map some, ?_, ?_⟩⟩
  · rw [Fallible.mapM_some, List.forall₂_map_left_iff, List.forall₂_map_right_iff, List.forall₂_same]
    exact h
  · have hfilter : (xs.map some).filterMap id = xs := by
      rw [List.filterMap_map]
      exact List.filterMap_some
    exact congrArg some hfilter

theorem rows_listed {fields : α → Fields} {xs : List α} (h : ∀ x ∈ xs, row (tableOf (fields x)) = some (some x)) :
    rows row ((if xs ≠ [] then some (.arr (xs.map fun x => .obj (tableOf (fields x)))) else none).getD .null) =
      some xs := by
  split_ifs with hne
  · exact rows_tables h
  · rw [not_not.1 hne]
    exact rows_null

end Rows

/-! ## Normal rows -/

section Normal
variable (B : Builtins)

@[simp] theorem s_str (v : PyStr) : s B (.str v) = strip v := rfl

theorem s_stripped (v : Json) : Stripped (s B v) := by
  unfold s
  split
  · exact rfl
  · exact stripped_strip _

theorem sOr_stripped {default : String} (hdefault : Stripped (py default) ∧ py default ≠ []) (v : Json) :
    Stripped (sOr B v default) ∧ sOr B v default ≠ [] := by
  unfold sOr
  split_ifs with h
  · exact hdefault
  · exact ⟨s_stripped B v, h⟩

/-- A text that is there is read back as it was. -/
theorem sOr_str {v : PyStr} (h : Stripped v ∧ v ≠ []) (default : String) : sOr B (.str v) default = v := by
  have hs : s B (.str v) = v := h.1
  rw [sOr, hs, if_neg h.2]

structure Arg.Normal (a : Arg) : Prop where
  name : Stripped a.name ∧ a.name ≠ []
  type : Stripped a.type ∧ a.type ≠ []
  description : Stripped a.description

structure Rule.Normal (r : Rule) : Prop where
  secretName : Stripped r.secretName ∧ r.secretName ≠ []
  responseType : Stripped r.responseType ∧ r.responseType ≠ []
  extractPath : Stripped r.extractPath
  matchStatus : Stripped r.matchStatus ∧ r.matchStatus ≠ []

structure Secret.Normal (sec : Secret) : Prop where
  name : Stripped sec.name ∧ sec.name ≠ []
  field : Stripped sec.field
  item : Stripped sec.item

theorem normArg_normal {kvs : List (PyStr × Json)} {a : Arg} (h : normArg B kvs = some (some a)) : a.Normal := by
  unfold normArg at h
  split_ifs at h with hname
  · cases Option.some.inj h
  obtain rfl := Option.some.inj (Option.some.inj h)
  exact ⟨⟨s_stripped B _, hname⟩, sOr_stripped B (by decide) _, s_stripped B _⟩

theorem normRule_normal {kvs : List (PyStr × Json)} {r : Rule} (h : normRule B kvs = some (some r)) : r.Normal := by
  unfold normRule at h
  split_ifs at h with hname
  · cases Option.some.inj h
  obtain rfl := Option.some.inj (Option.some.inj h)
  exact ⟨⟨s_stripped B _, hname⟩, sOr_stripped B (by decide) _, s_stripped B _, sOr_stripped B (by decide) _⟩

theorem normSecret_normal {kvs : List (PyStr × Json)} {sec : Secret} (h : normSecret B kvs = some (some sec)) :
    sec.Normal := by
  unfold normSecret at h
  split_ifs at h with hname
  · cases Option.some.inj h
  obtain rfl := Option.some.inj (Option.some.inj h)
  exact ⟨⟨s_stripped B _, hname⟩, s_stripped B _, s_stripped B _⟩

/-- What is read of a text that is left out where it is empty. -/
theorem s_textIf {v : PyStr} (h : Stripped v) : s B ((textIf v).getD .null) = v := by
  unfold textIf
  split_ifs with hv
  · exact h
  · rw [not_not.1 hv]
    rfl

theorem normArg_table {a : Arg} (h : a.Normal) : normArg B (tableOf (argFields a)) = some (some a) := by
  have hkeys := argFields_nodup a
  have hname : s B (get (tableOf (argFields a)) "name") = a.name := by
    rw [get_tableOf hkeys 0 rfl rfl]
    exact h.name.1
  have htype : sOr B (get (tableOf (argFields a)) "type") "string" = a.type := by
    rw [get_tableOf hkeys 1 rfl rfl]
    exact sOr_str B h.type "string"
  have hrequired : (get (tableOf (argFields a)) "required").truthy = a.required := by
    rw [get_tableOf hkeys 2 rfl rfl]
    rfl
  have hdescription : s B (get (tableOf (argFields a)) "description") = a.description := by
    rw [get_tableOf hkeys 3 rfl rfl]
    exact s_textIf B h.description
  rw [normArg, hname, if_neg h.name.2, htype, hrequired, hdescription]

theorem normRule_table {r : Rule} (h : r.Normal) : normRule B (tableOf (ruleFields r)) = some (some r) := by
  have hkeys := ruleFields_nodup r
  have hname : s B (get (tableOf (ruleFields r)) "secret_name") = r.secretName := by
    rw [get_tableOf hkeys 0 rfl rfl]
    exact h.secretName.1
  have htype : sOr B (get (tableOf (ruleFields r)) "response_type") "json" = r.responseType := by
    rw [get_tableOf hkeys 1 rfl rfl]
    exact sOr_str B h.responseType "json"
  have hpath : s B (get (tableOf (ruleFields r)) "extract_path") = r.extractPath := by
    rw [get_tableOf hkeys 2 rfl rfl]
    exact h.extractPath
  have hstatus : sOr B (get (tableOf (ruleFields r)) "match_status") "2xx" = r.matchStatus := by
    rw [get_tableOf hkeys 3 rfl rfl]
    exact sOr_str B h.matchStatus "2xx"
  rw [normRule, hname, if_neg h.secretName.2, htype, hpath, hstatus]

theorem normSecret_table {sec : Secret} (h : sec.Normal) :
    normSecret B (tableOf (secretFields sec)) = some (some sec) := by
  have hkeys := secretFields_nodup sec
  have hname : s B (get (tableOf (secretFields sec)) "name") = sec.name := by
    rw [get_tableOf hkeys 0 rfl rfl]
    exact h.name.1
  have hfield : s B (get (tableOf (secretFields sec)) "field") = sec.field := by
    rw [get_tableOf hkeys 1 rfl rfl]
    exact h.field
  have hitem : s B (get (tableOf (secretFields sec)) "item") = sec.item := by
    rw [get_tableOf hkeys 2 rfl rfl]
    exact s_textIf B h.item
  have hwritable : (get (tableOf (secretFields sec)) "writable").truthy = sec.writable := by
    rw [get_tableOf hkeys 3 rfl rfl]
    cases sec.writable <;> rfl
  rw [normSecret, hname, if_neg h.name.2, hfield, hitem, hwritable]

end Normal

/-! ## Raw values -/

mutual
/-- The texts and keys in a value. -/
def texts : Json → List PyStr
  | .str v => [v]
  | .arr xs => textsAll xs
  | .obj kvs => textsMembers kvs
  | _ => []

def textsAll : List Json → List PyStr
  | [] => []
  | x :: xs => texts x ++ textsAll xs

def textsMembers : List (PyStr × Json) → List PyStr
  | [] => []
  | (k, v) :: kvs => k :: texts v ++ textsMembers kvs
end

/-- A table of texts. -/
def textTable (kvs : List (PyStr × PyStr)) : Toml.Table := kvs.map fun kv => (kv.1, .str kv.2)

theorem texts_arr (vs : List PyStr) : texts (.arr (vs.map .str)) = vs := by
  rw [texts]
  induction vs with
  | nil => rw [List.map_nil, textsAll]
  | cons v vs ih => rw [List.map_cons, textsAll, ih, texts, List.singleton_append]

theorem texts_textTable (kvs : List (PyStr × PyStr)) :
    texts (.obj (textTable kvs)) = kvs.flatMap fun kv => [kv.1, kv.2] := by
  rw [texts]
  induction kvs with
  | nil => rfl
  | cons kv kvs ih =>
    have hcons : textTable (kv :: kvs) = (kv.1, .str kv.2) :: textTable kvs := rfl
    rw [hcons, textsMembers, ih, texts, List.flatMap_cons]

/-- A value that is left out where it is `None`, and one that is left out where it is false. -/
def present : Json → Option Json
  | .null => none
  | v => some v

def given (v : Json) : Option Json := if v.truthy then some v else none

def listIf {α : Type} (f : α → Json) (xs : List α) : Option Json :=
  if xs ≠ [] then some (.arr (xs.map f)) else none

theorem reads_quotes (vs : List PyStr) : List.Forall₂ Reads (vs.map quote) (vs.map .str) := by
  rw [List.forall₂_map_left_iff, List.forall₂_map_right_iff, List.forall₂_same]
  exact fun v _ => reads_quote v

theorem forbidden_quotes (vs : List PyStr) : (vs.map quote).flatMap forbidden = vs.flatMap unwritable := by
  rw [List.flatMap_map]
  exact List.flatMap_congr fun v _ => forbidden_quote v

theorem denotes_quotes (vs : List PyStr) : Denotes (array (vs.map quote)) (.arr (vs.map .str)) vs :=
  denotes_array (reads_quotes vs) (forbidden_quotes vs)

/-- A list without padding. -/
theorem denotes_tight (vs : List PyStr) :
    Denotes (py "[" ++ commaList (vs.map quote) ++ py "]") (.arr (vs.map .str)) vs := by
  constructor
  · have hpad : ∀ c ∈ ([] : PyStr), Toml.isWs c = true := fun _ h => nomatch h
    have hread := Toml.reads_array hpad (reads_quotes vs)
    have htext : py "[" ++ commaList (vs.map quote) ++ py "]" =
        ch '[' :: ([] ++ ((py ", ").intercalate (vs.map quote) ++ ([] ++ [ch ']']))) := by
      rw [List.append_assoc]
      rfl
    rwa [htext]
  · have hmarks : forbidden (py "[") = [] ∧ forbidden (py "]") = [] := by decide
    rw [forbidden_append, forbidden_append, forbidden_commaList, forbidden_quotes, hmarks.1, hmarks.2,
      List.nil_append, List.append_nil]

section Raw
variable (B : Builtins)

theorem writes_headers {kvs : List (PyStr × PyStr)} (hnodup : (kvs.map Prod.fst).Nodup) :
    ∃ ls, headerLines B (.obj (textTable kvs)) = some ls ∧
      Writes ls [("headers", given (.obj (textTable kvs)))] (texts (.obj (textTable kvs))) := by
  rw [texts_textTable]
  cases kvs with
  | nil => exact ⟨[], rfl, Writes.absent "headers"⟩
  | cons kv kvs =>
    refine ⟨_, rfl, Writes.one (by decide) (denotes_inlineTable ?_ (List.cons_ne_nil _ _) ?_ ?_)⟩
    · rw [textTable, List.forall₂_map_left_iff, List.forall₂_map_right_iff, List.forall₂_map_left_iff,
        List.forall₂_same]
      intro kv' _
      have hmember := Member.intro (readsKey_quote kv'.1) (reads_quote kv'.2)
      rwa [← List.append_assoc] at hmember
    · rw [textTable, List.map_map]
      exact hnodup
    · have hequals : forbidden (py " = ") = [] := by decide
      rw [textTable, List.flatMap_map, List.flatMap_map, List.flatMap_assoc]
      refine List.flatMap_congr fun kv' _ => ?_
      rw [forbidden_append, forbidden_append, hequals, forbidden_quote, List.append_nil]
      have hvalue : forbidden (quote (str B (.str kv'.2))) = unwritable kv'.2 := forbidden_quote _
      rw [hvalue, List.flatMap_cons, List.flatMap_singleton]

theorem items_arr (xs : List Json) : items (.arr xs) = some xs := by
  cases xs <;> rfl

theorem writes_allowedSecrets (names : List PyStr) :
    ∃ ls, allowedSecretLines B (.arr (names.map .str)) = some ls ∧
      Writes ls [("allowed_secrets", given (.arr (names.map .str)))] (texts (.arr (names.map .str))) := by
  rw [texts_arr, allowedSecretLines, items_arr]
  refine ⟨_, rfl, ?_⟩
  cases names with
  | nil => exact Writes.absent "allowed_secrets"
  | cons name names =>
    have hmap : ((name :: names).map Json.str).map (fun x => quote (str B x)) = (name :: names).map quote := by
      rw [List.map_map]
      rfl
    have hwrites := Writes.one (show BareKey "allowed_secrets" by decide) (denotes_quotes (name :: names))
    rwa [← hmap] at hwrites

theorem writes_bodyTemplate {v : Json} : (v = .null ∨ ∃ t, v = .str t) →
    Writes (optional (!(v matches .null)) (pair "body_template" (quote (str B v))))
      [("body_template", present v)] (texts v) := by
  rintro (rfl | ⟨t, rfl⟩)
  · exact Writes.absent "body_template"
  · exact writes_text t (by decide)

theorem writes_flag {flag : String} (hkey : BareKey flag) {v : Json} (h : v = .null ∨ ∃ b, v = .bool b) :
    Writes (flagLine flag v) [(flag, present v)] (texts v) := by
  rcases h with rfl | ⟨b, rfl⟩
  · exact Writes.absent flag
  · exact Writes.one hkey (denotes_boolText b)

end Raw

end Toolstack.Admin.ToolAuthoring
