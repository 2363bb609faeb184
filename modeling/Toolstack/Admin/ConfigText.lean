import Toolstack.Admin.BrokerConfig
import Toolstack.Toml.Unreadable

/-! What the text of a run configuration says: the writer escapes the backslash and the quotation mark
only, and writes as a string what is no string, number, boolean or list. -/

namespace Toolstack.Admin.BrokerConfig

open Url (ch)
open Toml (Body Broken Reads Unreadable Member allowed quoteMark backslash lf)

variable (H : Host)

/-- A character that may stand in a basic string without an escape, or has one here. -/
def plain (c : CodePoint) : Bool := allowed c && c ≠ lf

/-! ## Strings -/

/-- The two replacements as one. -/
def escape (c : CodePoint) : PyStr :=
  if c = backslash then [backslash, backslash] else if c = quoteMark then [backslash, quoteMark] else [c]

theorem escape_eq (s : PyStr) : (s.flatMap escapeBackslash).flatMap escapeMark = s.flatMap escape := by
  rw [List.flatMap_assoc]
  congr 1
  funext c
  have hmarks : py "\\\\" = [backslash, backslash] ∧ py "\\\"" = [backslash, quoteMark] ∧
      backslash ≠ quoteMark := by decide
  show (if c = backslash then py "\\\\" else [c]).flatMap escapeMark = escape c
  unfold escape
  by_cases hc : c = backslash
  · have hmark : escapeMark backslash = [backslash] := if_neg hmarks.2.2
    rw [if_pos hc, if_pos hc, hmarks.1, List.flatMap_cons, List.flatMap_singleton, hmark]
    rfl
  · rw [if_neg hc, if_neg hc, List.flatMap_singleton, escapeMark, hmarks.2.1]
    rfl

theorem tomlStr_eq (v : PyValue) : tomlStr H v = quoteMark :: ((str H v).flatMap escape ++ [quoteMark]) := by
  rw [tomlStr, escape_eq]
  rfl

theorem body_escape {v : PyStr} (h : ∀ c ∈ v, plain c = true) : Body (v.flatMap escape ++ [quoteMark]) v := by
  induction v with
  | nil => exact Toml.body_nil
  | cons c v ih =>
    have hrest := ih fun d hd => h d (List.mem_cons_of_mem _ hd)
    rw [List.flatMap_cons, List.append_assoc]
    unfold escape
    split_ifs with hbackslash hquote
    · rw [hbackslash]
      exact hrest.escaped (by decide)
    · rw [hquote]
      exact hrest.escaped (by decide)
    · have hc := h c (List.mem_cons_self ..)
      rw [plain, Bool.and_eq_true, decide_eq_true_eq] at hc
      exact hrest.plain hquote hc.2 hbackslash

theorem broken_escape {v : PyStr} (h : lf ∈ v) : Broken (v.flatMap escape ++ [quoteMark]) := by
  induction v with
  | nil => cases h
  | cons c v ih =>
    rw [List.flatMap_cons, List.append_assoc]
    by_cases hc : c = lf
    · have hescape : escape c = [lf] := by
        rw [hc]
        decide
      rw [hescape]
      exact Toml.broken_lf _
    · have hrest := ih ((List.mem_cons.1 h).resolve_left fun heq => hc heq.symm)
      unfold escape
      split_ifs with hbackslash hquote
      · exact hrest.escaped (d := backslash) (by decide)
      · exact hrest.escaped (d := quoteMark) (by decide)
      · exact hrest.plain hquote hbackslash

theorem reads_tomlStr {v : PyValue} (h : ∀ c ∈ str H v, plain c = true) : Reads (tomlStr H v) (.str (str H v)) := by
  rw [tomlStr_eq]
  refine Toml.reads_string (body_escape h) ?_
  cases str H v with
  | nil => exact .inl rfl
  | cons c s =>
    refine .inr ?_
    rw [List.flatMap_cons]
    unfold escape
    split_ifs with hbackslash hquote
    · exact fun heq => absurd (Option.some.inj heq) (by decide)
    · exact fun heq => absurd (Option.some.inj heq) (by decide)
    · exact fun heq => hquote (Option.some.inj heq)

theorem unreadable_tomlStr {v : PyValue} (h : lf ∈ str H v) : Unreadable (tomlStr H v) := by
  rw [tomlStr_eq]
  exact (broken_escape h).unreadable

/-! ## Values -/

/-- The strings that are written for a value. -/
def strings : PyValue → List PyStr
  | .bool _ => []
  | .int _ => []
  | .list xs => xs.map (str H)
  | v => [str H v]

/-- What is read back. -/
def written : PyValue → Json
  | .bool b => .bool b
  | .int n => .int n
  | .list xs => .arr (xs.map fun x => .str (str H x))
  | v => .str (str H v)

theorem tomlValue_list (xs : List PyValue) :
    tomlValue H (.list xs) = ch '[' :: ((py ", ").intercalate (xs.map (tomlStr H)) ++ [ch ']']) := rfl

theorem reads_tomlValue {v : PyValue} (h : ∀ s ∈ strings H v, ∀ c ∈ s, plain c = true) :
    Reads (tomlValue H v) (written H v) := by
  cases v with
  | bool b =>
    cases b with
    | true => exact Toml.reads_true
    | false => exact Toml.reads_false
  | int n => exact Toml.reads_int n
  | list xs =>
    rw [tomlValue_list]
    have hparts : List.Forall₂ Reads (xs.map (tomlStr H)) (xs.map fun x => .str (str H x)) := by
      rw [List.forall₂_map_left_iff, List.forall₂_map_right_iff, List.forall₂_same]
      exact fun x hx => reads_tomlStr H (h _ (List.mem_map.2 ⟨x, hx, rfl⟩))
    exact @Toml.reads_array [] (fun _ hc => nomatch hc) _ _ hparts
  | none | float | str | date | dict => exact reads_tomlStr H (h _ (List.mem_singleton_self _))

theorem unreadable_tomlValue {v : PyValue} (hallowed : ∀ s ∈ strings H v, ∀ c ∈ s, allowed c = true)
    (h : ∃ s ∈ strings H v, lf ∈ s) : Unreadable (tomlValue H v) := by
  cases v with
  | bool | int =>
    obtain ⟨s, hs, -⟩ := h
    cases hs
  | list xs =>
    rw [tomlValue_list]
    refine Toml.unreadable_array (fun part hpart => ?_) ?_
    · obtain ⟨x, hx, rfl⟩ := List.mem_map.1 hpart
      have hchars := hallowed _ (List.mem_map.2 ⟨x, hx, rfl⟩)
      by_cases hlf : lf ∈ str H x
      · exact .inl (unreadable_tomlStr H hlf)
      · refine .inr ⟨_, reads_tomlStr H fun c hc => ?_⟩
        rw [plain, Bool.and_eq_true, decide_eq_true_eq]
        refine ⟨hchars c hc, ?_⟩
        rintro rfl
        exact hlf hc
    · obtain ⟨s, hs, hlf⟩ := h
      obtain ⟨x, hx, rfl⟩ := List.mem_map.1 hs
      exact ⟨_, List.mem_map.2 ⟨x, hx, rfl⟩, unreadable_tomlStr H hlf⟩
  | none | float | str | date | dict =>
    obtain ⟨s, hs, hlf⟩ := h
    obtain rfl := List.mem_singleton.1 hs
    exact unreadable_tomlStr H hlf

/-! ## Lines -/

def line (kv : String × PyValue) : PyStr := py kv.1 ++ (py " = " ++ tomlValue H kv.2)

theorem toToml_eq {data : List (String × PyValue)} (h : data ≠ []) :
    toToml H data = Toml.unlines (data.map (line H)) := by
  obtain ⟨kv, data, rfl⟩ := List.exists_cons_of_ne_nil h
  have hlf : py "\n" = [lf] := by decide
  show (py "\n").intercalate ((kv :: data).map (line H)) ++ py "\n" = _
  rw [hlf, List.map_cons, Toml.intercalate_cons, Toml.unlines_cons, List.append_assoc]
  congr 1
  generalize data.map (line H) = ls
  induction ls with
  | nil => rfl
  | cons l ls ih =>
    rw [List.flatMap_cons, Toml.unlines_cons, List.append_assoc, ih]
    rfl

/-- A key that needs no quotation marks. -/
def BareKey (k : String) : Prop := py k ≠ [] ∧ ∀ c ∈ py k, Toml.bareChar c = true

theorem member_line {kv : String × PyValue} (hkey : BareKey kv.1) (h : ∀ s ∈ strings H kv.2, ∀ c ∈ s, plain c = true) :
    Member (line H kv) (py kv.1, written H kv.2) :=
  Member.intro (Toml.readsKey_bare hkey.1 hkey.2) (reads_tomlValue H h)

theorem stuck_line {kv : String × PyValue} (hkey : BareKey kv.1) {st : Toml.State}
    (hallowed : ∀ s ∈ strings H kv.2, ∀ c ∈ s, allowed c = true) (h : ∃ s ∈ strings H kv.2, lf ∈ s) :
    Toml.Stuck st (line H kv) :=
  Toml.Stuck.pair (Toml.readsKey_bare hkey.1 hkey.2) (unreadable_tomlValue H hallowed h)

/-! ## Characters -/

theorem allowed_escape {v : PyStr} (h : ∀ c ∈ v, allowed c = true) : ∀ c ∈ v.flatMap escape, allowed c = true := by
  intro d hd
  obtain ⟨c, hc, hd⟩ := List.mem_flatMap.1 hd
  unfold escape at hd
  split_ifs at hd
  · have hall : ∀ d ∈ [backslash, backslash], allowed d = true := List.all_eq_true.1 (by decide)
    exact hall d hd
  · have hall : ∀ d ∈ [backslash, quoteMark], allowed d = true := List.all_eq_true.1 (by decide)
    exact hall d hd
  · rw [List.mem_singleton.1 hd]
    exact h c hc

theorem mem_escape {v : PyStr} {c : CodePoint} (h : c ∈ v) : c ∈ v.flatMap escape := by
  refine List.mem_flatMap.2 ⟨c, h, ?_⟩
  unfold escape
  split_ifs with hbackslash hquote
  · rw [hbackslash]
    exact List.mem_cons_self ..
  · rw [hquote]
    exact List.mem_cons_of_mem _ (List.mem_cons_self ..)
  · exact List.mem_cons_self ..

theorem escape_ends (c : CodePoint) : (c ≠ ch '\r' → ch '\r' ∉ escape c) ∧
    (c ≠ lf → ∀ s, (escape c ++ s).head? ≠ some lf) := by
  unfold escape
  split_ifs
  · exact ⟨fun _ => by decide, fun _ s heq => absurd (Option.some.inj heq) (by decide)⟩
  · exact ⟨fun _ => by decide, fun _ s heq => absurd (Option.some.inj heq) (by decide)⟩
  · exact ⟨fun hc hmem => hc (List.mem_singleton.1 hmem).symm, fun hc s heq => hc (Option.some.inj heq)⟩

theorem newlines_escape (v : PyStr) : Toml.newlines (v.flatMap escape) = (Toml.newlines v).flatMap escape := by
  fun_induction Toml.newlines v with
  | case1 a b s hab ih =>
    obtain ⟨rfl, rfl⟩ := hab
    have hcr : escape (ch '\r') = [ch '\r'] := by decide
    have hlf : escape lf = [lf] := by decide
    rw [List.flatMap_cons, List.flatMap_cons, List.flatMap_cons, hcr, hlf, List.singleton_append,
      List.singleton_append, Toml.newlines, if_pos ⟨rfl, rfl⟩, ih]
    rfl
  | case2 a b s hab ih =>
    have htail : (a :: Toml.newlines (b :: s)).flatMap escape = escape a ++ Toml.newlines ((b :: s).flatMap escape) := by
      rw [List.flatMap_cons, ih]
    rw [htail, List.flatMap_cons]
    by_cases ha : a = ch '\r'
    · subst ha
      have hb : b ≠ lf := fun hb => hab ⟨rfl, hb⟩
      have hcr : escape (ch '\r') = [ch '\r'] := by decide
      have hhead : ((b :: s).flatMap escape).head? ≠ some lf := by
        rw [List.flatMap_cons]
        exact (escape_ends b).2 hb _
      rw [hcr, Toml.newlines_append hhead]
      rfl
    · exact Toml.newlines_skip ((escape_ends a).1 ha) _
  | case3 v hv =>
    cases v with
    | nil => rfl
    | cons c v =>
      cases v with
      | cons d v => exact absurd rfl (hv c d v)
      | nil =>
        rw [List.flatMap_singleton]
        by_cases hc : c = ch '\r'
        · subst hc
          decide
        · have hskip := Toml.newlines_skip ((escape_ends c).1 hc) []
          rw [List.append_nil] at hskip
          rw [hskip]
          exact List.append_nil _

/-- A value that is written as the other is after the line ends have been read. -/
def joined : PyValue → PyValue
  | .bool b => .bool b
  | .int n => .int n
  | .list xs => .list (xs.map fun x => .str (Toml.newlines (str H x)))
  | v => .str (Toml.newlines (str H v))

theorem strings_joined (v : PyValue) : strings H (joined H v) = (strings H v).map Toml.newlines := by
  cases v with
  | list xs =>
    simp only [joined, strings, List.map_map]
    rfl
  | _ => rfl

theorem newlines_tomlStr (v : PyValue) : Toml.newlines (tomlStr H v) = tomlStr H (.str (Toml.newlines (str H v))) := by
  have hmark : quoteMark ≠ ch '\r' := by decide
  have hhead : [quoteMark].head? ≠ some lf := by decide
  rw [tomlStr_eq, tomlStr_eq, Toml.newlines_cons hmark, Toml.newlines_append hhead, newlines_escape]
  rfl

theorem newlines_parts (parts : List PyStr) :
    Toml.newlines (parts.flatMap (fun part => py ", " ++ part) ++ [ch ']']) =
      (parts.map Toml.newlines).flatMap (fun part => py ", " ++ part) ++ [ch ']'] := by
  induction parts with
  | nil => rfl
  | cons part parts ih =>
    have hhead : (parts.flatMap (fun part => py ", " ++ part) ++ [ch ']']).head? ≠ some lf := by
      cases parts with
      | nil => exact fun heq => absurd (Option.some.inj heq) (by decide)
      | cons part parts => exact fun heq => absurd (Option.some.inj heq) (by decide)
    rw [List.flatMap_cons, List.append_assoc, List.append_assoc, Toml.newlines_skip (by decide),
      Toml.newlines_append hhead, ih, List.map_cons, List.flatMap_cons, List.append_assoc, List.append_assoc]

theorem newlines_tomlValue (v : PyValue) : Toml.newlines (tomlValue H v) = tomlValue H (joined H v) := by
  cases v with
  | bool b =>
    refine Toml.newlines_eq (s := py (if b then "true" else "false")) ?_
    cases b <;> decide
  | int n => exact Toml.newlines_eq fun hmem => (Toml.allowed_of_bareChar (Toml.bareChar_repr n _ hmem)).2.2 rfl
  | list xs =>
    have hopen : ch '[' ≠ ch '\r' := by decide
    have hparts : (xs.map fun x => PyValue.str (Toml.newlines (str H x))).map (tomlStr H) =
        (xs.map (tomlStr H)).map Toml.newlines := by
      rw [List.map_map, List.map_map]
      exact List.map_congr_left fun x _ => (newlines_tomlStr H x).symm
    rw [joined, tomlValue_list, tomlValue_list, Toml.newlines_cons hopen, hparts]
    congr 1
    cases xs.map (tomlStr H) with
    | nil => rfl
    | cons part parts =>
      have hhead : (parts.flatMap (fun part => py ", " ++ part) ++ [ch ']']).head? ≠ some lf := by
        cases parts with
        | nil => exact fun heq => absurd (Option.some.inj heq) (by decide)
        | cons part parts => exact fun heq => absurd (Option.some.inj heq) (by decide)
      rw [Toml.intercalate_cons, List.map_cons, Toml.intercalate_cons, List.append_assoc, List.append_assoc,
        Toml.newlines_append hhead, newlines_parts]
  | none | float | str | date | dict => exact newlines_tomlStr H _

theorem newlines_line {kv : String × PyValue} (hkey : BareKey kv.1) :
    Toml.newlines (line H kv) = line H (kv.1, joined H kv.2) := by
  have hk : ch '\r' ∉ py kv.1 := fun hmem => absurd (hkey.2 _ hmem) (by decide)
  rw [line, Toml.newlines_skip hk, Toml.newlines_skip (by decide), newlines_tomlValue]
  rfl

theorem line_end (kv : String × PyValue) : ∃ init c, line H kv = init ++ [c] ∧ c ≠ lf ∧ c ≠ ch '\r' := by
  have hends : ∃ init c, tomlValue H kv.2 = init ++ [c] ∧ c ≠ lf ∧ c ≠ ch '\r' := by
    cases kv.2 with
    | bool b =>
      cases b with
      | true => exact ⟨py "tru", ch 'e', rfl, by decide, by decide⟩
      | false => exact ⟨py "fals", ch 'e', rfl, by decide, by decide⟩
    | int n =>
      obtain ⟨c, s, hcons, -⟩ := (Toml.reads_int n).head
      have hne : py n.repr ≠ [] := by rw [hcons]; exact List.cons_ne_nil _ _
      obtain ⟨-, hlf, hcr⟩ := Toml.allowed_of_bareChar (Toml.bareChar_repr n _ (List.getLast_mem hne))
      exact ⟨_, _, (List.dropLast_append_getLast hne).symm, hlf, hcr⟩
    | list xs => exact ⟨_, ch ']', rfl, by decide, by decide⟩
    | none | float | str | date | dict => exact ⟨_, quoteMark, rfl, by decide, by decide⟩
  obtain ⟨init, c, hvalue, hc⟩ := hends
  refine ⟨py kv.1 ++ (py " = " ++ init), c, ?_, hc⟩
  rw [line, hvalue, List.append_assoc, List.append_assoc]

theorem newlines_toToml {data : List (String × PyValue)} (hne : data ≠ []) (hkeys : ∀ kv ∈ data, BareKey kv.1) :
    Toml.newlines (toToml H data) = Toml.unlines ((data.map fun kv => (kv.1, joined H kv.2)).map (line H)) := by
  have hends : ∀ l ∈ data.map (line H), ∃ init c, l = init ++ [c] ∧ c ≠ lf ∧ c ≠ ch '\r' := by
    intro l hl
    obtain ⟨kv, -, rfl⟩ := List.mem_map.1 hl
    exact line_end H kv
  rw [toToml_eq H hne, Toml.newlines_unlines hends, List.map_map, List.map_map]
  congr 1
  exact List.map_congr_left fun kv hkv => newlines_line H (hkeys kv hkv)

/-! ## Files -/

/-- The characters of the strings are those of the text, among others. -/
theorem mem_tomlStr {v : PyValue} {c : CodePoint} (h : c ∈ str H v) : c ∈ tomlStr H v := by
  rw [tomlStr_eq]
  exact List.mem_cons_of_mem _ (List.mem_append_left _ (mem_escape h))

theorem mem_intercalate {parts : List PyStr} {part : PyStr} (hpart : part ∈ parts) {c : CodePoint} (hc : c ∈ part) :
    c ∈ (py ", ").intercalate parts := by
  cases parts with
  | nil => cases hpart
  | cons first parts =>
    rw [Toml.intercalate_cons]
    rcases List.mem_cons.1 hpart with rfl | hpart
    · exact List.mem_append_left _ hc
    · exact List.mem_append_right _ (List.mem_flatMap.2 ⟨part, hpart, List.mem_append_right _ hc⟩)

theorem of_mem_intercalate {parts : List PyStr} {c : CodePoint} (h : c ∈ (py ", ").intercalate parts) :
    c ∈ py ", " ∨ ∃ part ∈ parts, c ∈ part := by
  cases parts with
  | nil => cases h
  | cons first parts =>
    rw [Toml.intercalate_cons] at h
    rcases List.mem_append.1 h with h | h
    · exact .inr ⟨first, List.mem_cons_self .., h⟩
    · obtain ⟨part, hpart, h⟩ := List.mem_flatMap.1 h
      rcases List.mem_append.1 h with h | h
      · exact .inl h
      · exact .inr ⟨part, List.mem_cons_of_mem _ hpart, h⟩

theorem mem_tomlValue {v : PyValue} {s : PyStr} (hs : s ∈ strings H v) {c : CodePoint} (hc : c ∈ s) :
    c ∈ tomlValue H v := by
  cases v with
  | bool | int => cases hs
  | list xs =>
    obtain ⟨x, hx, rfl⟩ := List.mem_map.1 hs
    rw [tomlValue_list]
    exact List.mem_cons_of_mem _ (List.mem_append_left _
      (mem_intercalate (List.mem_map.2 ⟨x, hx, rfl⟩) (mem_tomlStr H hc)))
  | none | float | str | date | dict =>
    obtain rfl := List.mem_singleton.1 hs
    exact mem_tomlStr H hc

theorem allowed_tomlStr {v : PyValue} (h : ∀ c ∈ str H v, allowed c = true) : ∀ c ∈ tomlStr H v, allowed c = true := by
  intro c hc
  rw [tomlStr_eq] at hc
  rcases List.mem_cons.1 hc with rfl | hc
  · decide
  · rcases List.mem_append.1 hc with hc | hc
    · exact allowed_escape h c hc
    · rw [List.mem_singleton.1 hc]
      decide

theorem allowed_tomlValue {v : PyValue} (h : ∀ s ∈ strings H v, ∀ c ∈ s, allowed c = true) :
    ∀ c ∈ tomlValue H v, allowed c = true := by
  cases v with
  | bool b =>
    have hwords : (py "true").all allowed = true ∧ (py "false").all allowed = true := by decide
    cases b with
    | true => exact List.all_eq_true.1 hwords.1
    | false => exact List.all_eq_true.1 hwords.2
  | int n => exact fun c hc => (Toml.allowed_of_bareChar (Toml.bareChar_repr n c hc)).1
  | list xs =>
    have hcomma : (py ", ").all allowed = true := by decide
    intro c hc
    rw [tomlValue_list] at hc
    rcases List.mem_cons.1 hc with rfl | hc
    · decide
    · rcases List.mem_append.1 hc with hc | hc
      · rcases of_mem_intercalate hc with hc | ⟨part, hpart, hc⟩
        · exact List.all_eq_true.1 hcomma c hc
        · obtain ⟨x, hx, rfl⟩ := List.mem_map.1 hpart
          exact allowed_tomlStr H (h _ (List.mem_map.2 ⟨x, hx, rfl⟩)) c hc
      · rw [List.mem_singleton.1 hc]
        decide
  | none | float | str | date | dict => exact allowed_tomlStr H (h _ (List.mem_singleton_self _))

/-- The strings of a table that is written. -/
def allStrings (data : List (String × PyValue)) : List PyStr := data.flatMap fun kv => strings H kv.2

structure Writable (data : List (String × PyValue)) : Prop where
  keys : ∀ kv ∈ data, BareKey kv.1
  nodup : (data.map fun kv => py kv.1).Nodup
  nonempty : data ≠ []

/-- Pairs whose strings are plain are laid out one to a line. -/
theorem layout_lines {data : List (String × PyValue)} (hkeys : ∀ kv ∈ data, BareKey kv.1)
    (hnodup : (data.map fun kv => py kv.1).Nodup)
    (hplain : ∀ kv ∈ data, ∀ s ∈ strings H kv.2, ∀ c ∈ s, plain c = true) :
    Toml.Layout {} (data.map (line H)) ⟨data.map fun kv => (py kv.1, written H kv.2), [], .root⟩ := by
  have hmembers : List.Forall₂ Member (data.map (line H)) (data.map fun kv => (py kv.1, written H kv.2)) := by
    rw [List.forall₂_map_left_iff, List.forall₂_map_right_iff, List.forall₂_same]
    exact fun kv hkv => member_line H (hkeys kv hkv) (hplain kv hkv)
  refine (Toml.hole_root []).layout hmembers [] ?_
  rw [List.nil_append, List.map_map]
  exact hnodup

theorem allowed_line {kv : String × PyValue} (hkey : BareKey kv.1)
    (hplain : ∀ s ∈ strings H kv.2, ∀ c ∈ s, plain c = true) : ∀ c ∈ line H kv, allowed c = true := by
  intro c hc
  have hequals : (py " = ").all allowed = true := by decide
  rcases List.mem_append.1 hc with hc | hc
  · exact (Toml.allowed_of_bareChar (hkey.2 c hc)).1
  · rcases List.mem_append.1 hc with hc | hc
    · exact List.all_eq_true.1 hequals c hc
    · refine allowed_tomlValue H (fun s hs d hd => ?_) c hc
      have hd := hplain s hs d hd
      rw [plain, Bool.and_eq_true] at hd
      exact hd.1

theorem loads_plain {data : List (String × PyValue)} (hdata : Writable data)
    (hplain : ∀ s ∈ allStrings H data, ∀ c ∈ s, plain c = true) :
    Toml.loads (toToml H data) = some (data.map fun kv => (py kv.1, written H kv.2)) ∧
      ∀ c ∈ toToml H data, allowed c = true := by
  have hstrings : ∀ kv ∈ data, ∀ s ∈ strings H kv.2, ∀ c ∈ s, plain c = true :=
    fun kv hkv s hs => hplain s (List.mem_flatMap.2 ⟨kv, hkv, hs⟩)
  have hallowed : ∀ l ∈ data.map (line H), ∀ c ∈ l, allowed c = true := by
    intro l hl
    obtain ⟨kv, hkv, rfl⟩ := List.mem_map.1 hl
    exact allowed_line H (hdata.keys kv hkv) (hstrings kv hkv)
  rw [toToml_eq H hdata.nonempty]
  refine ⟨(layout_lines H hdata.keys hdata.nodup hstrings).loads hallowed, fun c hc => ?_⟩
  obtain ⟨l, hl, hc⟩ := List.mem_flatMap.1 hc
  rcases List.mem_append.1 hc with hc | hc
  · exact hallowed l hl c hc
  · rw [List.mem_singleton.1 hc]
    decide

/-- A line end in a string, and the lines before it are laid out: the reader stops there. -/
theorem document_broken {data : List (String × PyValue)} (hkeys : ∀ kv ∈ data, BareKey kv.1)
    (hnodup : (data.map fun kv => py kv.1).Nodup)
    (hallowed : ∀ kv ∈ data, ∀ s ∈ strings H kv.2, ∀ c ∈ s, allowed c = true)
    (h : ∃ kv ∈ data, ∃ s ∈ strings H kv.2, lf ∈ s) {size : Nat} (hsize : ∀ kv ∈ data, (line H kv).length ≤ size) (n : Nat) :
    Toml.document size n {} (Toml.unlines (data.map (line H))) = none := by
  let broken : String × PyValue → Bool := fun kv => (strings H kv.2).any fun s => lf ∈ s
  have hbroken : ∀ kv, broken kv = true ↔ ∃ s ∈ strings H kv.2, lf ∈ s := by
    intro kv
    simp only [broken, List.any_eq_true, decide_eq_true_eq]
  -- The first pair with such a string.
  have hfirst : ∃ kv pre post, data = pre ++ kv :: post ∧ broken kv = true ∧ ∀ x ∈ pre, broken x = false := by
    obtain ⟨kv, hkv, hs⟩ := h
    cases hfind : data.find? broken with
    | none => exact absurd ((hbroken kv).2 hs) (List.find?_eq_none.1 hfind kv hkv)
    | some first =>
      obtain ⟨hfirst, pre, post, hdata, hpre⟩ := List.find?_eq_some_iff_append.1 hfind
      exact ⟨first, pre, post, hdata, hfirst, fun x hx => by simpa using hpre x hx⟩
  obtain ⟨kv, pre, post, rfl, hkv, hpre⟩ := hfirst
  have hleft : ∀ {x}, x ∈ pre → x ∈ pre ++ kv :: post := fun hx => List.mem_append_left _ hx
  have hmid : kv ∈ pre ++ kv :: post := List.mem_append_right _ (List.mem_cons_self ..)
  have hlayout := @layout_lines H pre (fun x hx => hkeys x (hleft hx))
    (hnodup.sublist ((List.sublist_append_left pre _).map _)) fun x hx s hs c hc => by
      rw [plain, Bool.and_eq_true, decide_eq_true_eq]
      refine ⟨hallowed x (hleft hx) s hs c hc, ?_⟩
      rintro rfl
      have hx := Bool.eq_false_iff.1 (hpre x hx)
      exact hx ((hbroken x).2 ⟨s, hs, hc⟩)
  have hstuck := @stuck_line H kv (hkeys kv hmid) ⟨pre.map fun kv => (py kv.1, written H kv.2), [], .root⟩
    (hallowed kv hmid) ((hbroken kv).1 hkv)
  have htext : Toml.unlines ((pre ++ kv :: post).map (line H)) =
      Toml.unlines (pre.map (line H)) ++ (line H kv ++ lf :: Toml.unlines (post.map (line H))) := by
    rw [List.map_append, List.map_cons, Toml.unlines, List.flatMap_append]
    congr 1
    exact Toml.unlines_cons _ _
  rw [htext]
  refine hlayout.stuck hstuck (hsize kv hmid) _ n fun l hl => ?_
  obtain ⟨x, hx, rfl⟩ := List.mem_map.1 hl
  exact hsize x (hleft hx)

theorem loads_not_plain {data : List (String × PyValue)} (hdata : Writable data)
    (h : ∃ s ∈ allStrings H data, ∃ c ∈ s, plain c = false) : Toml.loads (toToml H data) = none := by
  rw [Toml.loads, newlines_toToml H hdata.nonempty hdata.keys]
  set data' := data.map fun kv => (kv.1, joined H kv.2) with hdata'
  have hlines : ∀ kv ∈ data', line H kv ∈ data'.map (line H) := fun kv hkv => List.mem_map.2 ⟨kv, hkv, rfl⟩
  have hlength := Toml.length_unlines (data'.map (line H))
  split_ifs with hall
  · have hchars : ∀ kv ∈ data', ∀ s ∈ strings H kv.2, ∀ c ∈ s, allowed c = true := by
      intro kv hkv s hs c hc
      refine List.all_eq_true.1 hall c (List.mem_flatMap.2 ⟨line H kv, hlines kv hkv, ?_⟩)
      exact List.mem_append_left _ (List.mem_append_right _ (List.mem_append_right _ (mem_tomlValue H hs hc)))
    refine document_broken H ?_ ?_ hchars ?_ (fun kv hkv => Nat.le_succ_of_le (hlength.2 _ (hlines kv hkv))) _
    · intro kv hkv
      obtain ⟨x, hx, rfl⟩ := List.mem_map.1 hkv
      exact hdata.keys x hx
    · rw [hdata', List.map_map]
      exact hdata.nodup
    · obtain ⟨s, hs, c, hc, hbad⟩ := h
      obtain ⟨kv, hkv, hs⟩ := List.mem_flatMap.1 hs
      have hkv' : (kv.1, joined H kv.2) ∈ data' := List.mem_map.2 ⟨kv, hkv, rfl⟩
      have hs' : Toml.newlines s ∈ strings H (joined H kv.2) := by
        rw [strings_joined]
        exact List.mem_map.2 ⟨s, hs, rfl⟩
      refine ⟨_, hkv', _, hs', ?_⟩
      have hallowed := hchars _ hkv' _ hs'
      by_cases hcr : c = ch '\r'
      · rw [hcr] at hc
        rcases Toml.newlines_bad hc with hstays | hends
        · exact absurd (hallowed _ hstays) (by decide)
        · exact hends
      · have hc' := Toml.mem_newlines hcr hc
        rw [plain, hallowed c hc', Bool.true_and, decide_eq_false_iff_not, not_not] at hbad
        rwa [hbad] at hc'
  · rfl

end Toolstack.Admin.BrokerConfig
