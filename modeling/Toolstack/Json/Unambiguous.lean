import Toolstack.Json.Value

/-! Rendered values are self-delimiting: a scanner that only counts brackets and watches for
quotes finds the end of a rendered value in whatever text follows it. Two equal texts that start
with a value therefore start with the same rendered value. -/

namespace Toolstack.Json

inductive ScanMode
  | plain
  | inString
  | escaped

/-- Cut a text at the first comma or closing bracket outside every string and bracket. -/
def scan : Nat → ScanMode → Text → Text × Text
  | _, _, [] => ([], [])
  | d, .plain, c :: s =>
    if c = '"' then (scan d .inString s).map (c :: ·) id
    else if c = '[' ∨ c = '{' then (scan (d + 1) .plain s).map (c :: ·) id
    else if c = ']' ∨ c = '}' then
      match d with
      | 0 => ([], c :: s)
      | d + 1 => (scan d .plain s).map (c :: ·) id
    else if c = ',' ∧ d = 0 then ([], c :: s)
    else (scan d .plain s).map (c :: ·) id
  | d, .inString, c :: s =>
    (scan d (if c = '"' then .plain else if c = '\\' then .escaped else .inString) s).map (c :: ·) id
  | d, .escaped, c :: s => (scan d .inString s).map (c :: ·) id

/-- Scanning `x` takes all of it and leaves mode `m` in mode `m'`, at the same depth. -/
def Neutral (d : Nat) (m m' : ScanMode) (x : Text) : Prop :=
  ∀ s, scan d m (x ++ s) = (scan d m' s).map (x ++ ·) id

attribute [local simp] scan

section Neutral
variable {d : Nat} {m m' m'' : ScanMode} {x y : Text}

theorem Neutral.nil : Neutral d m m [] := fun _ => rfl

theorem Neutral.append (hx : Neutral d m m' x) (hy : Neutral d m' m'' y) :
    Neutral d m m'' (x ++ y) := by
  intro s
  rw [List.append_assoc, hx, hy]
  simp [Prod.map, List.append_assoc]

theorem Neutral.cons {c : Char} (hc : Neutral d m m' [c]) (hx : Neutral d m' m'' x) :
    Neutral d m m'' (c :: x) :=
  hc.append hx

theorem neutral_char {c : Char} (h : c ∉ ['"', '[', ']', '{', '}', ',']) :
    Neutral d .plain .plain [c] := by
  intro s
  simp only [List.mem_cons, List.not_mem_nil, or_false, not_or] at h
  simp [h]

theorem neutral_of_forall (h : ∀ c ∈ x, c ∉ ['"', '[', ']', '{', '}', ',']) :
    Neutral d .plain .plain x := by
  induction x with
  | nil => exact .nil
  | cons c x ih =>
    exact (neutral_char (h c (List.mem_cons_self ..))).cons
      (ih fun c' hc' => h c' (List.mem_cons_of_mem _ hc'))

/-- A closed text is decided character by character. -/
theorem neutral_of_all (h : (x.all fun c => c ∉ ['"', '[', ']', '{', '}', ',']) = true) :
    Neutral d .plain .plain x :=
  neutral_of_forall fun c hc => of_decide_eq_true (List.all_eq_true.1 h c hc)

theorem neutral_comma : Neutral (d + 1) .plain .plain [','] := fun s => by simp

theorem neutral_inString {c : Char} (h : c ≠ '"') (h' : c ≠ '\\') :
    Neutral d .inString .inString [c] := fun s => by simp [h, h']

theorem neutral_backslash {c : Char} : Neutral d .inString .inString ['\\', c] := by
  have hopen : Neutral d .inString .escaped ['\\'] := fun s => by simp
  have hnext : Neutral d .escaped .inString [c] := fun s => by simp
  exact hopen.cons hnext

theorem digitChar_inString (n : Nat) : Nat.digitChar (n % 16) ≠ '"' ∧ Nat.digitChar (n % 16) ≠ '\\' := by
  have hlt : n % 16 < 16 := Nat.mod_lt _ (by decide)
  have hall : ∀ k < 16, Nat.digitChar k ≠ '"' ∧ Nat.digitChar k ≠ '\\' := by decide
  exact hall _ hlt

theorem neutral_hex4 (n : Nat) : Neutral d .inString .inString (hex4 n) := by
  have hdigit : ∀ k, Neutral d .inString .inString [Nat.digitChar (k % 16)] := fun k =>
    neutral_inString (digitChar_inString k).1 (digitChar_inString k).2
  exact (hdigit _).cons ((hdigit _).cons ((hdigit _).cons (hdigit _)))

theorem neutral_unicode (n : Nat) : Neutral d .inString .inString ('\\' :: 'u' :: hex4 n) :=
  neutral_backslash.append (neutral_hex4 n)

theorem neutral_escape (c : CodePoint) : Neutral d .inString .inString (escape c) := by
  unfold escape
  simp only
  split_ifs with h₁ h₂ _ _ _ _ _ hplain
  iterate 7 exact neutral_backslash
  · have hne : ∀ k : Char, c.val ≠ k.toNat → Char.ofNat c.val ≠ k := by
      rintro k hk rfl
      refine hk ?_
      have hvalid : c.val.isValidChar := Or.inl (by omega)
      rw [Char.ofNat, dif_pos hvalid]
      rfl
    exact neutral_inString (hne _ h₁) (hne _ h₂)
  · exact neutral_unicode _
  · exact (neutral_unicode _).append (neutral_unicode _)

theorem neutral_escapes (s : PyStr) : Neutral d .inString .inString (s.flatMap escape) := by
  induction s with
  | nil => exact .nil
  | cons c s ih => exact (neutral_escape c).append ih

theorem neutral_quote (s : PyStr) : Neutral d .plain .plain (quote s) := by
  have hopen : Neutral d .plain .inString ['"'] := fun s => by simp
  have hclose : Neutral d .inString .plain ['"'] := fun s => by simp
  exact hopen.cons ((neutral_escapes s).append hclose)

theorem neutral_bracket {o c : Char} (ho : o = '[' ∨ o = '{') (hc : c = ']' ∨ c = '}')
    (hx : Neutral (d + 1) .plain .plain x) : Neutral d .plain .plain (o :: (x ++ [c])) := by
  intro s
  have hopen : scan d .plain (o :: (x ++ [c] ++ s)) =
      (scan (d + 1) .plain (x ++ [c] ++ s)).map (o :: ·) id := by
    rcases ho with rfl | rfl <;> simp
  have hclose : scan (d + 1) .plain (c :: s) = (scan d .plain s).map (c :: ·) id := by
    rcases hc with rfl | rfl <;> simp
  rw [List.cons_append, hopen, List.append_assoc, hx, List.singleton_append, hclose]
  simp [Prod.map]

theorem neutral_join {sep : Text} (hsep : Neutral (d + 1) .plain .plain sep) :
    ∀ xs : List Text, (∀ x ∈ xs, Neutral (d + 1) .plain .plain x) →
      Neutral (d + 1) .plain .plain (join sep xs)
  | [], _ => .nil
  | [x], h => h x (List.mem_cons_self ..)
  | x :: y :: xs, h =>
    (h x (List.mem_cons_self ..)).append
      (hsep.append (neutral_join hsep (y :: xs) fun z hz => h z (List.mem_cons_of_mem _ hz)))

end Neutral

/-! ## Rendered values are neutral -/

/-- The separators show no quote and no bracket. -/
def Style.Clean (st : Style) : Prop :=
  (∀ d, Neutral (d + 1) .plain .plain st.comma) ∧ ∀ d, Neutral d .plain .plain st.colon

theorem Style.clean_compact : Style.compact.Clean :=
  ⟨fun _ => neutral_comma, fun _ => neutral_of_all (by decide)⟩

theorem Style.clean_sorted : Style.sorted.Clean :=
  ⟨fun _ => neutral_comma.append (neutral_of_all (by decide)),
    fun _ => neutral_of_all (by decide)⟩

theorem neutral_int (d : Nat) (n : Int) : Neutral d .plain .plain n.repr.toList := by
  have hnat : ∀ k : Nat, Neutral d .plain .plain k.repr.toList := fun k => by
    refine neutral_of_forall fun c hc => ?_
    rw [Nat.toList_repr] at hc
    have hdigit := Nat.isDigit_of_mem_toDigits (by decide) (by decide) hc
    have hspecial : (['"', '[', ']', '{', '}', ','].all fun k => k.isDigit = false) = true := by decide
    intro hmem
    have hnot : c.isDigit = false := of_decide_eq_true (List.all_eq_true.1 hspecial c hmem)
    rw [hnot] at hdigit
    cases hdigit
  cases n with
  | ofNat k => exact hnat k
  | negSucc k =>
    have htext : (Int.negSucc k).repr.toList = '-' :: (k + 1).repr.toList := by
      simp [Int.repr, String.toList_append]
    rw [htext]
    exact (neutral_char (by decide)).cons (hnat _)

theorem neutral_float (d : Nat) (x : PyFloat) : Neutral d .plain .plain (floatText x) := by
  cases x with
  | finite x =>
    refine neutral_of_forall fun c hc => ?_
    have hplain := List.all_eq_true.1 x.plain c hc
    intro hmem
    have hspecial : (['"', '[', ']', '{', '}', ','].all fun k =>
        (k.isDigit || decide (k = '.') || decide (k = 'e') || decide (k = '+') ||
          decide (k = '-')) = false) = true := by decide
    rw [of_decide_eq_true (List.all_eq_true.1 hspecial c hmem)] at hplain
    cases hplain
  | nan => exact neutral_of_all (by decide)
  | inf negative => cases negative <;> exact neutral_of_all (by decide)

theorem neutral_member {st : Style} (hst : st.Clean) {d : Nat} {kv : PyStr × Text}
    (h : Neutral d .plain .plain kv.2) : Neutral d .plain .plain (member st kv) :=
  (neutral_quote kv.1).append ((hst.2 d).append h)

theorem mem_order {β : Type} (st : Style) (kvs : List (PyStr × β)) (kv : PyStr × β) :
    kv ∈ st.order kvs ↔ kv ∈ kvs := by
  unfold Style.order
  split_ifs
  · exact List.mem_insertionSort _
  · rfl

mutual
theorem neutral_dumps {st : Style} (hst : st.Clean) :
    ∀ (v : Json) (d : Nat), Neutral d .plain .plain (dumps st v)
  | null, _ | bool true, _ | bool false, _ => neutral_of_all (by simp only [dumps]; decide)
  | int n, d => neutral_int d n
  | float x, d => neutral_float d x
  | str s, _ => neutral_quote s
  | arr xs, d =>
    neutral_bracket (.inl rfl) (.inl rfl) (neutral_join (hst.1 d) _ (neutral_dumpsAll hst xs (d + 1)))
  | obj kvs, d => by
    refine neutral_bracket (.inr rfl) (.inr rfl) (neutral_join (hst.1 d) _ fun x hx => ?_)
    obtain ⟨kv, hkv, rfl⟩ := List.mem_map.1 hx
    exact neutral_member hst
      (neutral_dumpsMembers hst kvs (d + 1) kv ((mem_order st _ kv).1 hkv))

theorem neutral_dumpsAll {st : Style} (hst : st.Clean) :
    ∀ (xs : List Json) (d : Nat), ∀ x ∈ dumpsAll st xs, Neutral d .plain .plain x
  | [], _ => fun _ h => nomatch h
  | v :: xs, d => fun x hx => by
    rcases List.mem_cons.1 hx with rfl | hmem
    · exact neutral_dumps hst v d
    · exact neutral_dumpsAll hst xs d x hmem

theorem neutral_dumpsMembers {st : Style} (hst : st.Clean) :
    ∀ (kvs : List (PyStr × Json)) (d : Nat), ∀ kv ∈ dumpsMembers st kvs,
      Neutral d .plain .plain kv.2
  | [], _ => fun _ h => nomatch h
  | (k, v) :: kvs, d => fun kv hkv => by
    rcases List.mem_cons.1 hkv with rfl | hmem
    · exact neutral_dumps hst v d
    · exact neutral_dumpsMembers hst kvs d kv hmem
end

/-- The texts that may follow a value inside an array or an object. -/
def Delimited : Text → Prop
  | ',' :: _ | ']' :: _ | '}' :: _ => True
  | [] => True
  | _ => False

theorem scan_delimited {s : Text} (h : Delimited s) : scan 0 .plain s = ([], s) := by
  unfold Delimited at h
  split at h
  · simp
  · simp
  · simp
  · rfl
  · cases h

/-- Two equal texts that begin with a value begin with the same rendered value. -/
theorem dumps_append_inj {st : Style} (hst : st.Clean) {v w : Json} {s t : Text}
    (hs : Delimited s) (ht : Delimited t) (h : dumps st v ++ s = dumps st w ++ t) :
    dumps st v = dumps st w ∧ s = t := by
  have hv := neutral_dumps hst v 0 s
  have hw := neutral_dumps hst w 0 t
  rw [scan_delimited hs] at hv
  rw [scan_delimited ht, ← h, hv] at hw
  simpa [Prod.map] using hw

end Toolstack.Json
