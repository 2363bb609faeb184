import Toolstack.Toml.Reader

/-! What the reader makes of a text that was put together from parts: strings, numbers, arrays and
inline tables, lines, and whole tables. -/

namespace Toolstack.Toml

open Url (ch)

/-! ## Strings and keys -/

/-- After the opening mark, a basic string and nothing more. -/
def Body (body v : PyStr) : Prop := ∀ rest, basicString (body ++ rest) = some (v, rest)

theorem body_nil : Body [quoteMark] [] := by
  intro rest
  have hquote : basicString (quoteMark :: rest) = some ([], rest) := by
    unfold basicString
    exact if_pos rfl
  exact hquote

theorem Body.plain {c : CodePoint} {body v : PyStr} (h : Body body v) (hquote : c ≠ quoteMark) (hlf : c ≠ lf)
    (hescape : c ≠ backslash) : Body (c :: body) (c :: v) := by
  intro rest
  have hread : basicString (c :: (body ++ rest)) = (basicString (body ++ rest)).map fun r => (c :: r.1, r.2) := by
    rw [basicString.eq_def]
    simp only [hquote, hlf, hescape, if_false]
  rw [List.cons_append, hread, h rest]
  rfl

theorem Body.escaped {e d : CodePoint} {body v : PyStr} (h : Body body v) (he : simpleEscape e = some d) :
    Body (backslash :: e :: body) (d :: v) := by
  intro rest
  have hmarks : backslash ≠ quoteMark ∧ backslash ≠ lf := by decide
  have hread : basicString (backslash :: e :: (body ++ rest)) =
      (basicString (body ++ rest)).map fun r => (d :: r.1, r.2) := by
    rw [basicString.eq_def]
    simp only [hmarks.1, hmarks.2, if_false, if_true, he]
  rw [List.cons_append, List.cons_append, hread, h rest]
  rfl

/-- A key, up to what cannot belong to it. -/
structure ReadsKey (text k : PyStr) : Prop where
  head : ∃ c s, text = c :: s ∧ isBlank c = false ∧ c ≠ ch '#' ∧ c ≠ ch '[' ∧ c ≠ ch '\x7d'
  run : ∀ rest, rest.head?.any bareChar = false → key (text ++ rest) = some (k, rest)

theorem readsKey_bare {k : PyStr} (hne : k ≠ []) (hbare : ∀ c ∈ k, bareChar c = true) : ReadsKey k k := by
  obtain ⟨c, s, rfl⟩ := List.exists_cons_of_ne_nil hne
  have hc := hbare c (List.mem_cons_self ..)
  have hcases : ∀ d, bareChar d = false → c ≠ d := by
    rintro d hd rfl
    rw [hc] at hd
    cases hd
  refine ⟨⟨c, s, rfl, ?_, hcases _ (by decide), hcases _ (by decide), hcases _ (by decide)⟩, fun rest hrest => ?_⟩
  · simp only [isBlank, isWs, Bool.or_eq_false_iff, decide_eq_false_iff_not]
    exact ⟨⟨hcases _ (by decide), hcases _ (by decide)⟩, hcases _ (by decide)⟩
  · have hquote : c ≠ quoteMark := hcases _ (by decide)
    have hstop : rest.takeWhile bareChar = [] ∧ rest.dropWhile bareChar = rest := by
      cases rest with
      | nil => exact ⟨rfl, rfl⟩
      | cons d rest =>
        have hd : bareChar d = false := by simpa using hrest
        simp [hd]
    rw [List.cons_append, key, if_neg hquote, if_pos hc, ← List.cons_append, List.takeWhile_append_of_pos hbare,
      List.dropWhile_append_of_pos hbare, hstop.1, hstop.2, List.append_nil]

theorem readsKey_quoted {body v : PyStr} (h : Body body v) : ReadsKey (quoteMark :: body) v :=
  ⟨⟨quoteMark, body, rfl, by decide, by decide, by decide, by decide⟩, fun rest _ => h rest⟩

/-! ## Values -/

/-- A value, up to what does not cling to it. -/
structure Reads (text : PyStr) (v : Json) : Prop where
  head : ∃ c s, text = c :: s ∧ isBlank c = false ∧ c ≠ ch ']'
  run : ∀ n rest, text.length ≤ n → rest.head?.any clings = false → value n (text ++ rest) = some (v, rest)

theorem reads_string {body v : PyStr} (h : Body body v) (hfirst : body = [quoteMark] ∨ body.head? ≠ some quoteMark) :
    Reads (quoteMark :: body) (.str v) := by
  refine ⟨⟨quoteMark, body, rfl, by decide, by decide⟩, fun n rest hn hrest => ?_⟩
  obtain ⟨n, rfl⟩ : ∃ m, n = m + 1 := ⟨n - 1, by simp at hn; omega⟩
  have htriple : (body ++ rest).take 2 ≠ [quoteMark, quoteMark] := by
    rcases hfirst with rfl | hfirst
    · intro htake
      cases rest with
      | nil => cases htake
      | cons d rest =>
        obtain rfl : d = quoteMark := by simpa using htake
        exact absurd hrest (by simp [clings])
    · intro htake
      cases body with
      | nil =>
        have hread := h []
        cases hread
      | cons c body =>
        obtain ⟨rfl, -⟩ := List.cons.inj htake
        exact hfirst rfl
  rw [List.cons_append, value, if_pos rfl, if_neg htriple, h rest]
  rfl

theorem reads_true : Reads (py "true") (.bool true) := by
  refine ⟨⟨_, _, rfl, by decide, by decide⟩, fun n rest hn _ => ?_⟩
  obtain ⟨n, rfl⟩ : ∃ m, n = m + 1 := ⟨n - 1, by simp [py] at hn; omega⟩
  rfl

theorem reads_false : Reads (py "false") (.bool false) := by
  refine ⟨⟨_, _, rfl, by decide, by decide⟩, fun n rest hn _ => ?_⟩
  obtain ⟨n, rfl⟩ : ∃ m, n = m + 1 := ⟨n - 1, by simp [py] at hn; omega⟩
  rfl

/-! ## Numbers -/

theorem repr_lt_ten {n : Nat} (h : n < 10) : py n.repr = [Url.byte (0x30 + n)] := by
  have hall : ∀ n < 10, py n.repr = [Url.byte (0x30 + n)] := by decide
  exact hall n h

theorem repr_ge_ten {n : Nat} (h : 10 ≤ n) : py n.repr = py (n / 10).repr ++ [Url.byte (0x30 + n % 10)] := by
  have hlast : py (n % 10).repr = [Url.byte (0x30 + n % 10)] := repr_lt_ten (Nat.mod_lt _ (by decide))
  rw [← hlast, Nat.repr_eq_repr_append_repr h, py, String.toList_append, List.map_append]
  rfl

theorem decimal_append (ds : PyStr) (c : CodePoint) : decimal (ds ++ [c]) = 10 * decimal ds + (c.val - 0x30) := by
  rw [decimal, List.foldl_append]
  rfl

theorem decimal_byte {k : Nat} (h : k < 10) : (Url.byte (0x30 + k)).val - 0x30 = k ∧
    Url.isDigit (Url.byte (0x30 + k)) = true := by
  have hall : ∀ k < 10, (Url.byte (0x30 + k)).val - 0x30 = k ∧ Url.isDigit (Url.byte (0x30 + k)) = true := by decide
  exact hall k h

/-- The decimal text of a number: digits only, of the right value, without a leading zero. -/
theorem repr_digits (n : Nat) : (∀ c ∈ py n.repr, Url.isDigit c = true) ∧ decimal (py n.repr) = n ∧
    ∃ c s, py n.repr = c :: s ∧ (c = ch '0' → s = [] ∧ n = 0) := by
  induction n using Nat.strong_induction_on with
  | _ n ih =>
    by_cases hn : n < 10
    · have hbyte := decimal_byte hn
      rw [repr_lt_ten hn]
      refine ⟨fun c hc => ?_, ?_, Url.byte (0x30 + n), [], rfl, fun hzero => ⟨rfl, ?_⟩⟩
      · rw [List.mem_singleton.1 hc]
        exact hbyte.2
      · have hone := decimal_append [] (Url.byte (0x30 + n))
        rw [hbyte.1] at hone
        exact hone.trans (Nat.zero_add n)
      · rw [hzero] at hbyte
        exact hbyte.1.symm
    · have hge : 10 ≤ n := Nat.not_lt.1 hn
      have hbyte := decimal_byte (Nat.mod_lt n (show 0 < 10 by decide))
      obtain ⟨hdigits, hvalue, c, s, hcons, hzero⟩ := ih (n / 10) (Nat.div_lt_self (by omega) (by decide))
      rw [repr_ge_ten hge]
      refine ⟨fun c hc => ?_, ?_, c, s ++ [Url.byte (0x30 + n % 10)], by rw [hcons]; rfl, fun hc => ?_⟩
      · rcases List.mem_append.1 hc with hc | hc
        · exact hdigits c hc
        · rw [List.mem_singleton.1 hc]
          exact hbyte.2
      · rw [decimal_append, hvalue, hbyte.1]
        exact Nat.div_add_mod n 10
      · have := (hzero hc).2
        omega

/-- The digits of a number are read up to what does not cling to them. -/
theorem digits_run (n : Nat) {rest : PyStr} (hrest : rest.head?.any clings = false) :
    (py n.repr ++ rest).takeWhile Url.isDigit = py n.repr ∧ (py n.repr ++ rest).dropWhile Url.isDigit = rest ∧
      ¬(py n.repr = [] ∨ ((py n.repr).head? = some (ch '0') ∧ (py n.repr).length ≠ 1) ∨
        rest.head?.any clings = true) := by
  obtain ⟨hdigits, -, c, s, hcons, hzero⟩ := repr_digits n
  have hstop : rest.takeWhile Url.isDigit = [] ∧ rest.dropWhile Url.isDigit = rest := by
    cases rest with
    | nil => exact ⟨rfl, rfl⟩
    | cons d rest =>
      have hd : Url.isDigit d = false := by
        simp only [List.head?_cons, Option.any_some, clings, bareChar, Bool.or_eq_false_iff] at hrest
        exact hrest.1.1.1.1.1.1.2
      simp [hd]
  rw [List.takeWhile_append_of_pos hdigits, List.dropWhile_append_of_pos hdigits, hstop.1, hstop.2, List.append_nil]
  refine ⟨rfl, rfl, ?_⟩
  rw [hcons]
  rintro (hnil | ⟨hhead, hlen⟩ | hany)
  · cases hnil
  · exact hlen (by rw [(hzero (Option.some.inj hhead)).1]; rfl)
  · rw [hrest] at hany
    cases hany

theorem ne_of_isDigit {c : CodePoint} (hc : Url.isDigit c = true) : ∀ d, Url.isDigit d = false → c ≠ d := by
  rintro d hd rfl
  rw [hc] at hd
  cases hd

theorem integer_nat (n : Nat) {rest : PyStr} (hrest : rest.head?.any clings = false) :
    integer (py n.repr ++ rest) = some ((n : Int), rest) := by
  obtain ⟨htake, hdrop, hleading⟩ := digits_run n hrest
  obtain ⟨hdigits, hvalue, c, s, hcons, -⟩ := repr_digits n
  have hne := ne_of_isDigit (hdigits c (by rw [hcons]; exact List.mem_cons_self ..))
  have hsign : ¬ (py n.repr ++ rest).head? = some (ch '-') ∧ ¬ (py n.repr ++ rest).head? = some (ch '+') := by
    rw [hcons, List.cons_append, List.head?_cons, Option.some.injEq, Option.some.injEq]
    exact ⟨hne _ (by decide), hne _ (by decide)⟩
  unfold integer
  simp only [if_neg hsign.1, if_neg hsign.2, htake, hdrop, if_neg hleading, hvalue, Int.one_mul]

theorem integer_neg (n : Nat) {rest : PyStr} (hrest : rest.head?.any clings = false) :
    integer (ch '-' :: (py n.repr ++ rest)) = some (-(n : Int), rest) := by
  obtain ⟨htake, hdrop, hleading⟩ := digits_run n hrest
  obtain ⟨-, hvalue, -⟩ := repr_digits n
  unfold integer
  simp only [List.head?_cons, List.tail_cons, if_true, htake, hdrop, if_neg hleading, hvalue, Int.neg_mul, Int.one_mul]

/-- A number from its first character on. -/
theorem value_integer {c : CodePoint} {s : PyStr} (hc : Url.isDigit c = true ∨ c = ch '-') (n : Nat) :
    value (n + 1) (c :: s) = (integer (c :: s)).map fun (k, rest) => (.int k, rest) := by
  have hne : ∀ d, Url.isDigit d = false → d ≠ ch '-' → c ≠ d := by
    intro d hd hminus
    rcases hc with hc | rfl
    · exact ne_of_isDigit hc d hd
    · exact hminus.symm
  have hword : ∀ (k : Nat) (d : CodePoint) (w : PyStr), c ≠ d → (c :: s).take k ≠ d :: w := by
    intro k d w hd htake
    cases k with
    | zero => cases htake
    | succ k => exact hd (List.cons.inj htake).1
  have htrue : (c :: s).take 4 ≠ py "true" := hword 4 (ch 't') (py "rue") (hne _ (by decide) (by decide))
  have hfalse : (c :: s).take 5 ≠ py "false" := hword 5 (ch 'f') (py "alse") (hne _ (by decide) (by decide))
  rw [value, if_neg (hne _ (by decide) (by decide)), if_neg (hne _ (by decide) (by decide)),
    if_neg (hne _ (by decide) (by decide)), if_neg htrue, if_neg hfalse]

theorem reads_nat (n : Nat) : Reads (py n.repr) (.int n) := by
  obtain ⟨hdigits, -, c, s, hcons, -⟩ := repr_digits n
  have hc : Url.isDigit c = true := hdigits c (by rw [hcons]; exact List.mem_cons_self ..)
  have hne := ne_of_isDigit hc
  refine ⟨⟨c, s, hcons, ?_, hne _ (by decide)⟩, fun m rest hm hrest => ?_⟩
  · simp only [isBlank, isWs, Bool.or_eq_false_iff, decide_eq_false_iff_not]
    exact ⟨⟨hne _ (by decide), hne _ (by decide)⟩, hne _ (by decide)⟩
  obtain ⟨m, rfl⟩ : ∃ k, m = k + 1 := ⟨m - 1, by rw [hcons, List.length_cons] at hm; omega⟩
  have hread := integer_nat n hrest
  rw [hcons, List.cons_append] at hread ⊢
  rw [value_integer (.inl hc), hread]
  rfl

theorem repr_negSucc (n : Nat) : py (Int.negSucc n).repr = ch '-' :: py (n + 1).repr := by
  have hrepr : (Int.negSucc n).repr = "-" ++ (n + 1).repr := rfl
  rw [hrepr, py, String.toList_append, List.map_append]
  rfl

theorem allowed_of_bareChar {c : CodePoint} (h : bareChar c = true) : allowed c = true ∧ c ≠ lf ∧ c ≠ ch '\r' := by
  have hval : ∀ d : CodePoint, d.val < 0x20 → c ≠ d := by
    rintro d hd rfl
    have hbare : ∀ n < 0x20, bareChar (Url.byte n) = false := by decide
    have hfalse := hbare _ hd
    rw [Url.byte_val, h] at hfalse
    cases hfalse
  refine ⟨?_, hval _ (by decide), hval _ (by decide)⟩
  simp only [bareChar, Url.isAlpha, Url.isDigit, Bool.or_eq_true, Bool.and_eq_true, decide_eq_true_eq] at h
  have hmarks : (ch '_').val = 0x5F ∧ (ch '-').val = 0x2D := by decide
  simp only [allowed, CodePoint.isSurrogate, Bool.or_eq_true, Bool.and_eq_true, beq_iff_eq, decide_eq_true_eq,
    bne_iff_ne, Bool.not_eq_true', Bool.and_eq_false_iff, decide_eq_false_iff_not]
  rcases h with ((h | h) | rfl) | rfl <;> omega

theorem integer_int (k : Int) {rest : PyStr} (hrest : rest.head?.any clings = false) :
    integer (py k.repr ++ rest) = some (k, rest) := by
  cases k with
  | ofNat n => exact integer_nat n hrest
  | negSucc n =>
    rw [repr_negSucc]
    exact integer_neg (n + 1) hrest

theorem repr_injective {m n : Int} (h : py m.repr = py n.repr) : m = n := by
  have hend : ([] : PyStr).head?.any clings = false := rfl
  have hm := integer_int m hend
  rw [h, integer_int n hend] at hm
  exact (Prod.mk.inj (Option.some.inj hm)).1.symm

theorem bareChar_of_isDigit {c : CodePoint} (h : Url.isDigit c = true) : bareChar c = true := by
  rw [bareChar, h, Bool.or_true, Bool.true_or, Bool.true_or]

theorem bareChar_repr (k : Int) : ∀ c ∈ py k.repr, bareChar c = true := by
  cases k with
  | ofNat n => exact fun c hc => bareChar_of_isDigit ((repr_digits n).1 c hc)
  | negSucc n =>
    intro c hc
    rw [repr_negSucc] at hc
    rcases List.mem_cons.1 hc with rfl | hc
    · decide
    · exact bareChar_of_isDigit ((repr_digits (n + 1)).1 c hc)

theorem reads_int (k : Int) : Reads (py k.repr) (.int k) := by
  cases k with
  | ofNat n => exact reads_nat n
  | negSucc n =>
    rw [repr_negSucc]
    refine ⟨⟨_, _, rfl, by decide, by decide⟩, fun m rest hm hrest => ?_⟩
    obtain ⟨m, rfl⟩ : ∃ k, m = k + 1 := ⟨m - 1, by rw [List.length_cons] at hm; omega⟩
    rw [List.cons_append, value_integer (.inr rfl), integer_neg (n + 1) hrest]
    rfl

/-! ## Arrays -/

theorem skipBlank_head {c : CodePoint} {s : PyStr} (h : isBlank c = false) : skipBlank (c :: s) = c :: s := by
  rw [skipBlank, List.dropWhile_cons_of_neg (by rw [h]; exact Bool.false_ne_true)]

theorem skipWs_head {c : CodePoint} {s : PyStr} (h : isWs c = false) : skipWs (c :: s) = c :: s := by
  rw [skipWs, List.dropWhile_cons_of_neg (by rw [h]; exact Bool.false_ne_true)]

theorem skipBlank_pad {pad s : PyStr} (h : ∀ c ∈ pad, isBlank c = true) : skipBlank (pad ++ s) = skipBlank s :=
  List.dropWhile_append_of_pos h

theorem skipWs_pad {pad s : PyStr} (h : ∀ c ∈ pad, isWs c = true) : skipWs (pad ++ s) = skipWs s :=
  List.dropWhile_append_of_pos h

theorem isBlank_of_isWs {c : CodePoint} (h : isWs c = true) : isBlank c = true := by
  rw [isBlank, h, Bool.true_or]

/-- Parts with a comma and a space between them, and padding before the end mark. -/
def closing (pad : PyStr) (last : CodePoint) (parts : List PyStr) : PyStr :=
  parts.flatMap (fun part => py ", " ++ part) ++ (pad ++ [last])

theorem intercalate_cons (sep part : PyStr) (parts : List PyStr) :
    sep.intercalate (part :: parts) = part ++ parts.flatMap fun part => sep ++ part := by
  induction parts generalizing part with
  | nil => simp [List.intercalate]
  | cons next parts ih =>
    have hnext : sep.intercalate (part :: next :: parts) = part ++ (sep ++ sep.intercalate (next :: parts)) := by
      simp [List.intercalate, List.intersperse]
    rw [hnext, ih, List.flatMap_cons, List.append_assoc]

theorem closing_head {pad : PyStr} {last : CodePoint} (hpad : ∀ c ∈ pad, isWs c = true)
    (hlast : clings last = false) (parts : List PyStr) (rest : PyStr) :
    (closing pad last parts ++ rest).head?.any clings = false := by
  cases parts with
  | cons part parts => rfl
  | nil =>
    cases pad with
    | nil => exact hlast
    | cons c pad =>
      have hc := hpad c (List.mem_cons_self ..)
      simp only [isWs, Bool.or_eq_true, decide_eq_true_eq] at hc
      rcases hc with rfl | rfl <;> exact of_decide_eq_true rfl

theorem elements_run {pad : PyStr} (hpad : ∀ c ∈ pad, isWs c = true) {parts : List PyStr} {vs : List Json}
    (h : List.Forall₂ Reads parts vs) : ∀ {part : PyStr} {v : Json}, Reads part v → ∀ n rest,
      (part ++ closing pad (ch ']') parts).length ≤ n →
      elements n (part ++ (closing pad (ch ']') parts ++ rest)) = some (v :: vs, rest) := by
  induction h with
  | nil =>
    intro part v hpart n rest hn
    obtain ⟨c, s, rfl, hblank, hclose⟩ := hpart.head
    obtain ⟨n, rfl⟩ : ∃ m, n = m + 1 := ⟨n - 1, by simp at hn; omega⟩
    have hlen : (c :: s).length ≤ n := by
      simp only [closing, List.length_append, List.length_singleton] at hn
      omega
    have hread := hpart.run n (closing pad (ch ']') [] ++ rest) hlen (closing_head hpad (by decide) _ _)
    have hskip : skipBlank (closing pad (ch ']') [] ++ rest) = ch ']' :: rest := by
      rw [closing, List.flatMap_nil, List.nil_append, List.append_assoc,
        skipBlank_pad fun c hc => isBlank_of_isWs (hpad c hc)]
      exact skipBlank_head (by decide)
    have hcomma : ch ']' ≠ ch ',' := by decide
    rw [List.cons_append] at hread ⊢
    rw [elements, if_neg hclose, hread, Option.bind_eq_bind, Option.bind_some]
    simp only [hskip, if_neg hcomma, if_true]
  | @cons next w parts vs hnext _ ih =>
    intro part v hpart n rest hn
    obtain ⟨c, s, rfl, hblank, hclose⟩ := hpart.head
    obtain ⟨n, rfl⟩ : ∃ m, n = m + 1 := ⟨n - 1, by simp at hn; omega⟩
    have htail : closing pad (ch ']') (next :: parts) = ch ',' :: ch ' ' :: (next ++ closing pad (ch ']') parts) := by
      rw [closing, List.flatMap_cons, List.append_assoc, List.append_assoc]
      rfl
    have hlen : (c :: s).length ≤ n ∧ (next ++ closing pad (ch ']') parts).length ≤ n := by
      rw [htail] at hn
      simp only [List.length_append, List.length_cons] at hn ⊢
      omega
    have hread := hpart.run n (closing pad (ch ']') (next :: parts) ++ rest) hlen.1 (closing_head hpad (by decide) _ _)
    have hrest := ih hnext n rest hlen.2
    have hskip : skipBlank (closing pad (ch ']') (next :: parts) ++ rest) =
        ch ',' :: ch ' ' :: (next ++ (closing pad (ch ']') parts ++ rest)) := by
      rw [htail, List.cons_append, List.cons_append, List.append_assoc]
      exact skipBlank_head (by decide)
    have hspace : skipBlank (ch ' ' :: (next ++ (closing pad (ch ']') parts ++ rest))) =
        next ++ (closing pad (ch ']') parts ++ rest) := by
      obtain ⟨d, t, rfl, hd, -⟩ := hnext.head
      rw [skipBlank, List.dropWhile_cons_of_pos (by decide)]
      exact skipBlank_head hd
    rw [List.cons_append] at hread ⊢
    rw [elements, if_neg hclose, hread, Option.bind_eq_bind, Option.bind_some]
    simp only [hskip, if_true, hspace, hrest, Option.bind_eq_bind, Option.bind_some]
    rfl

/-- An array on one line. -/
theorem reads_array {pad : PyStr} (hpad : ∀ c ∈ pad, isWs c = true) {parts : List PyStr} {vs : List Json}
    (h : List.Forall₂ Reads parts vs) :
    Reads (ch '[' :: (pad ++ ((py ", ").intercalate parts ++ (pad ++ [ch ']'])))) (.arr vs) := by
  refine ⟨⟨_, _, rfl, by decide, by decide⟩, fun n rest hn _ => ?_⟩
  obtain ⟨n, rfl⟩ : ∃ m, n = m + 1 := ⟨n - 1, by simp at hn; omega⟩
  have hquote : ch '[' ≠ quoteMark := by decide
  have hpad' : ∀ c ∈ pad, isBlank c = true := fun c hc => isBlank_of_isWs (hpad c hc)
  have helements : elements n (skipBlank (pad ++ ((py ", ").intercalate parts ++ (pad ++ [ch ']'])) ++ rest)) =
      some (vs, rest) := by
    rw [List.append_assoc, skipBlank_pad hpad']
    cases h with
    | nil =>
      have hnil : (py ", ").intercalate [] = [] := rfl
      have hclose : ch ']' ≠ quoteMark := by decide
      obtain ⟨n, rfl⟩ : ∃ m, n = m + 1 := ⟨n - 1, by simp at hn; omega⟩
      rw [hnil, List.nil_append, List.append_assoc, skipBlank_pad hpad', List.singleton_append,
        skipBlank_head (by decide), elements, if_pos rfl]
    | @cons part v parts vs hpart hparts =>
      rw [intercalate_cons] at hn ⊢
      have hrun := elements_run hpad hparts hpart n rest (by
        simp only [List.length_cons, List.length_append, closing] at hn ⊢
        omega)
      obtain ⟨c, s, rfl, hblank, -⟩ := hpart.head
      have hskip : ∀ t, skipBlank (c :: s ++ t) = c :: s ++ t := fun t => skipBlank_head hblank
      rw [List.append_assoc, List.append_assoc, hskip]
      rw [closing, List.append_assoc] at hrun
      exact hrun
  rw [List.cons_append, value, if_neg hquote, if_pos rfl, helements]
  rfl

/-! ## Pairs and inline tables -/

/-- The text of one pair. -/
def Member (text : PyStr) (kv : PyStr × Json) : Prop :=
  ∃ k v, text = k ++ (py " = " ++ v) ∧ ReadsKey k kv.1 ∧ Reads v kv.2

theorem Member.intro {k v name : PyStr} {x : Json} (hk : ReadsKey k name) (hv : Reads v x) :
    Member (k ++ (py " = " ++ v)) (name, x) :=
  ⟨k, v, rfl, hk, hv⟩

/-- What is read of a pair before its value. -/
theorem key_equals {k v name : PyStr} {x : Json} (hk : ReadsKey k name) (hv : Reads v x) (rest : PyStr) :
    key (k ++ (py " = " ++ v) ++ rest) = some (name, ch ' ' :: ch '=' :: ch ' ' :: (v ++ rest)) ∧
    equals (skipWs (ch ' ' :: ch '=' :: ch ' ' :: (v ++ rest))) = some (v ++ rest) := by
  have hmarks : py " = " = [ch ' ', ch '=', ch ' '] := by decide
  constructor
  · rw [hmarks, List.append_assoc]
    exact hk.run _ (by rfl)
  · obtain ⟨c, s, rfl, hblank, -⟩ := hv.head
    have hws : isWs c = false := (Bool.or_eq_false_iff.1 hblank).1
    have hskip : skipWs (ch ' ' :: ch '=' :: ch ' ' :: (c :: s ++ rest)) = ch '=' :: ch ' ' :: (c :: s ++ rest) := by
      rw [skipWs, List.dropWhile_cons_of_pos (by decide)]
      exact skipWs_head (by decide)
    have hspace : skipWs (ch ' ' :: (c :: s ++ rest)) = c :: s ++ rest := by
      rw [skipWs, List.dropWhile_cons_of_pos (by decide)]
      exact skipWs_head hws
    rw [hskip, equals, if_pos rfl, hspace]

theorem members_run {pad : PyStr} (hpad : ∀ c ∈ pad, isWs c = true) {parts : List PyStr} {kvs : Table}
    (h : List.Forall₂ Member parts kvs) : ∀ {part : PyStr} {kv : PyStr × Json}, Member part kv →
      ((kv :: kvs).map Prod.fst).Nodup → ∀ n rest, (part ++ closing pad (ch '\x7d') parts).length ≤ n →
      members n (part ++ (closing pad (ch '\x7d') parts ++ rest)) = some (kv :: kvs, rest) := by
  induction h with
  | nil =>
    rintro part ⟨name, x⟩ ⟨k, v, rfl, hk, hv⟩ - n rest hn
    obtain ⟨n, rfl⟩ : ∃ m, n = m + 1 := ⟨n - 1, by simp [closing] at hn; omega⟩
    have hlen : v.length ≤ n := by
      simp only [closing, List.length_append, List.length_singleton] at hn
      omega
    have hkey := key_equals hk hv (closing pad (ch '\x7d') [] ++ rest)
    have hread := hv.run n (closing pad (ch '\x7d') [] ++ rest) hlen (closing_head hpad (by decide) _ _)
    have hskip : skipWs (closing pad (ch '\x7d') [] ++ rest) = ch '\x7d' :: rest := by
      rw [closing, List.flatMap_nil, List.nil_append, List.append_assoc, skipWs_pad hpad]
      exact skipWs_head (by decide)
    have hcomma : ch '\x7d' ≠ ch ',' := by decide
    rw [members, hkey.1, Option.bind_eq_bind, Option.bind_some]
    simp only [hkey.2, Option.bind_eq_bind, Option.bind_some, hread, hskip, if_neg hcomma, if_true]
  | @cons next kv' parts kvs hnext _ ih =>
    rintro part ⟨name, x⟩ ⟨k, v, rfl, hk, hv⟩ hnodup n rest hn
    obtain ⟨n, rfl⟩ : ∃ m, n = m + 1 := ⟨n - 1, by simp [closing] at hn; omega⟩
    have htail : closing pad (ch '\x7d') (next :: parts) =
        ch ',' :: ch ' ' :: (next ++ closing pad (ch '\x7d') parts) := by
      rw [closing, List.flatMap_cons, List.append_assoc, List.append_assoc]
      rfl
    have hlen : v.length ≤ n ∧ (next ++ closing pad (ch '\x7d') parts).length ≤ n := by
      rw [htail] at hn
      simp only [List.length_append, List.length_cons] at hn ⊢
      omega
    obtain ⟨hnew, htailNodup⟩ := List.nodup_cons.1 hnodup
    have hkey := key_equals hk hv (closing pad (ch '\x7d') (next :: parts) ++ rest)
    have hread := hv.run n (closing pad (ch '\x7d') (next :: parts) ++ rest) hlen.1 (closing_head hpad (by decide) _ _)
    have hrest := ih hnext htailNodup n rest hlen.2
    have hskip : skipWs (closing pad (ch '\x7d') (next :: parts) ++ rest) =
        ch ',' :: ch ' ' :: (next ++ (closing pad (ch '\x7d') parts ++ rest)) := by
      rw [htail, List.cons_append, List.cons_append, List.append_assoc]
      exact skipWs_head (by decide)
    have hspace : skipWs (ch ' ' :: (next ++ (closing pad (ch '\x7d') parts ++ rest))) =
        next ++ (closing pad (ch '\x7d') parts ++ rest) := by
      obtain ⟨k', v', rfl, hk', -⟩ := hnext
      obtain ⟨d, t, rfl, hd, -⟩ := hk'.head
      rw [skipWs, List.dropWhile_cons_of_pos (by decide)]
      exact skipWs_head (Bool.or_eq_false_iff.1 hd).1
    have hfresh : ((kv' :: kvs).any fun kv => decide (kv.1 = name)) = false := by
      rw [List.any_eq_false]
      intro kv hkv heq
      exact hnew (List.mem_map.2 ⟨kv, hkv, of_decide_eq_true heq⟩)
    rw [members, hkey.1, Option.bind_eq_bind, Option.bind_some]
    simp only [hkey.2, Option.bind_eq_bind, Option.bind_some, hread, hskip, if_true, hspace, hrest]
    rw [hfresh]
    rfl

/-- An inline table with at least one member. -/
theorem reads_inlineTable {pad : PyStr} (hpad : ∀ c ∈ pad, isWs c = true) {parts : List PyStr} {kvs : Table}
    (h : List.Forall₂ Member parts kvs) (hne : kvs ≠ []) (hnodup : (kvs.map Prod.fst).Nodup) :
    Reads (ch '\x7b' :: (pad ++ ((py ", ").intercalate parts ++ (pad ++ [ch '\x7d'])))) (.obj kvs) := by
  refine ⟨⟨_, _, rfl, by decide, by decide⟩, fun n rest hn _ => ?_⟩
  obtain ⟨n, rfl⟩ : ∃ m, n = m + 1 := ⟨n - 1, by simp at hn; omega⟩
  have hopen : ch '\x7b' ≠ quoteMark ∧ ch '\x7b' ≠ ch '[' := by decide
  cases h with
  | nil => exact absurd rfl hne
  | @cons part kv parts kvs hpart hparts =>
    rw [intercalate_cons] at hn ⊢
    have hrun := members_run hpad hparts hpart hnodup n rest (by
      simp only [List.length_cons, List.length_append, closing] at hn ⊢
      omega)
    obtain ⟨k, v, rfl, hk, hv⟩ := hpart
    obtain ⟨c, s, rfl, hblank, -, -, hclose⟩ := hk.head
    have hskip : ∀ t, skipWs (pad ++ (c :: s ++ t)) = c :: (s ++ t) := fun t => by
      rw [skipWs_pad hpad]
      exact skipWs_head (Bool.or_eq_false_iff.1 hblank).1
    rw [closing] at hrun
    simp only [List.append_assoc] at hrun ⊢
    rw [List.cons_append, value, if_neg hopen.1, if_neg hopen.2, if_pos rfl]
    simp only [List.append_assoc, hskip, if_neg hclose]
    rw [List.cons_append] at hrun
    rw [hrun]
    rfl

/-! ## Lines -/

/-- A line that takes the reader from one state to another. -/
structure Line (st : State) (text : PyStr) (st' : State) : Prop where
  head : ∃ c s, text = c :: s ∧ isBlank c = false ∧ c ≠ ch '#'
  run : ∀ size rest, text.length ≤ size → statement size st (text ++ lf :: rest) = some (st', lf :: rest)

theorem Line.pair {st st' : State} {text name : PyStr} {x : Json} (h : Member text (name, x))
    (hpair : st.pair name x = some st') : Line st text st' := by
  obtain ⟨k, v, rfl, hk, hv⟩ := h
  obtain ⟨c, s, hcons, hblank, hcomment, hopen, -⟩ := hk.head
  refine ⟨⟨c, s ++ (py " = " ++ v), by rw [hcons]; rfl, hblank, hcomment⟩, fun size rest hsize => ?_⟩
  have hkey := key_equals hk hv (lf :: rest)
  have hread := hv.run size (lf :: rest) (by
    simp only [List.length_append] at hsize
    omega) (by rfl)
  have hno : ∀ t : PyStr, ¬ ch '[' :: t <+: k ++ (py " = " ++ v) ++ lf :: rest := by
    rintro t ⟨u, hu⟩
    rw [hcons] at hu
    exact hopen (List.cons.inj hu).1.symm
  have hnoElement : ¬ py "[[" <+: k ++ (py " = " ++ v) ++ lf :: rest := hno [ch '[']
  have hnoTable : ¬ py "[" <+: k ++ (py " = " ++ v) ++ lf :: rest := hno []
  rw [statement, if_neg hnoElement, if_neg hnoTable, hkey.1]
  simp only [Option.bind_eq_bind, Option.bind_some, hkey.2, hread, hpair]
  rfl

theorem close_key {name brackets : PyStr} (hne : name ≠ []) (hbare : ∀ c ∈ name, bareChar c = true)
    (hstop : brackets.head?.any bareChar = false) (hws : brackets.head?.any isWs = false) (hb : brackets ≠ [])
    (rest : PyStr) :
    key (skipWs (name ++ (brackets ++ rest))) = some (name, brackets ++ rest) ∧
      close brackets (brackets ++ rest) = some rest := by
  have hk := readsKey_bare hne hbare
  obtain ⟨d, t, rfl⟩ := List.exists_cons_of_ne_nil hb
  constructor
  · obtain ⟨c, s, hcons, hblank, -⟩ := hk.head
    have hskip : skipWs (name ++ (d :: t ++ rest)) = name ++ (d :: t ++ rest) := by
      rw [hcons]
      exact skipWs_head (Bool.or_eq_false_iff.1 hblank).1
    rw [hskip]
    exact hk.run _ hstop
  · have hskip : skipWs (d :: t ++ rest) = d :: t ++ rest := skipWs_head hws
    rw [close, hskip, if_pos (List.prefix_append ..), List.drop_left]

theorem Line.openTable {st st' : State} {name : PyStr} (hne : name ≠ []) (hbare : ∀ c ∈ name, bareChar c = true)
    (hopen : st.openTable name = some st') : Line st (py "[" ++ (name ++ py "]")) st' := by
  refine ⟨⟨ch '[', name ++ py "]", rfl, by decide, by decide⟩, fun size rest _ => ?_⟩
  have hstop : (py "]").head?.any bareChar = false := by decide
  have hclose := close_key hne hbare hstop (by decide) (by decide) (lf :: rest)
  have htext : py "[" ++ (name ++ py "]") ++ lf :: rest = ch '[' :: (name ++ (py "]" ++ lf :: rest)) := by
    simp only [List.append_assoc]
    rfl
  have hno : ¬ py "[[" <+: ch '[' :: (name ++ (py "]" ++ lf :: rest)) := by
    obtain ⟨c, s, rfl⟩ := List.exists_cons_of_ne_nil hne
    rintro ⟨u, hu⟩
    have hc := hbare c (List.mem_cons_self ..)
    rw [← (List.cons.inj (List.cons.inj hu).2).1] at hc
    exact absurd hc (by decide)
  have hyes : py "[" <+: ch '[' :: (name ++ (py "]" ++ lf :: rest)) := ⟨_, rfl⟩
  have hdrop : (ch '[' :: (name ++ (py "]" ++ lf :: rest))).drop 1 = name ++ (py "]" ++ lf :: rest) := rfl
  rw [htext, statement, if_neg hno, if_pos hyes, hdrop, hclose.1, Option.bind_eq_bind, Option.bind_some]
  simp only [Option.bind_eq_bind, hclose.2, Option.bind_some, hopen]
  rfl

theorem Line.openElement {st st' : State} {name : PyStr} (hne : name ≠ []) (hbare : ∀ c ∈ name, bareChar c = true)
    (hopen : st.openElement name = some st') : Line st (py "[[" ++ (name ++ py "]]")) st' := by
  refine ⟨⟨ch '[', ch '[' :: (name ++ py "]]"), rfl, by decide, by decide⟩, fun size rest _ => ?_⟩
  have hstop : (py "]]").head?.any bareChar = false := by decide
  have hclose := close_key hne hbare hstop (by decide) (by decide) (lf :: rest)
  have htext : py "[[" ++ (name ++ py "]]") ++ lf :: rest = ch '[' :: ch '[' :: (name ++ (py "]]" ++ lf :: rest)) := by
    simp only [List.append_assoc]
    rfl
  have hyes : py "[[" <+: ch '[' :: ch '[' :: (name ++ (py "]]" ++ lf :: rest)) := ⟨_, rfl⟩
  have hdrop : (ch '[' :: ch '[' :: (name ++ (py "]]" ++ lf :: rest))).drop 2 = name ++ (py "]]" ++ lf :: rest) := rfl
  rw [htext, statement, if_pos hyes, hdrop, hclose.1, Option.bind_eq_bind, Option.bind_some]
  simp only [Option.bind_eq_bind, hclose.2, Option.bind_some, hopen]
  rfl

/-! ## Layouts -/

/-- Lines, some of them blank, that take the reader from one state to another. -/
inductive Layout : State → List PyStr → State → Prop
  | nil (st : State) : Layout st [] st
  | blank {st st' : State} {ls : List PyStr} : Layout st ls st' → Layout st ([] :: ls) st'
  | line {st st' st'' : State} {text : PyStr} {ls : List PyStr} :
    Line st text st' → Layout st' ls st'' → Layout st (text :: ls) st''

theorem Layout.append {st st' st'' : State} {ls ls' : List PyStr} (h : Layout st ls st') (h' : Layout st' ls' st'') :
    Layout st (ls ++ ls') st'' := by
  induction h with
  | nil => exact h'
  | blank _ ih => exact .blank (ih h')
  | line hline _ ih => exact .line hline (ih h')

def unlines (ls : List PyStr) : PyStr := ls.flatMap fun l => l ++ [lf]

theorem endLine_lf (rest : PyStr) : endLine (lf :: rest) = some rest := by
  have hskip : skipWs (lf :: rest) = lf :: rest := skipWs_head (by decide)
  rw [endLine, hskip]
  exact if_pos rfl

theorem document_blank (size n : Nat) (st : State) (rest : PyStr) :
    document size n st (lf :: rest) = document size n st rest := by
  cases n with
  | zero => rfl
  | succ n =>
    have hskip : skipBlank (lf :: rest) = skipBlank rest := by
      rw [skipBlank, List.dropWhile_cons_of_pos (by decide)]
      rfl
    rw [document, document, hskip]

theorem Line.document {st st' : State} {text : PyStr} (h : Line st text st') {size : Nat} (hsize : text.length ≤ size)
    (n : Nat) (rest : PyStr) : document size (n + 1) st (text ++ lf :: rest) = document size n st' rest := by
  obtain ⟨c, s, rfl, hblank, hcomment⟩ := h.head
  have hrun := h.run size rest hsize
  have hskip : skipBlank (c :: s ++ lf :: rest) = c :: (s ++ lf :: rest) := skipBlank_head hblank
  rw [Toml.document, hskip]
  rw [List.cons_append] at hrun
  simp only [if_neg hcomment, hrun, Option.bind_eq_bind, Option.bind_some, endLine_lf]

theorem unlines_cons (l : PyStr) (ls : List PyStr) : unlines (l :: ls) = l ++ lf :: unlines ls := by
  rw [unlines, List.flatMap_cons, List.append_assoc]
  rfl

/-- A document that is laid out so is read, and gives the table of the last state. -/
theorem Layout.document {size : Nat} {st st' : State} {ls : List PyStr} (h : Layout st ls st') :
    ∀ n, ls.length < n → (∀ l ∈ ls, l.length ≤ size) → document size n st (unlines ls) = some st'.root := by
  induction h with
  | nil st =>
    intro n hn _
    obtain ⟨n, rfl⟩ : ∃ m, n = m + 1 := ⟨n - 1, by omega⟩
    rfl
  | @blank st st' ls _ ih =>
    intro n hn hsize
    rw [unlines_cons, List.nil_append, document_blank]
    exact ih n (Nat.lt_of_succ_lt hn) fun l hl => hsize l (List.mem_cons_of_mem _ hl)
  | @line st st' st'' text ls hline _ ih =>
    intro n hn hsize
    obtain ⟨n, rfl⟩ : ∃ m, n = m + 1 := ⟨n - 1, by omega⟩
    rw [unlines_cons, hline.document (hsize _ (List.mem_cons_self ..))]
    exact ih n (by simp only [List.length_cons] at hn; omega) fun l hl => hsize l (List.mem_cons_of_mem _ hl)

/-! ## Tables -/

theorem insert_new {k : PyStr} {t : Table} (h : k ∉ t.map Prod.fst) (v : Json) :
    insert k v t = some (t ++ [(k, v)]) := by
  have hany : (t.any fun kv => decide (kv.1 = k)) = false := by
    rw [List.any_eq_false]
    intro kv hkv heq
    exact h (List.mem_map.2 ⟨kv, hkv, of_decide_eq_true heq⟩)
  rw [insert, hany]
  rfl

theorem change_last {k : PyStr} {t : Table} (h : k ∉ t.map Prod.fst) (v : Json) (f : Json → Option Json) :
    change k f (t ++ [(k, v)]) = (f v).map fun w => t ++ [(k, w)] := by
  induction t with
  | nil =>
    rw [List.nil_append, change, if_pos rfl]
    rfl
  | cons kv t ih =>
    rw [List.map_cons, List.mem_cons, not_or] at h
    rw [List.cons_append, change, if_neg (Ne.symm h.1), ih h.2, Option.map_map]
    rfl

theorem insertLast_append (k : PyStr) (v : Json) (xs : List Json) (t : Table) :
    insertLast k v (xs ++ [.obj t]) = (insert k v t).map fun t => xs ++ [.obj t] := by
  induction xs with
  | nil => rfl
  | cons x xs ih =>
    obtain ⟨y, ys, hcons⟩ : ∃ y ys, xs ++ [Json.obj t] = y :: ys := List.exists_cons_of_ne_nil (by simp)
    rw [List.cons_append, hcons, insertLast, ← hcons, ih, Option.map_map]
    · rfl
    · exact fun _ _ hnil => List.cons_ne_nil _ _ hnil
    · exact fun hnil => List.cons_ne_nil _ _ hnil

/-- A state as a function of the table its pairs go to. -/
def Hole (wrap : Table → State) : Prop :=
  ∀ t k v, k ∉ t.map Prod.fst → (wrap t).pair k v = some (wrap (t ++ [(k, v)]))

theorem hole_root (arrays : List PyStr) : Hole fun t => ⟨t, arrays, .root⟩ := by
  intro t k v h
  rw [State.pair, insert_new h]
  rfl

theorem hole_table {pre : Table} {name : PyStr} (hname : name ∉ pre.map Prod.fst) (arrays : List PyStr) :
    Hole fun t => ⟨pre ++ [(name, .obj t)], arrays, .table name⟩ := by
  intro t k v h
  simp only [State.pair, change_last hname, insert_new h, Option.map_some]

theorem hole_element {pre : Table} {name : PyStr} (hname : name ∉ pre.map Prod.fst) (arrays : List PyStr)
    (xs : List Json) : Hole fun t => ⟨pre ++ [(name, .arr (xs ++ [.obj t]))], arrays, .element name⟩ := by
  intro t k v h
  simp only [State.pair, change_last hname, insertLast_append, insert_new h, Option.map_some]

/-- The lines of pairs with new keys fill their table. -/
theorem Hole.layout {wrap : Table → State} (hole : Hole wrap) {ls : List PyStr} {kvs : Table}
    (h : List.Forall₂ Member ls kvs) : ∀ t, ((t ++ kvs).map Prod.fst).Nodup →
      Layout (wrap t) ls (wrap (t ++ kvs)) := by
  induction h with
  | nil =>
    intro t _
    rw [List.append_nil]
    exact .nil _
  | @cons text kv ls kvs hmember _ ih =>
    obtain ⟨k, v⟩ := kv
    intro t hnodup
    have hk : k ∉ t.map Prod.fst := by
      rw [List.map_append, List.map_cons, List.nodup_append] at hnodup
      exact fun hmem => hnodup.2.2 k hmem k (List.mem_cons_self ..) rfl
    have hsplit : t ++ (k, v) :: kvs = t ++ [(k, v)] ++ kvs := by rw [List.append_assoc]; rfl
    rw [hsplit] at hnodup ⊢
    exact .line (Line.pair hmember (hole t k v hk)) (ih _ hnodup)

/-- `[name]` and the lines of its pairs. -/
theorem layout_table {st : State} {name : PyStr} {ls : List PyStr} {kvs : Table} (hne : name ≠ [])
    (hbare : ∀ c ∈ name, bareChar c = true) (hname : name ∉ st.root.map Prod.fst)
    (h : List.Forall₂ Member ls kvs) (hnodup : (kvs.map Prod.fst).Nodup) :
    Layout st ([] :: (py "[" ++ (name ++ py "]")) :: ls)
      ⟨st.root ++ [(name, .obj kvs)], st.arrays, .table name⟩ := by
  have hopen : st.openTable name = some ⟨st.root ++ [(name, .obj [])], st.arrays, .table name⟩ := by
    rw [State.openTable, insert_new hname]
    rfl
  exact .blank (.line (Line.openTable hne hbare hopen) ((hole_table hname st.arrays).layout h [] hnodup))

/-- The lines of one element of an array of tables. -/
def elementLines (name : PyStr) (ls : List PyStr) : List PyStr := [] :: (py "[[" ++ (name ++ py "]]")) :: ls

/-- Further elements of an array of tables. -/
theorem layout_more {pre : Table} {name : PyStr} {arrays : List PyStr} (hne : name ≠ [])
    (hbare : ∀ c ∈ name, bareChar c = true) (hname : name ∉ pre.map Prod.fst) (hold : name ∈ arrays)
    {blocks : List (List PyStr)} {tables : List Table} (h : List.Forall₂ (List.Forall₂ Member) blocks tables)
    (hnodup : ∀ t ∈ tables, (t.map Prod.fst).Nodup) : ∀ xs,
      Layout ⟨pre ++ [(name, .arr xs)], arrays, .element name⟩ (blocks.flatMap (elementLines name))
        ⟨pre ++ [(name, .arr (xs ++ tables.map .obj))], arrays, .element name⟩ := by
  induction h with
  | nil =>
    intro xs
    rw [List.map_nil, List.append_nil]
    exact .nil _
  | @cons ls t blocks tables hmembers _ ih =>
    intro xs
    have hopen : (State.openElement ⟨pre ++ [(name, .arr xs)], arrays, .element name⟩ name) =
        some ⟨pre ++ [(name, .arr (xs ++ [.obj []]))], arrays, .element name⟩ := by
      simp only [State.openElement, if_pos hold, change_last hname, Option.map_some]
    have hfill := (hole_element hname arrays xs).layout hmembers [] (hnodup t (List.mem_cons_self ..))
    have hrest := ih (fun t' ht' => hnodup t' (List.mem_cons_of_mem _ ht')) (xs ++ [.obj t])
    have hsplit : xs ++ Json.obj t :: tables.map .obj = xs ++ [.obj t] ++ tables.map .obj := by
      rw [List.append_assoc]
      rfl
    rw [List.flatMap_cons, List.map_cons, hsplit]
    exact .blank (.line (Line.openElement hne hbare hopen) (hfill.append hrest))

/-- All elements of an array of tables; without one there is no such key. -/
theorem layout_elements {st : State} {name : PyStr} (hne : name ≠ []) (hbare : ∀ c ∈ name, bareChar c = true)
    (hname : name ∉ st.root.map Prod.fst) (hnew : name ∉ st.arrays) {blocks : List (List PyStr)}
    {tables : List Table} (h : List.Forall₂ (List.Forall₂ Member) blocks tables)
    (hnodup : ∀ t ∈ tables, (t.map Prod.fst).Nodup) :
    ∃ st', Layout st (blocks.flatMap (elementLines name)) st' ∧
      st'.root = st.root ++ (if tables = [] then [] else [(name, .arr (tables.map .obj))]) ∧
      ∀ other, other ≠ name → other ∉ st.arrays → other ∉ st'.arrays := by
  cases h with
  | nil => exact ⟨st, .nil st, by simp, fun _ _ hother => hother⟩
  | @cons ls t blocks tables hmembers hblocks =>
    have hopen : st.openElement name =
        some ⟨st.root ++ [(name, .arr [.obj []])], name :: st.arrays, .element name⟩ := by
      simp only [State.openElement, if_neg hnew, insert_new hname, Option.map_some]
    have hfill := (hole_element hname (name :: st.arrays) []).layout hmembers [] (hnodup t (List.mem_cons_self ..))
    have hold : name ∈ name :: st.arrays := List.mem_cons_self ..
    have hrest := layout_more hne hbare hname hold hblocks
      (fun t' ht' => hnodup t' (List.mem_cons_of_mem _ ht')) [.obj t]
    refine ⟨⟨st.root ++ [(name, .arr (.obj t :: tables.map .obj))], name :: st.arrays, .element name⟩, ?_, ?_, ?_⟩
    · exact .blank (.line (Line.openElement hne hbare hopen) (hfill.append hrest))
    · rw [if_neg (List.cons_ne_nil _ _)]
      rfl
    · intro other hne' hother
      exact fun hmem => (List.mem_cons.1 hmem).elim hne' hother

/-! ## Whole texts -/

theorem newlines_eq {s : PyStr} (h : ch '\r' ∉ s) : newlines s = s := by
  fun_induction newlines s with
  | case1 a b s hab _ => exact absurd (by rw [hab.1]; exact List.mem_cons_self ..) h
  | case2 a b s _ ih => rw [ih fun hmem => h (List.mem_cons_of_mem _ hmem)]
  | case3 => rfl

theorem mem_newlines {s : PyStr} {c : CodePoint} (hc : c ≠ ch '\r') (h : c ∈ s) : c ∈ newlines s := by
  fun_induction newlines s with
  | case1 a b s hab ih =>
    rcases List.mem_cons.1 h with rfl | h
    · exact absurd hab.1 hc
    · rcases List.mem_cons.1 h with rfl | h
      · rw [hab.2]
        exact List.mem_cons_self ..
      · exact List.mem_cons_of_mem _ (ih h)
  | case2 a b s _ ih =>
    rcases List.mem_cons.1 h with rfl | h
    · exact List.mem_cons_self ..
    · exact List.mem_cons_of_mem _ (ih h)
  | case3 => exact h

/-- A control character or a surrogate anywhere, and nothing is read. -/
theorem loads_forbidden {text : PyStr} {c : CodePoint} (h : c ∈ text) (hc : c ≠ ch '\r') (hbad : allowed c = false) :
    loads text = none := by
  rw [loads, if_neg]
  intro hall
  have hallowed := List.all_eq_true.1 hall c (mem_newlines hc h)
  rw [hbad] at hallowed
  cases hallowed

theorem length_unlines (ls : List PyStr) :
    ls.length ≤ (unlines ls).length ∧ ∀ l ∈ ls, l.length ≤ (unlines ls).length := by
  induction ls with
  | nil => exact ⟨Nat.le_refl _, fun _ h => nomatch h⟩
  | cons l ls ih =>
    have hcons : (unlines (l :: ls)).length = l.length + 1 + (unlines ls).length := by
      rw [unlines, List.flatMap_cons, List.length_append, List.length_append, List.length_singleton]
      rfl
    refine ⟨?_, fun l' hl' => ?_⟩
    · rw [hcons, List.length_cons]
      omega
    · rcases List.mem_cons.1 hl' with rfl | hl'
      · omega
      · have := ih.2 l' hl'
        omega

/-- A laid out text of allowed characters is a document. -/
theorem Layout.loads {ls : List PyStr} {st : State} (h : Layout {} ls st)
    (hallowed : ∀ l ∈ ls, ∀ c ∈ l, allowed c = true) : loads (unlines ls) = some st.root := by
  have hall : ∀ c ∈ unlines ls, allowed c = true := by
    intro c hc
    obtain ⟨l, hl, hc⟩ := List.mem_flatMap.1 hc
    rcases List.mem_append.1 hc with hc | hc
    · exact hallowed l hl c hc
    · rw [List.mem_singleton.1 hc]
      decide
  have hcr : ch '\r' ∉ unlines ls := fun hmem => absurd (hall _ hmem) (by decide)
  have hlen := length_unlines ls
  rw [Toml.loads, newlines_eq hcr, if_pos (List.all_eq_true.2 hall)]
  exact h.document _ (Nat.lt_succ_of_le hlen.1) fun l hl => Nat.le_succ_of_le (hlen.2 l hl)

end Toolstack.Toml
