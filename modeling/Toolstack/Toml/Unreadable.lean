import Toolstack.Toml.Layout

/-! Texts of the fragment that are not read: a basic string that runs into the end of its line, and
what contains it. -/

namespace Toolstack.Toml

open Url (ch)

/-! ## Strings -/

/-- A basic string after its opening mark that breaks off. -/
def Broken (text : PyStr) : Prop := ∀ rest, basicString (text ++ rest) = none

theorem broken_lf (text : PyStr) : Broken (lf :: text) := by
  intro rest
  have hquote : lf ≠ quoteMark := by decide
  rw [List.cons_append, basicString.eq_def]
  simp only [if_neg hquote, if_true]

theorem Broken.plain {c : CodePoint} {text : PyStr} (h : Broken text) (hquote : c ≠ quoteMark) (hescape : c ≠ backslash) :
    Broken (c :: text) := by
  intro rest
  rw [List.cons_append, basicString.eq_def]
  simp only [if_neg hquote, if_neg hescape, h rest, Option.map_none, ite_self]

theorem Broken.escaped {e d : CodePoint} {text : PyStr} (h : Broken text) (he : simpleEscape e = some d) :
    Broken (backslash :: e :: text) := by
  intro rest
  have hmarks : backslash ≠ quoteMark ∧ backslash ≠ lf := by decide
  rw [List.cons_append, List.cons_append, basicString.eq_def]
  simp only [if_neg hmarks.1, if_neg hmarks.2, if_true, he, h rest, Option.map_none]

/-! ## Values -/

/-- The beginning of a value that no reader gets past. -/
structure Unreadable (text : PyStr) : Prop where
  head : ∃ c s, text = c :: s ∧ isBlank c = false ∧ c ≠ ch ']'
  run : ∀ n rest, text.length ≤ n → value n (text ++ rest) = none

theorem Broken.unreadable {text : PyStr} (h : Broken text) : Unreadable (quoteMark :: text) := by
  refine ⟨⟨_, _, rfl, by decide, by decide⟩, fun n rest hn => ?_⟩
  obtain ⟨n, rfl⟩ : ∃ m, n = m + 1 := ⟨n - 1, by simp only [List.length_cons] at hn; omega⟩
  rw [List.cons_append, value, if_pos rfl, h rest, Option.map_none, ite_self]

theorem part_head {part : PyStr} (h : Unreadable part ∨ ∃ v, Reads part v) :
    ∃ c s, part = c :: s ∧ isBlank c = false ∧ c ≠ ch ']' := by
  rcases h with h | ⟨v, h⟩
  · exact h.head
  · exact h.head

/-- The parts of an array, of which some are read and one is not. -/
theorem elements_stuck {parts : List PyStr} (hparts : ∀ part ∈ parts, Unreadable part ∨ ∃ v, Reads part v) :
    ∀ {part : PyStr}, (Unreadable part ∨ ∃ v, Reads part v) → (∃ p ∈ part :: parts, Unreadable p) → ∀ n rest,
      (part ++ closing [] (ch ']') parts).length ≤ n →
      elements n (part ++ (closing [] (ch ']') parts ++ rest)) = none := by
  induction parts with
  | nil =>
    intro part _ hbad n rest hn
    obtain ⟨p, hp, hbad⟩ := hbad
    obtain rfl := List.mem_singleton.1 hp
    obtain ⟨c, s, rfl, -, hclose⟩ := hbad.head
    cases n with
    | zero => rfl
    | succ n =>
      have hlen : (c :: s).length ≤ n := by
        simp only [closing, List.length_append, List.length_singleton] at hn
        omega
      have hread := hbad.run n (closing [] (ch ']') [] ++ rest) hlen
      rw [List.cons_append] at hread ⊢
      rw [elements, if_neg hclose, hread]
      rfl
  | cons next parts ih =>
    intro part hpart hbad n rest hn
    obtain ⟨c, s, rfl, -, hclose⟩ := part_head hpart
    have htail : closing [] (ch ']') (next :: parts) = ch ',' :: ch ' ' :: (next ++ closing [] (ch ']') parts) := by
      rw [closing, List.flatMap_cons, List.append_assoc, List.append_assoc]
      rfl
    cases n with
    | zero => rfl
    | succ n =>
      have hlen : (c :: s).length ≤ n ∧ (next ++ closing [] (ch ']') parts).length ≤ n := by
        rw [htail] at hn
        simp only [List.length_append, List.length_cons] at hn ⊢
        omega
      rcases hpart with hpart | ⟨v, hpart⟩
      · have hread := hpart.run n (closing [] (ch ']') (next :: parts) ++ rest) hlen.1
        rw [List.cons_append] at hread ⊢
        rw [elements, if_neg hclose, hread]
        rfl
      · have hread := hpart.run n (closing [] (ch ']') (next :: parts) ++ rest) hlen.1 (by rw [htail]; rfl)
        have hnext := hparts next (List.mem_cons_self ..)
        by_cases hrest : ∃ p ∈ next :: parts, Unreadable p
        · have hstuck := ih (fun p hp => hparts p (List.mem_cons_of_mem _ hp)) hnext hrest n rest hlen.2
          have hskip : skipBlank (closing [] (ch ']') (next :: parts) ++ rest) =
              ch ',' :: ch ' ' :: (next ++ (closing [] (ch ']') parts ++ rest)) := by
            rw [htail, List.cons_append, List.cons_append, List.append_assoc]
            exact skipBlank_head (by decide)
          have hspace : skipBlank (ch ' ' :: (next ++ (closing [] (ch ']') parts ++ rest))) =
              next ++ (closing [] (ch ']') parts ++ rest) := by
            obtain ⟨d, t, rfl, hd, -⟩ := part_head hnext
            rw [skipBlank, List.dropWhile_cons_of_pos (by decide)]
            exact skipBlank_head hd
          rw [List.cons_append] at hread ⊢
          rw [elements, if_neg hclose, hread, Option.bind_eq_bind, Option.bind_some]
          simp only [hskip, if_true, hspace, hstuck, Option.bind_eq_bind, Option.bind_none]
        · -- The part that is not read is the first one.
          obtain ⟨p, hp, hunread⟩ := hbad
          rcases List.mem_cons.1 hp with rfl | hp
          · have hnone := hunread.run n (closing [] (ch ']') (next :: parts) ++ rest) hlen.1
            rw [hread] at hnone
            cases hnone
          · exact absurd ⟨p, hp, hunread⟩ hrest

/-- An array on one line with a part that is not read. -/
theorem unreadable_array {parts : List PyStr} (hparts : ∀ part ∈ parts, Unreadable part ∨ ∃ v, Reads part v)
    (hbad : ∃ p ∈ parts, Unreadable p) : Unreadable (ch '[' :: ((py ", ").intercalate parts ++ [ch ']'])) := by
  refine ⟨⟨_, _, rfl, by decide, by decide⟩, fun n rest hn => ?_⟩
  obtain ⟨n, rfl⟩ : ∃ m, n = m + 1 := ⟨n - 1, by simp only [List.length_cons] at hn; omega⟩
  have hquote : ch '[' ≠ quoteMark := by decide
  have hstuck : elements n (skipBlank ((py ", ").intercalate parts ++ [ch ']'] ++ rest)) = none := by
    cases parts with
    | nil =>
      obtain ⟨p, hp, -⟩ := hbad
      cases hp
    | cons part parts =>
      have hpart := hparts part (List.mem_cons_self ..)
      rw [intercalate_cons] at hn ⊢
      have hrun := elements_stuck (fun p hp => hparts p (List.mem_cons_of_mem _ hp)) hpart hbad n rest (by
        simp only [List.length_cons, List.length_append, closing, List.nil_append] at hn ⊢
        omega)
      obtain ⟨c, s, rfl, hblank, -⟩ := part_head hpart
      have hskip : ∀ t, skipBlank (c :: s ++ t) = c :: s ++ t := fun t => skipBlank_head hblank
      rw [List.append_assoc, List.append_assoc, hskip]
      rw [closing, List.nil_append, List.append_assoc] at hrun
      exact hrun
  rw [List.cons_append, value, if_neg hquote, if_pos rfl, hstuck]
  rfl

/-! ## Lines and documents -/

/-- A line at which the reader stops. -/
structure Stuck (st : State) (text : PyStr) : Prop where
  head : ∃ c s, text = c :: s ∧ isBlank c = false ∧ c ≠ ch '#'
  run : ∀ size rest, text.length ≤ size → statement size st (text ++ rest) = none

theorem Stuck.pair {st : State} {k v name : PyStr} (hk : ReadsKey k name) (hv : Unreadable v) :
    Stuck st (k ++ (py " = " ++ v)) := by
  obtain ⟨c, s, hcons, hblank, hcomment, hopen, -⟩ := hk.head
  refine ⟨⟨c, s ++ (py " = " ++ v), by rw [hcons]; rfl, hblank, hcomment⟩, fun size rest hsize => ?_⟩
  have hread := hv.run size rest (by
    simp only [List.length_append] at hsize
    omega)
  have hno : ∀ t : PyStr, ¬ ch '[' :: t <+: k ++ (py " = " ++ v) ++ rest := by
    rintro t ⟨u, hu⟩
    rw [hcons] at hu
    exact hopen (List.cons.inj hu).1.symm
  have hnoElement : ¬ py "[[" <+: k ++ (py " = " ++ v) ++ rest := hno [ch '[']
  have hnoTable : ¬ py "[" <+: k ++ (py " = " ++ v) ++ rest := hno []
  have hmarks : py " = " = [ch ' ', ch '=', ch ' '] := by decide
  have hkey : key (k ++ (py " = " ++ v) ++ rest) = some (name, ch ' ' :: ch '=' :: ch ' ' :: (v ++ rest)) := by
    rw [hmarks, List.append_assoc]
    exact hk.run _ (by rfl)
  have hequals : equals (skipWs (ch ' ' :: ch '=' :: ch ' ' :: (v ++ rest))) = some (v ++ rest) := by
    obtain ⟨d, t, rfl, hd, -⟩ := hv.head
    have hws : isWs d = false := by
      rw [isBlank, Bool.or_eq_false_iff] at hd
      exact hd.1
    have hfirst : skipWs (ch ' ' :: ch '=' :: ch ' ' :: (d :: t ++ rest)) = ch '=' :: ch ' ' :: (d :: t ++ rest) := by
      rw [skipWs, List.dropWhile_cons_of_pos (by decide)]
      exact skipWs_head (by decide)
    have hsecond : skipWs (ch ' ' :: (d :: t ++ rest)) = d :: t ++ rest := by
      rw [skipWs, List.dropWhile_cons_of_pos (by decide)]
      exact skipWs_head hws
    rw [hfirst, equals, if_pos rfl, hsecond]
  rw [statement, if_neg hnoElement, if_neg hnoTable, hkey]
  simp only [Option.bind_eq_bind, Option.bind_some, hequals, hread, Option.bind_none]

theorem Stuck.document {st : State} {text : PyStr} (h : Stuck st text) {size : Nat} (hsize : text.length ≤ size)
    (n : Nat) (rest : PyStr) : document size n st (text ++ rest) = none := by
  obtain ⟨c, s, rfl, hblank, hcomment⟩ := h.head
  have hrun := h.run size rest hsize
  have hskip : skipBlank (c :: s ++ rest) = c :: (s ++ rest) := skipBlank_head hblank
  cases n with
  | zero => rfl
  | succ n =>
    rw [Toml.document, hskip]
    rw [List.cons_append] at hrun
    simp only [if_neg hcomment, hrun, Option.bind_eq_bind, Option.bind_none]

/-- A document is not read when the lines before the stuck one are laid out. -/
theorem Layout.stuck {size : Nat} {st st' : State} {ls : List PyStr} (h : Layout st ls st') {text : PyStr}
    (hstuck : Stuck st' text) (hsize : text.length ≤ size) (rest : PyStr) :
    ∀ n, (∀ l ∈ ls, l.length ≤ size) → Toml.document size n st (unlines ls ++ (text ++ rest)) = none := by
  induction h with
  | nil => exact fun n _ => hstuck.document hsize n rest
  | @blank st st' ls _ ih =>
    intro n hlines
    rw [unlines_cons, List.nil_append, List.cons_append, document_blank]
    exact ih hstuck n fun l hl => hlines l (List.mem_cons_of_mem _ hl)
  | @line st st' st'' l ls hline _ ih =>
    intro n hlines
    cases n with
    | zero => rfl
    | succ n =>
      rw [unlines_cons, List.append_assoc, List.cons_append, hline.document (hlines l (List.mem_cons_self ..))]
      exact ih hstuck n fun l hl => hlines l (List.mem_cons_of_mem _ hl)

/-! ## Line ends -/

theorem newlines_cons {c : CodePoint} (hc : c ≠ ch '\r') (s : PyStr) : newlines (c :: s) = c :: newlines s := by
  cases s with
  | nil => rfl
  | cons d s => rw [newlines, if_neg fun h => hc h.1]

theorem newlines_skip {a : PyStr} (h : ch '\r' ∉ a) (b : PyStr) : newlines (a ++ b) = a ++ newlines b := by
  induction a with
  | nil => rfl
  | cons c a ih =>
    have hc : c ≠ ch '\r' := fun heq => h (heq ▸ List.mem_cons_self ..)
    rw [List.cons_append, newlines_cons hc, ih fun hmem => h (List.mem_cons_of_mem _ hmem), List.cons_append]

/-- Windows line ends are found in each of two texts that are not joined in the middle of one. -/
theorem newlines_append {a b : PyStr} (h : b.head? ≠ some lf) : newlines (a ++ b) = newlines a ++ newlines b := by
  fun_induction newlines a with
  | case1 c d a hcd ih =>
    rw [List.cons_append, List.cons_append, newlines, if_pos hcd, ih, List.cons_append]
  | case2 c d a hcd ih =>
    rw [List.cons_append] at ih
    rw [List.cons_append, List.cons_append, newlines, if_neg hcd, ih, List.cons_append]
  | case3 a ha =>
    cases a with
    | nil => rfl
    | cons c a =>
      cases a with
      | cons d a => exact absurd rfl (ha c d a)
      | nil =>
        cases b with
        | nil => rfl
        | cons d b =>
          have hne : ¬(c = ch '\r' ∧ d = lf) := fun hcd => h (by rw [hcd.2]; rfl)
          rw [List.cons_append, List.nil_append, newlines, if_neg hne]
          rfl

/-- Lines keep their number and their ends when the Windows line ends within them are read. -/
theorem newlines_unlines {ls : List PyStr} (h : ∀ l ∈ ls, ∃ init c, l = init ++ [c] ∧ c ≠ lf ∧ c ≠ ch '\r') :
    newlines (unlines ls) = unlines (ls.map newlines) := by
  induction ls with
  | nil => rfl
  | cons l ls ih =>
    obtain ⟨init, c, rfl, hlf, hcr⟩ := h l (List.mem_cons_self ..)
    have hhead : ∀ s, (c :: s).head? ≠ some lf := fun s heq => hlf (Option.some.inj heq)
    have hmark : lf ≠ ch '\r' := by decide
    rw [unlines_cons, List.append_assoc, List.singleton_append, newlines_append (hhead _), newlines_cons hcr,
      newlines_cons hmark, ih fun l hl => h l (List.mem_cons_of_mem _ hl), List.map_cons, unlines_cons,
      newlines_append (hhead _), List.append_assoc]
    rfl

/-- A lone carriage return stays, and a line end in a text stays one. -/
theorem newlines_bad {s : PyStr} (h : ch '\r' ∈ s) : ch '\r' ∈ newlines s ∨ lf ∈ newlines s := by
  fun_induction newlines s with
  | case1 => exact .inr (List.mem_cons_self ..)
  | case2 c d s hcd ih =>
    rcases List.mem_cons.1 h with hc | h
    · exact .inl (by rw [← hc]; exact List.mem_cons_self ..)
    · exact (ih h).imp (List.mem_cons_of_mem _) (List.mem_cons_of_mem _)
  | case3 => exact .inl h

end Toolstack.Toml
