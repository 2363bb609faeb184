import Mathlib.Data.List.Infix

/-! Replacing secrets in a text. One pass from the left puts a mark in the place of every match it
meets. No secret is left where a mark neither completes a secret nor contains the start of one. -/

namespace Toolstack

/-- The secrets, a search for one at the front of a text, and the mark. A secret that reaches into a
mark has its place in the text before, and none starts inside a mark. -/
structure Scrub (α : Type) where
  Secret : List α → Prop
  find : List α → Option Nat
  mark : List α
  found : ∀ {s n}, find s = some n → 0 < n ∧ n ≤ s.length ∧ Secret (s.take n)
  complete : ∀ {s}, find s = none → ∀ t, t <+: s → ¬Secret t
  across : ∀ {u x m s n}, x ≠ [] → x <+: mark ++ m → Secret (u ++ x) → find s = some n →
    ∃ t, t <+: u ++ s ∧ Secret t
  inside : ∀ {y x m t}, mark = y ++ x → x ≠ [] → t <+: x ++ m → ¬Secret t

namespace Scrub

theorem prefix_append_cases {α : Type} {t u m : List α} (h : t <+: u ++ m) :
    t <+: u ∨ ∃ x, t = u ++ x ∧ x <+: m := by
  rcases List.prefix_or_prefix_of_prefix h (List.prefix_append u m) with hle | ⟨x, rfl⟩
  · exact .inl hle
  · exact .inr ⟨x, rfl, (List.prefix_append_right_inj u).1 h⟩

theorem suffix_append_cases {α : Type} {z a m : List α} (h : z <:+ a ++ m) :
    z <:+ m ∨ ∃ x y, z = x ++ m ∧ a = y ++ x := by
  rcases List.suffix_or_suffix_of_suffix h (List.suffix_append a m) with hle | ⟨x, rfl⟩
  · exact .inl hle
  · obtain ⟨y, hy⟩ := h
    exact .inr ⟨x, y, rfl, (List.append_cancel_right ((List.append_assoc y x m).trans hy)).symm⟩

variable {α : Type} {S : Scrub α} {s s' m m' q w x y t : List α} {c : α}

/-- What one pass makes of a text. -/
inductive Replaced (S : Scrub α) : List α → List α → Prop
  | nil : Replaced S [] []
  | secret {s m : List α} {n : Nat} (hfind : S.find s = some n) (h : Replaced S (s.drop n) m) :
    Replaced S s (S.mark ++ m)
  | plain {c : α} {s m : List α} (hfind : S.find (c :: s) = none) (h : Replaced S s m) :
    Replaced S (c :: s) (c :: m)

/-- No secret is left. -/
def Clean (S : Scrub α) (m : List α) : Prop := ∀ t, t <:+: m → ¬S.Secret t

theorem find_nil : S.find [] = none := by
  cases h : S.find [] with
  | none => rfl
  | some n =>
    obtain ⟨hpos, hle, -⟩ := S.found h
    exact absurd hle (by simpa using hpos.ne')

theorem find_eq_none_iff : S.find s = none ↔ ∀ t, t <+: s → ¬S.Secret t := by
  constructor
  · exact S.complete
  · intro h
    cases hfind : S.find s with
    | none => rfl
    | some n => exact absurd (S.found hfind).2.2 (h _ (List.take_prefix n s))

/-! ## The result -/

theorem Replaced.unique (h : Replaced S s m) (h' : Replaced S s m') : m = m' := by
  induction h generalizing m' with
  | nil =>
    cases h' with
    | nil => rfl
    | secret hfind _ => simp [find_nil] at hfind
  | secret hfind _ ih =>
    cases h' with
    | nil => simp [find_nil] at hfind
    | secret hfind' h' =>
      obtain rfl := Option.some.inj (hfind.symm.trans hfind')
      rw [ih h']
    | plain hfind' _ => simp [hfind] at hfind'
  | plain hfind _ ih =>
    cases h' with
    | secret hfind' _ => simp [hfind] at hfind'
    | plain _ h' => rw [ih h']

theorem Clean.replaced (h : Clean S m) : Replaced S m m := by
  induction m with
  | nil => exact .nil
  | cons c m ih =>
    refine .plain ?_ (ih fun t ht => h t (ht.trans (List.suffix_cons c m).isInfix))
    rw [find_eq_none_iff]
    intro t ht
    exact h t ht.isInfix

/-- A secret that the result starts with was there before, whatever stands in front. -/
theorem Replaced.secret_before (h : Replaced S s m) (u : List α) (ht : t <+: u ++ m) (hsecret : S.Secret t) :
    ∃ t', t' <+: u ++ s ∧ S.Secret t' := by
  induction h generalizing u with
  | nil => exact ⟨t, ht, hsecret⟩
  | @secret s m n hfind _ _ =>
    rcases prefix_append_cases ht with hu | ⟨x, rfl, hx⟩
    · exact ⟨t, hu.trans (List.prefix_append u s), hsecret⟩
    · by_cases hnil : x = []
      · subst hnil
        exact ⟨u ++ [], by simp, hsecret⟩
      · exact S.across hnil hx hsecret hfind
  | @plain c s m _ _ ih =>
    have hshift := ih (u ++ [c]) (by simpa using ht)
    simpa using hshift

theorem Replaced.clean (h : Replaced S s m) : Clean S m := by
  intro t ht
  obtain ⟨z, htz, hz⟩ := List.infix_iff_prefix_suffix.1 ht
  induction h generalizing z with
  | nil =>
    obtain rfl := List.suffix_nil.1 hz
    exact S.complete find_nil t htz
  | @secret s m n hfind h ih =>
    rcases suffix_append_cases hz with hm | ⟨x, y, rfl, hx⟩
    · exact ih (htz.isInfix.trans hm.isInfix) z htz hm
    · by_cases hnil : x = []
      · subst hnil
        exact ih htz.isInfix m htz (List.suffix_refl m)
      · exact S.inside hx hnil htz
  | @plain c s m hfind h ih =>
    rcases List.suffix_cons_iff.1 hz with rfl | hm
    · intro hsecret
      obtain ⟨t', ht', hsecret'⟩ := (Replaced.plain hfind h).secret_before [] htz hsecret
      exact S.complete hfind t' ht' hsecret'
    · exact ih (htz.isInfix.trans hm.isInfix) z htz hm

/-! ## Where a part of the result comes from -/

/-- What follows a symbol outside the marks is the result of a rest of the text. -/
theorem Replaced.split (h : Replaced S s (q ++ c :: x)) (hc : c ∉ S.mark) :
    ∃ p s', s = p ++ s' ∧ Replaced S s' (c :: x) := by
  generalize hm : q ++ c :: x = m at h
  induction h generalizing q with
  | nil => simp at hm
  | @secret s m n hfind h ih =>
    have htake : s.take n ++ s.drop n = s := List.take_append_drop n s
    rcases List.append_eq_append_iff.1 hm with ⟨k, hmark, hx⟩ | ⟨k, hq, hm'⟩
    · cases k with
      | nil =>
        refine ⟨s.take n, s.drop n, htake.symm, ?_⟩
        rw [show c :: x = m from hx]
        exact h
      | cons d k =>
        obtain ⟨rfl, -⟩ := List.cons.inj hx
        exact absurd (hmark ▸ List.mem_append_right q (List.mem_cons_self ..)) hc
    · obtain ⟨p, s', hs, hrest⟩ := ih hm'.symm
      refine ⟨s.take n ++ p, s', ?_, hrest⟩
      rw [List.append_assoc, ← hs, htake]
  | @plain d s m hfind h ih =>
    cases q with
    | nil =>
      obtain ⟨rfl, rfl⟩ := List.cons.inj hm
      exact ⟨[], c :: s, rfl, .plain hfind h⟩
    | cons d' q =>
      obtain ⟨rfl, htail⟩ := List.cons.inj hm
      obtain ⟨p, s', rfl, hrest⟩ := ih htail
      exact ⟨d' :: p, s', rfl, hrest⟩

/-- A symbol that no mark starts with is kept from the text. -/
theorem Replaced.of_cons (h : Replaced S s (c :: x)) (hmark : S.mark ≠ []) (hc : S.mark.head? ≠ some c) :
    ∃ s', s = c :: s' ∧ S.find s = none ∧ Replaced S s' x := by
  generalize hm : c :: x = m at h
  cases h with
  | nil => cases hm
  | secret hfind h =>
    obtain ⟨d, mark, hd⟩ := List.exists_cons_of_ne_nil hmark
    rw [hd] at hm hc
    obtain ⟨rfl, -⟩ := List.cons.inj hm
    simp at hc
  | @plain d s m hfind h =>
    obtain ⟨rfl, rfl⟩ := List.cons.inj hm
    exact ⟨s, rfl, hfind, h⟩

theorem Replaced.of_append (h : Replaced S s (w ++ x)) (hmark : S.mark ≠ [])
    (hw : ∀ c ∈ w, S.mark.head? ≠ some c) : ∃ s', s = w ++ s' ∧ Replaced S s' x := by
  induction w generalizing s with
  | nil => exact ⟨s, rfl, h⟩
  | cons c w ih =>
    obtain ⟨s', rfl, -, htail⟩ := h.of_cons hmark (hw c (List.mem_cons_self ..))
    obtain ⟨s'', rfl, hrest⟩ := ih htail fun d hd => hw d (List.mem_cons_of_mem _ hd)
    exact ⟨s'', rfl, hrest⟩

end Scrub

end Toolstack
