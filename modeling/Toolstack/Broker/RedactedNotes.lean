import Mathlib.Data.List.TakeWhile
import Toolstack.Broker.Redaction
import Toolstack.Scrub

/-! When a redacted note is redacted for good: nothing that `_SECRETISH` removes is left in it, and
redacting it again changes nothing, unless the cut falls into white space after a last `bearer`. -/

namespace Toolstack.Broker.Redaction

/-! ## The patterns -/

def point : CodePoint := 0x2E

/-- `bearer` in any case. -/
def IsBearer (word : PyStr) : Prop := word.map foldAscii = (py "bearer").map foldAscii

/-- A text that one alternative of `_SECRETISH` matches from end to end. -/
inductive Credential : PyStr → Prop
  | bearer {word sp value : PyStr} (hword : IsBearer word) (hsp : sp ≠ []) (hspace : ∀ c ∈ sp, isSpace c)
    (hvalue : value ≠ []) (hsolid : ∀ c ∈ value, !isSpace c) : Credential (word ++ (sp ++ value))
  | parts {a b c : PyStr} (ha : a ≠ []) (hb : b ≠ []) (hc : c ≠ []) (ha' : ∀ x ∈ a, isTokenChar x)
    (hb' : ∀ x ∈ b, isTokenChar x) (hc' : ∀ x ∈ c, isTokenChar x) : Credential (a ++ point :: (b ++ point :: c))
  | run {a : PyStr} (ha : ∀ x ∈ a, isTokenChar x) (hlen : 32 ≤ a.length) : Credential a

section Characters
variable {c : CodePoint}

theorem not_space_of_token (h : isTokenChar c) : !isSpace c := by
  simp only [isTokenChar, isSpace, Bool.or_eq_true, Bool.and_eq_true, decide_eq_true_eq, beq_iff_eq,
    Bool.not_eq_true', Bool.or_eq_false_iff, Bool.and_eq_false_iff, decide_eq_false_iff_not, beq_eq_false_iff_ne] at h ⊢
  omega

theorem not_space_of_letter (h : foldAscii c = 0x62) : !isSpace c := by
  unfold foldAscii at h
  simp only [isSpace, Bool.not_eq_true', Bool.or_eq_false_iff, Bool.and_eq_false_iff, decide_eq_false_iff_not,
    beq_eq_false_iff_ne]
  split_ifs at h
  · omega
  · omega

end Characters

section Patterns
variable {s t word sp value rest : PyStr} {n : Nat}

theorem IsBearer.length (h : IsBearer word) : word.length = 6 := by
  have hlen := congrArg List.length h
  simpa [py] using hlen

theorem takeWhile_append_cons {p : CodePoint → Bool} {a x : PyStr} {c : CodePoint} (ha : ∀ x ∈ a, p x)
    (hc : p c = false) : (a ++ c :: x).takeWhile p = a := by
  rw [List.takeWhile_append_of_pos ha, List.takeWhile_cons_of_neg (by simp [hc]), List.append_nil]

/-! ## The search -/

/-- A text is its run in front and the rest. -/
theorem takeWhile_append_drop (p : CodePoint → Bool) (s : PyStr) :
    s.takeWhile p ++ s.drop (s.takeWhile p).length = s :=
  List.prefix_iff_eq_append.1 (List.takeWhile_prefix p)

theorem bearer_found (h : bearer s = some n) : 0 < n ∧ n ≤ s.length ∧ Credential (s.take n) := by
  simp only [bearer] at h
  split_ifs at h with hword hvalue
  obtain rfl := Option.some.inj h
  have hlen : (s.take 6).length = 6 := IsBearer.length hword
  have hspaces := takeWhile_append_drop isSpace (s.drop 6)
  generalize hsp : (s.drop 6).takeWhile isSpace = sp at hvalue hspaces ⊢
  have hrest := takeWhile_append_drop (fun c => !isSpace c) ((s.drop 6).drop sp.length)
  generalize hv : ((s.drop 6).drop sp.length).takeWhile (fun c => !isSpace c) = value at hvalue hrest ⊢
  have hs : s.take 6 ++ (sp ++ value) ++ ((s.drop 6).drop sp.length).drop value.length = s := by
    rw [List.append_assoc, List.append_assoc, hrest, hspaces, List.take_append_drop]
  have htake : s.take (6 + sp.length + value.length) = s.take 6 ++ (sp ++ value) := by
    conv_lhs => rw [← hs]
    exact List.take_left' (by simp [hlen]; omega)
  refine ⟨by omega, ?_, ?_⟩
  · have hle := congrArg List.length hs
    simp only [List.length_append, hlen] at hle
    omega
  · rw [htake]
    refine .bearer hword hvalue.1 ?_ hvalue.2 ?_
    · exact fun c hc => List.mem_takeWhile_imp (hsp ▸ hc)
    · exact fun c hc => List.mem_takeWhile_imp (p := fun c => !isSpace c) (hv ▸ hc)

theorem threePart_found (h : threePart s = some n) : 0 < n ∧ n ≤ s.length ∧ Credential (s.take n) := by
  simp only [threePart] at h
  have ha := takeWhile_append_drop isTokenChar s
  generalize hra : s.takeWhile isTokenChar = a at h ha
  split at h
  case h_2 => cases h
  next dot t hdot =>
    have hb := takeWhile_append_drop isTokenChar t
    generalize hrb : t.takeWhile isTokenChar = b at h hb
    split at h
    case h_2 => cases h
    next dot' u hdot' =>
      have hc := takeWhile_append_drop isTokenChar u
      generalize hrc : u.takeWhile isTokenChar = c at h hc
      split_ifs at h with hall
      obtain rfl := Option.some.inj h
      obtain ⟨hpoint, hpoint', hane, hbne, hcne⟩ := hall
      obtain rfl : dot = point := Fin.ext hpoint
      obtain rfl : dot' = point := Fin.ext hpoint'
      have hs : a ++ point :: (b ++ point :: c) ++ u.drop c.length = s := by
        rw [List.append_assoc, List.cons_append, List.append_assoc, List.cons_append, hc, ← hdot', hb, ← hdot, ha]
      have htake : s.take (a.length + b.length + c.length + 2) = a ++ point :: (b ++ point :: c) := by
        conv_lhs => rw [← hs]
        exact List.take_left' (by simp; omega)
      refine ⟨by omega, ?_, ?_⟩
      · have hle := congrArg List.length hs
        simp only [List.length_append, List.length_cons] at hle
        omega
      · rw [htake]
        refine .parts hane hbne hcne ?_ ?_ ?_
        · exact fun x hx => List.mem_takeWhile_imp (hra ▸ hx)
        · exact fun x hx => List.mem_takeWhile_imp (hrb ▸ hx)
        · exact fun x hx => List.mem_takeWhile_imp (hrc ▸ hx)

theorem opaqueRun_found (h : opaqueRun s = some n) : 0 < n ∧ n ≤ s.length ∧ Credential (s.take n) := by
  simp only [opaqueRun] at h
  split_ifs at h with hlen
  obtain rfl := Option.some.inj h
  have hrun : s.take (s.takeWhile isTokenChar).length = s.takeWhile isTokenChar :=
    (List.prefix_iff_eq_take.1 (List.takeWhile_prefix isTokenChar)).symm
  refine ⟨by omega, (List.takeWhile_prefix isTokenChar).length_le, ?_⟩
  rw [hrun]
  exact .run (fun x hx => List.mem_takeWhile_imp hx) hlen

theorem secretish_found (h : secretish s = some n) : 0 < n ∧ n ≤ s.length ∧ Credential (s.take n) := by
  simp only [secretish, Option.orElse_eq_some] at h
  rcases h with hbearer | ⟨-, hparts | ⟨-, hrun⟩⟩
  · exact bearer_found hbearer
  · exact threePart_found hparts
  · exact opaqueRun_found hrun

theorem bearer_complete (hword : IsBearer word) (hsp : sp ≠ []) (hspace : ∀ c ∈ sp, isSpace c) (hvalue : value ≠ [])
    (hsolid : ∀ c ∈ value, !isSpace c) : bearer (word ++ (sp ++ value) ++ rest) ≠ none := by
  have hlen := hword.length
  obtain ⟨c, value, rfl⟩ := List.exists_cons_of_ne_nil hvalue
  have hc : isSpace c = false := by simpa using hsolid c (List.mem_cons_self ..)
  have hs : word ++ (sp ++ c :: value) ++ rest = word ++ (sp ++ c :: (value ++ rest)) := by simp
  have htake : (word ++ (sp ++ c :: (value ++ rest))).take 6 = word := List.take_left' hlen
  have hdrop : (word ++ (sp ++ c :: (value ++ rest))).drop 6 = sp ++ c :: (value ++ rest) := List.drop_left' hlen
  simp only [bearer, hs, htake, hdrop, takeWhile_append_cons hspace hc, List.drop_left]
  rw [if_pos (show word.map foldAscii = _ from hword), if_pos ⟨hsp, by simp [hc]⟩]
  simp

theorem threePart_complete {a b c : PyStr} (ha : a ≠ []) (hb : b ≠ []) (hc : c ≠ []) (ha' : ∀ x ∈ a, isTokenChar x)
    (hb' : ∀ x ∈ b, isTokenChar x) (hc' : ∀ x ∈ c, isTokenChar x) :
    threePart (a ++ point :: (b ++ point :: c) ++ rest) ≠ none := by
  obtain ⟨d, c, rfl⟩ := List.exists_cons_of_ne_nil hc
  have hs : a ++ point :: (b ++ point :: d :: c) ++ rest = a ++ point :: (b ++ point :: d :: (c ++ rest)) := by simp
  have hpoint : isTokenChar point = false := by decide
  have hd : isTokenChar d = true := hc' d (List.mem_cons_self ..)
  simp only [threePart, hs, takeWhile_append_cons ha' hpoint, takeWhile_append_cons hb' hpoint, List.drop_left]
  rw [if_pos ⟨rfl, rfl, ha, hb, by simp [hd]⟩]
  simp

theorem opaqueRun_complete {a : PyStr} (ha : ∀ x ∈ a, isTokenChar x) (hlen : 32 ≤ a.length) :
    opaqueRun (a ++ rest) ≠ none := by
  have hrun : 32 ≤ ((a ++ rest).takeWhile isTokenChar).length := by
    rw [List.takeWhile_append_of_pos ha, List.length_append]
    omega
  simp [opaqueRun, hrun]

theorem secretish_complete (h : secretish s = none) (t : PyStr) (ht : t <+: s) : ¬Credential t := by
  obtain ⟨rest, rfl⟩ := ht
  simp only [secretish, Option.orElse_eq_none] at h
  obtain ⟨hbearer, hparts, hrun⟩ := h
  intro hcredential
  cases hcredential with
  | bearer hword hsp hspace hvalue hsolid => exact bearer_complete hword hsp hspace hvalue hsolid hbearer
  | parts ha hb hc ha' hb' hc' => exact threePart_complete ha hb hc ha' hb' hc' hparts
  | run ha hlen => exact opaqueRun_complete ha hlen hrun

/-! ## The mark -/

theorem Credential.head (h : Credential t) : ∃ c t', t = c :: t' ∧ !isSpace c := by
  have hrun : ∀ {a x : PyStr}, a ≠ [] → (∀ x ∈ a, isTokenChar x) → ∃ c t', a ++ x = c :: t' ∧ !isSpace c := by
    intro a x ha htoken
    obtain ⟨c, a, rfl⟩ := List.exists_cons_of_ne_nil ha
    exact ⟨c, a ++ x, rfl, not_space_of_token (htoken c (List.mem_cons_self ..))⟩
  cases h with
  | @bearer word sp value hword hsp hspace hvalue hsolid =>
    have hlen := hword.length
    cases word with
    | nil => simp at hlen
    | cons c word =>
      refine ⟨c, _, rfl, ?_⟩
      exact not_space_of_letter (List.cons.inj hword).1
  | parts ha hb hc ha' hb' hc' => exact hrun ha ha'
  | run ha hlen => simpa using hrun (x := []) (by rintro rfl; simp at hlen) ha

/-- A credential is a bearer and its value, or is made of tokens and points and ends in a token. -/
theorem Credential.bearer_or_tokens (h : Credential t) :
    (∃ word sp value, t = word ++ (sp ++ value) ∧ IsBearer word ∧ sp ≠ [] ∧ (∀ c ∈ sp, isSpace c) ∧
      ∀ c ∈ value, !isSpace c) ∨
    (∀ c ∈ t, isTokenChar c ∨ c = point) ∧ ∃ c, t.getLast? = some c ∧ isTokenChar c := by
  have hlast : ∀ {x a : PyStr}, a ≠ [] → (∀ c ∈ a, isTokenChar c) → ∃ c, (x ++ a).getLast? = some c ∧ isTokenChar c := by
    intro x a ha htoken
    refine ⟨a.getLast ha, ?_, htoken _ (List.getLast_mem ha)⟩
    rw [List.getLast?_append_of_ne_nil x ha, List.getLast?_eq_some_getLast ha]
  cases h with
  | bearer hword hsp hspace hvalue hsolid => exact .inl ⟨_, _, _, rfl, hword, hsp, hspace, hsolid⟩
  | @parts a b c ha hb hc ha' hb' hc' =>
    refine .inr ⟨?_, ?_⟩
    · intro d hd
      simp only [List.mem_append, List.mem_cons] at hd
      rcases hd with hd | hd | hd | hd | hd
      · exact .inl (ha' d hd)
      · exact .inr hd
      · exact .inl (hb' d hd)
      · exact .inr hd
      · exact .inl (hc' d hd)
    · simpa using hlast (x := a ++ point :: b ++ [point]) hc hc'
  | run ha hlen =>
    exact .inr ⟨fun c hc => .inl (ha c hc), by simpa using hlast (x := []) (by rintro rfl; simp at hlen) ha⟩

/-- A credential with something in it that is no part of a token is a bearer. -/
theorem Credential.of_mem {c : CodePoint} (h : Credential t) (hc : c ∈ t) (htoken : isTokenChar c = false)
    (hpoint : c ≠ point) : ∃ word sp value, t = word ++ (sp ++ value) ∧ IsBearer word ∧ sp ≠ [] ∧
      (∀ c ∈ sp, isSpace c) ∧ ∀ c ∈ value, !isSpace c := by
  rcases h.bearer_or_tokens with hbearer | ⟨htokens, -⟩
  · exact hbearer
  · rcases htokens c hc with htoken' | hpoint'
    · simp [htoken] at htoken'
    · exact absurd hpoint' hpoint

/-- Where a bearer value reaches over a cut, the cut is right before the value or inside it. -/
theorem bearer_cut {u x : PyStr} {d : CodePoint} (hword : IsBearer word) (hsp : sp ≠ [])
    (hspace : ∀ c ∈ sp, isSpace c) (hsolid : ∀ c ∈ value, !isSpace c) (h : u ++ d :: x = word ++ (sp ++ value))
    (hd : d ∉ word) (hd' : isSpace d = false) : Credential u ∨ u = word ++ sp := by
  rcases List.append_eq_append_iff.1 h with ⟨k, rfl, hk⟩ | ⟨k, rfl, hk⟩
  · cases k with
    | nil =>
      obtain ⟨c, sp, rfl⟩ := List.exists_cons_of_ne_nil hsp
      obtain ⟨rfl, -⟩ := List.cons.inj hk
      exact absurd (hspace d (List.mem_cons_self ..)) (by simp [hd'])
    | cons c k =>
      obtain ⟨rfl, -⟩ := List.cons.inj hk
      simp at hd
  · rcases List.append_eq_append_iff.1 hk with ⟨l, rfl, hl⟩ | ⟨l, rfl, hl⟩
    · by_cases hl' : l = []
      · exact .inr (by simp [hl'])
      · refine .inl (.bearer hword hsp hspace hl' fun c hc => hsolid c ?_)
        rw [hl]
        exact List.mem_append_left _ hc
    · cases l with
      | nil => exact .inr (by simp)
      | cons c l =>
        obtain ⟨rfl, -⟩ := List.cons.inj hl
        exact absurd (hspace d (by simp)) (by simp [hd'])

theorem not_mem_bearer (hword : IsBearer word) {d : CodePoint}
    (hd : ((py "bearer").all fun c => foldAscii c != foldAscii d) = true) : d ∉ word := by
  intro hmem
  have hfold : foldAscii d ∈ (py "bearer").map foldAscii := by
    rw [← show word.map foldAscii = _ from hword]
    exact List.mem_map_of_mem hmem
  obtain ⟨c, hc, heq⟩ := List.mem_map.1 hfold
  have hne := List.all_eq_true.1 hd c hc
  simp [heq] at hne

/-! ## The pass -/

def bracket : CodePoint := 0x5B

def closing : CodePoint := 0x5D

def mark : PyStr := py "[redacted]"

theorem mark_eq : mark = bracket :: py "redacted]" := rfl

theorem letter_not_mem_mark {c : CodePoint} (h : foldAscii c = 0x62) : c ∉ mark := by
  intro hmem
  have hnot : (mark.all fun c => foldAscii c != 0x62) = true := rfl
  have hne := List.all_eq_true.1 hnot c hmem
  simp [h] at hne

theorem closing_mem {x y : PyStr} (h : mark = y ++ x) (hx : x ≠ []) : closing ∈ x := by
  have hlast : x.getLast? = some closing := by
    rw [← List.getLast?_append_of_ne_nil y hx, ← h]
    rfl
  exact List.mem_of_getLast? hlast

/-- No credential starts inside a mark: it would have to be a bearer, and no letter there starts one. -/
theorem not_credential_inside {x y m : PyStr} (hmark : mark = y ++ x) (hx : x ≠ []) (ht : t <+: x ++ m) :
    ¬Credential t := by
  have hsub : ∀ c ∈ x, c ∈ mark := fun c hc => hmark ▸ List.mem_append_right y hc
  have hbearer : ∀ word rest', IsBearer word → t ≠ word ++ rest' := by
    rintro word rest' hword rfl
    have hlen := hword.length
    obtain ⟨d, x, rfl⟩ := List.exists_cons_of_ne_nil hx
    cases word with
    | nil => simp at hlen
    | cons c word =>
      obtain rfl : c = d := by
        obtain ⟨z, hz⟩ := ht
        exact (List.cons.inj hz).1
      exact letter_not_mem_mark (List.cons.inj hword).1 (hsub c (List.mem_cons_self ..))
  intro hcredential
  rcases Scrub.prefix_append_cases ht with hle | ⟨x', rfl, -⟩
  · cases hcredential with
    | bearer hword _ _ _ _ => exact hbearer _ _ hword rfl
    | @parts a b c _ _ _ _ _ _ =>
      have hmem : point ∈ mark := hsub _ (hle.subset (by simp))
      exact absurd hmem (by decide)
    | run _ hlen =>
      have hle' : x.length ≤ mark.length := by simp [hmark]
      have hten : mark.length = 10 := rfl
      have := hle.length_le
      omega
  · have hmem : closing ∈ x ++ x' := List.mem_append_left _ (closing_mem hmark hx)
    obtain ⟨word, sp, value, heq, hword, -⟩ := hcredential.of_mem hmem (by decide) (by decide)
    exact hbearer _ _ hword heq

/-- What reaches into a mark reached into the match. -/
theorem credential_before_mark {u x m : PyStr} (hx : x ≠ []) (hstart : x <+: mark ++ m)
    (hcredential : Credential (u ++ x)) (hfind : secretish s = some n) : ∃ t, t <+: u ++ s ∧ Credential t := by
  obtain ⟨-, -, hfront⟩ := secretish_found hfind
  obtain ⟨d, s', htake, hsolid⟩ := hfront.head
  obtain ⟨c, x, rfl⟩ := List.exists_cons_of_ne_nil hx
  obtain rfl : c = bracket := by
    obtain ⟨z, hz⟩ := hstart
    exact (List.cons.inj hz).1
  obtain ⟨word, sp, value, heq, hword, hsp, hspace, hvalue⟩ :=
    hcredential.of_mem (c := bracket) (by simp) (by decide) (by decide)
  rcases bearer_cut hword hsp hspace hvalue heq (not_mem_bearer hword rfl) rfl with hu | rfl
  · exact ⟨u, List.prefix_append u s, hu⟩
  · refine ⟨word ++ (sp ++ [d]), ?_, .bearer hword hsp hspace (by simp) (by simpa using hsolid)⟩
    rw [← List.append_assoc, List.prefix_append_right_inj]
    refine List.IsPrefix.trans ?_ (List.take_prefix n s)
    rw [htake]
    exact ⟨s', rfl⟩

/-- The pass of `_SECRETISH.sub`. -/
def secrets : Scrub CodePoint where
  Secret := Credential
  find := secretish
  mark := mark
  found := secretish_found
  complete := secretish_complete
  across := credential_before_mark
  inside := not_credential_inside

theorem replaced_subSecrets (fuel : Nat) (hfuel : s.length ≤ fuel) : secrets.Replaced s (subSecrets fuel s) := by
  induction fuel generalizing s with
  | zero =>
    obtain rfl := List.length_eq_zero_iff.1 (Nat.le_zero.1 hfuel)
    exact .nil
  | succ fuel ih =>
    cases s with
    | nil => exact .nil
    | cons c s =>
      rw [subSecrets]
      cases hfind : secretish (c :: s) with
      | none => exact .plain hfind (ih (by simpa using hfuel))
      | some n =>
        refine .secret hfind (ih ?_)
        obtain ⟨hpos, -, -⟩ := secretish_found hfind
        simp only [List.length_drop, List.length_cons] at hfuel ⊢
        omega

/-- `_SECRETISH.sub("[redacted]", s)`. -/
def masked (s : PyStr) : PyStr := subSecrets s.length s

theorem replaced_masked (s : PyStr) : secrets.Replaced s (masked s) := replaced_subSecrets s.length le_rfl

theorem masked_clean (s : PyStr) : secrets.Clean (masked s) := (replaced_masked s).clean

theorem masked_of_clean (h : secrets.Clean s) : masked s = s := (replaced_masked s).unique h.replaced

/-! ## The cut -/

def ellipsis : PyStr := py "..."

/-- What `redact` makes of the masked text. -/
def cut (m : PyStr) : PyStr := if m.length > max then m.take max ++ ellipsis else m

theorem redact_some (s : PyStr) : redact (some s) = some (cut (masked s)) := rfl

theorem points_of_ellipsis {c : CodePoint} (h : c ∈ ellipsis) : c = point := by
  have hall : (ellipsis.all fun c => c == point) = true := rfl
  simpa using List.all_eq_true.1 hall c h

theorem not_credential_points (h : ∀ c ∈ t, c = point) : ¬Credential t := by
  have hrun : ∀ {a : PyStr}, a ≠ [] → (∀ c ∈ a, isTokenChar c) → ¬∀ c ∈ a, c = point := by
    intro a ha htoken hpoint
    obtain ⟨c, a, rfl⟩ := List.exists_cons_of_ne_nil ha
    have hc := htoken c (List.mem_cons_self ..)
    rw [hpoint c (List.mem_cons_self ..)] at hc
    exact absurd hc (by decide)
  intro hcredential
  cases hcredential with
  | @bearer word sp value hword _ _ _ _ =>
    have hlen := hword.length
    cases word with
    | nil => simp at hlen
    | cons c word =>
      obtain rfl : c = point := h c (by simp)
      have hnot : point ∉ point :: word := not_mem_bearer hword rfl
      simp at hnot
  | parts ha _ _ ha' _ _ => exact hrun ha ha' fun c hc => h c (List.mem_append_left _ hc)
  | run ha hlen => exact hrun (by rintro rfl; simp at hlen) ha h

/-- The text before the cut ends in `bearer` and white space. -/
def EndsInBearer (m : PyStr) : Prop :=
  ∃ q word sp, m = q ++ (word ++ sp) ∧ IsBearer word ∧ sp ≠ [] ∧ ∀ c ∈ sp, isSpace c

theorem clean_ellipsis_iff {m : PyStr} (h : secrets.Clean m) : secrets.Clean (m ++ ellipsis) ↔ ¬EndsInBearer m := by
  constructor
  · rintro hclean ⟨q, word, sp, rfl, hword, hsp, hspace⟩
    apply hclean (word ++ (sp ++ ellipsis))
    · exact ⟨q, [], by simp⟩
    · exact .bearer hword hsp hspace (by decide) fun c hc => by rw [points_of_ellipsis hc]; rfl
  · intro hnot t ht hcredential
    obtain ⟨z, htz, hz⟩ := List.infix_iff_prefix_suffix.1 ht
    rcases Scrub.suffix_append_cases hz with hz | ⟨u, y, rfl, rfl⟩
    · apply not_credential_points _ hcredential
      exact fun c hc => points_of_ellipsis (hz.subset (htz.subset hc))
    · have hu : u <:+: y ++ u := (List.suffix_append y u).isInfix
      rcases Scrub.prefix_append_cases htz with htu | ⟨x, rfl, hx⟩
      · exact h t (htu.isInfix.trans hu) hcredential
      · have hpoints : ∀ c ∈ x, c = point := fun c hc => points_of_ellipsis (hx.subset hc)
        cases x with
        | nil => exact h u hu (by simpa using hcredential)
        | cons d x =>
          rcases hcredential.bearer_or_tokens with ⟨word, sp, value, heq, hword, hsp, hspace, hsolid⟩ | ⟨-, c, hlast, hc⟩
          · obtain rfl : d = point := hpoints d (List.mem_cons_self ..)
            rcases bearer_cut hword hsp hspace hsolid heq (not_mem_bearer hword rfl) rfl with hcredential' | rfl
            · exact h u hu hcredential'
            · exact hnot ⟨y, word, sp, rfl, hword, hsp, hspace⟩
          · rw [List.getLast?_append_of_ne_nil u (List.cons_ne_nil d x)] at hlast
            rw [hpoints c (List.mem_of_getLast? hlast)] at hc
            exact absurd hc (by decide)

/-! ## The cut in the text itself -/

/-- The text ends in `bearer`, which no match takes, and white space, and the cut falls into that
white space. -/
def CutAtBearer (s : PyStr) : Prop :=
  ∃ p q word sp, s = p ++ (word ++ sp) ∧ masked s = q ++ (word ++ sp) ∧ IsBearer word ∧ (∀ c ∈ sp, isSpace c) ∧
    q.length + word.length < max ∧ max < (masked s).length

theorem clean_of_space (h : ∀ c ∈ s, isSpace c) : secrets.Clean s := by
  rintro t ht hcredential
  obtain ⟨c, t', rfl, hsolid⟩ := Credential.head hcredential
  have hspace := h c (ht.subset (List.mem_cons_self ..))
  simp [hspace] at hsolid

/-- A `bearer` that no match takes is followed by white space only, if by any. -/
theorem spaces_of_bearer (hword : IsBearer word) (hsp : sp ≠ []) (hspace : ∀ c ∈ sp, isSpace c)
    (hfind : secretish (word ++ (sp ++ rest)) = none) : ∀ c ∈ rest, isSpace c := by
  induction rest generalizing sp with
  | nil => simp
  | cons d rest ih =>
    have hd : isSpace d := by
      by_contra hsolid
      apply secretish_complete hfind (word ++ (sp ++ [d]))
      · exact ⟨rest, by simp⟩
      · exact .bearer hword hsp hspace (by simp) (by simpa using hsolid)
    have hrest := @ih (sp ++ [d]) (by simp) (by simpa [or_imp, forall_and] using ⟨hspace, hd⟩) (by simpa using hfind)
    simpa using ⟨hd, hrest⟩

/-- The end of a masked text that ends in `bearer` and white space, cut or not, is that of the text. -/
theorem end_of_bearer {q : PyStr} (hmasked : masked s = q ++ (word ++ (sp ++ rest))) (hword : IsBearer word)
    (hsp : sp ≠ []) (hspace : ∀ c ∈ sp, isSpace c) :
    (∃ p, s = p ++ (word ++ (sp ++ rest))) ∧ ∀ c ∈ rest, isSpace c := by
  have hreplaced := replaced_masked s
  rw [hmasked] at hreplaced
  have hmark : secrets.mark ≠ [] := by decide
  have hhead : secrets.mark.head? = some bracket := rfl
  have hlen := hword.length
  cases word with
  | nil => simp at hlen
  | cons c word =>
    have hc : c ∉ secrets.mark := letter_not_mem_mark (List.cons.inj hword).1
    obtain ⟨p, s', rfl, hrest⟩ := hreplaced.split hc
    have hbracket : ∀ d ∈ c :: word ++ sp, secrets.mark.head? ≠ some d := by
      rintro d hd heq
      obtain rfl : bracket = d := Option.some.inj (hhead.symm.trans heq)
      rcases List.mem_append.1 hd with hmem | hmem
      · exact not_mem_bearer hword rfl hmem
      · exact absurd (hspace bracket hmem) (by decide)
    have hfind : secretish s' = none := by
      obtain ⟨-, -, hfind, -⟩ := hrest.of_cons hmark (hbracket c (by simp))
      exact hfind
    have hwhole : secrets.Replaced s' (c :: word ++ sp ++ rest) := by
      rw [List.append_assoc]
      exact hrest
    obtain ⟨s'', rfl, htail⟩ := hwhole.of_append hmark hbracket
    rw [List.append_assoc] at hfind
    have hspaces := spaces_of_bearer hword hsp hspace hfind
    obtain rfl : rest = s'' := htail.unique (clean_of_space hspaces).replaced
    exact ⟨⟨p, by simp⟩, hspaces⟩

theorem cutAtBearer_iff (s : PyStr) :
    CutAtBearer s ↔ max < (masked s).length ∧ EndsInBearer ((masked s).take max) := by
  constructor
  · rintro ⟨p, q, word, sp, -, hmasked, hword, hspace, hlt, hlong⟩
    refine ⟨hlong, q, word, sp.take (max - (q.length + word.length)), ?_, hword, ?_, ?_⟩
    · rw [hmasked, ← List.append_assoc, List.take_append, List.take_of_length_le (by simp; omega)]
      simp
    · intro hnil
      rcases List.take_eq_nil_iff.1 hnil with hzero | rfl
      · omega
      · simp only [hmasked, List.length_append, List.length_nil] at hlong
        omega
    · exact fun c hc => hspace c (List.mem_of_mem_take hc)
  · rintro ⟨hlong, q, word, sp, htake, hword, hsp, hspace⟩
    have hmasked : masked s = q ++ (word ++ (sp ++ (masked s).drop max)) := by
      conv_lhs => rw [← List.take_append_drop max (masked s), htake]
      simp
    obtain ⟨⟨p, hs⟩, hrest⟩ := end_of_bearer hmasked hword hsp hspace
    refine ⟨p, q, word, sp ++ (masked s).drop max, hs, hmasked, hword, ?_, ?_, hlong⟩
    · intro c hc
      rcases List.mem_append.1 hc with hmem | hmem
      · exact hspace c hmem
      · exact hrest c hmem
    · have hlen := congrArg List.length htake
      have hpos := List.length_pos_iff.2 hsp
      simp only [List.length_take, List.length_append] at hlen
      omega

theorem cut_clean_iff (s : PyStr) : secrets.Clean (cut (masked s)) ↔ ¬CutAtBearer s := by
  have hclean := masked_clean s
  rw [cutAtBearer_iff, cut]
  split_ifs with hlong
  · rw [clean_ellipsis_iff fun t ht => hclean t (ht.trans (List.take_prefix ..).isInfix)]
    simp [hlong]
  · simp [hlong, hclean]

theorem cut_cut (m : PyStr) : cut (cut m) = cut m := by
  unfold cut
  split_ifs with hlong hlong'
  · have hlen : (m.take max).length = max := by simp; omega
    rw [List.take_append_of_le_length (by omega), List.take_of_length_le (by omega)]
  · simp [ellipsis, py] at hlong'
    omega
  · rfl

/-- A text that was cut ends in a point. -/
theorem not_cutAtBearer_cut (h : CutAtBearer s) : ¬CutAtBearer (cut (masked s)) := by
  rintro ⟨p, q, word, sp, hs, hmasked, -, hspace, hlt, hlong⟩
  have hlong' := ((cutAtBearer_iff s).1 h).1
  rw [cut, if_pos hlong'] at hs
  have hsp : sp ≠ [] := by
    rintro rfl
    simp only [hmasked, List.length_append, List.length_nil] at hlong
    omega
  have hlast : sp.getLast? = some point := by
    have heq := congrArg List.getLast? hs
    rw [List.getLast?_append_of_ne_nil p (by simp [hsp]), List.getLast?_append_of_ne_nil word hsp] at heq
    rw [← heq, List.getLast?_append_of_ne_nil _ (by decide)]
    rfl
  have hpoint := hspace point (List.mem_of_getLast? hlast)
  exact absurd hpoint (by decide)

end Patterns

theorem redact_redact_iff (s : PyStr) : redact (redact (some s)) = redact (some s) ↔ ¬CutAtBearer s := by
  have hclean := cut_clean_iff s
  rw [redact_some, redact_some, Option.some_inj]
  constructor
  · intro heq hcut
    apply hclean.1 _ hcut
    rw [← heq]
    exact (cut_clean_iff _).2 (not_cutAtBearer_cut hcut)
  · intro hnot
    rw [masked_of_clean (hclean.2 hnot), cut_cut]

/-- Redacting again changes nothing, and no credential is left, unless the cut falls into the white
space after a last `bearer`: the ellipsis then is its value. -/
theorem redact_stable_iff (s : PyStr) :
    (redact (redact (some s)) = redact (some s) ↔ ¬CutAtBearer s) ∧
    ((∀ r, redact (some s) = some r → ∀ t, t <:+: r → ¬Credential t) ↔ ¬CutAtBearer s) := by
  refine ⟨redact_redact_iff s, ?_⟩
  rw [← cut_clean_iff s, redact_some]
  simp [Scrub.Clean, secrets]

/-- Every text that is redacted twice is stable. -/
theorem redact_settles (text : Option PyStr) : redact (redact (redact text)) = redact (redact text) := by
  cases text with
  | none => rfl
  | some s =>
    by_cases hcut : CutAtBearer s
    · exact (redact_redact_iff _).2 (not_cutAtBearer_cut hcut)
    · have hstable := (redact_redact_iff s).2 hcut
      rw [hstable, hstable]

/-- A note of spaces, `bearer` and spaces, with the cut two characters after `bearer`. -/
def longNote : PyStr := List.replicate 272 0x20 ++ (py "bearer" ++ List.replicate 20 0x20)

theorem redact_longNote :
    redact (redact (some longNote)) ≠ redact (some longNote) ∧
      ∃ r t, redact (some longNote) = some r ∧ t <:+: r ∧ Credential t := by
  refine ⟨by decide +kernel, _, py "bearer" ++ (List.replicate 2 0x20 ++ ellipsis), rfl, ?_, ?_⟩
  · exact ⟨List.replicate 272 0x20, [], by decide +kernel⟩
  · refine .bearer rfl (by decide) ?_ (by decide) ?_
    · intro c hc
      rw [List.eq_of_mem_replicate hc]
      rfl
    · intro c hc
      rw [points_of_ellipsis hc]
      rfl

end Toolstack.Broker.Redaction
