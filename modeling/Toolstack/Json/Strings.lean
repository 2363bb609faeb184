import Toolstack.Json.Value

/-! A rendered string, read back one code point at a time. -/

namespace Toolstack.Json

/-- A first half of a surrogate pair, which a rendered pair could be mistaken for. -/
def highSurrogate (c : CodePoint) : Bool := 0xD800 ≤ c.val && c.val ≤ 0xDBFF

def hexDigit (c : Char) : Nat := if c.toNat ≤ 0x39 then c.toNat - 0x30 else c.toNat - 0x57

def unhex (a b c d : Char) : Nat := ((hexDigit a * 16 + hexDigit b) * 16 + hexDigit c) * 16 + hexDigit d

def unescapeSimple (c : Char) : Nat :=
  if c = 'n' then 0x0A else if c = 'r' then 0x0D else if c = 't' then 0x09 else if c = 'f' then 0x0C
  else if c = 'b' then 0x08 else c.toNat

/-- The first code point of the inside of a rendered string, and what follows it. -/
def unescape : Text → Option (CodePoint × Text)
  | '\\' :: 'u' :: a :: b :: c :: d :: rest =>
    let n := unhex a b c d
    if 0xD800 ≤ n ∧ n ≤ 0xDBFF then
      match rest with
      | '\\' :: 'u' :: a :: b :: c :: d :: rest =>
        some (Fin.ofNat _ (0x10000 + (n - 0xD800) * 0x400 + (unhex a b c d - 0xDC00)), rest)
      | _ => none
    else some (Fin.ofNat _ n, rest)
  | '\\' :: c :: rest => some (Fin.ofNat _ (unescapeSimple c), rest)
  | c :: rest => if c = '"' then none else some (Fin.ofNat _ c.toNat, rest)
  | [] => none

theorem hexDigit_digitChar {n : Nat} (h : n < 16) : hexDigit (Nat.digitChar n) = n := by
  have hall : ∀ n < 16, hexDigit (Nat.digitChar n) = n := by decide
  exact hall n h

theorem hex4_eq (n : Nat) : ∃ a b c d, hex4 n = [a, b, c, d] ∧ unhex a b c d = n % 0x10000 := by
  refine ⟨_, _, _, _, rfl, ?_⟩
  have hlt : ∀ k : Nat, k % 16 < 16 := fun k => Nat.mod_lt _ (by decide)
  simp only [unhex, hexDigit_digitChar (hlt _)]
  omega

/-- A code point that no other text begins with is read back, whatever follows. -/
theorem unescape_escape {c : CodePoint} (hc : highSurrogate c = false) (rest : Text) :
    unescape (escape c ++ rest) = some (c, rest) := by
  have hval : ∀ n, n = c.val → Fin.ofNat 0x110000 n = c := by
    rintro n rfl
    exact Fin.ofNat_val_eq_self c
  have hbound := c.isLt
  have hhigh : ¬(0xD800 ≤ c.val ∧ c.val ≤ 0xDBFF) := by simpa [highSurrogate] using hc
  rw [escape]
  split_ifs with h1 h2 h3 h4 h5 h6 h7 h8 h9
  · exact congrArg some (Prod.ext (hval _ h1.symm) rfl)
  · exact congrArg some (Prod.ext (hval _ h2.symm) rfl)
  · exact congrArg some (Prod.ext (hval _ h3.symm) rfl)
  · exact congrArg some (Prod.ext (hval _ h4.symm) rfl)
  · exact congrArg some (Prod.ext (hval _ h5.symm) rfl)
  · exact congrArg some (Prod.ext (hval _ h6.symm) rfl)
  · exact congrArg some (Prod.ext (hval _ h7.symm) rfl)
  · -- a printable character stands for itself
    have hchar : (Char.ofNat c.val).toNat = c.val := toNat_ofNat (by omega)
    have hquote : Char.ofNat c.val ≠ '"' := by
      intro he
      exact h1 (hchar.symm.trans (congrArg Char.toNat he))
    have hslash : Char.ofNat c.val ≠ '\\' := by
      intro he
      exact h2 (hchar.symm.trans (congrArg Char.toNat he))
    rw [List.singleton_append, unescape]
    · rw [if_neg hquote, hchar, hval _ rfl]
    · exact fun _ _ _ _ _ he _ => hslash he
    · exact fun _ _ he _ => hslash he
  · obtain ⟨x, y, z, w, hhex, hun⟩ := hex4_eq c.val
    rw [Nat.mod_eq_of_lt (by omega)] at hun
    rw [hhex]
    simp only [List.cons_append, List.nil_append, unescape, hun, if_neg hhigh, hval _ rfl]
  · obtain ⟨x, y, z, w, hhex, hun⟩ := hex4_eq (0xD800 + (c.val - 0x10000) / 0x400)
    obtain ⟨x', y', z', w', hhex', hun'⟩ := hex4_eq (0xDC00 + (c.val - 0x10000) % 0x400)
    have hfirst : (c.val - 0x10000) / 0x400 < 0x400 := by omega
    have hsecond : (c.val - 0x10000) % 0x400 < 0x400 := Nat.mod_lt _ (by decide)
    rw [Nat.mod_eq_of_lt (by omega)] at hun hun'
    have hpair : 0xD800 ≤ 0xD800 + (c.val - 0x10000) / 0x400 ∧
        0xD800 + (c.val - 0x10000) / 0x400 ≤ 0xDBFF := by omega
    rw [hhex, hhex']
    simp only [List.cons_append, List.nil_append, unescape, hun, hun', if_pos hpair]
    refine congrArg some (Prod.ext (hval _ ?_) rfl)
    omega

/-- Two rendered strings in front of any texts. -/
theorem quote_append_inj {s t : PyStr} (hs : s.all fun c => !highSurrogate c)
    (ht : t.all fun c => !highSurrogate c) {x y : Text} (h : quote s ++ x = quote t ++ y) : s = t ∧ x = y := by
  have hinside : ∀ s t : PyStr, s.all (fun c => !highSurrogate c) → t.all (fun c => !highSurrogate c) →
      s.flatMap escape ++ '"' :: x = t.flatMap escape ++ '"' :: y → s = t ∧ x = y := by
    intro s
    induction s with
    | nil =>
      intro t _ ht h
      cases t with
      | nil => exact ⟨rfl, (List.cons.inj h).2⟩
      | cons d t =>
        have hd : highSurrogate d = false := by simpa using List.all_eq_true.1 ht d List.mem_cons_self
        have hread := congrArg unescape h
        rw [List.flatMap_cons, List.append_assoc, unescape_escape hd] at hread
        cases hread
    | cons c s ih =>
      intro t hs ht h
      have hc : highSurrogate c = false := by simpa using List.all_eq_true.1 hs c List.mem_cons_self
      have hread := congrArg unescape h
      rw [List.flatMap_cons, List.append_assoc, unescape_escape hc] at hread
      cases t with
      | nil => cases hread
      | cons d t =>
        have hd : highSurrogate d = false := by simpa using List.all_eq_true.1 ht d List.mem_cons_self
        rw [List.flatMap_cons, List.append_assoc, unescape_escape hd] at hread
        obtain ⟨rfl, hrest⟩ := Prod.mk.inj (Option.some.inj hread)
        rw [List.all_cons, Bool.and_eq_true] at hs ht
        obtain ⟨rfl, hxy⟩ := ih t hs.2 ht.2 hrest
        exact ⟨rfl, hxy⟩
  refine hinside s t hs ht ?_
  simpa [quote] using h

end Toolstack.Json
