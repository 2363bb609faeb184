import Toolstack.Json.Strings
import Toolstack.Mapping
import Toolstack.Toml.Layout

/-! `json.loads`, and that it reads what `json.dumps` has written. -/

namespace Toolstack.Json

open Url (ch)
open Toml (quoteMark backslash)

/-- What the interpreter sets: how deep values may nest, how many digits an integer may have, and
which float a text stands for. -/
structure Limits where
  depth : Nat
  digits : Nat
  float : PyStr → PyFloat

/-- `RecursionError`, or a `ValueError` with what is wrong. -/
inductive LoadError
  | recursion
  | invalid
  deriving DecidableEq, Repr

def isWhitespace (c : CodePoint) : Bool := c = ch ' ' || c = ch '\t' || c = ch '\n' || c = ch '\r'

def skipWhitespace (s : PyStr) : PyStr := s.dropWhile isWhitespace

/-! ## Strings -/

def simpleEscape (c : CodePoint) : Option CodePoint :=
  if c = quoteMark then some quoteMark
  else if c = backslash then some backslash
  else if c = ch '/' then some (ch '/')
  else if c = ch 'b' then some (Url.byte 0x08)
  else if c = ch 'f' then some (Url.byte 0x0C)
  else if c = ch 'n' then some (ch '\n')
  else if c = ch 'r' then some (ch '\r')
  else if c = ch 't' then some (ch '\t')
  else none

/-- Four hexadecimal digits, and what follows them. -/
def hexUnit : PyStr → Option (Nat × PyStr)
  | a :: b :: c :: d :: s => do
    let values ← [a, b, c, d].mapM Url.hexValue
    return (values.foldl (fun n d => 16 * n + d) 0, s)
  | _ => none

/-- The second half of a surrogate pair, where one follows. -/
def lowHalf : PyStr → Option (Nat × PyStr)
  | b :: u :: s =>
    if b = backslash ∧ u = ch 'u' then
      (hexUnit s).bind fun (n, rest) => if 0xDC00 ≤ n ∧ n ≤ 0xDFFF then some (n, rest) else none
    else none
  | _ => none

/-- The code point after `\u`. -/
def unicodeEscape (s : PyStr) : Option (CodePoint × PyStr) :=
  match hexUnit s with
  | none => none
  | some (n, s) =>
    if 0xD800 ≤ n ∧ n ≤ 0xDBFF then
      match lowHalf s with
      | some (m, rest) => some (Fin.ofNat _ (0x10000 + (n - 0xD800) * 0x400 + (m - 0xDC00)), rest)
      | none => some (Fin.ofNat _ n, s)
    else some (Fin.ofNat _ n, s)

/-- A string after its opening mark. Every turn takes a character at least, so that `n` never runs
out where it starts at the length. -/
def scanString : Nat → PyStr → Option (PyStr × PyStr)
  | 0, _ | _, [] => none
  | n + 1, c :: s =>
    if c = quoteMark then some ([], s)
    else if c.val < 0x20 then none
    else if c = backslash then
      match s with
      | [] => none
      | e :: s =>
        match simpleEscape e with
        | some d => (scanString n s).map fun (v, rest) => (d :: v, rest)
        | none =>
          if e = ch 'u' then
            (unicodeEscape s).bind fun (d, s) => (scanString n s).map fun (v, rest) => (d :: v, rest)
          else none
    else (scanString n s).map fun (v, rest) => (c :: v, rest)

/-! ## Numbers -/

/-- A number as it is written. -/
structure Number where
  negative : Bool
  whole : PyStr
  fraction : PyStr
  exponent : PyStr

def Number.text (x : Number) : PyStr :=
  (if x.negative then [ch '-'] else []) ++ (x.whole ++ (x.fraction ++ x.exponent))

/-- A point with the digits after it. -/
def scanFraction (s : PyStr) : PyStr × PyStr :=
  let digits := s.tail.takeWhile Url.isDigit
  if s.head? = some (ch '.') ∧ digits ≠ [] then (ch '.' :: digits, s.tail.dropWhile Url.isDigit) else ([], s)

def signOf (s : PyStr) : PyStr := if s.head? = some (ch '+') ∨ s.head? = some (ch '-') then s.take 1 else []

/-- An exponent with its sign. -/
def scanExponent : PyStr → PyStr × PyStr
  | [] => ([], [])
  | e :: s =>
    let rest := s.drop (signOf s).length
    let digits := rest.takeWhile Url.isDigit
    if (e = ch 'e' ∨ e = ch 'E') ∧ digits ≠ [] then
      (e :: (signOf s ++ digits), rest.dropWhile Url.isDigit)
    else ([], e :: s)

/-- A zero stands alone before the point. -/
def scanWhole (s : PyStr) : PyStr × PyStr :=
  if s.head? = some (ch '0') then (s.take 1, s.tail) else (s.takeWhile Url.isDigit, s.dropWhile Url.isDigit)

def scanNumber (s : PyStr) : Option (Number × PyStr) :=
  let negative := s.head? = some (ch '-')
  let (whole, s) := scanWhole (if negative then s.tail else s)
  let (fraction, s) := scanFraction s
  let (exponent, s) := scanExponent s
  if whole = [] then none else some (⟨negative, whole, fraction, exponent⟩, s)

/-- An integer may be too long to be converted. -/
def Number.value (L : Limits) (x : Number) : Except LoadError Json :=
  if x.fraction ≠ [] ∨ x.exponent ≠ [] then .ok (.float (L.float x.text))
  else if L.digits < x.whole.length then .error .invalid
  else .ok (.int (if x.negative then -(Toml.decimal x.whole : Int) else Toml.decimal x.whole))

/-! ## Values -/

/-- The constants, each with its value. -/
def constants : List (PyStr × Json) :=
  [(py "null", .null), (py "true", .bool true), (py "false", .bool false), (py "NaN", .float .nan),
    (py "Infinity", .float (.inf false)), (py "-Infinity", .float (.inf true))]

def scanScalar (L : Limits) (s : PyStr) : Except LoadError (Json × PyStr) :=
  match constants.find? fun kv => kv.1 <+: s with
  | some kv => .ok (kv.2, s.drop kv.1.length)
  | none =>
    match scanNumber s with
    | none => .error .invalid
    | some (x, rest) => (x.value L).map fun v => (v, rest)

/-- A dict of the members in their order; the last one of a key counts. -/
def ofMembers (kvs : List (PyStr × Json)) : List (PyStr × Json) :=
  kvs.foldl (fun d kv => Mapping.set d kv.1 kv.2) []

def afterColon : PyStr → Except LoadError PyStr
  | c :: s => if c = ch ':' then .ok (skipWhitespace s) else .error .invalid
  | [] => .error .invalid

mutual
/-- A value from its first character on, in at most `d` levels. -/
def scanValue (L : Limits) : Nat → Nat → PyStr → Except LoadError (Json × PyStr)
  | 0, _, _ | _, _, [] => .error .invalid
  | n + 1, d, c :: s =>
    if c = quoteMark then
      match scanString (s.length + 1) s with
      | some (v, rest) => .ok (.str v, rest)
      | none => .error .invalid
    else if c = ch '[' then
      match d with
      | 0 => .error .recursion
      | d + 1 =>
        if (skipWhitespace s).head? = some (ch ']') then .ok (.arr [], (skipWhitespace s).tail)
        else (scanElements L n d (skipWhitespace s)).map fun (xs, rest) => (.arr xs, rest)
    else if c = ch '\x7b' then
      match d with
      | 0 => .error .recursion
      | d + 1 =>
        if (skipWhitespace s).head? = some (ch '\x7d') then .ok (.obj [], (skipWhitespace s).tail)
        else (scanMembers L n d (skipWhitespace s)).map fun (kvs, rest) => (.obj (ofMembers kvs), rest)
    else scanScalar L (c :: s)

/-- The values of an array, of which there is at least one. -/
def scanElements (L : Limits) : Nat → Nat → PyStr → Except LoadError (List Json × PyStr)
  | 0, _, _ => .error .invalid
  | n + 1, d, s => do
    let (v, s) ← scanValue L n d s
    match skipWhitespace s with
    | c :: s =>
      if c = ch ']' then .ok ([v], s)
      else if c = ch ',' then do
        let (vs, rest) ← scanElements L n d (skipWhitespace s)
        .ok (v :: vs, rest)
      else .error .invalid
    | [] => .error .invalid

/-- The members of an object, of which there is at least one. -/
def scanMembers (L : Limits) : Nat → Nat → PyStr → Except LoadError (List (PyStr × Json) × PyStr)
  | 0, _, _ | _, _, [] => .error .invalid
  | n + 1, d, q :: s =>
    if q ≠ quoteMark then .error .invalid
    else
      match scanString (s.length + 1) s with
      | none => .error .invalid
      | some (k, s) => do
        let s ← afterColon (skipWhitespace s)
        let (v, s) ← scanValue L n d s
        match skipWhitespace s with
        | c :: s =>
          if c = ch '\x7d' then .ok ([(k, v)], s)
          else if c = ch ',' then do
            let (kvs, rest) ← scanMembers L n d (skipWhitespace s)
            .ok ((k, v) :: kvs, rest)
          else .error .invalid
        | [] => .error .invalid
end

/-- `json.loads` of a text: one value with white space around it. -/
def loads (L : Limits) (text : PyStr) : Except LoadError Json := do
  let (v, rest) ← scanValue L (text.length + 1) L.depth (skipWhitespace text)
  if skipWhitespace rest = [] then .ok v else .error .invalid

/-! ## Strings read back -/

/-- Rendered text as it is read. -/
def code (t : Text) : PyStr := t.map ch

theorem code_append (s t : Text) : code (s ++ t) = code s ++ code t := List.map_append

def lowSurrogate (c : CodePoint) : Bool := 0xDC00 ≤ c.val && c.val ≤ 0xDFFF

/-- No two code points that would be read as one: no JSON text stands for such a string. -/
def unpaired : PyStr → Bool
  | a :: b :: s => !(highSurrogate a && lowSurrogate b) && unpaired (b :: s)
  | _ => true

theorem hexUnit_hex4 (n : Nat) (rest : PyStr) : hexUnit (code (hex4 n) ++ rest) = some (n % 0x10000, rest) := by
  have hdigit : ∀ k, Url.hexValue (ch (Nat.digitChar (k % 16))) = some (k % 16) := by
    have hall : ∀ k < 16, Url.hexValue (ch (Nat.digitChar k)) = some k := by decide
    exact fun k => hall _ (Nat.mod_lt _ (by decide))
  have hvalues : [ch (Nat.digitChar (n / 4096 % 16)), ch (Nat.digitChar (n / 256 % 16)),
      ch (Nat.digitChar (n / 16 % 16)), ch (Nat.digitChar (n % 16))].mapM Url.hexValue =
      some [n / 4096 % 16, n / 256 % 16, n / 16 % 16, n % 16] := by
    simp only [List.mapM_cons, List.mapM_nil, hdigit]
    rfl
  simp only [hex4, code, List.map_cons, List.map_nil, List.cons_append, List.nil_append, hexUnit, hvalues]
  simp only [List.foldl_cons, List.foldl_nil, Option.bind_eq_bind, Option.bind_some, Option.pure_def, Option.some.injEq,
    Prod.mk.injEq, and_true]
  omega

/-- How a code point is written: as itself, after a backslash, or by its digits. -/
theorem escape_cases (c : CodePoint) :
    (code (escape c) = [c] ∧ c ≠ quoteMark ∧ c ≠ backslash ∧ 0x20 ≤ c.val) ∨
    (∃ e, code (escape c) = [backslash, e] ∧ e ≠ ch 'u' ∧ simpleEscape e = some c) ∨
    (c.val ≤ 0xFFFF ∧ code (escape c) = backslash :: ch 'u' :: code (hex4 c.val)) ∨
    (0xFFFF < c.val ∧ code (escape c) = backslash :: ch 'u' :: (code (hex4 (0xD800 + (c.val - 0x10000) / 0x400)) ++
      backslash :: ch 'u' :: code (hex4 (0xDC00 + (c.val - 0x10000) % 0x400)))) := by
  have hsimple : ∀ (text : PyStr) (e d : CodePoint), c.val = d.val → text = [backslash, e] → e ≠ ch 'u' →
      simpleEscape e = some d → ∃ e, text = [backslash, e] ∧ e ≠ ch 'u' ∧ simpleEscape e = some c := by
    intro text e d h htext hu hread
    obtain rfl : c = d := Fin.ext h
    exact ⟨e, htext, hu, hread⟩
  have hbound := c.isLt
  rw [escape]
  split_ifs with h1 h2 h3 h4 h5 h6 h7 h8 h9
  · exact .inr (.inl (hsimple _ (ch '"') quoteMark h1 rfl (by decide) (by decide)))
  · exact .inr (.inl (hsimple _ (ch '\\') backslash h2 rfl (by decide) (by decide)))
  · exact .inr (.inl (hsimple _ (ch 'n') (ch '\n') h3 rfl (by decide) (by decide)))
  · exact .inr (.inl (hsimple _ (ch 'r') (ch '\r') h4 rfl (by decide) (by decide)))
  · exact .inr (.inl (hsimple _ (ch 't') (ch '\t') h5 rfl (by decide) (by decide)))
  · exact .inr (.inl (hsimple _ (ch 'f') (Url.byte 0x0C) h6 rfl (by decide) (by decide)))
  · exact .inr (.inl (hsimple _ (ch 'b') (Url.byte 0x08) h7 rfl (by decide) (by decide)))
  · -- a printable character stands for itself
    have hchar : ch (Char.ofNat c.val) = c := by
      rw [ch, toNat_ofNat (by omega)]
      exact Fin.ofNat_val_eq_self c
    refine .inl ⟨congrArg (fun c => [c]) hchar, ?_, ?_, h8.1⟩
    · rintro rfl
      exact h1 rfl
    · rintro rfl
      exact h2 rfl
  · exact .inr (.inr (.inl ⟨h9, rfl⟩))
  · refine .inr (.inr (.inr ⟨Nat.not_le.1 h9, ?_⟩))
    rw [code_append]
    rfl

theorem lowHalf_of_ne {c : CodePoint} (h : c ≠ backslash) (rest : PyStr) : lowHalf (c :: rest) = none := by
  cases rest with
  | nil => rfl
  | cons d rest => exact if_neg fun hand => h hand.1

theorem lowHalf_hex4 {n : Nat} (hn : n ≤ 0xFFFF) (rest : PyStr) :
    lowHalf (backslash :: ch 'u' :: (code (hex4 n) ++ rest)) =
      if 0xDC00 ≤ n ∧ n ≤ 0xDFFF then some (n, rest) else none := by
  have hmod : n % 0x10000 = n := Nat.mod_eq_of_lt (by omega)
  have hunit := hexUnit_hex4 n rest
  rw [hmod] at hunit
  have hmarks : backslash = backslash ∧ ch 'u' = ch 'u' := ⟨rfl, rfl⟩
  rw [lowHalf, if_pos hmarks, hunit, Option.bind_some]

theorem lowHalf_escape {c : CodePoint} (h : lowSurrogate c = false) (rest : PyStr) :
    lowHalf (code (escape c) ++ rest) = none := by
  have hlow : ¬(0xDC00 ≤ c.val ∧ c.val ≤ 0xDFFF) := by simpa [lowSurrogate] using h
  have hbound := c.isLt
  rcases escape_cases c with ⟨htext, -, hslash, -⟩ | ⟨e, htext, hu, -⟩ | ⟨hle, htext⟩ | ⟨hgt, htext⟩
  · rw [htext, List.singleton_append, lowHalf_of_ne hslash]
  · rw [htext, List.cons_append, List.cons_append]
    exact if_neg fun hand => hu hand.2
  · rw [htext, List.cons_append, List.cons_append, lowHalf_hex4 hle, if_neg hlow]
  · have hfirst : (c.val - 0x10000) / 0x400 < 0x400 := by omega
    rw [htext, List.cons_append, List.cons_append, List.append_assoc, lowHalf_hex4 (by omega), if_neg (by omega)]

theorem unicodeEscape_hex4 {n : Nat} (hn : n ≤ 0xFFFF) (rest : PyStr) :
    unicodeEscape (code (hex4 n) ++ rest) =
      if 0xD800 ≤ n ∧ n ≤ 0xDBFF then
        match lowHalf rest with
        | some (m, rest) => some (Fin.ofNat _ (0x10000 + (n - 0xD800) * 0x400 + (m - 0xDC00)), rest)
        | none => some (Fin.ofNat _ n, rest)
      else some (Fin.ofNat _ n, rest) := by
  have hmod : n % 0x10000 = n := Nat.mod_eq_of_lt (by omega)
  have hunit := hexUnit_hex4 n rest
  rw [hmod] at hunit
  unfold unicodeEscape
  rw [hunit]

theorem unicodeEscape_escape {c : CodePoint} {rest : PyStr} (h : highSurrogate c = true → lowHalf rest = none)
    {s : PyStr} (hs : code (escape c) ++ rest = backslash :: ch 'u' :: s) : unicodeEscape s = some (c, rest) := by
  have hbound := c.isLt
  have hself : ∀ k, k = c.val → Fin.ofNat 0x110000 k = c := by
    rintro k rfl
    exact Fin.ofNat_val_eq_self c
  rcases escape_cases c with ⟨htext, -, hslash, -⟩ | ⟨e, htext, hu, -⟩ | ⟨hle, htext⟩ | ⟨hgt, htext⟩
  · rw [htext] at hs
    exact absurd (List.cons.inj hs).1 hslash
  · rw [htext] at hs
    exact absurd (List.cons.inj (List.cons.inj hs).2).1 hu
  · rw [htext] at hs
    obtain rfl : code (hex4 c.val) ++ rest = s := (List.cons.inj (List.cons.inj hs).2).2
    rw [unicodeEscape_hex4 hle, hself _ rfl]
    split_ifs with hhigh
    · rw [h (by simpa [highSurrogate] using hhigh)]
    · rfl
  · rw [htext] at hs
    have hfirst : (c.val - 0x10000) / 0x400 < 0x400 := by omega
    have hsecond : (c.val - 0x10000) % 0x400 < 0x400 := Nat.mod_lt _ (by decide)
    have hs := (List.cons.inj (List.cons.inj hs).2).2
    rw [List.append_eq, List.append_assoc] at hs
    have hlow := @lowHalf_hex4 (0xDC00 + (c.val - 0x10000) % 0x400) (by omega) rest
    rw [if_pos (by omega)] at hlow
    rw [← hs, unicodeEscape_hex4 (by omega), if_pos (by omega), List.cons_append, List.cons_append, hlow]
    simp only
    rw [hself _ (by omega)]

/-- One code point of a string. -/
theorem scanString_escape {c : CodePoint} {rest : PyStr} (h : highSurrogate c = true → lowHalf rest = none) (n : Nat) :
    scanString (n + 1) (code (escape c) ++ rest) = (scanString n rest).map fun (v, rest) => (c :: v, rest) := by
  have hunicode : ∀ s, code (escape c) ++ rest = backslash :: ch 'u' :: s →
      scanString (n + 1) (code (escape c) ++ rest) = (scanString n rest).map fun (v, rest) => (c :: v, rest) := by
    intro s hs
    have hread := unicodeEscape_escape h hs
    have hmarks : backslash ≠ quoteMark ∧ ¬backslash.val < 0x20 ∧ simpleEscape (ch 'u') = none := by decide
    rw [hs, scanString.eq_def]
    simp only [if_neg hmarks.1, if_neg hmarks.2.1, if_true, hmarks.2.2, hread, Option.bind_some]
  rcases escape_cases c with ⟨htext, hquote, hslash, hprint⟩ | ⟨e, htext, hu, hread⟩ | ⟨hle, htext⟩ | ⟨hgt, htext⟩
  · rw [htext, List.singleton_append, scanString.eq_def]
    simp only [if_neg hquote, if_neg (Nat.not_lt.2 hprint), if_neg hslash]
  · have hmarks : backslash ≠ quoteMark ∧ ¬backslash.val < 0x20 := by decide
    rw [htext, List.cons_append, List.singleton_append, scanString.eq_def]
    simp only [if_neg hmarks.1, if_neg hmarks.2, if_true, hread]
  · exact hunicode _ (by rw [htext]; rfl)
  · exact hunicode _ (by rw [htext]; rfl)

theorem scanString_quote {s : PyStr} (h : unpaired s = true) (rest : PyStr) :
    ∀ n, s.length < n → scanString n (code (s.flatMap escape ++ ['"']) ++ rest) = some (s, rest) := by
  induction s with
  | nil =>
    intro n hn
    obtain ⟨n, rfl⟩ : ∃ m, n = m + 1 := ⟨n - 1, by simp at hn; omega⟩
    rfl
  | cons c s ih =>
    intro n hn
    obtain ⟨n, rfl⟩ : ∃ m, n = m + 1 := ⟨n - 1, by simp at hn; omega⟩
    have hnext : highSurrogate c = true → lowHalf (code (s.flatMap escape ++ ['"']) ++ rest) = none := by
      intro hhigh
      cases s with
      | nil =>
        have hquote : quoteMark ≠ backslash := by decide
        exact lowHalf_of_ne hquote rest
      | cons d s =>
        rw [unpaired, Bool.and_eq_true, hhigh] at h
        rw [List.flatMap_cons, List.append_assoc, code_append, List.append_assoc]
        exact lowHalf_escape (by simpa using h.1) _
    have htail : unpaired s = true := by
      cases s with
      | nil => rfl
      | cons d s => exact (Bool.and_eq_true _ _ ▸ h).2
    rw [List.flatMap_cons, List.append_assoc, code_append, List.append_assoc, scanString_escape hnext,
      ih htail n (by simpa using hn)]
    rfl

/-! ## Numbers read back -/

/-- What goes on with a number. -/
def numeric (c : CodePoint) : Bool := Url.isDigit c || c = ch '.' || c = ch 'e' || c = ch 'E'

structure Number.Wf (x : Number) : Prop where
  whole : x.whole ≠ [] ∧ x.whole.all Url.isDigit = true ∧ (x.whole.head? = some (ch '0') → x.whole.length = 1)
  fraction : x.fraction = [] ∨ ∃ ds, ds ≠ [] ∧ ds.all Url.isDigit = true ∧ x.fraction = ch '.' :: ds
  exponent : x.exponent = [] ∨ ∃ e sign ds, (e = ch 'e' ∨ e = ch 'E') ∧
    (sign = [] ∨ sign = [ch '+'] ∨ sign = [ch '-']) ∧ ds ≠ [] ∧ ds.all Url.isDigit = true ∧
    x.exponent = e :: (sign ++ ds)

theorem digits_append {ds rest : PyStr} (hds : ds.all Url.isDigit = true)
    (hrest : rest.head?.any Url.isDigit = false) :
    (ds ++ rest).takeWhile Url.isDigit = ds ∧ (ds ++ rest).dropWhile Url.isDigit = rest := by
  have hall : ∀ c ∈ ds, Url.isDigit c = true := List.all_eq_true.1 hds
  rw [List.takeWhile_append_of_pos hall, List.dropWhile_append_of_pos hall]
  cases rest with
  | nil => simp
  | cons c rest =>
    have hc : Url.isDigit c = false := by simpa using hrest
    simp [hc]

theorem not_numeric {c : CodePoint} (h : numeric c = false) :
    Url.isDigit c = false ∧ c ≠ ch '.' ∧ c ≠ ch 'e' ∧ c ≠ ch 'E' := by
  simpa [numeric, and_assoc] using h

section Number
variable {x : Number} {rest : PyStr}

theorem scanExponent_text (hx : x.Wf) (hrest : rest.head?.any numeric = false) :
    scanExponent (x.exponent ++ rest) = (x.exponent, rest) := by
  have hdigit : rest.head?.any Url.isDigit = false := by
    cases rest with
    | nil => rfl
    | cons c rest => exact (not_numeric hrest).1
  rcases hx.exponent with hnil | ⟨e, sign, ds, he, hsign, hne, hds, hexp⟩
  · rw [hnil, List.nil_append]
    cases rest with
    | nil => rfl
    | cons c rest =>
      obtain ⟨-, -, he, hE⟩ := not_numeric hrest
      exact if_neg fun hand => hand.1.elim he hE
  · have hsigned : signOf (sign ++ ds ++ rest) = sign := by
      obtain ⟨c, cs, rfl⟩ := List.exists_cons_of_ne_nil hne
      have hc : Url.isDigit c = true := List.all_eq_true.1 hds c List.mem_cons_self
      have hcs := Toml.ne_of_isDigit hc
      rcases hsign with rfl | rfl | rfl
      · exact if_neg fun hor => hor.elim (fun h => hcs (ch '+') (by decide) (Option.some.inj h))
          fun h => hcs (ch '-') (by decide) (Option.some.inj h)
      · exact if_pos (.inl rfl)
      · exact if_pos (.inr rfl)
    have hbody : (sign ++ ds ++ rest).drop sign.length = ds ++ rest := by
      rw [List.append_assoc, List.drop_left]
    obtain ⟨htake, hdrop⟩ := digits_append hds hdigit
    rw [hexp, List.cons_append, scanExponent]
    simp only [hsigned, hbody, htake, hdrop]
    exact if_pos ⟨he, hne⟩

/-- What follows the fraction is neither a digit nor a point. -/
theorem exponent_head (hx : x.Wf) (hrest : rest.head?.any numeric = false) :
    (x.exponent ++ rest).head?.any Url.isDigit = false ∧ (x.exponent ++ rest).head? ≠ some (ch '.') := by
  rcases hx.exponent with hnil | ⟨e, sign, ds, he, -, -, -, hexp⟩
  · rw [hnil, List.nil_append]
    cases rest with
    | nil => exact ⟨rfl, by simp⟩
    | cons c rest =>
      obtain ⟨hdigit, hpoint, -⟩ := not_numeric hrest
      exact ⟨hdigit, fun h => hpoint (Option.some.inj h)⟩
  · rw [hexp, List.cons_append]
    have hmarks : ∀ c, c = ch 'e' ∨ c = ch 'E' → Url.isDigit c = false ∧ c ≠ ch '.' := by
      rintro c (rfl | rfl)
      · decide
      · decide
    exact ⟨(hmarks e he).1, fun h => (hmarks e he).2 (Option.some.inj h)⟩

theorem scanFraction_text (hx : x.Wf) (hrest : rest.head?.any numeric = false) :
    scanFraction (x.fraction ++ (x.exponent ++ rest)) = (x.fraction, x.exponent ++ rest) := by
  obtain ⟨hdigit, hpoint⟩ := exponent_head hx hrest
  rcases hx.fraction with hnil | ⟨ds, hne, hds, hfraction⟩
  · rw [hnil, List.nil_append]
    exact if_neg fun hand => hpoint hand.1
  · obtain ⟨htake, hdrop⟩ := digits_append hds hdigit
    rw [hfraction, List.cons_append, scanFraction]
    simp only [List.tail_cons, List.head?_cons, htake, hdrop]
    exact if_pos ⟨trivial, hne⟩

theorem scanWhole_text (hx : x.Wf) (hrest : rest.head?.any numeric = false) :
    scanWhole (x.whole ++ (x.fraction ++ (x.exponent ++ rest))) = (x.whole, x.fraction ++ (x.exponent ++ rest)) := by
  obtain ⟨hne, hdigits, hzero⟩ := hx.whole
  have hdigit : (x.fraction ++ (x.exponent ++ rest)).head?.any Url.isDigit = false := by
    rcases hx.fraction with hnil | ⟨ds, -, -, hfraction⟩
    · rw [hnil]
      exact (exponent_head hx hrest).1
    · rw [hfraction]
      have hpoint : Url.isDigit (ch '.') = false := by decide
      exact hpoint
  obtain ⟨htake, hdrop⟩ := digits_append hdigits hdigit
  unfold scanWhole
  by_cases hhead : x.whole.head? = some (ch '0')
  · obtain ⟨c, cs, hcons⟩ := List.exists_cons_of_ne_nil hne
    have hlength := hzero hhead
    rw [hcons, List.length_cons] at hlength
    obtain rfl : cs = [] := List.eq_nil_of_length_eq_zero (by omega)
    rw [hcons] at hhead ⊢
    exact if_pos hhead
  · have hsame : (x.whole ++ (x.fraction ++ (x.exponent ++ rest))).head? = x.whole.head? := by
      obtain ⟨c, cs, hcons⟩ := List.exists_cons_of_ne_nil hne
      rw [hcons]
      rfl
    rw [hsame, if_neg hhead, htake, hdrop]

end Number

theorem scanNumber_text {x : Number} (hx : x.Wf) {rest : PyStr} (hrest : rest.head?.any numeric = false) :
    scanNumber (x.text ++ rest) = some (x, rest) := by
  have hminus : ¬(x.whole ++ (x.fraction ++ (x.exponent ++ rest))).head? = some (ch '-') := by
    obtain ⟨hne, hdigits, -⟩ := hx.whole
    obtain ⟨c, cs, hcons⟩ := List.exists_cons_of_ne_nil hne
    rw [hcons] at hdigits ⊢
    have hc : Url.isDigit c = true := List.all_eq_true.1 hdigits c List.mem_cons_self
    intro hhead
    exact Toml.ne_of_isDigit hc (ch '-') (by decide) (Option.some.inj hhead)
  have hneg : (x.text ++ rest).head? = some (ch '-') ↔ x.negative = true := by
    cases hn : x.negative with
    | true => simp [Number.text, hn]
    | false =>
      simp only [Number.text, hn, Bool.false_eq_true, if_false, List.nil_append, List.append_assoc, iff_false]
      exact hminus
  have hbody : (if (x.text ++ rest).head? = some (ch '-') then (x.text ++ rest).tail else x.text ++ rest) =
      x.whole ++ (x.fraction ++ (x.exponent ++ rest)) := by
    rw [if_congr hneg rfl rfl]
    cases hn : x.negative <;> simp [Number.text, hn]
  unfold scanNumber
  simp only [hbody, scanWhole_text hx hrest, scanFraction_text hx hrest, scanExponent_text hx hrest,
    if_neg hx.whole.1]
  have hnegative : decide ((x.text ++ rest).head? = some (ch '-')) = x.negative := by
    rw [Bool.eq_iff_iff, decide_eq_true_iff]
    exact hneg
  rw [hnegative]

/-! ## Values read back -/

mutual
/-- How deep arrays and objects nest. -/
def depth : Json → Nat
  | arr xs => depthAll xs + 1
  | obj kvs => depthMembers kvs + 1
  | _ => 0

def depthAll : List Json → Nat
  | [] => 0
  | x :: xs => max (depth x) (depthAll xs)

def depthMembers : List (PyStr × Json) → Nat
  | [] => 0
  | (_, v) :: kvs => max (depth v) (depthMembers kvs)
end

mutual
/-- The digits of the longest integer. -/
def digits : Json → Nat
  | int n => n.natAbs.repr.toList.length
  | arr xs => digitsAll xs
  | obj kvs => digitsMembers kvs
  | _ => 0

def digitsAll : List Json → Nat
  | [] => 0
  | x :: xs => max (digits x) (digitsAll xs)

def digitsMembers : List (PyStr × Json) → Nat
  | [] => 0
  | (_, v) :: kvs => max (digits v) (digitsMembers kvs)
end

/-- `json.dumps(v)`, which has the limits of the interpreter too. -/
def dumpsWithin (L : Limits) (v : Json) : Except LoadError Text :=
  if L.depth < v.depth then .error .recursion
  else if L.digits < v.digits then .error .invalid
  else .ok (dumps .plain v)

/-- The text of a float is that of a number, and stands for the float. -/
def LoadableFloat (L : Limits) : PyFloat → Prop
  | .finite x => ∃ n : Number, n.Wf ∧ (n.fraction ≠ [] ∨ n.exponent ≠ []) ∧ n.text = code x.text ∧
      L.float n.text = .finite x
  | _ => True

mutual
/-- What JSON can say: each key once, and no string that its own text would join differently. -/
def Loadable (L : Limits) : Json → Prop
  | str s => unpaired s = true
  | float x => LoadableFloat L x
  | arr xs => LoadableAll L xs
  | obj kvs => (kvs.map Prod.fst).Nodup ∧ LoadableMembers L kvs
  | _ => True

def LoadableAll (L : Limits) : List Json → Prop
  | [] => True
  | x :: xs => Loadable L x ∧ LoadableAll L xs

def LoadableMembers (L : Limits) : List (PyStr × Json) → Prop
  | [] => True
  | (k, v) :: kvs => unpaired k = true ∧ Loadable L v ∧ LoadableMembers L kvs
end

/-- The value is read from its text whatever follows, as long as it does not go on with a number. -/
structure ReadsBack (L : Limits) (v : Json) : Prop where
  head : ∃ c s, code (dumps .plain v) = c :: s ∧ isWhitespace c = false ∧ c ≠ ch ']'
  run : ∀ n d rest, (dumps .plain v).length ≤ n → v.depth ≤ d → rest.head?.any numeric = false →
    scanValue L n d (code (dumps .plain v) ++ rest) = .ok (v, rest)

section Scalars
variable {L : Limits}

theorem scanScalar_constant {w : PyStr} {v : Json} (h : (w, v) ∈ constants) (rest : PyStr) :
    scanScalar L (w ++ rest) = .ok (v, rest) := by
  simp only [constants, List.mem_cons, List.not_mem_nil, or_false] at h
  rcases h with h | h | h | h | h | h
  all_goals
    obtain ⟨rfl, rfl⟩ := Prod.mk.inj h
    rfl

theorem scanValue_scalar {c : CodePoint} {s : PyStr} {n d : Nat} (hquote : c ≠ quoteMark) (harr : c ≠ ch '[')
    (hobj : c ≠ ch '\x7b') : scanValue L (n + 1) d (c :: s) = scanScalar L (c :: s) := by
  rw [scanValue.eq_def]
  simp only [if_neg hquote, if_neg harr, if_neg hobj]

theorem readsBack_constant {v : Json} {c : CodePoint} {w : PyStr} (h : (c :: w, v) ∈ constants)
    (htext : code (dumps .plain v) = c :: w) : ReadsBack L v := by
  have hall : constants.all (fun kv => kv.1.head?.all fun c =>
      !isWhitespace c && c ≠ ch ']' && c ≠ quoteMark && c ≠ ch '[' && c ≠ ch '\x7b') = true := by decide
  have hc := List.all_eq_true.1 hall _ h
  simp only [List.head?_cons, Option.all_some, Bool.and_eq_true, Bool.not_eq_true', decide_eq_true_eq] at hc
  obtain ⟨⟨⟨⟨hws, hclose⟩, hquote⟩, harr⟩, hobj⟩ := hc
  refine ⟨⟨c, w, htext, hws, hclose⟩, fun n d rest hn _ _ => ?_⟩
  have hlength : 0 < (dumps .plain v).length := by
    rw [← List.length_map (f := ch)]
    exact (congrArg List.length htext).symm ▸ Nat.succ_pos _
  obtain ⟨n, rfl⟩ : ∃ m, n = m + 1 := ⟨n - 1, by omega⟩
  rw [htext, List.cons_append, scanValue_scalar hquote harr hobj]
  exact scanScalar_constant h rest

/-- No constant begins like a number. -/
theorem not_constant {c : CodePoint} (hc : Url.isDigit c = true) (s : PyStr) :
    constants.find? (fun kv => decide (kv.1 <+: c :: s)) = none ∧
      constants.find? (fun kv => decide (kv.1 <+: ch '-' :: c :: s)) = none := by
  have hall : constants.all (fun kv => !(kv.1.take 2).any Url.isDigit && kv.1 ≠ [] && kv.1 ≠ [ch '-']) = true := by
    decide
  have hword : ∀ kv ∈ constants, (∀ k ∈ kv.1.take 2, k ≠ c) ∧ kv.1 ≠ [] ∧ kv.1 ≠ [ch '-'] := by
    intro kv hkv
    have hkv := List.all_eq_true.1 hall kv hkv
    simp only [Bool.and_eq_true, Bool.not_eq_true', List.any_eq_false, decide_eq_true_eq] at hkv
    exact ⟨fun k hk he => hkv.1.1 k hk (he ▸ hc), hkv.1.2, hkv.2⟩
  constructor
  · rw [List.find?_eq_none]
    intro kv hkv hprefix
    obtain ⟨hdigit, hne, -⟩ := hword kv hkv
    obtain ⟨k, w, hcons⟩ := List.exists_cons_of_ne_nil hne
    rw [hcons, decide_eq_true_iff, List.cons_prefix_cons] at hprefix
    exact hdigit k (by simp [hcons]) hprefix.1
  · rw [List.find?_eq_none]
    intro kv hkv hprefix
    obtain ⟨hdigit, hne, hminus⟩ := hword kv hkv
    obtain ⟨k, w, hcons⟩ := List.exists_cons_of_ne_nil hne
    rw [hcons, decide_eq_true_iff, List.cons_prefix_cons] at hprefix
    obtain ⟨rfl, hprefix⟩ := hprefix
    cases w with
    | nil => exact hminus hcons
    | cons k w =>
      rw [List.cons_prefix_cons] at hprefix
      exact hdigit k (by simp [hcons]) hprefix.1

theorem number_head {x : Number} (hx : x.Wf) :
    ∃ c s, (x.text = c :: s ∨ x.text = ch '-' :: c :: s) ∧ Url.isDigit c = true := by
  obtain ⟨hne, hdigits, -⟩ := hx.whole
  obtain ⟨c, cs, hcons⟩ := List.exists_cons_of_ne_nil hne
  rw [hcons] at hdigits
  have hc : Url.isDigit c = true := List.all_eq_true.1 hdigits c List.mem_cons_self
  refine ⟨c, cs ++ (x.fraction ++ x.exponent), ?_, hc⟩
  cases hn : x.negative with
  | true => exact .inr (by simp [Number.text, hn, hcons])
  | false => exact .inl (by simp [Number.text, hn, hcons])

theorem readsBack_number {v : Json} {x : Number} (hx : x.Wf) (htext : code (dumps .plain v) = x.text)
    (hvalue : x.value L = .ok v) : ReadsBack L v := by
  have hmarks : ∀ d : CodePoint, Url.isDigit d = false → d ≠ ch '-' → ∀ c s, x.text = c :: s → c ≠ d := by
    intro d hd hminus c s hcons
    obtain ⟨c', s', hhead, hc'⟩ := number_head hx
    rcases hhead with hhead | hhead
    · rw [hcons] at hhead
      exact (List.cons.inj hhead).1 ▸ Toml.ne_of_isDigit hc' d hd
    · rw [hcons] at hhead
      exact (List.cons.inj hhead).1 ▸ hminus.symm
  have hnone : ∀ rest, constants.find? (fun kv => decide (kv.1 <+: x.text ++ rest)) = none := by
    intro rest
    obtain ⟨c, s, hhead, hc⟩ := number_head hx
    rcases hhead with hhead | hhead
    · rw [hhead]
      exact (not_constant hc (s ++ rest)).1
    · rw [hhead]
      exact (not_constant hc (s ++ rest)).2
  obtain ⟨c, s, hcons⟩ : ∃ c s, x.text = c :: s := by
    obtain ⟨c, s, hhead, -⟩ := number_head hx
    exact hhead.elim (fun h => ⟨_, _, h⟩) fun h => ⟨_, _, h⟩
  have hne := fun d hd hminus => hmarks d hd hminus c s hcons
  refine ⟨⟨c, s, htext.trans hcons, ?_, hne _ (by decide) (by decide)⟩, fun n d rest hn _ hrest => ?_⟩
  · simp only [isWhitespace, Bool.or_eq_false_iff, decide_eq_false_iff_not]
    exact ⟨⟨⟨hne _ (by decide) (by decide), hne _ (by decide) (by decide)⟩, hne _ (by decide) (by decide)⟩,
      hne _ (by decide) (by decide)⟩
  · have hlength : 0 < (dumps .plain v).length := by
      have hmap : (code (dumps .plain v)).length = (dumps .plain v).length := List.length_map ch
      rw [← hmap, htext, hcons]
      exact Nat.succ_pos _
    obtain ⟨n, rfl⟩ : ∃ m, n = m + 1 := ⟨n - 1, by omega⟩
    have hscalar : scanScalar L (x.text ++ rest) = .ok (v, rest) := by
      rw [scanScalar, hnone, scanNumber_text hx hrest]
      simp only [hvalue]
      rfl
    rw [htext, hcons, List.cons_append, scanValue_scalar (hne _ (by decide) (by decide))
      (hne _ (by decide) (by decide)) (hne _ (by decide) (by decide)), ← List.cons_append, ← hcons]
    exact hscalar

theorem readsBack_int {n : Int} (h : (int n).digits ≤ L.digits) : ReadsBack L (int n) := by
  have hnat : ∀ k : Nat, py k.repr ≠ [] ∧ (py k.repr).all Url.isDigit = true ∧
      ((py k.repr).head? = some (ch '0') → (py k.repr).length = 1) := by
    intro k
    obtain ⟨hdigits, -, c, s, hcons, hzero⟩ := Toml.repr_digits k
    refine ⟨by simp [hcons], List.all_eq_true.2 hdigits, fun hhead => ?_⟩
    rw [hcons] at hhead ⊢
    rw [(hzero (Option.some.inj hhead)).1]
    rfl
  have hlength : (py n.natAbs.repr).length ≤ L.digits := by
    rw [py, List.length_map]
    exact h
  have hvalue : ∀ negative, (⟨negative, py n.natAbs.repr, [], []⟩ : Number).value L =
      .ok (.int (if negative then -(n.natAbs : Int) else n.natAbs)) := by
    intro negative
    simp [Number.value, Nat.not_lt.2 hlength, (Toml.repr_digits n.natAbs).2.1]
  cases n with
  | ofNat k =>
    refine readsBack_number (x := ⟨false, py k.repr, [], []⟩) ⟨hnat k, .inl rfl, .inl rfl⟩ ?_ (hvalue false)
    simp only [Number.text, Bool.false_eq_true, if_false, List.nil_append, List.append_nil]
    rfl
  | negSucc k =>
    refine readsBack_number (x := ⟨true, py (k + 1).repr, [], []⟩) ⟨hnat (k + 1), .inl rfl, .inl rfl⟩ ?_ (hvalue true)
    simp only [Number.text, if_true, List.append_nil, List.singleton_append, ← Toml.repr_negSucc]
    rfl

theorem readsBack_float {x : PyFloat} (h : LoadableFloat L x) : ReadsBack L (float x) := by
  cases x with
  | finite x =>
    obtain ⟨n, hwf, hmarked, htext, hvalue⟩ := h
    refine readsBack_number hwf htext.symm ?_
    rw [Number.value, if_pos hmarked, hvalue]
  | nan =>
    refine readsBack_constant (c := ch 'N') (w := py "aN") ?_ rfl
    exact .tail _ (.tail _ (.tail _ (.head _)))
  | inf negative =>
    cases negative with
    | true =>
      refine readsBack_constant (c := ch '-') (w := py "Infinity") ?_ rfl
      exact .tail _ (.tail _ (.tail _ (.tail _ (.tail _ (.head _)))))
    | false =>
      refine readsBack_constant (c := ch 'I') (w := py "nfinity") ?_ rfl
      exact .tail _ (.tail _ (.tail _ (.tail _ (.head _))))

theorem length_le_escapes (s : PyStr) : s.length ≤ (s.flatMap escape).length := by
  induction s with
  | nil => exact Nat.le_refl _
  | cons c s ih =>
    have hone : 1 ≤ (escape c).length := by
      have hmap : (code (escape c)).length = (escape c).length := List.length_map ch
      rw [← hmap]
      rcases escape_cases c with ⟨h, -⟩ | ⟨e, h, -⟩ | ⟨-, h⟩ | ⟨-, h⟩ <;> simp [h]
    rw [List.flatMap_cons, List.length_append, List.length_cons]
    omega

/-- A quoted string from its opening mark on. -/
theorem scanString_read {s : PyStr} (h : unpaired s = true) (rest : PyStr) :
    ∃ body, code (quote s) = quoteMark :: body ∧
      scanString ((body ++ rest).length + 1) (body ++ rest) = some (s, rest) := by
  refine ⟨code (s.flatMap escape ++ ['"']), rfl, scanString_quote h rest _ ?_⟩
  have hle := length_le_escapes s
  have hmap : (code (s.flatMap escape ++ ['"'])).length = (s.flatMap escape ++ ['"']).length := List.length_map ch
  rw [List.length_append, hmap, List.length_append]
  omega

theorem readsBack_str {s : PyStr} (h : unpaired s = true) : ReadsBack L (str s) := by
  obtain ⟨body, hbody, -⟩ := scanString_read h []
  refine ⟨⟨_, _, hbody, by decide, by decide⟩, fun n d rest hn _ _ => ?_⟩
  obtain ⟨body', hbody', hread⟩ := scanString_read h rest
  obtain rfl : body' = body := (List.cons.inj (hbody'.symm.trans hbody)).2
  obtain ⟨n, rfl⟩ : ∃ m, n = m + 1 := ⟨n - 1, by simp [dumps, quote] at hn; omega⟩
  have htext : code (dumps .plain (str s)) = quoteMark :: body' := hbody
  rw [htext, List.cons_append, scanValue.eq_def]
  simp only [if_true, hread]

end Scalars

/-! ## Arrays and objects read back -/

section Containers
variable {L : Limits}

theorem skipWhitespace_of_head {c : CodePoint} (hc : isWhitespace c = false) (s : PyStr) :
    skipWhitespace (c :: s) = c :: s := by
  rw [skipWhitespace, List.dropWhile_cons_of_neg (by simp [hc])]

theorem skipWhitespace_space (s : PyStr) : skipWhitespace (ch ' ' :: s) = skipWhitespace s := by
  have hspace : isWhitespace (ch ' ') = true := by decide
  rw [skipWhitespace, List.dropWhile_cons_of_pos hspace]
  rfl

theorem ReadsBack.skip {v : Json} (h : ReadsBack L v) (rest : PyStr) :
    skipWhitespace (code (dumps .plain v) ++ rest) = code (dumps .plain v) ++ rest := by
  obtain ⟨c, s, hcons, hws, -⟩ := h.head
  rw [hcons]
  exact skipWhitespace_of_head hws _

/-- The marks that follow a value in an array or an object. -/
theorem marks : isWhitespace (ch ',') = false ∧ isWhitespace (ch ']') = false ∧ isWhitespace (ch '\x7d') = false ∧
    numeric (ch ',') = false ∧ numeric (ch ']') = false ∧ numeric (ch '\x7d') = false ∧ ch ',' ≠ ch ']' ∧
    ch ',' ≠ ch '\x7d' := by
  decide

theorem join_cons (sep x : Text) (xs : List Text) : ∃ t, join sep (x :: xs) = x ++ t := by
  cases xs with
  | nil => exact ⟨[], (List.append_nil x).symm⟩
  | cons y xs => exact ⟨_, rfl⟩

theorem scanElements_join {xs : List Json} (hxs : ∀ x ∈ xs, ReadsBack L x) {x : Json} (hx : ReadsBack L x)
    {n d : Nat} (rest : PyStr) (hn : (join Style.plain.comma (dumpsAll .plain (x :: xs))).length < n)
    (hd : depthAll (x :: xs) ≤ d) :
    scanElements L n d (code (join Style.plain.comma (dumpsAll .plain (x :: xs))) ++ ch ']' :: rest) =
      .ok (x :: xs, rest) := by
  obtain ⟨hcomma, hclose, -, hcomma', hclose', -, hne, -⟩ := marks
  obtain ⟨n, rfl⟩ : ∃ m, n = m + 1 := ⟨n - 1, by omega⟩
  have hdx : x.depth ≤ d := Nat.le_trans (Nat.le_max_left _ _) hd
  induction xs generalizing x n with
  | nil =>
    have hread := hx.run n d (ch ']' :: rest) (Nat.lt_succ_iff.1 hn) hdx hclose'
    have htext : code (join Style.plain.comma (dumpsAll .plain [x])) = code (dumps .plain x) := rfl
    rw [scanElements, htext, hread]
    simp only [bind, Except.bind, skipWhitespace_of_head hclose, if_true]
  | cons y ys ih =>
    have htext : code (join Style.plain.comma (dumpsAll .plain (x :: y :: ys))) ++ ch ']' :: rest =
        code (dumps .plain x) ++ ch ',' :: ch ' ' ::
          (code (join Style.plain.comma (dumpsAll .plain (y :: ys))) ++ ch ']' :: rest) := by
      have hjoin : join Style.plain.comma (dumpsAll .plain (x :: y :: ys)) =
          dumps .plain x ++ (Style.plain.comma ++ join Style.plain.comma (dumpsAll .plain (y :: ys))) := rfl
      rw [hjoin, code_append, code_append, List.append_assoc, List.append_assoc]
      rfl
    have hlength : (join Style.plain.comma (dumpsAll .plain (x :: y :: ys))).length =
        (dumps .plain x).length + (2 + (join Style.plain.comma (dumpsAll .plain (y :: ys))).length) := by
      have hjoin : join Style.plain.comma (dumpsAll .plain (x :: y :: ys)) =
          dumps .plain x ++ (Style.plain.comma ++ join Style.plain.comma (dumpsAll .plain (y :: ys))) := rfl
      rw [hjoin, List.length_append, List.length_append]
      rfl
    have hy := hxs y List.mem_cons_self
    have hdy : depthAll (y :: ys) ≤ d := Nat.le_trans (Nat.le_max_right _ _) hd
    obtain ⟨n, rfl⟩ : ∃ m, n = m + 1 := ⟨n - 1, by omega⟩
    have hread := hx.run (n + 1) d (ch ',' :: ch ' ' ::
      (code (join Style.plain.comma (dumpsAll .plain (y :: ys))) ++ ch ']' :: rest)) (by omega) hdx hcomma'
    have hskip : skipWhitespace (code (join Style.plain.comma (dumpsAll .plain (y :: ys))) ++ ch ']' :: rest) =
        code (join Style.plain.comma (dumpsAll .plain (y :: ys))) ++ ch ']' :: rest := by
      obtain ⟨t, ht⟩ := join_cons Style.plain.comma (dumps .plain y) (dumpsAll .plain ys)
      rw [dumpsAll, ht, code_append, List.append_assoc]
      exact hy.skip _
    have htail := ih (fun z hz => hxs z (List.mem_cons_of_mem _ hz)) hy hdy n (by omega)
      (Nat.le_trans (Nat.le_max_left _ _) hdy)
    rw [scanElements, htext, hread]
    simp only [bind, Except.bind, skipWhitespace_of_head hcomma, if_neg hne, if_true, skipWhitespace_space, hskip, htail]

/-- The texts of the members of an object. -/
def memberTexts (kvs : List (PyStr × Json)) : List Text := (dumpsMembers .plain kvs).map (member .plain)

theorem memberTexts_head (kv : PyStr × Json) (kvs : List (PyStr × Json)) :
    ∃ s, code (join Style.plain.comma (memberTexts (kv :: kvs))) = quoteMark :: s := by
  obtain ⟨t, ht⟩ := join_cons Style.plain.comma (member .plain (kv.1, dumps .plain kv.2)) (memberTexts kvs)
  obtain ⟨m, hm⟩ : ∃ m, member .plain (kv.1, dumps .plain kv.2) = '"' :: m := ⟨_, rfl⟩
  have htexts : memberTexts (kv :: kvs) = member .plain (kv.1, dumps .plain kv.2) :: memberTexts kvs := rfl
  exact ⟨code (m ++ t), by rw [htexts, ht, hm]; rfl⟩

/-- A key, the colon and the value up to the mark that follows. -/
theorem scanMembers_cons {kv : PyStr × Json} (hkey : unpaired kv.1 = true) (hv : ReadsBack L kv.2) {n d : Nat}
    {c : CodePoint} (hc : isWhitespace c = false) (hc' : numeric c = false) (rest : PyStr)
    (hn : (member .plain (kv.1, dumps .plain kv.2)).length ≤ n) (hd : kv.2.depth ≤ d) :
    scanMembers L (n + 1) d (code (member .plain (kv.1, dumps .plain kv.2)) ++ c :: rest) =
      if c = ch '\x7d' then .ok ([(kv.1, kv.2)], rest)
      else if c = ch ',' then (scanMembers L n d (skipWhitespace rest)).map fun (kvs, rest) => (kv :: kvs, rest)
      else .error .invalid := by
  obtain ⟨body, hbody, -⟩ := scanString_read hkey []
  have htext : code (member .plain (kv.1, dumps .plain kv.2)) ++ c :: rest =
      quoteMark :: (body ++ ch ':' :: ch ' ' :: (code (dumps .plain kv.2) ++ c :: rest)) := by
    rw [member, code_append, hbody, code_append, List.append_assoc, List.append_assoc]
    rfl
  obtain ⟨body', hbody', hread⟩ := scanString_read hkey (ch ':' :: ch ' ' :: (code (dumps .plain kv.2) ++ c :: rest))
  obtain rfl : body' = body := (List.cons.inj (hbody'.symm.trans hbody)).2
  have hcolon : isWhitespace (ch ':') = false := by decide
  have hlength : (dumps .plain kv.2).length ≤ n := by
    have hmember : (member .plain (kv.1, dumps .plain kv.2)).length =
        (quote kv.1).length + (2 + (dumps .plain kv.2).length) := by
      rw [member, List.length_append, List.length_append]
      rfl
    omega
  have hvalue := hv.run n d (c :: rest) hlength hd hc'
  have hafter : afterColon (ch ':' :: ch ' ' :: (code (dumps .plain kv.2) ++ c :: rest)) =
      .ok (code (dumps .plain kv.2) ++ c :: rest) := by
    rw [afterColon, if_pos rfl, skipWhitespace_space, hv.skip]
  rw [htext, scanMembers.eq_def]
  simp only [ne_eq, not_true_eq_false, if_false, hread, skipWhitespace_of_head hcolon, hafter, bind, Except.bind,
    hvalue, skipWhitespace_of_head hc]
  split_ifs with hclose hcomma
  · rfl
  · cases scanMembers L n d (skipWhitespace rest) <;> rfl
  · rfl

theorem scanMembers_join {kvs : List (PyStr × Json)} (hkvs : ∀ kv ∈ kvs, unpaired kv.1 = true ∧ ReadsBack L kv.2)
    {kv : PyStr × Json} (hkv : unpaired kv.1 = true ∧ ReadsBack L kv.2) {n d : Nat} (rest : PyStr)
    (hn : (join Style.plain.comma (memberTexts (kv :: kvs))).length < n) (hd : depthMembers (kv :: kvs) ≤ d) :
    scanMembers L n d (code (join Style.plain.comma (memberTexts (kv :: kvs))) ++ ch '\x7d' :: rest) =
      .ok (kv :: kvs, rest) := by
  obtain ⟨hcomma, -, hclose, hcomma', -, hclose', -, hne⟩ := marks
  obtain ⟨n, rfl⟩ : ∃ m, n = m + 1 := ⟨n - 1, by omega⟩
  have hdx : kv.2.depth ≤ d := Nat.le_trans (Nat.le_max_left _ _) hd
  induction kvs generalizing kv n with
  | nil =>
    have hread := scanMembers_cons hkv.1 hkv.2 (n := n) (d := d) hclose hclose' rest (Nat.lt_succ_iff.1 hn) hdx
    rw [if_pos rfl] at hread
    exact hread
  | cons kv' kvs ih =>
    have hjoin : join Style.plain.comma (memberTexts (kv :: kv' :: kvs)) = member .plain (kv.1, dumps .plain kv.2) ++
        (Style.plain.comma ++ join Style.plain.comma (memberTexts (kv' :: kvs))) := rfl
    have hlength : (join Style.plain.comma (memberTexts (kv :: kv' :: kvs))).length =
        (member .plain (kv.1, dumps .plain kv.2)).length +
          (2 + (join Style.plain.comma (memberTexts (kv' :: kvs))).length) := by
      rw [hjoin, List.length_append, List.length_append]
      rfl
    have htext : code (join Style.plain.comma (memberTexts (kv :: kv' :: kvs))) ++ ch '\x7d' :: rest =
        code (member .plain (kv.1, dumps .plain kv.2)) ++ ch ',' :: ch ' ' ::
          (code (join Style.plain.comma (memberTexts (kv' :: kvs))) ++ ch '\x7d' :: rest) := by
      rw [hjoin, code_append, code_append, List.append_assoc, List.append_assoc]
      rfl
    have hskip : skipWhitespace (ch ' ' :: (code (join Style.plain.comma (memberTexts (kv' :: kvs))) ++ ch '\x7d' :: rest)) =
        code (join Style.plain.comma (memberTexts (kv' :: kvs))) ++ ch '\x7d' :: rest := by
      have hquote : isWhitespace quoteMark = false := by decide
      obtain ⟨s, hs⟩ := memberTexts_head kv' kvs
      rw [skipWhitespace_space, hs]
      exact skipWhitespace_of_head hquote _
    have hdy : depthMembers (kv' :: kvs) ≤ d := Nat.le_trans (Nat.le_max_right _ _) hd
    obtain ⟨n, rfl⟩ : ∃ m, n = m + 1 := ⟨n - 1, by omega⟩
    have htail := ih (fun z hz => hkvs z (List.mem_cons_of_mem _ hz)) (hkvs kv' List.mem_cons_self) hdy n (by omega)
      (Nat.le_trans (Nat.le_max_left _ _) hdy)
    have hread := scanMembers_cons hkv.1 hkv.2 (n := n + 1) (d := d) hcomma hcomma'
      (ch ' ' :: (code (join Style.plain.comma (memberTexts (kv' :: kvs))) ++ ch '\x7d' :: rest)) (by omega) hdx
    rw [htext, hread, if_neg hne, if_pos rfl, hskip, htail]
    rfl

theorem ofMembers_eq {kvs : List (PyStr × Json)} (h : (kvs.map Prod.fst).Nodup) : ofMembers kvs = kvs := by
  unfold ofMembers
  induction kvs using List.reverseRecOn with
  | nil => rfl
  | append_singleton kvs kv ih =>
    rw [List.map_append, List.nodup_append] at h
    rw [List.foldl_append, ih h.1, List.foldl_cons, List.foldl_nil, Mapping.set, if_neg]
    intro hany
    obtain ⟨kv', hkv', hkey⟩ := List.any_eq_true.1 hany
    exact h.2.2 _ (List.mem_map_of_mem hkv') _ (by simp) (of_decide_eq_true hkey)

theorem readsBack_arr {xs : List Json} (hxs : ∀ x ∈ xs, ReadsBack L x) : ReadsBack L (arr xs) := by
  have htext : code (dumps .plain (arr xs)) =
      ch '[' :: (code (join Style.plain.comma (dumpsAll .plain xs)) ++ [ch ']']) := by
    rw [dumps, code, List.map_cons, List.map_append]
    rfl
  have hlength : (dumps .plain (arr xs)).length = (join Style.plain.comma (dumpsAll .plain xs)).length + 2 := by
    rw [dumps, List.length_cons, List.length_append]
    rfl
  have hbracket : ch '[' ≠ quoteMark ∧ isWhitespace (ch '[') = false ∧ ch '[' ≠ ch ']' := by decide
  refine ⟨⟨_, _, htext, hbracket.2.1, hbracket.2.2⟩, fun n d rest hn hd _ => ?_⟩
  obtain ⟨n, rfl⟩ : ∃ m, n = m + 1 := ⟨n - 1, by omega⟩
  obtain ⟨d, rfl⟩ : ∃ e, d = e + 1 := ⟨d - 1, by rw [depth] at hd; omega⟩
  have hdepth : depthAll xs ≤ d := by
    rw [depth] at hd
    omega
  rw [htext, List.cons_append, List.append_assoc, scanValue.eq_def]
  simp only [if_neg hbracket.1, if_true]
  cases xs with
  | nil => rfl
  | cons x xs =>
    have hx := hxs x List.mem_cons_self
    obtain ⟨c, s, hcons, hws, hclose⟩ := hx.head
    obtain ⟨t, ht⟩ := join_cons Style.plain.comma (dumps .plain x) (dumpsAll .plain xs)
    have hhead : code (join Style.plain.comma (dumpsAll .plain (x :: xs))) ++ ([ch ']'] ++ rest) =
        c :: (s ++ code t ++ ([ch ']'] ++ rest)) := by
      rw [dumpsAll, ht, code_append, hcons]
      simp
    have hskip := skipWhitespace_of_head hws (s ++ code t ++ ([ch ']'] ++ rest))
    rw [← hhead] at hskip
    have hnot : ¬(code (join Style.plain.comma (dumpsAll .plain (x :: xs))) ++ ([ch ']'] ++ rest)).head? =
        some (ch ']') := by
      rw [hhead]
      exact fun he => hclose (Option.some.inj he)
    have hread := scanElements_join (fun y hy => hxs y (List.mem_cons_of_mem _ hy)) hx rest (n := n) (d := d)
      (by omega) hdepth
    rw [hskip, if_neg hnot]
    exact congrArg (Except.map _) hread

theorem readsBack_obj {kvs : List (PyStr × Json)} (hnodup : (kvs.map Prod.fst).Nodup)
    (hkvs : ∀ kv ∈ kvs, unpaired kv.1 = true ∧ ReadsBack L kv.2) : ReadsBack L (obj kvs) := by
  have htext : code (dumps .plain (obj kvs)) =
      ch '\x7b' :: (code (join Style.plain.comma (memberTexts kvs)) ++ [ch '\x7d']) := by
    rw [dumps, code, List.map_cons, List.map_append]
    rfl
  have hlength : (dumps .plain (obj kvs)).length = (join Style.plain.comma (memberTexts kvs)).length + 2 := by
    rw [dumps, List.length_cons, List.length_append]
    rfl
  have hbracket : ch '\x7b' ≠ quoteMark ∧ ch '\x7b' ≠ ch '[' ∧ isWhitespace (ch '\x7b') = false ∧
      ch '\x7b' ≠ ch ']' := by decide
  refine ⟨⟨_, _, htext, hbracket.2.2.1, hbracket.2.2.2⟩, fun n d rest hn hd _ => ?_⟩
  obtain ⟨n, rfl⟩ : ∃ m, n = m + 1 := ⟨n - 1, by omega⟩
  obtain ⟨d, rfl⟩ : ∃ e, d = e + 1 := ⟨d - 1, by rw [depth] at hd; omega⟩
  have hdepth : depthMembers kvs ≤ d := by
    rw [depth] at hd
    omega
  rw [htext, List.cons_append, List.append_assoc, scanValue.eq_def]
  simp only [if_neg hbracket.1, if_neg hbracket.2.1, if_true]
  cases kvs with
  | nil => rfl
  | cons kv kvs =>
    obtain ⟨s, hs⟩ := memberTexts_head kv kvs
    have hquote : isWhitespace quoteMark = false ∧ quoteMark ≠ ch '\x7d' := by decide
    have hskip : skipWhitespace (code (join Style.plain.comma (memberTexts (kv :: kvs))) ++ ([ch '\x7d'] ++ rest)) =
        code (join Style.plain.comma (memberTexts (kv :: kvs))) ++ ([ch '\x7d'] ++ rest) := by
      rw [hs]
      exact skipWhitespace_of_head hquote.1 _
    have hnot : ¬(code (join Style.plain.comma (memberTexts (kv :: kvs))) ++ ([ch '\x7d'] ++ rest)).head? =
        some (ch '\x7d') := by
      rw [hs]
      exact fun he => hquote.2 (Option.some.inj he)
    have hread := scanMembers_join (fun z hz => hkvs z (List.mem_cons_of_mem _ hz)) (hkvs kv List.mem_cons_self)
      rest (n := n) (d := d) (by omega) hdepth
    have hdict : obj (ofMembers (kv :: kvs)) = obj (kv :: kvs) := congrArg obj (ofMembers_eq hnodup)
    rw [hskip, if_neg hnot, ← hdict]
    exact congrArg (Except.map _) hread

end Containers

mutual
theorem readsBack {L : Limits} : ∀ v : Json, Loadable L v → v.digits ≤ L.digits → ReadsBack L v
  | null, _, _ => readsBack_constant (c := ch 'n') (w := py "ull") (.head _) rfl
  | bool true, _, _ => readsBack_constant (c := ch 't') (w := py "rue") (.tail _ (.head _)) rfl
  | bool false, _, _ => readsBack_constant (c := ch 'f') (w := py "alse") (.tail _ (.tail _ (.head _))) rfl
  | int _, _, hd => readsBack_int hd
  | float _, h, _ => readsBack_float h
  | str _, h, _ => readsBack_str h
  | arr xs, h, hd => readsBack_arr (readsBack_all xs h hd)
  | obj kvs, h, hd => readsBack_obj h.1 (readsBack_members kvs h.2 hd)

theorem readsBack_all {L : Limits} : ∀ xs : List Json, LoadableAll L xs → digitsAll xs ≤ L.digits →
    ∀ x ∈ xs, ReadsBack L x
  | [], _, _ => by simp
  | x :: xs, h, hd => by
    have hx := readsBack x h.1 (Nat.le_trans (Nat.le_max_left _ _) hd)
    have hxs := readsBack_all xs h.2 (Nat.le_trans (Nat.le_max_right _ _) hd)
    exact List.forall_mem_cons.2 ⟨hx, hxs⟩

theorem readsBack_members {L : Limits} : ∀ kvs : List (PyStr × Json), LoadableMembers L kvs →
    digitsMembers kvs ≤ L.digits → ∀ kv ∈ kvs, unpaired kv.1 = true ∧ ReadsBack L kv.2
  | [], _, _ => by simp
  | (k, v) :: kvs, h, hd => by
    have hv := readsBack v h.2.1 (Nat.le_trans (Nat.le_max_left _ _) hd)
    have hkvs := readsBack_members kvs h.2.2 (Nat.le_trans (Nat.le_max_right _ _) hd)
    exact List.forall_mem_cons.2 ⟨⟨h.1, hv⟩, hkvs⟩
end

/-- What `json.dumps` has written is read back, with white space after it or none. -/
theorem loads_dumps {L : Limits} {v : Json} {text : Text} (h : Loadable L v) (hdumps : dumpsWithin L v = .ok text)
    {tail : PyStr} (htail : tail.all isWhitespace = true) : loads L (code text ++ tail) = .ok v := by
  unfold dumpsWithin at hdumps
  split_ifs at hdumps with hdepth hdigits
  obtain rfl := Except.ok.inj hdumps
  have hread := readsBack v h (Nat.not_lt.1 hdigits)
  have hnumeric : tail.head?.any numeric = false := by
    cases tail with
    | nil => rfl
    | cons c tail =>
      have hc : isWhitespace c = true := List.all_eq_true.1 htail c List.mem_cons_self
      have hspaces : ∀ c, isWhitespace c = true → numeric c = false := by
        intro c hc
        simp only [isWhitespace, Bool.or_eq_true, decide_eq_true_eq] at hc
        rcases hc with ((rfl | rfl) | rfl) | rfl <;> decide
      exact hspaces c hc
  have hlength : (dumps .plain v).length ≤ (code (dumps .plain v) ++ tail).length + 1 := by
    rw [List.length_append, code, List.length_map]
    omega
  have hrest : skipWhitespace tail = [] := List.dropWhile_eq_nil_iff.2 (List.all_eq_true.1 htail)
  rw [loads, hread.skip, hread.run _ _ tail hlength (Nat.not_lt.1 hdepth) hnumeric]
  simp [bind, Except.bind, hrest]

/-! ## The characters of a rendered text -/

/-- Printable ASCII: one byte each, and no line end. -/
def printable (c : Char) : Bool := 0x20 ≤ c.toNat && c.toNat < 0x7F

theorem printable_hex4 (n : Nat) : (hex4 n).all printable = true := by
  have hdigit : ∀ k, printable (Nat.digitChar (k % 16)) = true := by
    have hall : ∀ k < 16, printable (Nat.digitChar k) = true := by decide
    exact fun k => hall _ (Nat.mod_lt _ (by decide))
  simp only [hex4, List.map_cons, List.map_nil, List.all_cons, List.all_nil, hdigit, Bool.and_self]

theorem printable_escape (c : CodePoint) : (escape c).all printable = true := by
  have hmarks : printable '\\' = true ∧ printable 'u' = true := by decide
  rw [escape]
  split_ifs with h1 h2 h3 h4 h5 h6 h7 h8 h9
  iterate 7 rfl
  · have hchar : (Char.ofNat c.val).toNat = c.val := toNat_ofNat (by omega)
    simp only [List.all_cons, List.all_nil, Bool.and_true, printable, hchar, Bool.and_eq_true, decide_eq_true_eq]
    omega
  · simp only [List.all_cons, hmarks, printable_hex4, Bool.and_self]
  · simp only [List.cons_append, List.all_cons, List.all_append, hmarks, printable_hex4, Bool.and_self]

theorem printable_quote (s : PyStr) : (quote s).all printable = true := by
  have hinside : (s.flatMap escape).all printable = true := by
    rw [List.all_flatMap]
    exact List.all_eq_true.2 fun c _ => printable_escape c
  rw [quote, List.all_cons, List.all_append, hinside]
  rfl

theorem printable_of_isDigit {c : Char} (h : c.isDigit = true) : printable c = true := by
  simp only [Char.isDigit, Bool.and_eq_true, decide_eq_true_eq] at h
  have hle : c.toNat ≤ 57 := h.2
  have hge : 48 ≤ c.toNat := h.1
  simp only [printable, Bool.and_eq_true, decide_eq_true_eq]
  omega

theorem printable_join {sep : Text} (hsep : sep.all printable = true) :
    ∀ {xs : List Text}, (∀ x ∈ xs, x.all printable = true) → (join sep xs).all printable = true
  | [], _ => rfl
  | [x], h => h x List.mem_cons_self
  | x :: y :: xs, h => by
    have htail := printable_join hsep (fun z hz => h z (List.mem_cons_of_mem x hz))
    rw [join, List.all_append, List.all_append, h x List.mem_cons_self, hsep, htail]
    rfl

theorem printable_int (n : Int) : n.repr.toList.all printable = true := by
  have hnat : ∀ k : Nat, k.repr.toList.all printable = true := fun k => by
    refine List.all_eq_true.2 fun c hc => ?_
    rw [Nat.toList_repr] at hc
    exact printable_of_isDigit (Nat.isDigit_of_mem_toDigits (by decide) (by decide) hc)
  cases n with
  | ofNat k => exact hnat k
  | negSucc k =>
    have htext : (Int.negSucc k).repr.toList = '-' :: (k + 1).repr.toList := by
      simp [Int.repr, String.toList_append]
    rw [htext, List.all_cons, hnat]
    rfl

theorem printable_float (x : PyFloat) : (floatText x).all printable = true := by
  cases x with
  | finite x =>
    refine List.all_eq_true.2 fun c hc => ?_
    have hplain := List.all_eq_true.1 x.plain c hc
    simp only [Bool.or_eq_true, decide_eq_true_eq] at hplain
    rcases hplain with (((h | rfl) | rfl) | rfl) | rfl
    · exact printable_of_isDigit h
    all_goals rfl
  | nan => decide
  | inf negative => cases negative <;> decide

mutual
theorem printable_dumps : ∀ v : Json, (dumps .plain v).all printable = true
  | null | bool true | bool false => by simp only [dumps]; decide
  | int n => printable_int n
  | float x => printable_float x
  | str s => printable_quote s
  | arr xs => by
    have hinside := @printable_join Style.plain.comma (by decide) _ (printable_dumpsAll xs)
    rw [dumps, List.all_cons, List.all_append, hinside]
    rfl
  | obj kvs => by
    have hinside := @printable_join Style.plain.comma (by decide) _ (printable_dumpsMembers kvs)
    have htext : dumps .plain (obj kvs) = '{' :: (join Style.plain.comma (memberTexts kvs) ++ ['}']) := by
      rw [dumps]
      rfl
    rw [htext, List.all_cons, List.all_append, hinside]
    rfl

theorem printable_dumpsAll : ∀ xs : List Json, ∀ x ∈ dumpsAll .plain xs, x.all printable = true
  | [] => by simp [dumpsAll]
  | x :: xs => by
    rw [dumpsAll]
    exact List.forall_mem_cons.2 ⟨printable_dumps x, printable_dumpsAll xs⟩

theorem printable_dumpsMembers : ∀ kvs : List (PyStr × Json), ∀ x ∈ memberTexts kvs, x.all printable = true
  | [] => by simp [memberTexts, dumpsMembers]
  | (k, v) :: kvs => by
    have hmember : (member .plain (k, dumps .plain v)).all printable = true := by
      rw [member, List.all_append, List.all_append, printable_quote, printable_dumps v]
      rfl
    exact List.forall_mem_cons.2 ⟨hmember, printable_dumpsMembers kvs⟩
end

end Toolstack.Json
