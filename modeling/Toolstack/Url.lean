import Toolstack.Template

/-! Percent-encoding. An encoded value is made of unreserved characters and escapes, and decodes
to itself whatever text follows it. A template filled with encoded values decodes to its decoded
text around the values, unless an escape of the template reaches into a hole. -/

namespace Toolstack.Url

/-- The code point of an ASCII character. -/
def ch (c : Char) : CodePoint := Fin.ofNat _ c.toNat

/-! ## Percent-encoding -/

/-- Letters, digits, `_`, `.`, `-` and `~`. -/
def unreserved (c : CodePoint) : Bool :=
  let n := c.val
  (0x41 ≤ n && n ≤ 0x5A) || (0x61 ≤ n && n ≤ 0x7A) || (0x30 ≤ n && n ≤ 0x39) || n == 0x5F ||
    n == 0x2E || n == 0x2D || n == 0x7E

def byte (n : Nat) : CodePoint := Fin.ofNat _ n

def hexDigit (n : Nat) : CodePoint := byte (if n < 10 then 0x30 + n else 0x37 + n)

def hexValue (c : CodePoint) : Option Nat :=
  let n := c.val
  if 0x30 ≤ n ∧ n ≤ 0x39 then some (n - 0x30)
  else if 0x41 ≤ n ∧ n ≤ 0x46 then some (n - 0x37)
  else if 0x61 ≤ n ∧ n ≤ 0x66 then some (n - 0x57)
  else none

def isHex (c : CodePoint) : Bool := (hexValue c).isSome

def percent : CodePoint := ch '%'

def escapeByte (n : Nat) : PyStr := [percent, hexDigit (n / 16), hexDigit (n % 16)]

/-- The UTF-8 bytes of a code point that is no surrogate. -/
def utf8 (c : CodePoint) : List Nat :=
  let n := c.val
  if n < 0x80 then [n]
  else if n < 0x800 then [0xC0 + n / 0x40, 0x80 + n % 0x40]
  else if n < 0x10000 then [0xE0 + n / 0x1000, 0x80 + n / 0x40 % 0x40, 0x80 + n % 0x40]
  else [0xF0 + n / 0x40000, 0x80 + n / 0x1000 % 0x40, 0x80 + n / 0x40 % 0x40, 0x80 + n % 0x40]

def quoteChar (c : CodePoint) : PyStr :=
  if unreserved c then [c] else (utf8 c).flatMap escapeByte

/-- `urllib.parse.quote(s, safe="")`. -/
def quote (s : PyStr) : PyStr := s.flatMap quoteChar

/-- `unquote_to_bytes` of ASCII text: every complete escape becomes its byte. -/
def decode : PyStr → PyStr
  | c :: a :: b :: s =>
    if c = percent then
      match hexValue a, hexValue b with
      | some h, some l => byte (16 * h + l) :: decode s
      | _, _ => c :: decode (a :: b :: s)
    else c :: decode (a :: b :: s)
  | c :: s => c :: decode s
  | [] => []

theorem decode_cons_of_ne {c : CodePoint} (h : c ≠ percent) (s : PyStr) :
    decode (c :: s) = c :: decode s := by
  match s with
  | [] | [_] => rfl
  | _ :: _ :: _ => rw [decode, if_neg h]

theorem decode_escape {a b : CodePoint} {h l : Nat} (ha : hexValue a = some h)
    (hb : hexValue b = some l) (s : PyStr) :
    decode (percent :: a :: b :: s) = byte (16 * h + l) :: decode s := by
  rw [decode, if_pos rfl, ha, hb]

/-- Two hexadecimal digits are next. -/
def hexAhead : PyStr → Bool
  | a :: b :: _ => isHex a && isHex b
  | _ => false

theorem decode_percent_of_not {s : PyStr} (h : hexAhead s = false) :
    decode (percent :: s) = percent :: decode s := by
  match s, h with
  | [], _ | [_], _ => rfl
  | a :: b :: s, h =>
    rw [decode, if_pos rfl]
    cases ha : hexValue a with
    | none => rfl
    | some x =>
      cases hb : hexValue b with
      | none => rfl
      | some y => simp [hexAhead, isHex, ha, hb] at h

theorem hexValue_hexDigit {n : Nat} (h : n < 16) : hexValue (hexDigit n) = some n := by
  have hall : ∀ n : Fin 16, hexValue (hexDigit n) = some n.val := by decide
  exact hall ⟨n, h⟩

theorem escapeByte_decode {n : Nat} (h : n < 0x100) (s : PyStr) :
    decode (escapeByte n ++ s) = byte n :: decode s := by
  have hdigits := decode_escape (hexValue_hexDigit (n := n / 16) (by omega))
    (hexValue_hexDigit (n := n % 16) (by omega)) s
  rwa [show 16 * (n / 16) + n % 16 = n by omega] at hdigits

theorem unreserved_ne_percent {c : CodePoint} (h : unreserved c = true) : c ≠ percent := by
  rintro rfl
  cases h

theorem byte_val (c : CodePoint) : byte c.val = c := by
  apply Fin.ext
  simp [byte]

/-- An encoded ASCII value decodes to itself, whatever follows it. -/
theorem decode_quote {v : PyStr} (hv : ∀ c ∈ v, c.val < 0x80) (s : PyStr) :
    decode (quote v ++ s) = v ++ decode s := by
  induction v with
  | nil => rfl
  | cons c v ih =>
    have hc : c.val < 0x80 := hv c (List.mem_cons_self ..)
    have ih := ih fun c' h => hv c' (List.mem_cons_of_mem _ h)
    rw [quote, List.flatMap_cons, List.append_assoc, ← quote]
    by_cases hu : unreserved c = true
    · rw [quoteChar, if_pos hu, List.singleton_append, decode_cons_of_ne (unreserved_ne_percent hu), ih]
      rfl
    · have hutf : (utf8 c).flatMap escapeByte = escapeByte c.val := by
        simp [utf8, hc]
      rw [quoteChar, if_neg hu, hutf, escapeByte_decode (by omega), ih, byte_val]
      rfl

/-- What an encoded value is made of. -/
def quoted (c : CodePoint) : Bool := unreserved c || c = percent

theorem hexDigit_unreserved {n : Nat} (h : n < 16) : unreserved (hexDigit n) = true := by
  have hall : ∀ n : Fin 16, unreserved (hexDigit n) = true := by decide
  exact hall ⟨n, h⟩

theorem quote_quoted {v : PyStr} (hv : ∀ c ∈ v, c.val < 0x80) : ∀ c ∈ quote v, quoted c = true := by
  intro c hc
  obtain ⟨c', hc', hmem⟩ := List.mem_flatMap.1 hc
  have hlt : c'.val < 0x80 := hv c' hc'
  unfold quoteChar at hmem
  split_ifs at hmem with hu
  · obtain rfl := List.mem_singleton.1 hmem
    simp [quoted, hu]
  · have hutf : (utf8 c').flatMap escapeByte = escapeByte c'.val := by
      simp [utf8, hlt]
    rw [hutf] at hmem
    simp only [escapeByte, List.mem_cons, List.not_mem_nil, or_false] at hmem
    rcases hmem with rfl | rfl | rfl
    · rfl
    · simp [quoted, hexDigit_unreserved (n := c'.val / 16) (by omega)]
    · simp [quoted, hexDigit_unreserved (n := c'.val % 16) (by omega)]

/-! ## Filled templates -/

open Template

/-- The template's literal runs decoded, the values put in between as they are. -/
def decodeAround (v : PyStr → PyStr) (run : PyStr) : List Piece → PyStr
  | [] => decode run
  | .chr c :: ps => decodeAround v (run ++ [c]) ps
  | .hole name :: ps => decode run ++ v name ++ decodeAround v [] ps

def hexHead (s : PyStr) : Bool := s.head?.any isHex

/-- An escape begun at the end of `run` is completed by the text that follows. -/
def straddles : PyStr → PyStr → Bool
  | _ :: a :: b :: s, t => straddles (a :: b :: s) t
  | [c, a], t => (c = percent && isHex a && hexHead t) || (a = percent && hexAhead t)
  | [c], t => c = percent && hexAhead t
  | [], _ => false

/-- No escape of the template reaches into a hole, the values put in as they are. -/
def unbroken (v : PyStr → PyStr) (run : PyStr) : List Piece → Bool
  | [] => true
  | .chr c :: ps => unbroken v (run ++ [c]) ps
  | .hole name :: ps => !straddles run (v name ++ fill v ps) && unbroken v [] ps

theorem hexAhead_cons (c : CodePoint) (s : PyStr) : hexAhead (c :: s) = (isHex c && hexHead s) := by
  cases s with
  | nil => simp [hexAhead, hexHead]
  | cons d s => simp [hexAhead, hexHead]

theorem isHex_percent : isHex percent = false := by decide

theorem straddles_tail {c : CodePoint} {s t : PyStr} (h : straddles (c :: s) t = false) :
    straddles s t = false := by
  match s, h with
  | [], _ => rfl
  | [a], h =>
    simp only [straddles, Bool.or_eq_false_iff] at h
    exact h.2
  | a :: b :: s, h => exact h

/-- Text decodes apart where no escape straddles the seam. -/
theorem decode_append {t : PyStr} : ∀ {run : PyStr}, straddles run t = false →
    decode (run ++ t) = decode run ++ decode t
  | [], _ => rfl
  | c :: s, h => by
    have hs := straddles_tail h
    by_cases hc : c = percent
    · subst hc
      by_cases hex : hexAhead s = true
      · match s, hex with
        | a :: b :: s, hex =>
          simp only [hexAhead, Bool.and_eq_true, isHex, Option.isSome_iff_exists] at hex
          obtain ⟨⟨x, ha⟩, y, hb⟩ := hex
          have ih := decode_append (straddles_tail (straddles_tail hs))
          simp only [List.cons_append]
          rw [decode_escape ha hb, decode_escape ha hb, ih, List.cons_append]
      · have hno : hexAhead (s ++ t) = false := by
          match s, h, hex with
          | [], h, _ => simpa [straddles] using h
          | [a], h, _ =>
            simp only [straddles, Bool.or_eq_false_iff] at h
            simpa [hexAhead_cons] using h.1
          | a :: b :: s, _, hex => simpa [hexAhead] using hex
        rw [List.cons_append, decode_percent_of_not hno,
          decode_percent_of_not (Bool.eq_false_iff.2 hex), decode_append hs, List.cons_append]
    · rw [List.cons_append, decode_cons_of_ne hc, decode_cons_of_ne hc, decode_append hs,
        List.cons_append]

theorem unreserved_of_isHex {c : CodePoint} (h : isHex c = true) : unreserved c = true := by
  simp only [isHex, hexValue] at h
  simp only [unreserved, Bool.or_eq_true, Bool.and_eq_true, decide_eq_true_eq, beq_iff_eq]
  split_ifs at h
  · omega
  · omega
  · omega
  · cases h

theorem escapeByte_hexHead (n : Nat) (s : PyStr) : hexHead (escapeByte n ++ s) = false := by
  simp [hexHead, escapeByte, isHex_percent]

theorem utf8_ne_nil (c : CodePoint) : utf8 c ≠ [] := by
  simp only [utf8]
  split_ifs <;> simp

/-- An encoded character starts with a hexadecimal digit only if it is one. -/
theorem hexHead_quoteChar (c : CodePoint) (s : PyStr) : hexHead (quoteChar c ++ s) = isHex c := by
  unfold quoteChar
  split_ifs with hu
  · rfl
  · obtain ⟨b, bs, hbs⟩ := List.exists_cons_of_ne_nil (utf8_ne_nil c)
    have hc : isHex c = false := Bool.eq_false_iff.2 fun h => hu (unreserved_of_isHex h)
    rw [hbs, List.flatMap_cons, List.append_assoc, escapeByte_hexHead, hc]

theorem hexAhead_quoteChar (c : CodePoint) (s : PyStr) :
    hexAhead (quoteChar c ++ s) = (isHex c && hexHead s) := by
  unfold quoteChar
  split_ifs with hu
  · exact hexAhead_cons c s
  · obtain ⟨b, bs, hbs⟩ := List.exists_cons_of_ne_nil (utf8_ne_nil c)
    have hc : isHex c = false := Bool.eq_false_iff.2 fun h => hu (unreserved_of_isHex h)
    rw [hbs, List.flatMap_cons, hc]
    simp [escapeByte, hexAhead_cons, isHex_percent]

theorem quote_cons (c : CodePoint) (v : PyStr) : quote (c :: v) = quoteChar c ++ quote v := rfl

theorem hexHead_quote {s t : PyStr} (h : hexHead s = hexHead t) (v : PyStr) :
    hexHead (quote v ++ s) = hexHead (v ++ t) := by
  cases v with
  | nil => exact h
  | cons c v =>
    rw [quote_cons, List.append_assoc, hexHead_quoteChar]
    rfl

theorem hexHead_fill (v : PyStr → PyStr) (ps : List Piece) :
    hexHead (fill (quote ∘ v) ps) = hexHead (fill v ps) := by
  induction ps with
  | nil => rfl
  | cons p ps ih =>
    cases p with
    | chr c => rfl
    | hole name => exact hexHead_quote ih (v name)

/-- Encoding the values does not change whether two hexadecimal digits come next. -/
theorem hexAhead_fill (v : PyStr → PyStr) (ps : List Piece) :
    hexAhead (fill (quote ∘ v) ps) = hexAhead (fill v ps) := by
  induction ps with
  | nil => rfl
  | cons p ps ih =>
    cases p with
    | chr c => rw [fill, fill, hexAhead_cons, hexAhead_cons, hexHead_fill]
    | hole name =>
      rw [fill, fill, Function.comp_apply]
      cases v name with
      | nil => exact ih
      | cons c w =>
        rw [quote_cons, List.append_assoc, hexAhead_quoteChar, List.cons_append, hexAhead_cons,
          hexHead_quote (hexHead_fill v ps)]

theorem straddles_congr {t u : PyStr} (hhead : hexHead t = hexHead u)
    (hahead : hexAhead t = hexAhead u) : ∀ run, straddles run t = straddles run u
  | [] => rfl
  | [c] => by rw [straddles, straddles, hahead]
  | [c, a] => by rw [straddles, straddles, hahead, hhead]
  | _ :: a :: b :: s => straddles_congr hhead hahead (a :: b :: s)

/-- Decoding a template filled with encoded values gives the template decoded around them. -/
theorem decode_fill {v : PyStr → PyStr} {ps : List Piece}
    (hv : ∀ name ∈ names ps, ∀ c ∈ v name, c.val < 0x80) {run : PyStr}
    (h : unbroken v run ps = true) : decode (run ++ fill (quote ∘ v) ps) = decodeAround v run ps := by
  induction ps generalizing run with
  | nil => rw [fill, List.append_nil, decodeAround]
  | cons p ps ih =>
    cases p with
    | chr c =>
      rw [fill, decodeAround, ← ih hv h, List.append_assoc, List.singleton_append]
    | hole name =>
      rw [unbroken, Bool.and_eq_true, Bool.not_eq_true'] at h
      have hseam : straddles run (fill (quote ∘ v) (.hole name :: ps)) = false := by
        rw [straddles_congr (hexHead_fill v _) (hexAhead_fill v _)]
        exact h.1
      have hrest := ih (fun n hn => hv n (List.mem_cons_of_mem _ hn)) h.2
      rw [decode_append hseam, fill, Function.comp_apply,
        decode_quote (hv name (List.mem_cons_self ..)), ← List.nil_append (fill _ ps), hrest,
        decodeAround, List.append_assoc]

end Toolstack.Url
