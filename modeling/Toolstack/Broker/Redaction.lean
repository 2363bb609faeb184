import Toolstack.Json.Value

/-! `broker/redaction.py`: bound the length of a free-text value and mask secret-like runs. -/

namespace Toolstack.Broker.Redaction

/-- `\s` on a Python string. -/
def isSpace (c : CodePoint) : Bool :=
  let n := c.val
  (0x09 ≤ n && n ≤ 0x0D) || (0x1C ≤ n && n ≤ 0x20) || n == 0x85 || n == 0xA0 || n == 0x1680 ||
    (0x2000 ≤ n && n ≤ 0x200A) || n == 0x2028 || n == 0x2029 || n == 0x202F || n == 0x205F ||
    n == 0x3000

/-- `[A-Za-z0-9_\-]` under `(?i)`, which also folds four letters from outside ASCII. -/
def isTokenChar (c : CodePoint) : Bool :=
  let n := c.val
  (0x41 ≤ n && n ≤ 0x5A) || (0x61 ≤ n && n ≤ 0x7A) || (0x30 ≤ n && n ≤ 0x39) || n == 0x5F ||
    n == 0x2D || n == 0x130 || n == 0x131 || n == 0x17F || n == 0x212A

def foldAscii (c : CodePoint) : Nat := if 0x41 ≤ c.val ∧ c.val ≤ 0x5A then c.val + 0x20 else c.val

/-- `bearer\s+\S+`: how many code points it takes from the front. -/
def bearer (s : PyStr) : Option Nat :=
  let word := (py "bearer").map foldAscii
  if (s.take 6).map foldAscii = word then
    let spaces := (s.drop 6).takeWhile isSpace
    let value := ((s.drop 6).drop spaces.length).takeWhile fun c => !isSpace c
    if spaces ≠ [] ∧ value ≠ [] then some (6 + spaces.length + value.length) else none
  else none

/-- Three token runs joined by points. -/
def threePart (s : PyStr) : Option Nat :=
  let run (t : PyStr) := t.takeWhile isTokenChar
  let a := run s
  match s.drop a.length with
  | dot :: t =>
    let b := run t
    match t.drop b.length with
    | dot' :: u =>
      let c := run u
      if dot.val = 0x2E ∧ dot'.val = 0x2E ∧ a ≠ [] ∧ b ≠ [] ∧ c ≠ [] then
        some (a.length + b.length + c.length + 2)
      else none
    | [] => none
  | [] => none

def opaqueRun (s : PyStr) : Option Nat :=
  let n := (s.takeWhile isTokenChar).length
  if 32 ≤ n then some n else none

/-- The alternatives of `_SECRETISH`, first match first. -/
def secretish (s : PyStr) : Option Nat := bearer s <|> threePart s <|> opaqueRun s

/-- `_SECRETISH.sub("[redacted]", s)`; every match takes at least one code point, so the
length of the text is fuel enough. -/
def subSecrets : Nat → PyStr → PyStr
  | 0, s => s
  | _, [] => []
  | fuel + 1, c :: s =>
    match secretish (c :: s) with
    | some n => py "[redacted]" ++ subSecrets fuel ((c :: s).drop n)
    | none => c :: subSecrets fuel s

def max : Nat := 280

def redact (text : Option PyStr) : Option PyStr :=
  text.map fun s =>
    let masked := subSecrets s.length s
    if masked.length > max then masked.take max ++ py "..." else masked

end Toolstack.Broker.Redaction
