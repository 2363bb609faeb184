import Toolstack.UrlSplit

/-! A reader for the part of TOML that has basic strings, decimal integers, booleans, arrays, inline
tables, tables and arrays of tables under simple keys; and what it makes of a text that is put
together from such parts. Anything else is not read. -/

namespace Toolstack.Toml

open Url (ch)

abbrev Table := List (PyStr × Json)

/-! ## Characters -/

def lf : CodePoint := ch '\n'
def quoteMark : CodePoint := ch '"'
def backslash : CodePoint := ch '\\'

/-- What may stand in a document at all: no control character but tab and line feed, and no
surrogate. -/
def allowed (c : CodePoint) : Bool :=
  c.val == 0x09 || c.val == 0x0A || (0x20 ≤ c.val && c.val != 0x7F && !c.isSurrogate)

def isWs (c : CodePoint) : Bool := c = ch ' ' || c = ch '\t'

def isBlank (c : CodePoint) : Bool := isWs c || c = lf

def bareChar (c : CodePoint) : Bool := Url.isAlpha c || Url.isDigit c || c = ch '_' || c = ch '-'

/-- A character that goes on with a number, a date or a word. -/
def clings (c : CodePoint) : Bool := bareChar c || c = ch '.' || c = ch ':' || c = ch '+' || c = quoteMark

def skipWs (s : PyStr) : PyStr := s.dropWhile isWs

def skipBlank (s : PyStr) : PyStr := s.dropWhile isBlank

/-- Windows line ends. -/
def newlines : PyStr → PyStr
  | a :: b :: s => if a = ch '\r' ∧ b = lf then lf :: newlines s else a :: newlines (b :: s)
  | s => s

/-! ## Strings and keys -/

def simpleEscape (c : CodePoint) : Option CodePoint :=
  if c = ch 'b' then some (Url.byte 0x08)
  else if c = ch 't' then some (ch '\t')
  else if c = ch 'n' then some lf
  else if c = ch 'f' then some (Url.byte 0x0C)
  else if c = ch 'r' then some (ch '\r')
  else if c = quoteMark then some quoteMark
  else if c = backslash then some backslash
  else none

/-- The code point of `\u` or `\U`, a scalar value. -/
def scalar (digits : PyStr) : Option CodePoint := do
  let values ← digits.mapM Url.hexValue
  let n := values.foldl (fun n d => 16 * n + d) 0
  if h : n < 0x110000 then
    if CodePoint.isSurrogate ⟨n, h⟩ then none else some ⟨n, h⟩
  else none

/-- A basic string after its opening mark. -/
def basicString : PyStr → Option (PyStr × PyStr)
  | [] => none
  | c :: s =>
    if c = quoteMark then some ([], s)
    else if c = lf then none
    else if c = backslash then
      match s with
      | [] => none
      | e :: s =>
        match simpleEscape e with
        | some d => (basicString s).map fun (v, rest) => (d :: v, rest)
        | none =>
          if e = ch 'u' then
            match s with
            | a :: b :: c :: d :: s => do
              let (v, rest) ← basicString s
              return ((← scalar [a, b, c, d]) :: v, rest)
            | _ => none
          else if e = ch 'U' then
            match s with
            | a :: b :: c :: d :: e :: f :: g :: h :: s => do
              let (v, rest) ← basicString s
              return ((← scalar [a, b, c, d, e, f, g, h]) :: v, rest)
            | _ => none
          else none
    else (basicString s).map fun (v, rest) => (c :: v, rest)

/-- A simple key, bare or quoted. -/
def key : PyStr → Option (PyStr × PyStr)
  | [] => none
  | c :: s =>
    if c = quoteMark then basicString s
    else if bareChar c then some ((c :: s).takeWhile bareChar, (c :: s).dropWhile bareChar)
    else none

/-! ## Values -/

def decimal (digits : PyStr) : Nat := digits.foldl (fun n c => 10 * n + (c.val - 0x30)) 0

/-- A decimal integer with nothing that clings to it. -/
def integer (s : PyStr) : Option (Int × PyStr) :=
  let (sign, s) : Int × PyStr :=
    if s.head? = some (ch '-') then (-1, s.tail) else if s.head? = some (ch '+') then (1, s.tail) else (1, s)
  let digits := s.takeWhile Url.isDigit
  let rest := s.dropWhile Url.isDigit
  if digits = [] ∨ (digits.head? = some (ch '0') ∧ digits.length ≠ 1) ∨ rest.head?.any clings then none
  else some (sign * decimal digits, rest)

def equals : PyStr → Option PyStr
  | c :: s => if c = ch '=' then some (skipWs s) else none
  | [] => none

mutual
def value : Nat → PyStr → Option (Json × PyStr)
  | 0, _ | _, [] => none
  | n + 1, c :: s =>
    if c = quoteMark then
      if s.take 2 = [quoteMark, quoteMark] then none
      else (basicString s).map fun (v, rest) => (.str v, rest)
    else if c = ch '[' then (elements n (skipBlank s)).map fun (xs, rest) => (.arr xs, rest)
    else if c = ch '\x7b' then
      match skipWs s with
      | d :: s =>
        if d = ch '\x7d' then some (.obj [], s)
        else (members n (d :: s)).map fun (kvs, rest) => (.obj kvs, rest)
      | [] => none
    else if (c :: s).take 4 = py "true" then some (.bool true, (c :: s).drop 4)
    else if (c :: s).take 5 = py "false" then some (.bool false, (c :: s).drop 5)
    else (integer (c :: s)).map fun (k, rest) => (.int k, rest)

/-- The values of an array, at the first of them or at its end. -/
def elements : Nat → PyStr → Option (List Json × PyStr)
  | 0, _ | _, [] => none
  | n + 1, c :: s =>
    if c = ch ']' then some ([], s)
    else do
      let (v, s) ← value n (c :: s)
      match skipBlank s with
      | d :: s =>
        if d = ch ',' then do
          let (vs, rest) ← elements n (skipBlank s)
          return (v :: vs, rest)
        else if d = ch ']' then some ([v], s)
        else none
      | [] => none

/-- The members of an inline table, of which there is at least one. -/
def members : Nat → PyStr → Option (Table × PyStr)
  | 0, _ => none
  | n + 1, s => do
    let (k, s) ← key s
    let s ← equals (skipWs s)
    let (v, s) ← value n s
    match skipWs s with
    | d :: s =>
      if d = ch ',' then do
        let (kvs, rest) ← members n (skipWs s)
        if kvs.any fun kv => kv.1 = k then none else some ((k, v) :: kvs, rest)
      else if d = ch '\x7d' then some ([(k, v)], s)
      else none
    | [] => none
end

/-! ## Documents -/

/-- Where a pair goes. -/
inductive Target
  | root
  | table (name : PyStr)
  | element (name : PyStr)

/-- What has been read. `arrays` are the arrays of tables, the only ones that grow. -/
structure State where
  root : Table := []
  arrays : List PyStr := []
  target : Target := .root

def insert (k : PyStr) (v : Json) (t : Table) : Option Table :=
  if t.any fun kv => kv.1 = k then none else some (t ++ [(k, v)])

/-- Change the value of a key that is there. -/
def change (k : PyStr) (f : Json → Option Json) : Table → Option Table
  | [] => none
  | kv :: t => if kv.1 = k then (f kv.2).map fun v => (k, v) :: t else (change k f t).map (kv :: ·)

/-- A pair of the last element. -/
def insertLast (k : PyStr) (v : Json) : List Json → Option (List Json)
  | [] => none
  | [.obj t] => (insert k v t).map fun t => [.obj t]
  | [_] => none
  | x :: xs => (insertLast k v xs).map (x :: ·)

def State.pair (st : State) (k : PyStr) (v : Json) : Option State :=
  match st.target with
  | .root => (insert k v st.root).map fun root => { st with root }
  | .table name => (change name (fun
      | .obj t => (insert k v t).map .obj
      | _ => none) st.root).map fun root => { st with root }
  | .element name => (change name (fun
      | .arr xs => (insertLast k v xs).map .arr
      | _ => none) st.root).map fun root => { st with root }

/-- `[name]`. -/
def State.openTable (st : State) (name : PyStr) : Option State :=
  (insert name (.obj []) st.root).map fun root => { st with root, target := .table name }

/-- `[[name]]`. -/
def State.openElement (st : State) (name : PyStr) : Option State :=
  if name ∈ st.arrays then
    (change name (fun
      | .arr xs => some (.arr (xs ++ [.obj []]))
      | _ => none) st.root).map fun root => { st with root, target := .element name }
  else
    (insert name (.arr [.obj []]) st.root).map fun root =>
      { root, arrays := name :: st.arrays, target := .element name }

/-- The end of a line, after white space and a comment. -/
def endLine (s : PyStr) : Option PyStr :=
  match skipWs s with
  | [] => some []
  | c :: s => if c = lf then some s else if c = ch '#' then some ((s.dropWhile (· ≠ lf)).drop 1) else none

def close (brackets : PyStr) (s : PyStr) : Option PyStr :=
  if brackets <+: skipWs s then some ((skipWs s).drop brackets.length) else none

/-- One line that says something, from its first character. -/
def statement (n : Nat) (st : State) (s : PyStr) : Option (State × PyStr) :=
  if py "[[" <+: s then do
    let (k, s) ← key (skipWs (s.drop 2))
    let s ← close (py "]]") s
    return (← st.openElement k, s)
  else if py "[" <+: s then do
    let (k, s) ← key (skipWs (s.drop 1))
    let s ← close (py "]") s
    return (← st.openTable k, s)
  else do
    let (k, s) ← key s
    let s ← equals (skipWs s)
    let (v, s) ← value n s
    return (← st.pair k v, s)

def document (size : Nat) : Nat → State → PyStr → Option Table
  | 0, _, _ => none
  | n + 1, st, s =>
    match skipBlank s with
    | [] => some st.root
    | c :: s =>
      if c = ch '#' then document size n st (s.dropWhile (· ≠ lf))
      else do
        let (st, s) ← statement size st (c :: s)
        let s ← endLine s
        document size n st s

/-- `tomllib.loads`. -/
def loads (text : PyStr) : Option Table :=
  let text := newlines text
  if text.all allowed then document (text.length + 1) (text.length + 1) {} text else none

end Toolstack.Toml
