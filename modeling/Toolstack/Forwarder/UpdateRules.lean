import Toolstack.Fallible
import Toolstack.Forwarder.RequestBuilder

/-! `toolstack_forwarder/rules.py`: the secret-update rules of an operation, applied to a response. -/

namespace Toolstack.Forwarder.Rules

open Url

structure RuleError where
  code : String
  detail : PyStr
  secret : Option PyStr := none

/-- An exception of a library by its class, as far as the handlers tell them apart. -/
inductive Exc
  | jsonDecodeError
  | parseError
  | syntaxError
  | named (name : PyStr)

/-- `type(exc).__name__`. -/
def Exc.name : Exc → PyStr
  | jsonDecodeError => py "JSONDecodeError"
  | parseError => py "ParseError"
  | syntaxError => py "SyntaxError"
  | named name => name

inductive Raised
  | rule (e : RuleError)
  | exc (e : Exc)

/-- A match of `re.search`: whether the pattern has a group that took part, and the first group. -/
structure Match where
  lastindex : Option Nat
  group1 : Option PyStr

structure Element where
  attrib : List (PyStr × PyStr)
  text : Option PyStr

/-- The libraries: the Unicode tables behind `lower`, `isdigit` and `int`, and the parsers. -/
structure Libraries where
  lower : PyStr → PyStr
  isDigit : CodePoint → Bool
  decimal : CodePoint → Option Nat
  loads : PyStr → Except Exc Json
  parseQs : PyStr → Except Exc (List (PyStr × List PyStr))
  search : PyStr → PyStr → Except Exc (Option Match)
  Document : Type
  fromstring : PyStr → Except Exc Document
  findall : Document → PyStr → Except Exc (List Element)

variable (L : Libraries)

/-! ## Numbers -/

/-- `s.isdigit()`. -/
def isdigit (s : PyStr) : Bool := s ≠ [] && s.all L.isDigit

/-- What `int` takes: decimal digits, not more than 4300 of them. -/
def decimals (s : PyStr) : Bool := s.all (fun c => (L.decimal c).isSome) && s.length ≤ 4300

/-- `int(s)` of a text of digits. -/
def int (s : PyStr) : Except Exc Nat :=
  if decimals L s then return s.foldl (fun n c => 10 * n + (L.decimal c).getD 0) 0
  else throw (.named (py "ValueError"))

/-! ## Status specs -/

/-- `part.strip().lower()`. -/
def normal (part : PyStr) : PyStr := L.lower (strip part)

/-- A class of a hundred codes, such as `2xx`. -/
def isClass (part : PyStr) : Bool := part.length = 3 && isdigit L (part.take 1) && part.drop 1 = py "xx"

def matchParts (status : Int) : List PyStr → Except Exc Bool
  | [] => return false
  | part :: parts => do
    let part := normal L part
    if part = [] then matchParts status parts
    else if isClass L part then
      if status / 100 = (← int L (part.take 1)) then return true
      matchParts status parts
    else if isdigit L part then
      if status = (← int L part) then return true
      matchParts status parts
    else matchParts status parts

def matchStatus (spec : PyStr) (status : Int) : Except Exc Bool := matchParts L status (spec.splitOn (ch '|'))

/-! ## Extraction -/

def failed (detail : String) (secret : Option PyStr := none) : RuleError :=
  ⟨"rule_extraction_failed", py detail, secret⟩

abbrev Extract := Except Raised

/-- A call of a library. -/
def call {α : Type} (x : Except Exc α) : Extract α := x.mapError .exc

def extractJsonStep (cur : Json) (part : PyStr) : Extract Json :=
  match cur with
  | .arr xs =>
    if isdigit L part then do
      let idx ← call (int L part)
      match xs[idx]? with
      | some v => return v
      | none => throw (.rule (failed "json index not found"))
    else throw (.rule (failed "json path not found"))
  | .obj kvs =>
    match Json.find? kvs part with
    | some v => return v
    | none => throw (.rule (failed "json path not found"))
  | _ => throw (.rule (failed "json path not found"))

def extractJson (body path : PyStr) : Extract PyStr := do
  let cur ← match L.loads body with
    | .ok v => pure v
    | .error .jsonDecodeError => throw (.rule (failed "invalid json"))
    | .error e => throw (.exc e)
  let .str value ← (path.splitOn (ch '.')).foldlM (extractJsonStep L) cur
    | throw (.rule (failed "json path did not yield a string"))
  return value

/-- `path.rsplit("/@", 1)` of a path that has the mark. -/
def rsplitAttr : PyStr → Option (PyStr × PyStr)
  | [] => none
  | c :: s =>
    match rsplitAttr s with
    | some (path, attr) => some (c :: path, attr)
    | none => if c = ch '/' ∧ s.head? = some (ch '@') then some ([], s.tail) else none

def extractXml (body path secretName : PyStr) : Extract (Option PyStr) := do
  let fail (detail : String) : RuleError := failed detail (some secretName)
  let (elemPath, attr) := match rsplitAttr path with
    | some (elemPath, attr) => (elemPath, some attr)
    | none => (path, none)
  if attr = some [] then throw (.rule (fail "xml attribute is empty"))
  let root ← match L.fromstring body with
    | .ok root => pure root
    | .error .parseError => throw (.rule (fail "invalid xml"))
    | .error e => throw (.exc e)
  let found ← match L.findall root elemPath with
    | .ok found => pure found
    | .error .parseError => throw (.rule (fail "invalid xml path"))
    | .error .syntaxError => throw (.rule (fail "invalid xml path"))
    | .error e => throw (.exc e)
  let first :: _ := found | throw (.rule (fail "xml path not found"))
  match attr with
  | some attr =>
    match first.attrib.find? fun kv => kv.1 = attr with
    | some kv => return some kv.2
    | none => throw (.rule (fail "xml attribute not found"))
  | none =>
    match first.text with
    | some text => return some text
    | none => throw (.rule (fail "xml element has no text"))

/-- The value a rule takes from a body; a group that took no part in a match gives none. -/
def extractValue (rule : SecretUpdateRule) (body : PyStr) : Extract (Option PyStr) := do
  let fail (detail : String) : RuleError := failed detail (some rule.secretName)
  match rule.responseType with
  | .json => some <$> extractJson L body rule.extractPath
  | .form =>
    let values ← call (L.parseQs body)
    match values.find? fun kv => kv.1 = rule.extractPath with
    | some (_, value :: _) => return some value
    | _ => throw (.rule (fail "form field not found"))
  | .plaintext =>
    match ← call (L.search rule.extractPath body) with
    | some ⟨some _, group1⟩ => return group1
    | _ => throw (.rule (fail "regex group not found"))
  | .xml => extractXml L body rule.extractPath rule.secretName

def maxSecretValue : Nat := 8 * 1024

/-- The write of a value that has a UTF-8 form of at most 8 KiB. -/
def bounded (rule : SecretUpdateRule) : Option PyStr → Extract (PyStr × PyStr)
  | none => throw (.exc (.named (py "AttributeError")))
  | some value =>
    match encode value with
    | .error _ => throw (.exc (.named (py "UnicodeEncodeError")))
    | .ok bytes =>
      if bytes.length > maxSecretValue then
        throw (.rule (failed "extracted secret value exceeds 8KB" (some rule.secretName)))
      else return (rule.secretName, value)

/-- One turn of the extraction loop: the name and the value to write. -/
def extractOne (body : PyStr) (rule : SecretUpdateRule) : Extract (PyStr × PyStr) := do
  bounded rule (← extractValue L rule body)

/-! ## Application -/

/-- The calls of `secrets.writeback`, and how the function ends. -/
structure Run where
  calls : List (PyStr × PyStr)
  result : Except Raised Unit

/-- What `secrets.writeback` does, after the writes that were made before. -/
abbrev Writeback := List (PyStr × PyStr) → PyStr × PyStr → Except Exc Unit

/-- The writes in order, after those already made. -/
def writeAll (writeback : Writeback) (written : List (PyStr × PyStr)) : List (PyStr × PyStr) → Run
  | [] => ⟨written, .ok ()⟩
  | value :: values =>
    match writeback written value with
    | .error e => ⟨written ++ [value], .error (.rule ⟨"secret_update_failed", e.name, some value.1⟩)⟩
    | .ok () => writeAll writeback (written ++ [value]) values

/-- The rules whose spec matches. -/
def matching (status : Int) : List SecretUpdateRule → Except Exc (List SecretUpdateRule)
  | [] => return []
  | rule :: rules => do
    if ← matchStatus L rule.matchStatus status then return rule :: (← matching status rules)
    matching status rules

def applySecretUpdateRules (op : Operation) (status : Int) (body : PyStr) (writeback : Writeback) : Run :=
  match matching L status op.secretUpdateRules with
  | .error e => ⟨[], .error (.exc e)⟩
  | .ok rules =>
    match rules.mapM (extractOne L body) with
    | .error (.rule e) => ⟨[], .error (.rule e)⟩
    | .error (.exc e) => ⟨[], .error (.rule ⟨"rule_extraction_failed", e.name, none⟩)⟩
    | .ok extracted => writeAll writeback [] extracted

/-! ## Status specs that can be read -/

/-- The digits a part is compared by. -/
def numeral (part : PyStr) : Option PyStr :=
  if isClass L part then some (part.take 1) else if isdigit L part then some part else none

def value (digits : PyStr) : Nat := digits.foldl (fun n c => 10 * n + (L.decimal c).getD 0) 0

def partMatches (status : Int) (part : PyStr) : Bool :=
  (numeral L part).any fun digits =>
    decimals L digits && (if isClass L part then status / 100 else status) = value L digits

/-- The rule's spec has a part for the status. -/
def specMatches (status : Int) (parts : List PyStr) : Bool := parts.any fun part => partMatches L status (normal L part)

/-- Up to the first part that matches, what `isdigit` takes for a number is one for `int`. -/
def Readable (status : Int) (parts : List PyStr) : Prop :=
  ∀ pre part post, parts = pre ++ part :: post → specMatches L status pre = false →
    ∀ digits, numeral L (normal L part) = some digits → decimals L digits = true

theorem int_decimals {digits : PyStr} (h : decimals L digits = true) : int L digits = .ok (value L digits) := if_pos h

theorem int_not_decimals {digits : PyStr} (h : decimals L digits = false) :
    int L digits = .error (.named (py "ValueError")) := if_neg (Bool.eq_false_iff.1 h)

theorem matchParts_cons (status : Int) (part : PyStr) (parts : List PyStr) :
    (numeral L (normal L part) = none ∧ partMatches L status (normal L part) = false ∧
        matchParts L status (part :: parts) = matchParts L status parts) ∨
      ∃ digits, numeral L (normal L part) = some digits ∧
        ((decimals L digits = false ∧ matchParts L status (part :: parts) = .error (.named (py "ValueError"))) ∨
          (decimals L digits = true ∧ matchParts L status (part :: parts) =
            if partMatches L status (normal L part) then .ok true else matchParts L status parts)) := by
  rw [matchParts]
  generalize normal L part = p
  by_cases hclass : isClass L p = true
  · have hne : p ≠ [] := by
      rintro rfl
      exact Bool.false_ne_true hclass
    have hnumeral : numeral L p = some (p.take 1) := if_pos hclass
    refine .inr ⟨_, hnumeral, ?_⟩
    rw [if_neg hne, if_pos hclass]
    cases hdigits : decimals L (p.take 1) with
    | false => exact .inl ⟨rfl, by rw [int_not_decimals L hdigits]; rfl⟩
    | true =>
      refine .inr ⟨rfl, ?_⟩
      rw [int_decimals L hdigits, partMatches, hnumeral, Option.any_some, hdigits, Bool.true_and, if_pos hclass]
      show (if _ then _ else _) = (if _ then _ else _)
      simp only [decide_eq_true_eq]
      rfl
  · by_cases hdigit : isdigit L p = true
    · have hne : p ≠ [] := by
        rintro rfl
        exact Bool.false_ne_true hdigit
      have hnumeral : numeral L p = some p := by rw [numeral, if_neg hclass, if_pos hdigit]
      refine .inr ⟨_, hnumeral, ?_⟩
      rw [if_neg hne, if_neg hclass, if_pos hdigit]
      cases hdigits : decimals L p with
      | false => exact .inl ⟨rfl, by rw [int_not_decimals L hdigits]; rfl⟩
      | true =>
        refine .inr ⟨rfl, ?_⟩
        rw [int_decimals L hdigits, partMatches, hnumeral, Option.any_some, hdigits, Bool.true_and, if_neg hclass]
        show (if _ then _ else _) = (if _ then _ else _)
        simp only [decide_eq_true_eq]
        rfl
    · have hnumeral : numeral L p = none := by rw [numeral, if_neg hclass, if_neg hdigit]
      refine .inl ⟨hnumeral, by rw [partMatches, hnumeral]; rfl, ?_⟩
      rw [if_neg hclass, if_neg hdigit, ite_self]

theorem readable_cons {status : Int} {part : PyStr} {parts : List PyStr} : Readable L status (part :: parts) ↔
    (∀ digits, numeral L (normal L part) = some digits → decimals L digits = true) ∧
      (partMatches L status (normal L part) = false → Readable L status parts) := by
  constructor
  · intro h
    refine ⟨h [] part parts rfl rfl, fun hno pre p post heq hpre => ?_⟩
    refine h (part :: pre) p post (by rw [heq]; rfl) ?_
    rw [specMatches, List.any_cons, hno, Bool.false_or]
    exact hpre
  · rintro ⟨hfirst, hrest⟩ pre p post heq hpre
    cases pre with
    | nil =>
      obtain ⟨rfl, -⟩ := List.cons.inj heq
      exact hfirst
    | cons q pre =>
      obtain ⟨rfl, rfl⟩ := List.cons.inj heq
      rw [specMatches, List.any_cons, Bool.or_eq_false_iff] at hpre
      exact hrest hpre.1 pre p post rfl hpre.2

/-- A readable spec is decided; any other raises the `ValueError` of `int`. -/
theorem matchParts_eq (status : Int) (parts : List PyStr) :
    (Readable L status parts ∧ matchParts L status parts = .ok (specMatches L status parts)) ∨
      (¬Readable L status parts ∧ matchParts L status parts = .error (.named (py "ValueError"))) := by
  induction parts with
  | nil => exact .inl ⟨fun pre part post heq => by simp at heq, rfl⟩
  | cons part parts ih =>
    rw [readable_cons, specMatches, List.any_cons]
    rcases matchParts_cons L status part parts with ⟨hnone, hno, hmatch⟩ | ⟨digits, hdigits, hcases⟩
    · rw [hmatch, hno, Bool.false_or]
      have hfirst : ∀ digits, numeral L (normal L part) = some digits → decimals L digits = true := by
        intro digits hsome
        rw [hnone] at hsome
        cases hsome
      rcases ih with ⟨hread, hih⟩ | ⟨hunread, hih⟩
      · exact .inl ⟨⟨hfirst, fun _ => hread⟩, hih⟩
      · exact .inr ⟨fun h => hunread (h.2 rfl), hih⟩
    · rcases hcases with ⟨hbad, hmatch⟩ | ⟨hgood, hmatch⟩
      · refine .inr ⟨fun h => ?_, hmatch⟩
        rw [h.1 digits hdigits] at hbad
        cases hbad
      · have hfirst : ∀ d, numeral L (normal L part) = some d → decimals L d = true := by
          intro d hd
          obtain rfl := Option.some.inj (hdigits.symm.trans hd)
          exact hgood
        rw [hmatch]
        cases hpart : partMatches L status (normal L part) with
        | true => exact .inl ⟨⟨hfirst, fun hno => by cases hno⟩, by rw [Bool.true_or]; rfl⟩
        | false =>
          rw [Bool.false_or, if_neg Bool.false_ne_true]
          rcases ih with ⟨hread, hih⟩ | ⟨hunread, hih⟩
          · exact .inl ⟨⟨hfirst, fun _ => hread⟩, hih⟩
          · exact .inr ⟨fun h => hunread (h.2 rfl), hih⟩

/-! ## All or nothing, up to the first failed write -/

/-- The rules whose spec has a part for the status. -/
def matched (op : Operation) (status : Int) : List SecretUpdateRule :=
  op.secretUpdateRules.filter fun rule => specMatches L status (rule.matchStatus.splitOn (ch '|'))

/-- The rule takes a text of at most 8 KiB from the body, and this is the write it asks for. -/
def Extracts (body : PyStr) (rule : SecretUpdateRule) (write : PyStr × PyStr) : Prop :=
  write.1 = rule.secretName ∧ extractValue L rule body = .ok (some write.2) ∧
    ∃ bytes, encode write.2 = .ok bytes ∧ bytes.length ≤ maxSecretValue

/-- Each of the writes succeeds after the ones before it. -/
def Accepted (writeback : Writeback) (writes : List (PyStr × PyStr)) : Prop :=
  ∀ pre write post, writes = pre ++ write :: post → writeback pre write = .ok ()

/-- The ways an application may end: before any write, with a rule that gives no value; with the
writes of all matching rules in their order; or at the first of these writes that fails. -/
inductive AllOrNothing (op : Operation) (status : Int) (body : PyStr) (writeback : Writeback) : Run → Prop
  | refused (e : RuleError) (rule : SecretUpdateRule) : rule ∈ matched L op status →
    (¬∃ write, Extracts L body rule write) → AllOrNothing op status body writeback ⟨[], .error (.rule e)⟩
  | done (writes : List (PyStr × PyStr)) : List.Forall₂ (Extracts L body) (matched L op status) writes →
    Accepted writeback writes → AllOrNothing op status body writeback ⟨writes, .ok ()⟩
  | stopped (pre : List (PyStr × PyStr)) (write : PyStr × PyStr) (post : List (PyStr × PyStr)) (e : Exc) :
    List.Forall₂ (Extracts L body) (matched L op status) (pre ++ write :: post) → Accepted writeback pre →
    writeback pre write = .error e → AllOrNothing op status body writeback
      ⟨pre ++ [write], .error (.rule ⟨"secret_update_failed", e.name, some write.1⟩)⟩

theorem bounded_ok {rule : SecretUpdateRule} {value : Option PyStr} {write : PyStr × PyStr} :
    bounded rule value = .ok write ↔ write.1 = rule.secretName ∧ value = some write.2 ∧
      ∃ bytes, encode write.2 = .ok bytes ∧ bytes.length ≤ maxSecretValue := by
  cases value with
  | none =>
    constructor
    · intro h
      cases h
    · rintro ⟨-, h, -⟩
      cases h
  | some v =>
    rw [bounded]
    cases hbytes : encode v with
    | error e =>
      constructor
      · intro h
        cases h
      · rintro ⟨-, hvalue, bytes, hbytes', -⟩
        obtain rfl := Option.some.inj hvalue
        rw [hbytes] at hbytes'
        cases hbytes'
    | ok bytes =>
      dsimp only
      constructor
      · intro h
        split_ifs at h with hlarge
        obtain rfl := Except.ok.inj h
        exact ⟨rfl, rfl, bytes, hbytes, Nat.le_of_not_lt hlarge⟩
      · rintro ⟨hname, hvalue, bytes', hbytes', hsmall⟩
        obtain rfl := Option.some.inj hvalue
        obtain rfl := Except.ok.inj (hbytes.symm.trans hbytes')
        rw [if_neg (Nat.not_lt.2 hsmall), ← hname]
        rfl

theorem extractOne_ok {body : PyStr} {rule : SecretUpdateRule} {write : PyStr × PyStr} :
    extractOne L body rule = .ok write ↔ Extracts L body rule write := by
  rw [extractOne, Fallible.bind_ok]
  constructor
  · rintro ⟨value, hvalue, hbounded⟩
    obtain ⟨hname, rfl, hbytes⟩ := bounded_ok.1 hbounded
    exact ⟨hname, hvalue, hbytes⟩
  · rintro ⟨hname, hvalue, hbytes⟩
    exact ⟨_, hvalue, bounded_ok.2 ⟨hname, rfl, hbytes⟩⟩

theorem writeAll_spec (writeback : Writeback) (values : List (PyStr × PyStr)) : ∀ written, Accepted writeback written →
    (Accepted writeback (written ++ values) ∧ writeAll writeback written values = ⟨written ++ values, .ok ()⟩) ∨
      ∃ pre value post e, values = pre ++ value :: post ∧ Accepted writeback (written ++ pre) ∧
        writeback (written ++ pre) value = .error e ∧ writeAll writeback written values =
          ⟨written ++ pre ++ [value], .error (.rule ⟨"secret_update_failed", e.name, some value.1⟩)⟩ := by
  induction values with
  | nil =>
    intro written hwritten
    rw [List.append_nil]
    exact .inl ⟨hwritten, rfl⟩
  | cons value values ih =>
    intro written hwritten
    rw [writeAll]
    cases hcall : writeback written value with
    | error e => exact .inr ⟨[], value, values, e, rfl, by rwa [List.append_nil], by rwa [List.append_nil], by
        rw [List.append_nil]⟩
    | ok =>
      have hnext : Accepted writeback (written ++ [value]) := by
        intro pre write post heq
        rcases List.eq_nil_or_concat post with rfl | ⟨init, last, rfl⟩
        · obtain ⟨rfl, hlast⟩ := List.append_inj' heq rfl
          obtain rfl := List.singleton_inj.1 hlast
          exact hcall
        · rw [List.concat_eq_append, ← List.cons_append, ← List.append_assoc] at heq
          obtain ⟨hinit, -⟩ := List.append_inj' heq rfl
          exact hwritten pre write init hinit
      rcases ih (written ++ [value]) hnext with ⟨haccepted, hrun⟩ | ⟨pre, v, post, e, rfl, haccepted, hfail, hrun⟩
      · refine .inl ⟨?_, ?_⟩
        · rwa [List.append_assoc] at haccepted
        · rw [List.append_assoc] at hrun
          exact hrun
      · refine .inr ⟨value :: pre, v, post, e, rfl, ?_, ?_, ?_⟩
        · rwa [List.append_assoc] at haccepted
        · rwa [List.append_assoc] at hfail
        · simp only [List.append_assoc, List.singleton_append] at hrun ⊢
          exact hrun

theorem matching_eq (status : Int) (rules : List SecretUpdateRule) :
    ((∀ rule ∈ rules, Readable L status (rule.matchStatus.splitOn (ch '|'))) ∧ matching L status rules =
        .ok (rules.filter fun rule => specMatches L status (rule.matchStatus.splitOn (ch '|')))) ∨
      ((¬∀ rule ∈ rules, Readable L status (rule.matchStatus.splitOn (ch '|'))) ∧
        matching L status rules = .error (.named (py "ValueError"))) := by
  induction rules with
  | nil => exact .inl ⟨fun _ h => (List.not_mem_nil h).elim, rfl⟩
  | cons rule rules ih =>
    rw [List.forall_mem_cons, List.filter_cons, matching, matchStatus]
    rcases matchParts_eq L status (rule.matchStatus.splitOn (ch '|')) with ⟨hread, hmatch⟩ | ⟨hunread, hmatch⟩
    · rw [hmatch]
      rcases ih with ⟨hrest, hih⟩ | ⟨hrest, hih⟩
      · refine .inl ⟨⟨hread, hrest⟩, ?_⟩
        rw [hih]
        cases specMatches L status (rule.matchStatus.splitOn (ch '|')) <;> rfl
      · refine .inr ⟨fun h => hrest h.2, ?_⟩
        rw [hih]
        cases specMatches L status (rule.matchStatus.splitOn (ch '|')) <;> rfl
    · rw [hmatch]
      exact .inr ⟨fun h => hunread h.1, rfl⟩

theorem AllOrNothing.result_ne_exc {op : Operation} {status : Int} {body : PyStr} {writeback : Writeback} {run : Run}
    (h : AllOrNothing L op status body writeback run) (e : Exc) : run.result ≠ .error (.exc e) := by
  cases h with
  | refused => exact fun heq => by cases heq
  | done => exact fun heq => by cases heq
  | stopped => exact fun heq => by cases heq

theorem apply_readable {op : Operation} {status : Int}
    (h : matching L status op.secretUpdateRules = .ok (matched L op status)) (body : PyStr) (writeback : Writeback) :
    AllOrNothing L op status body writeback (applySecretUpdateRules L op status body writeback) := by
  unfold applySecretUpdateRules
  rw [h]
  dsimp only
  have hrefused : ∀ e, (matched L op status).mapM (extractOne L body) = .error e →
      ∃ rule ∈ matched L op status, ¬∃ write, Extracts L body rule write := by
    intro e he
    obtain ⟨rule, hrule, hfail⟩ := Fallible.mapM_error he
    refine ⟨rule, hrule, ?_⟩
    rintro ⟨write, hwrite⟩
    rw [(extractOne_ok L).2 hwrite] at hfail
    cases hfail
  cases hextract : (matched L op status).mapM (extractOne L body) with
  | error e =>
    obtain ⟨rule, hrule, hno⟩ := hrefused e hextract
    cases e with
    | rule e => exact .refused e rule hrule hno
    | exc e => exact .refused _ rule hrule hno
  | ok writes =>
    have hwrites := Fallible.mapM_ok (R := Extracts L body) (fun _ _ hx => (extractOne_ok L).1 hx) hextract
    have hnone : Accepted writeback [] := fun pre write post heq => by simp at heq
    rcases writeAll_spec writeback writes [] hnone with ⟨haccepted, hrun⟩ | ⟨pre, write, post, e, rfl, haccepted, hfail, hrun⟩
    · dsimp only
      rw [hrun]
      exact .done writes hwrites haccepted
    · dsimp only
      rw [hrun]
      exact .stopped pre write post e hwrites haccepted hfail

/-- The rules of an operation are applied all or none, up to the first failed write, exactly when
`int` takes every number `isdigit` finds in a spec before the part that matches. -/
theorem update_rules_iff (op : Operation) (status : Int) (body : PyStr) (writeback : Writeback) :
    AllOrNothing L op status body writeback (applySecretUpdateRules L op status body writeback) ↔
      ∀ rule ∈ op.secretUpdateRules, Readable L status (rule.matchStatus.splitOn (ch '|')) := by
  rcases matching_eq L status op.secretUpdateRules with ⟨hread, hmatching⟩ | ⟨hunread, hmatching⟩
  · exact ⟨fun _ => hread, fun _ => apply_readable L hmatching body writeback⟩
  · have hrun : applySecretUpdateRules L op status body writeback = ⟨[], .error (.exc (.named (py "ValueError")))⟩ := by
      rw [applySecretUpdateRules, hmatching]
    rw [hrun]
    exact ⟨fun h => absurd rfl (h.result_ne_exc L _), fun h => absurd h hunread⟩

/-! ## A superscript digit -/

/-- Unicode as far as ASCII and the superscript two, and parsers that find nothing. -/
def libraries : Libraries where
  lower s := s.map Url.lower
  isDigit c := Url.isDigit c || c.val == 0xB2
  decimal c := if Url.isDigit c then some (c.val - 0x30) else none
  loads _ := .error .jsonDecodeError
  parseQs _ := .ok []
  search _ _ := .ok none
  Document := Unit
  fromstring _ := .error .parseError
  findall _ _ := .ok []

/-- A manifest whose only rule is for the status `²`. -/
def superscriptManifest : Json :=
  .obj [(py "id", .str (py "t")), (py "type", .str (py "rest")), (py "base_url", .str (py "https://h")),
    (py "secrets", .arr [.obj [(py "name", .str (py "s")), (py "field", .str (py "f")), (py "writable", .bool true)]]),
    (py "operations", .arr [.obj [(py "name", .str (py "o")), (py "verb", .str (py "GET")), (py "path", .str (py "/")),
      (py "redact_response_body", .bool true), (py "redact_response_headers", .bool true),
      (py "secret_update_rules", .arr [.obj [(py "secret_name", .str (py "s")), (py "response_type", .str (py "json")),
        (py "extract_path", .str (py "k")), (py "match_status", .str [Url.byte 0xB2])]])]])]

def superscriptOperation : Operation where
  name := py "o"
  risk := py "unknown"
  description := []
  verb := .get
  path := py "/"
  allowedHeaders := []
  bodyKind := .none
  bodyContentType := none
  bodySubstitution := false
  redactResponseBody := true
  redactResponseHeaders := true
  secretUpdateRules := [⟨py "s", .json, py "k", [Url.byte 0xB2]⟩]

/-- The manifest loads, and every response to its operation ends in the `ValueError` of `int`. -/
theorem update_rules_superscript : ∃ config, loadConfig (fun _ => true) superscriptManifest = .ok config ∧
    superscriptOperation ∈ config.operations ∧ ∀ writeback, ¬AllOrNothing libraries superscriptOperation 200 []
      writeback (applySecretUpdateRules libraries superscriptOperation 200 [] writeback) := by
  refine ⟨⟨py "t", none, py "https://h", [superscriptOperation], [⟨py "s", py "f", true⟩]⟩, rfl,
    List.mem_singleton_self _, fun writeback h => h.result_ne_exc libraries (.named (py "ValueError")) ?_⟩
  have hsplit : matching libraries 200 superscriptOperation.secretUpdateRules = .error (.named (py "ValueError")) := by
    rfl
  rw [applySecretUpdateRules, hsplit]

end Toolstack.Forwarder.Rules
