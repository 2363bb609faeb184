import Toolstack.Interleave.Cleanup
import Toolstack.Interleave.Outcomes
import Toolstack.Rotation
import Toolstack.Sps.Wire

/-! `sps/audit.py`: an append-only log of one JSON object a line, with a bounded, rotated history. The
lock makes each call's writing atomic, so the calls of any threads come one after the other. -/

namespace Toolstack.Sps

open Interleave (Prog answering)
open Interleave.Prog (raise Sat)
open Rotation (Slots)
open Wire (Bytes newline)

/-- `max_bytes` and `generations`, as the constructor takes them. -/
structure AuditLogger where
  maxBytes : Nat
  generations : Nat
  large : 1024 ≤ maxBytes
  positive : 1 ≤ generations

namespace AuditLog

/-! ## Records -/

inductive Exn
  | valueError
  | typeError
  | osError
  deriving DecidableEq

/-- The arguments of `event`, with the time of the call. -/
structure Event where
  ts : Int
  action : PyStr
  toolId : PyStr := []
  secretName : PyStr := []
  outcome : PyStr := py "ok"
  count : Option Int := none
  entries : Option (List (List (PyStr × Json))) := none
  entryCount : Option Int := none
  writableCount : Option Int := none

def hexDigit (c : CodePoint) : Bool := (0x30 ≤ c.val && c.val ≤ 0x39) || (0x61 ≤ c.val && c.val ≤ 0x66)

/-- `isinstance(v, str) and re.fullmatch(r"sha256:[0-9a-f]{64}", v)`. -/
def isHashed : Json → Bool
  | .str s => s.take 7 = py "sha256:" && (s.drop 7).length = 64 && (s.drop 7).all hexDigit
  | _ => false

/-- An entry has a `field` and an `item`, both hashed, and nothing else. -/
def hashedEntry (e : List (PyStr × Json)) : Bool :=
  (e.all fun kv => kv.1 = py "field" || kv.1 = py "item") && (Json.find? e (py "field")).isSome &&
    (Json.find? e (py "item")).isSome && e.all fun kv => isHashed kv.2

/-- `rec["entries"]` and its counts; `int(None)` raises `TypeError`. -/
def Event.entriesRecord (e : Event) : Except Exn (List (PyStr × Json)) :=
  match e.entries with
  | none => .ok []
  | some entries =>
    if entries.any fun entry => !hashedEntry entry then .error .valueError
    else
      match e.entryCount, e.writableCount with
      | some entryCount, some writableCount => .ok [(py "entries", .arr (entries.map .obj)),
          (py "entry_count", .int entryCount), (py "writable_count", .int writableCount)]
      | _, _ => .error .typeError

/-- `rec`. -/
def Event.record (e : Event) : Except Exn (List (PyStr × Json)) := do
  let entries ← e.entriesRecord
  return [(py "ts", .int e.ts), (py "action", .str (e.action.take 64)), (py "outcome", .str (e.outcome.take 64))] ++
    (if e.toolId = [] then [] else [(py "tool_id", .str (e.toolId.take 128))]) ++
    (if e.secretName = [] then [] else [(py "secret_name", .str (e.secretName.take 128))]) ++
    (e.count.toList.map fun n => (py "count", .int (max 0 (min n 2147483647)))) ++ entries

/-- `(json.dumps(rec) + "\n").encode("utf-8")`. -/
def encodeRecord (rec : List (PyStr × Json)) : Bytes := Wire.encode (Json.dumps .plain (.obj rec) ++ ['\n'])

def Event.payload (e : Event) : Except Exn Bytes := do
  let rec ← e.record
  return encodeRecord rec

/-! ## Files -/

/-- The calls of `event`; file zero is the log, and file `i` its `.i`. -/
inductive Op
  | validate (index : Nat)
  | openPrivate
  | size
  | pathExists (index : Nat)
  | replace (index : Nat)
  | close
  | append (payload : Bytes)

@[reducible] def Op.Answer : Op → Type
  | size => Nat
  | pathExists _ => Bool
  | validate _ | openPrivate | replace _ | close | append _ => Unit

/-- A call answers, or it raises `OSError`. -/
abbrev Op.Ret (o : Op) : Type := Except Unit o.Answer

/-- The files, and what each rename took the place of, with its number. -/
structure World where
  files : Slots UInt8 := fun _ => none
  replaced : List (Nat × Bytes) := []

namespace World

def current (w : World) : Bytes := (w.files 0).getD []

def write (w : World) (bytes : Bytes) : World :=
  { w with files := Function.update w.files 0 (some (w.current ++ bytes)) }

/-- `os.replace` of file `index` to the next. -/
def rename (w : World) (index : Nat) : World where
  files := Rotation.move w.files index
  replaced := w.replaced ++ (w.files (index + 1)).toList.map (index + 1, ·)

/-- A call that fails has done nothing, but for a write: so many bytes of the line are in the log. -/
def exec : (o : Op) → Option Nat → World → o.Ret × World
  | .validate _, none, w => (.ok (), w)
  | .openPrivate, none, w => (.ok (), w.write [])
  | .size, none, w => (.ok w.current.length, w)
  | .pathExists index, _, w => (.ok (w.files index).isSome, w)
  | .replace index, none, w =>
    if (w.files index).isSome then (.ok (), w.rename index) else (.error (), w)
  | .close, none, w => (.ok (), w)
  | .append payload, none, w => (.ok (), w.write payload)
  | .append payload, some n, w => (.error (), w.write (payload.take n))
  | .validate _, some _, w | .openPrivate, some _, w | .size, some _, w | .replace _, some _, w | .close, some _, w =>
    (.error (), w)

end World

abbrev Program (α : Type) : Type := Prog Op Op.Ret Exn α

def ask (o : Op) : Program o.Answer := do
  match ← Prog.perform o with
  | .ok answer => return answer
  | .error () => raise .osError

/-- `for index in range(1, n + 1): validate(...)`. -/
def validateUpTo : Nat → Program Unit
  | 0 => return ()
  | n + 1 => do
    validateUpTo n
    ask (.validate (n + 1))

/-- `for index in range(n, 0, -1)`. -/
def shift : Nat → Program Unit
  | 0 => return ()
  | n + 1 => do
    if ← ask (.pathExists (n + 1)) then ask (.replace (n + 1))
    shift n

/-- The renames, up to where the old descriptor is closed. -/
def rotate (generations : Nat) : Program Unit := do
  ask (.validate 0)
  validateUpTo generations
  shift (generations - 1)
  ask (.replace 0)
  ask .close

/-- Whether the log was rotated for a line of this length. -/
def rotated (logger : AuditLogger) (length : Nat) : Program Bool := do
  if logger.maxBytes < (← ask .size) + length then do
    rotate logger.generations
    return true
  else return false

/-- The descriptor is of a log with room for the line. It is closed where it is still open when the
rotation raises. -/
def makeRoom (logger : AuditLogger) (length : Nat) : Program Unit := do
  match ← (rotated logger length).attempt with
  | .ok true => ask .openPrivate
  | .ok false => return ()
  | .error e => do
    ask .close
    raise e

/-- `AuditLogger.event`. -/
def event (logger : AuditLogger) (e : Event) : Program Unit :=
  match e.payload with
  | .error e => raise e
  | .ok payload =>
    if logger.maxBytes < payload.length then raise .valueError
    else do
      ask (.validate 1)
      ask .openPrivate
      makeRoom logger payload.length
      ask (.append payload)

/-! ## Runs -/

/-- The files after some calls, and the lines of those that returned, in order. -/
structure Log where
  world : World := {}
  recorded : List Bytes := []

/-- One call, with what becomes of its calls of the file system. -/
def Log.call (logger : AuditLogger) (log : Log) (c : Event × (Nat → Option Nat)) : Log :=
  let ran := (event logger c.1).run (answering World.exec) (log.world, c.2)
  match ran.result, c.1.payload with
  | .ok (), .ok payload => ⟨ran.world.1, log.recorded ++ [payload]⟩
  | _, _ => ⟨ran.world.1, log.recorded⟩

/-- The lines of a file, each with its end. -/
def lines : Bytes → List Bytes
  | [] => []
  | b :: s =>
    if b = newline then [b] :: lines s
    else
      match lines s with
      | [] => [[b]]
      | line :: rest => (b :: line) :: rest

/-- The files, the oldest generation first. -/
def World.read (w : World) (generations : Nat) : List Bytes :=
  (List.range (generations + 1)).reverse.filterMap w.files

end AuditLog

end Toolstack.Sps
