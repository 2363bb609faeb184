import Toolstack.Mapping
import Toolstack.Sps.AuditLog
import Toolstack.Sps.Handlers

/-! `_StreamHandler.handle` of `sps/server.py`: one request of one connection, from its bytes to its
reply, with a plugin that may answer or raise anything and an audit log that may fail. -/

namespace Toolstack.Sps.Connection

open Interleave (Prog answering)
open Interleave.Prog (raise)
open Wire (Bytes Clock ReadError)

/-! ## Replies -/

/-- A return value of the plugin: what `json.dumps` writes for it, if it can. -/
inductive Value
  | json (v : Json)
  | unwritable

/-- A call of the plugin returns, raises an `Exception`, or exits with what is none. -/
inductive Answer (α : Type)
  | value (a : α)
  | raised (text : PyStr)
  | exited

inductive Reply
  | ping (bootId : PyStr) (pid : Int)
  | ok
  | secrets (body : Mapping PyStr Value)
  | written (name : PyStr)

/-- What is written back: the reply of a handler, or an error with its message alone. -/
inductive Response
  | reply (r : Reply)
  | error (message : String)

def messageSet : List String := ["Bad request", "Unauthorized", "Not found", "Not writable", "Backend error"]

def Value.json? : Value → Option Json
  | json v => some v
  | unwritable => none

def Reply.json? : Reply → Option Json
  | ping bootId pid => some (.obj [(py "status", .str (py "ok")), (py "boot_id", .str bootId), (py "pid", .int pid)])
  | ok => some (.obj [(py "status", .str (py "ok"))])
  | secrets body => do
    let members ← body.mapM fun kv => (kv.2.json?).map (kv.1, ·)
    return .obj [(py "status", .str (py "ok")), (py "secrets", .obj members)]
  | written name => some (.obj [(py "status", .str (py "ok")), (py "name", .str name)])

def Response.json? : Response → Option Json
  | reply r => r.json?
  | error message => some (.obj [(py "status", .str (py "error")), (py "message", .str (py message))])

/-- `(json.dumps(obj) + "\n").encode("utf-8")`. -/
def Response.payload (r : Response) : Option Bytes :=
  r.json?.map fun v => Wire.encode (Json.dumps .plain v ++ ['\n'])

/-! ## Calls -/

/-- The calls of the store, the plugin, the server's counters, the audit log and the socket. -/
inductive Call
  | get (toolId : PyStr)
  | register (toolId : PyStr) (rec : Registration)
  | unregister (toolId : PyStr)
  | getSecret (field item : PyStr)
  | writeSecret (field item value : PyStr)
  | recordReject (kind : String)
  | audit (e : AuditLog.Event)
  | send (r : Response)

/-- `write_one_json` writes the payload, meets a peer that is gone, or raises where it has no payload. -/
inductive Sent
  | done
  | disconnected
  | unwritable
  deriving DecidableEq

@[reducible] def Call.Ret : Call → Type
  | get _ => Option Registration
  | getSecret .. => Answer Value
  | writeSecret .. => Answer Unit
  | audit _ => Except AuditLog.Exn Unit
  | send _ => Sent
  | register .. | unregister _ | recordReject _ => Unit

inductive Exn
  | failure (f : Failure)
  | exited
  | unwritable

abbrev Program (α : Type) : Type := Prog Call Call.Ret Exn α

def perform (o : Call) : Program o.Ret := Prog.perform o

/-- The context of a handler; `hexdigest` is the SHA-256 of a string's UTF-8, in hex. -/
structure Context where
  config : Config
  logger : AuditLogger
  hexdigest : PyStr → PyStr
  bootId : PyStr
  pid : Int

/-! ## Handlers -/

def check {α : Type} : Except Failure α → Program α
  | .ok a => .ret a
  | .error f => .raise (.failure f)

/-- What a plugin's exception becomes. -/
def answered {α : Type} : Answer α → Program α
  | .value a => .ret a
  | .raised _ => .raise (.failure .backendError)
  | .exited => .raise .exited

/-- Whether a secret presented is that of the registration found. -/
def presents (msg : Message) (rec : Registration) : Bool :=
  (field msg "esecret").any (constantTimeEq · rec.esecret)

def checkFound (msg : Message) : Option Registration → Program Registration
  | none => raise (.failure .authError)
  | some rec => if presents msg rec then return rec else raise (.failure .authError)

def checkEs (toolId : PyStr) (msg : Message) : Program Registration :=
  match field msg "esecret" with
  | none => raise (.failure .authError)
  | some _ => do checkFound msg (← perform (.get toolId))

def handleRegister (ctx : Context) (msg : Message) : Program Reply := do
  let (toolId, rec) ← check (parseRegistration ctx.config msg)
  perform (.register toolId rec)
  return .ok

def handleUnregister (ctx : Context) (msg : Message) : Program Reply := do
  let toolId ← check (parseUnregistration ctx.config msg)
  perform (.unregister toolId)
  return .ok

def readEntries (toolId : PyStr) : List SecretEntry → Mapping PyStr Value → Program (Mapping PyStr Value)
  | [], body => return body
  | e :: es, body => do
    let answer : Answer Value ← perform (.getSecret e.field (e.target toolId))
    let value ← answered answer
    readEntries toolId es (Mapping.set body e.name value)

def handleGetSecrets (msg : Message) : Program Reply := do
  let toolId ← check (requireField msg "toolid")
  let rec ← checkEs toolId msg
  let body ← readEntries toolId rec.secretEntries []
  return .secrets body

/-- The entry of a name, or `SecretNotFound`. -/
def entryOf (rec : Registration) (name : PyStr) : Except Failure SecretEntry :=
  match rec.entry name with
  | none => .error .secretNotFound
  | some e => .ok e

def handleGetSecret (msg : Message) : Program Reply := do
  let toolId ← check (requireField msg "toolid")
  let name ← check (requireField msg "name")
  let rec ← checkEs toolId msg
  let e ← check (entryOf rec name)
  let answer : Answer Value ← perform (.getSecret e.field (e.target toolId))
  let value ← answered answer
  return .secrets [(name, value)]

def checkWritable (e : SecretEntry) : Except Failure Unit := if e.writable then .ok () else .error .notWritable

/-- The value to write: a string of UTF-8 within the limit. -/
def acceptedValue (cfg : Config) (msg : Message) : Except Failure PyStr :=
  match Json.find? msg (py "value") with
  | some (.str value) =>
    if !encodable value || cfg.spMaxValueBytes < utf8Size value then .error .badRegistration else .ok value
  | _ => .error .badRegistration

def handleWriteSecret (ctx : Context) (msg : Message) : Program Reply := do
  let toolId ← check (requireField msg "toolid")
  let name ← check (requireField msg "name")
  let rec ← checkEs toolId msg
  let e ← check (entryOf rec name)
  check (checkWritable e)
  let value ← check (acceptedValue ctx.config msg)
  let answer : Answer Unit ← perform (.writeSecret e.field (e.target toolId) value)
  answered answer
  return .written name

def handler (ctx : Context) (msg : Message) : Operation → Program Reply
  | .ping => .ret (.ping ctx.bootId ctx.pid)
  | .register => handleRegister ctx msg
  | .unregister => handleUnregister ctx msg
  | .getSecrets => handleGetSecrets msg
  | .getSecret => handleGetSecret msg
  | .writeSecret => handleWriteSecret ctx msg

/-! ## The audit event -/

def operationName : Operation → String
  | .ping => "ping"
  | .register => "register"
  | .unregister => "unregister"
  | .getSecrets => "get_secrets"
  | .getSecret => "get_secret"
  | .writeSecret => "write_secret"

/-- A string that cannot be encoded has no digest. -/
def digest (ctx : Context) (v : PyStr) : Option PyStr :=
  if encodable v then some (py "sha256:" ++ ctx.hexdigest v) else none

def identity (ctx : Context) (msg : Message) (key : String) : Option PyStr :=
  match field msg key with
  | some v => digest ctx v
  | none => some []

/-- The declared entries, which the handler has already accepted. -/
def declared (msg : Message) : List SecretEntry :=
  match parseCsTuples (Json.find? msg (py "secrets")) with
  | .ok es => es
  | .error _ => []

/-- `{"field": digest(e["field"]), "item": digest(e.get("item") or msg["toolid"])}`. -/
def digestEntry (ctx : Context) (msg : Message) (e : SecretEntry) : Option (List (PyStr × Json)) := do
  let fieldDigest ← digest ctx e.field
  let itemDigest ← digest ctx (e.target ((field msg "toolid").getD []))
  return [(py "field", .str fieldDigest), (py "item", .str itemDigest)]

/-- `extra["entries"]`. -/
def auditEntries (ctx : Context) (operation : Operation) (msg : Message) (outcome : String) :
    Option (Option (List (List (PyStr × Json)))) :=
  if operation = .register ∧ outcome = "ok" then ((declared msg).mapM (digestEntry ctx msg)).map some else some none

/-- The event of a request, or nothing where a string of it cannot be encoded. -/
def auditEvent (ctx : Context) (operation : Operation) (msg : Message) (outcome : String) : Option AuditLog.Event := do
  let entries ← auditEntries ctx operation msg outcome
  let toolId ← identity ctx msg "toolid"
  let secretName ← identity ctx msg "name"
  return {
    ts := 0
    action := py (operationName operation)
    toolId
    secretName
    outcome := py outcome
    entries
    entryCount := entries.map fun _ => (declared msg).length
    writableCount := entries.map fun _ => (declared msg).countP SecretEntry.writable }

/-! ## One request -/

/-- Why no message could be read. -/
inductive Unread
  | wire (e : ReadError)
  | osError

/-- `BODY_TIMEOUT`. -/
def bodyTimeout : Int := 5

/-- What the client sends, and when it arrives; the connection may break first. -/
structure Client where
  packets : List Bytes
  clock : Clock
  broken : Bool := false

def Client.read (limits : Json.Limits) (c : Client) : Except Unread Json :=
  if c.broken then .error .osError
  else (Wire.readSocketJson limits c.clock bodyTimeout c.packets).mapError .wire

/-- `RecursionError` is no `ValueError`. -/
def Unread.message : Unread → String
  | wire .recursion => "Backend error"
  | wire _ | osError => "Bad request"

/-- The operation that the request is answered as, its message and its response. -/
structure Outcome where
  operation : Option Operation
  message : Message
  response : Response

/-- The message and the operation that reach a handler. -/
def requested : Except Unread Json → Option (Message × Operation)
  | .ok (.obj msg) =>
    match Json.find? msg (py "op") with
    | some (.str name) => (Operation.named name).map (msg, ·)
    | _ => none
  | _ => none

/-- A message that is none of the protocol's. -/
def unserved : Except Unread Json → Outcome
  | .error e => ⟨none, [], .error e.message⟩
  | .ok (.obj msg) => ⟨none, msg, .error "Bad request"⟩
  | .ok _ => ⟨none, [], .error "Bad request"⟩

/-- The first exception ladder. -/
def serve (ctx : Context) (incoming : Except Unread Json) : Program Outcome :=
  match requested incoming with
  | none => return unserved incoming
  | some (msg, operation) => do
    let result ← (handler ctx msg operation).attempt
    match result with
    | .ok reply => return ⟨some operation, msg, .reply reply⟩
    | .error (.failure f) => return ⟨some operation, msg, .error f.message⟩
    | .error e => raise e

/-- `outcome`, one of the fixed messages where it is not "ok". -/
def Response.outcome : Response → String
  | reply _ => "ok"
  | error message => if message ∈ messageSet then message else "Backend error"

/-- The event is recorded before the reply goes out, and in its place there is an error where it is not. -/
def record (ctx : Context) (operation : Operation) (msg : Message) (response : Response) : Program Response :=
  match auditEvent ctx operation msg response.outcome with
  | none => return .error "Backend error"
  | some e => do
    let recorded : Except AuditLog.Exn Unit ← perform (.audit e)
    match recorded with
    | .ok () => return response
    | .error _ => return .error "Backend error"

/-- A request that is counted and not recorded. -/
def reject (kind : String) (response : Response) : Program Response := do
  perform (.recordReject kind)
  return response

/-- The second `try` block. -/
def settle (ctx : Context) (o : Outcome) : Program Response :=
  match o.operation with
  | none => reject "invalid" o.response
  | some operation =>
    if operation = .ping then reject "ping" o.response
    else if o.response.outcome = "Bad request" ∨ o.response.outcome = "Unauthorized" then reject "invalid" o.response
    else record ctx operation o.message o.response

/-- An exception of `write_one_json` is caught where it is an `OSError`. -/
def send (response : Response) : Program Unit := do
  let sent : Sent ← perform (.send response)
  if sent = .unwritable then raise .unwritable else return ()

def respond (ctx : Context) (incoming : Except Unread Json) : Program Unit := do
  let outcome ← serve ctx incoming
  let response ← settle ctx outcome
  send response

def handle (ctx : Context) (limits : Json.Limits) (c : Client) : Program Unit := respond ctx (c.read limits)

/-! ## Runs -/

/-- `pool` is `ToolRegistrationStore._by_id`. -/
structure World where
  pool : PyStr → Option Registration
  log : AuditLog.Log := {}

/-- What becomes of a call that the world does not settle. -/
structure Oracle where
  value : Answer Value
  done : Answer Unit
  now : Int
  files : Nat → Option Nat
  disconnected : Bool

def World.exec (ctx : Context) : (o : Call) → Oracle → World → o.Ret × World
  | .get toolId, _, w => (w.pool toolId, w)
  | .register toolId rec, _, w => ((), { w with pool := Function.update w.pool toolId (some rec) })
  | .unregister toolId, _, w => ((), { w with pool := Function.update w.pool toolId none })
  | .getSecret .., ω, w => (ω.value, w)
  | .writeSecret .., ω, w => (ω.done, w)
  | .recordReject _, _, w => ((), w)
  | .audit e, ω, w =>
    let e := { e with ts := ω.now }
    ((AuditLog.event ctx.logger e).run (answering AuditLog.World.exec) (w.log.world, ω.files) |>.result,
      { w with log := w.log.call ctx.logger (e, ω.files) })
  | .send r, ω, w =>
    (if r.payload = none then .unwritable else if ω.disconnected then .disconnected else .done, w)

def Call.reply? : Call → Option Response
  | send r => some r
  | _ => none

/-- What is written to the client. -/
def replies (calls : List (Interleave.Answered Call Call.Ret)) : List Response := calls.filterMap fun c => c.1.reply?

end Toolstack.Sps.Connection
