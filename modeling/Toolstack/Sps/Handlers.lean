import Toolstack.Interleave.Sequential
import Toolstack.Json.Value

/-! `sps/handlers.py`, `sps/store.py` and the dispatch of `sps/server.py`: tools are registered
with a secret of their own, and read or write the entries they declared. -/

namespace Toolstack.Sps

open Interleave (Prog)
open Interleave.Prog (raise)

abbrev Message := List (PyStr × Json)

/-! ## Registrations -/

/-- One declared `CS_TUPLE`. -/
structure SecretEntry where
  name : PyStr
  field : PyStr
  item : Option PyStr := none
  writable : Bool := false
  deriving DecidableEq

/-- `entry.get("item") or tool_id`. -/
def SecretEntry.target (toolId : PyStr) (e : SecretEntry) : PyStr :=
  match e.item with
  | some (c :: s) => c :: s
  | _ => toolId

structure Registration where
  esecret : PyStr
  secretEntries : List SecretEntry
  deriving DecidableEq

/-- `grants` is empty for a tool the configuration does not name. -/
structure Config where
  spSecret : PyStr
  grants : PyStr → List PyStr
  spMaxValueBytes : Nat

/-! ## Calls -/

/-- The calls of the registration store and of the backend plugin. -/
inductive Op
  | get (toolId : PyStr)
  | register (toolId : PyStr) (rec : Registration)
  | unregister (toolId : PyStr)
  | getSecret (field item : PyStr)
  | writeSecret (field item value : PyStr)

@[reducible] def Op.Ret : Op → Type
  | get _ => Option Registration
  | register .. => Unit
  | unregister _ => Unit
  | getSecret .. => Except Unit PyStr
  | writeSecret .. => Except Unit Unit

/-- A backend, with whatever state it has. A call that raises answers an error. -/
structure Plugin (σ : Type) where
  getSecret : PyStr → PyStr → σ → Except Unit PyStr × σ
  writeSecret : PyStr → PyStr → PyStr → σ → Except Unit Unit × σ

/-- `pool` is `ToolRegistrationStore._by_id`. -/
structure World (σ : Type) where
  pool : PyStr → Option Registration
  backend : σ

def World.exec {σ : Type} (plugin : Plugin σ) : (o : Op) → World σ → o.Ret × World σ
  | .get toolId, w => (w.pool toolId, w)
  | .register toolId rec, w =>
    ((), { w with pool := fun t => if t = toolId then some rec else w.pool t })
  | .unregister toolId, w =>
    ((), { w with pool := fun t => if t = toolId then none else w.pool t })
  | .getSecret field item, w =>
    let (value, backend) := plugin.getSecret field item w.backend
    (value, { w with backend := backend })
  | .writeSecret field item value, w =>
    let (done, backend) := plugin.writeSecret field item value w.backend
    (done, { w with backend := backend })

/-! ## Handlers -/

inductive Failure
  | authError
  | badRegistration
  | toolNotFound
  | secretNotFound
  | notWritable
  | backendError
  deriving DecidableEq

inductive Reply
  | ok
  | secrets (body : List (PyStr × PyStr))
  | written (name : PyStr)

abbrev Handler := Prog Op Op.Ret Failure Reply

abbrev perform (o : Op) : Prog Op Op.Ret Failure o.Ret := Prog.perform o

/-- A check that raises or returns, without a call. -/
def check {α : Type} : Except Failure α → Prog Op Op.Ret Failure α
  | .ok a => .ret a
  | .error e => .raise e

/-- A non-empty string member. -/
def field (msg : Message) (key : String) : Option PyStr :=
  match Json.find? msg (py key) with
  | some (.str (c :: s)) => some (c :: s)
  | _ => none

/-- `_field`. -/
def requireField (msg : Message) (key : String) : Except Failure PyStr :=
  match field msg key with
  | some v => .ok v
  | none => .error .badRegistration

def encodable (s : PyStr) : Bool := s.all fun c => !c.isSurrogate

/-- Strings that cannot be encoded compare unequal. -/
def constantTimeEq (a b : PyStr) : Bool := encodable a && encodable b && a = b

def checkSp (cfg : Config) (msg : Message) : Except Failure Unit :=
  match field msg "spsecret" with
  | none => .error .authError
  | some val => if constantTimeEq val cfg.spSecret then .ok () else .error .authError

/-- `val` is the secret of the registration found. -/
def checkFound (val : PyStr) : Option Registration → Prog Op Op.Ret Failure Registration
  | none => raise .authError
  | some rec => if constantTimeEq val rec.esecret then return rec else raise .authError

def checkEs (toolId : PyStr) (msg : Message) : Prog Op Op.Ret Failure Registration :=
  match field msg "esecret" with
  | none => raise .authError
  | some val => do checkFound val (← perform (.get toolId))

def parseItem (e : Message) : Except Failure (Option PyStr) :=
  match Json.find? e (py "item") with
  | none | some .null => .ok none
  | some (.str (c :: s)) => .ok (some (c :: s))
  | some _ => .error .badRegistration

def parseWritable (e : Message) : Except Failure Bool :=
  match Json.find? e (py "writable") with
  | none => .ok false
  | some (.bool b) => .ok b
  | some _ => .error .badRegistration

def parseEntry (names : List PyStr) : Json → Except Failure SecretEntry
  | .obj e => do
    let name ← requireField e "name"
    if name ∈ names then throw .badRegistration
    let fieldName ← requireField e "field"
    let item ← parseItem e
    let writable ← parseWritable e
    return ⟨name, fieldName, item, writable⟩
  | _ => .error .badRegistration

def parseEntries (names : List PyStr) : List Json → Except Failure (List SecretEntry)
  | [] => .ok []
  | j :: js => do
    let e ← parseEntry names j
    let es ← parseEntries (e.name :: names) js
    return e :: es

def parseCsTuples : Option Json → Except Failure (List SecretEntry)
  | some (.arr js) => parseEntries [] js
  | _ => .error .badRegistration

def hexChar (c : CodePoint) : Bool :=
  let n := c.val
  (0x30 ≤ n && n ≤ 0x39) || (0x41 ≤ n && n ≤ 0x46) || (0x61 ≤ n && n ≤ 0x66)

def parseEsecret (msg : Message) : Except Failure PyStr :=
  match Json.find? msg (py "esecret") with
  | some (.str s) =>
    if s.all hexChar && 32 ≤ s.length then .ok s else .error .badRegistration
  | _ => .error .badRegistration

/-- The item of an entry is the tool's own, or one it was granted. -/
def granted (cfg : Config) (toolId : PyStr) (e : SecretEntry) : Bool :=
  e.target toolId = toolId || e.item.any fun item => (cfg.grants toolId).contains item

def parseRegistration (cfg : Config) (msg : Message) : Except Failure (PyStr × Registration) := do
  checkSp cfg msg
  let toolId ← requireField msg "toolid"
  let esecret ← parseEsecret msg
  let entries ← parseCsTuples (Json.find? msg (py "secrets"))
  if entries.any fun e => !granted cfg toolId e then throw .authError
  return (toolId, ⟨esecret, entries⟩)

def handleRegister (cfg : Config) (msg : Message) : Handler := do
  let (toolId, rec) ← check (parseRegistration cfg msg)
  perform (.register toolId rec)
  return .ok

def parseUnregistration (cfg : Config) (msg : Message) : Except Failure PyStr := do
  checkSp cfg msg
  requireField msg "toolid"

def handleUnregister (cfg : Config) (msg : Message) : Handler := do
  let toolId ← check (parseUnregistration cfg msg)
  perform (.unregister toolId)
  return .ok

/-- `body[k] = v`. -/
def put (body : List (PyStr × PyStr)) (k v : PyStr) : List (PyStr × PyStr) :=
  if body.any fun kv => kv.1 = k then body.map fun kv => if kv.1 = k then (k, v) else kv
  else body ++ [(k, v)]

def readEntries (toolId : PyStr) : List SecretEntry → List (PyStr × PyStr) →
    Prog Op Op.Ret Failure (List (PyStr × PyStr))
  | [], body => return body
  | e :: es, body => do
    let value : Except Unit PyStr ← perform (.getSecret e.field (e.target toolId))
    match value with
    | .error _ => raise .backendError
    | .ok value => readEntries toolId es (put body e.name value)

def handleGetSecrets (msg : Message) : Handler := do
  let toolId ← check (requireField msg "toolid")
  let rec ← checkEs toolId msg
  let body ← readEntries toolId rec.secretEntries []
  return .secrets body

/-- `next((e for e in rec.secret_entries if e.get("name") == name), None)`. -/
def Registration.entry (rec : Registration) (name : PyStr) : Option SecretEntry :=
  rec.secretEntries.find? fun e => e.name = name

def handleGetSecret (msg : Message) : Handler := do
  let toolId ← check (requireField msg "toolid")
  let name ← check (requireField msg "name")
  let rec ← checkEs toolId msg
  match rec.entry name with
  | none => raise .secretNotFound
  | some e => do
    let value : Except Unit PyStr ← perform (.getSecret e.field (e.target toolId))
    match value with
    | .error _ => raise .backendError
    | .ok value => return .secrets [(name, value)]

/-- `len(value.encode("utf-8"))`. -/
def utf8Size (s : PyStr) : Nat :=
  (s.map fun c =>
    if c.val < 0x80 then 1 else if c.val < 0x800 then 2 else if c.val < 0x10000 then 3 else 4).sum

def handleWriteSecret (cfg : Config) (msg : Message) : Handler := do
  let toolId ← check (requireField msg "toolid")
  let name ← check (requireField msg "name")
  let rec ← checkEs toolId msg
  match rec.entry name with
  | none => raise .secretNotFound
  | some e =>
    if !e.writable then raise .notWritable
    else
      match Json.find? msg (py "value") with
      | some (.str value) =>
        if !encodable value || cfg.spMaxValueBytes < utf8Size value then raise .badRegistration
        else do
          let done : Except Unit Unit ← perform (.writeSecret e.field (e.target toolId) value)
          match done with
          | .error _ => raise .backendError
          | .ok () => return .written name
      | _ => raise .badRegistration

/-! ## The server -/

inductive Operation
  | ping
  | register
  | unregister
  | getSecrets
  | getSecret
  | writeSecret
  deriving DecidableEq

/-- `_HANDLER_BY_OP`. -/
def Operation.named (s : PyStr) : Option Operation :=
  [("ping", ping), ("register", register), ("unregister", unregister), ("get_secrets", getSecrets),
    ("get_secret", getSecret), ("write_secret", writeSecret)].findSome? fun o =>
      if py o.1 = s then some o.2 else none

def handler (cfg : Config) (msg : Message) : Operation → Handler
  | .ping => .ret .ok
  | .register => handleRegister cfg msg
  | .unregister => handleUnregister cfg msg
  | .getSecrets => handleGetSecrets msg
  | .getSecret => handleGetSecret msg
  | .writeSecret => handleWriteSecret cfg msg

/-- What goes over the wire: a reply, or one of the fixed messages and nothing else. -/
inductive Response
  | reply (r : Reply)
  | error (message : String)

def Failure.message : Failure → String
  | authError => "Unauthorized"
  | badRegistration => "Bad request"
  | toolNotFound | secretNotFound => "Not found"
  | notWritable => "Not writable"
  | backendError => "Backend error"

def respond : Except Failure Reply → Response
  | .ok r => .reply r
  | .error e => .error e.message

/-- Whether hashing the identities of the audit event raises. -/
def auditUnencodable (operation : Operation) (msg : Message) : Bool :=
  let identity := fun key => (field msg key).any fun v => !encodable v
  let entries := match parseCsTuples (Json.find? msg (py "secrets")) with
    | .ok es => es
    | .error _ => []
  identity "toolid" || identity "name" || (operation = .register && entries.any fun e =>
    !encodable e.field || !encodable (e.target ((field msg "toolid").getD [])))

/-- The event of a request that was neither a probe nor rejected. A failure to record it
withholds the reply. -/
def audited (auditFails : Bool) (operation : Operation) (msg : Message) (r : Except Failure Reply) :
    Response :=
  match operation, r with
  | .ping, r | _, r@(.error .authError) | _, r@(.error .badRegistration) => respond r
  | operation, r =>
    if auditFails || auditUnencodable operation msg then .error "Backend error" else respond r

/-- One request as it arrives: `none` where no JSON object could be read. -/
structure Request where
  message : Option Message
  auditFails : Bool := false

/-- A request the server has answered. -/
structure Served where
  operation : Operation
  message : Message
  result : Except Failure Reply
  calls : List (Interleave.Answered Op Op.Ret)
  response : Response

structure Server (σ : Type) where
  world : World σ
  history : List Served := []

/-- Handle one request; the history is newest first. A request that is no message of the
protocol reaches no handler. -/
def Server.handle {σ : Type} (cfg : Config) (plugin : Plugin σ) (s : Server σ) (r : Request) :
    Server σ :=
  match r.message, (r.message.bind (field · "op")).bind Operation.named with
  | some msg, some operation =>
    let ran := (handler cfg msg operation).run (World.exec plugin) s.world
    { world := ran.world
      history := ⟨operation, msg, ran.result, ran.calls,
        audited r.auditFails operation msg ran.result⟩ :: s.history }
  | _, _ => s

def Server.handleAll {σ : Type} (cfg : Config) (plugin : Plugin σ) (s : Server σ)
    (rs : List Request) : Server σ :=
  rs.foldl (Server.handle cfg plugin) s

/-- A server that has just started: nothing is registered. -/
def Server.start {σ : Type} (backend : σ) : Server σ := ⟨⟨fun _ => none, backend⟩, []⟩

end Toolstack.Sps
