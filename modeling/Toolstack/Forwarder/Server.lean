import Toolstack.Broker.Manifest
import Toolstack.Forwarder.UpdateRules
import Toolstack.Interleave.Handle

/-! `toolstack_forwarder/server.py` and `outbound.py`: one POST of the broker. The client's body, the
secrets, the upstream and the writebacks are the calls it makes. -/

namespace Toolstack.Forwarder.Server

open Url
open Interleave (Prog)
open Interleave.Prog (raise)
open Rules

/-! ## Calls -/

/-- What `_OPENER.open` does; an HTTP error is a response like any other. -/
inductive Opened
  | response (status : Int) (headers : List (PyStr × PyStr))
  | unreachable (reason : PyStr)
  | raised (e : Exc)

inductive Op
  | read (length : Nat)
  | get (name : PyStr)
  | refreshAll
  | refresh (name : PyStr)
  | send (req : OutboundRequest)
  | recv (size : Nat)
  | writeback (write : PyStr × PyStr)

@[reducible] def Op.Ret : Op → Type
  | .read _ | .recv _ => Except Exc Bytes
  | .get _ => Option PyStr
  | .refreshAll | .refresh _ | .writeback _ => Except Exc Unit
  | .send _ => Opened

/-- An exception that no handler catches. -/
inductive Uncaught
  | build (e : BuildError)
  | exc (e : Exc)

abbrev Program (α : Type) : Type := Prog Op Op.Ret Uncaught α

def ask (o : Op) : Program o.Ret := Prog.perform o

/-! ## Requests and replies -/

/-- The libraries of the handler: those of the rules, `int` of a header, `json.loads` of bytes and a
decoding of bytes that replaces what is no UTF-8. -/
structure Host extends Libraries where
  headerInt : PyStr → Option Int
  loadsBytes : Bytes → Except Exc Json
  decodeReplace : Bytes → PyStr

/-- The process: its configuration, `TOOLSTACK_CHANNEL_SECRET` (empty where unset) and the body limit. -/
structure Setup where
  config : RestConfig
  channelSecret : PyStr
  maxBody : Nat

def Setup.envelopeMax (S : Setup) : Nat := max (S.maxBody * 2 + 65536) (1024 * 1024)

structure Request where
  path : PyStr
  headers : List (PyStr × PyStr)

structure Reply where
  status : Nat
  body : Table

variable (netlocOk : PyStr → Bool) (H : Host)

/-- `self.headers.get(name)` of a name in lower case. -/
def Request.header? (req : Request) (name : PyStr) : Option PyStr :=
  (req.headers.find? fun h => H.lower h.1 = name).map Prod.snd

def refused (status : Nat) (error : String) (fields : Table := []) : Reply :=
  ⟨status, (py "error", .str (py error)) :: fields⟩

def statusOk : Reply := ⟨200, [(py "status", .str (py "ok"))]⟩

/-- The `envelope()` of a `RequestBuildError` or a `RuleError`. -/
def envelope (code : String) (detail : PyStr) (fields : Table) : Table :=
  [(py "error", .str (py code)), (py "detail", .str (if detail = [] then py code else detail))] ++ fields

def ruleEnvelope (e : RuleError) : Table :=
  envelope e.code e.detail (e.secret.toList.map fun name => (py "secret", .str name))

/-! ## The channel credential -/

def isAscii (s : PyStr) : Bool := s.all fun c => c.val ≤ 0x7F

/-- `_verify_channel_secret`: nothing, or why the caller is refused. -/
def verifyChannelSecret (S : Setup) (req : Request) : Option String :=
  let presented := strip ((req.header? H (py "x-toolstack-secret")).getD [])
  if S.channelSecret = [] then some "channel_secret_missing"
  else if !isAscii presented || !isAscii S.channelSecret || presented ≠ S.channelSecret then
    some "channel_secret_mismatch"
  else none

/-! ## `outbound.py` -/

/-- The result dict: an envelope with a status, or one with an error. -/
structure Response where
  status : Int
  headers : List (PyStr × PyStr)
  body : PyStr

def hopByHop : List PyStr :=
  [py "connection", py "keep-alive", py "proxy-authenticate", py "proxy-authorization", py "te", py "trailer",
    py "transfer-encoding", py "upgrade"]

def cleanHeaders (headers : List (PyStr × PyStr)) : List (PyStr × PyStr) :=
  headers.foldl (fun clean h =>
    let lname := H.lower h.1
    if lname = py "set-cookie" ∨ lname ∈ hopByHop then clean else assign clean lname h.2) []

/-- `_read_capped`, after the bytes at hand; nothing where more than `maxBody` of them arrive. -/
def readCapped (maxBody : Nat) (body : Bytes) : Program (Option Bytes) := do
  match ← ask (.recv (min 65536 (maxBody + 1 - body.length))) with
  | .error e => raise (.exc e)
  | .ok [] => return some body
  | .ok (b :: chunk) =>
    if maxBody < (body ++ b :: chunk).length then return none
    else readCapped maxBody (body ++ b :: chunk)
termination_by maxBody + 1 - body.length
decreasing_by
  rw [List.length_append, List.length_cons] at *
  omega

def tooLarge (maxBody : Nat) : Table :=
  [(py "error", .str (py "response_too_large")), (py "limit_bytes", .int maxBody)]

/-- `_response_envelope`. -/
def responseEnvelope (status : Int) (headers : List (PyStr × PyStr)) (body : Option Bytes) (maxBody : Nat) :
    Except Table Response :=
  match body with
  | none => .error (tooLarge maxBody)
  | some body => .ok ⟨status, cleanHeaders H headers, H.decodeReplace body⟩

/-- `urlsplit(url).hostname or ""`. -/
def hostname (url : PyStr) : Except Exc PyStr :=
  match urlsplit netlocOk url with
  | none => .error (.named (py "ValueError"))
  | some u =>
    let host := (Broker.Registry.hostinfo u).1
    .ok (H.lower (host.takeWhile (· ≠ ch '%')) ++ host.dropWhile (· ≠ ch '%'))

def unreachable (host reason : PyStr) : Table :=
  [(py "error", .str (py "outbound_unreachable")), (py "host", .str host), (py "reason", .str reason)]

def send (req : OutboundRequest) (maxBody : Nat) : Program (Except Table Response) := do
  match ← ask (.send req) with
  | .raised e => raise (.exc e)
  | .unreachable reason =>
    match hostname netlocOk H req.url with
    | .error e => raise (.exc e)
    | .ok host => return .error (unreachable host reason)
  | .response status headers =>
    let body ← readCapped maxBody []
    return responseEnvelope H status headers body maxBody

/-! ## `rules.py` -/

/-- The writes in order, up to the first that fails. -/
def writeEach : List (PyStr × PyStr) → Program (Except RuleError Unit)
  | [] => return .ok ()
  | write :: writes => do
    match ← ask (.writeback write) with
    | .error e => return .error ⟨"secret_update_failed", e.name, some write.1⟩
    | .ok () => writeEach writes

def applySecretUpdateRules (op : Operation) (r : Response) : Program (Except RuleError Unit) :=
  match matching H.toLibraries r.status op.secretUpdateRules with
  | .error e => raise (.exc e)
  | .ok rules =>
    match rules.mapM (extractOne H.toLibraries r.body) with
    | .error (.rule e) => return .error e
    | .error (.exc e) => return .error ⟨"rule_extraction_failed", e.name, none⟩
    | .ok extracted => writeEach extracted

/-! ## `server.py` -/

def redactedBodyJson : PyStr :=
  py "\x7b\"message\":\"response redacted for this operation due to config in toolserver\"\x7d"

def redactedBodyText : PyStr := py "response redacted for this operation due to config in toolserver"

def redactedHeaders : List (PyStr × PyStr) :=
  [(py "X-ToolStack-Security", py "headers redacted for this operation due to config in toolserver")]

/-- Whether the content type is one of JSON. -/
def Response.isJson (r : Response) : Bool :=
  py "json" <:+: H.lower (((r.headers.find? fun h => h.1 = py "content-type").map Prod.snd).getD [])

def redactResponse (op : Operation) (r : Response) : Response where
  status := r.status
  headers := if op.redactResponseHeaders then redactedHeaders else r.headers
  body := if op.redactResponseBody then (if r.isJson H then redactedBodyJson else redactedBodyText) else r.body

def Response.envelope (r : Response) : Table :=
  [(py "status", .int r.status), (py "headers", .obj (r.headers.map fun h => (h.1, .str h.2))),
    (py "body", .str r.body)]

def forward (S : Setup) (opName : PyStr) (arguments : Json) : Program Reply := do
  match ← (buildRequest netlocOk S.config opName arguments S.maxBody).handle fun o => ask (.get o.name) with
  | .error (.request code detail fields) =>
    return ⟨if code = "unknown_op" then 404 else 400, envelope code detail fields⟩
  | .error e => raise (.build e)
  | .ok req =>
    match ← send netlocOk H req S.maxBody with
    | .error failed => return ⟨502, failed⟩
    | .ok response =>
      match S.config.operation? opName with
      | none => raise (.exc (.named (py "KeyError")))
      | some op =>
        match ← applySecretUpdateRules H op response with
        | .error e => return ⟨502, ruleEnvelope e⟩
        | .ok () => return ⟨200, (redactResponse H op response).envelope⟩

def refreshOne (arguments : Json) : Program Reply :=
  let invalid := refused 400 "invalid_envelope" [(py "detail", .str (py "refresh_one: 'name' argument is required"))]
  match arguments with
  | .obj arguments =>
    match Json.find? arguments (py "name") with
    | some (.str (c :: s)) => do
      match ← ask (.refresh (c :: s)) with
      | .ok () => return statusOk
      | .error e =>
        if e.name = py "KeyError" then
          return refused 404 "unknown_secret" [(py "detail", .str (py "configured secret is unavailable"))]
        else raise (.exc e)
    | _ => return invalid
  | _ => return invalid

def refreshAll : Program Reply := do
  match ← ask .refreshAll with
  | .ok () => return statusOk
  | .error e => raise (.exc e)

def dispatch (S : Setup) (op : PyStr) (arguments : Json) : Program Reply :=
  if op = py "refresh" then refreshAll
  else if op = py "refresh_one" then refreshOne arguments
  else forward netlocOk H S op arguments

/-- The envelope in the bytes of a body. -/
def handleBody (S : Setup) (raw : Bytes) : Program Reply :=
  match if raw = [] then .ok (.obj []) else H.loadsBytes raw with
  | .error .jsonDecodeError => return refused 400 "invalid_json"
  | .error e => raise (.exc e)
  | .ok (.obj kvs) =>
    match Json.find? kvs (py "op") with
    | some (.str op) => dispatch netlocOk H S op ((Json.find? kvs (py "arguments")).getD (.obj []))
    | _ => return refused 400 "invalid_envelope" [(py "detail", .str (py "op must be a string"))]
  | .ok _ => return refused 400 "invalid_envelope" [(py "detail", .str (py "body must be a JSON object"))]

/-- The length of the body, or the reply to a header that gives none. -/
def contentLength (S : Setup) (req : Request) : Except Reply Nat :=
  let length := match req.header? H (py "content-length") with
    | none | some [] => some 0
    | some text => H.headerInt text
  match length with
  | none => .error (refused 400 "invalid_content_length")
  | some length =>
    if length < 0 ∨ S.envelopeMax < length then
      .error (refused 413 "body_too_large" [(py "limit_bytes", .int S.envelopeMax)])
    else .ok length.toNat

def readBody (length : Nat) : Program Bytes := do
  if length = 0 then return []
  match ← ask (.read length) with
  | .ok raw => return raw
  | .error e => raise (.exc e)

def doPost (S : Setup) (req : Request) : Program Reply :=
  if req.path ≠ py "/sendrequest" then return refused 404 "not_found"
  else match verifyChannelSecret H S req with
    | some why => return refused 401 why
    | none =>
      match contentLength H S req with
      | .error reply => return reply
      | .ok length => do
        let raw ← readBody length
        handleBody netlocOk H S raw

end Toolstack.Forwarder.Server
