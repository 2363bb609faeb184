import Toolstack.Broker.World

/-! `broker/runtime.py`: forward a claimed call to its tool, over one of three transports. -/

namespace Toolstack.Broker.Runtime

open Interleave.Prog (raise)

def mcpProtocolVersion : Json := strJson "2025-06-18"

/-- `self._tool_secret(tool)`. -/
def toolSecret (tool : String) : Action (Option PyStr) := do
  match ← perform (.toolSecret tool) with
  | .ok secret => return secret
  | .error e => raise e

/-- `if secret:` before the header is set. -/
def header (v : Option PyStr) : Option PyStr := v.filter (· ≠ [])

def success (a : HttpAnswer) : Bool := 200 ≤ a.status && a.status < 300

/-- `read_response` and then `json.loads`, for a transport that names only a decoding error. -/
def loadBody (a : HttpAnswer) : Action Json :=
  match a.body with
  | .error e => raise e.val
  | .ok (.ok v) => return v
  | .ok (.error e) => raise (if e.val = .jsonDecodeError then .runtimeError else e.val)

def executeApi (toolOp : ToolOp) (arguments : Json) (requestId : Nat) (callerName : Option String) :
    Action Json := do
  let secret ← toolSecret toolOp.tool
  let exchange ← perform (.http {
    port := toolOp.port
    message := .action toolOp.op arguments requestId callerName
    secret := header secret })
  match exchange with
  | .refused => raise .notDispatched
  | .unreachable _ => raise .toolUnreachable
  | .raised _ e => raise e.val
  | .answered a => if success a then loadBody a else raise .runtimeError

/-- The forwarder's envelope: a response, or one of its own errors. -/
def envelope (parsed : Json) : Action Json :=
  match parsed with
  | .obj kvs =>
    if (Json.find? kvs (py "status")).isSome then return parsed
    else
      match Json.find? kvs (py "error") with
      | some (.str e) => if e = py "outbound_unreachable" then raise .toolUnreachable else raise .runtimeError
      | _ => raise .runtimeError
  | _ => raise .runtimeError

/-- An error status carries an envelope too, so its body is read like any other. -/
def executeRest (toolOp : ToolOp) (arguments : Json) (requestId : Nat) (callerName : Option String) :
    Action Json := do
  let secret ← toolSecret toolOp.tool
  let exchange ← perform (.http {
    port := toolOp.port
    message := .sendRequest toolOp.op arguments requestId callerName
    secret := header secret })
  match exchange with
  | .refused => raise .notDispatched
  | .unreachable _ => raise .toolUnreachable
  | .raised _ e => raise e.val
  | .answered a => do envelope (← loadBody a)

/-! ## MCP -/

/-- A JSON-RPC 2.0 response to `msgId`. -/
def responseTo (msgId : Int) (kvs : List (PyStr × Json)) : Bool :=
  (match Json.find? kvs (py "jsonrpc") with
    | some (.str v) => v = py "2.0"
    | _ => false) &&
  match Json.find? kvs (py "id") with
  | some (.int n) => n = msgId
  | _ => false

/-- `_read_sse`: the first event that answers `msgId`. -/
def readSse (a : HttpAnswer) (msgId : Int) : Except Fault (List (PyStr × Json)) :=
  let answers := fun e : Option Json =>
    match e with
    | some (.obj kvs) =>
      if responseTo msgId kvs && ((Json.find? kvs (py "result")).isSome ||
        (Json.find? kvs (py "error")).isSome) then some kvs else none
    | _ => none
  match a.events.findSome? answers with
  | some kvs => .ok kvs
  | none => .error a.ending

def readMessage (a : HttpAnswer) (msgId : Int) : Action (List (PyStr × Json)) :=
  if a.eventStream then
    match readSse a msgId with
    | .ok kvs => return kvs
    | .error e => raise e.val
  else do
    match ← loadBody a with
    | .obj kvs => return kvs
    | _ => raise .runtimeError

/-- `err.get("message", err)` needs `message["error"] or {}` to be a dict. -/
def rpcError (err : Json) : Exn :=
  match err with
  | .obj _ => .runtimeError
  | v => if v.truthy then .attributeError else .runtimeError

/-- What `_mcp_request` makes of one exchange: the result (`null` where there is none) and the
session. -/
def mcpReply (request : HttpRequest) (msgId : Int) : Exchange → Action (Json × Option PyStr)
  | .refused => raise .toolUnreachable
  | .unreachable _ => raise .toolUnreachable
  | .raised _ e => raise e.val
  | .answered a =>
    if !success a then raise .runtimeError
    else do
      let message ← readMessage a msgId
      if !responseTo msgId message then raise .runtimeError
      else
        match Json.find? message (py "error") with
        | some err => raise (rpcError err)
        | none =>
          return ((Json.find? message (py "result")).getD .null,
            if (header a.session).isSome then a.session else request.session)

def mcpRequest (request : HttpRequest) (msgId : Int) : Action (Json × Option PyStr) := do
  mcpReply request msgId (← perform (.http request))

/-- Best effort: only a failure to reach the tool, or an error status, is passed over. -/
def mcpNotify (request : HttpRequest) : Action Unit := do
  match ← perform (.http request) with
  | .refused => return ()
  | .unreachable _ => return ()
  | .raised _ e => raise e.val
  | .answered a =>
    if !success a then return ()
    else
      match a.body with
      | .error e => raise e.val
      | .ok _ => return ()

def executeMcp (toolOp : ToolOp) (arguments : Json) (requestId : Nat) (callerName : Option String) :
    Action Json := do
  let secret ← toolSecret toolOp.tool
  let base : HttpRequest := { port := toolOp.port, message := .mcpInitialize, secret := header secret }
  let (initResult, session) ← mcpRequest base 1
  match initResult with
  | .obj kvs => do
    let version := (Json.find? kvs (py "protocolVersion")).getD .null
    let protocol := if version.truthy then version else mcpProtocolVersion
    let pinned : HttpRequest := { base with session := header session, protocol := protocol }
    mcpNotify { pinned with message := .mcpInitialized }
    let (result, _) ← mcpRequest
      { pinned with message := .toolsCall toolOp.op arguments requestId callerName } 2
    match result with
    | .null => raise .runtimeError
    | result => return result
  | _ => raise .runtimeError

def transport (toolOp : ToolOp) (arguments : Json) (requestId : Nat) (callerName : Option String) :
    Action Json :=
  match toolOp.type with
  | .api => executeApi toolOp arguments requestId callerName
  | .mcp => executeMcp toolOp arguments requestId callerName
  | .rest => executeRest toolOp arguments requestId callerName

/-- The whole execution under its deadline, which is checked once more at the end. -/
def execute (toolOp : ToolOp) (arguments : Json) (requestId : Nat) (callerName : Option String) :
    Action Json := do
  perform (.execute toolOp arguments requestId callerName)
  let result ← transport toolOp arguments requestId callerName
  let late : Bool ← perform .boundsExpired
  if late then raise .timeoutError else return result

end Toolstack.Broker.Runtime
