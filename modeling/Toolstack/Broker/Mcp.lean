import Toolstack.Broker.Gateway
import Toolstack.Broker.Manifest
import Toolstack.Mapping

/-! `broker/mcp.py`: the MCP endpoint, a second framing for the same authority. The catalog is the
one the broker has loaded. -/

namespace Toolstack.Broker.Mcp

open Registry (Listed listOps idFullmatch)

/-! ## Names -/

/-- `f"{tool}__{op}"`. -/
def joined (spec : String × String) : PyStr := py (spec.1 ++ "__" ++ spec.2)

/-- The tool and the operation of an item. -/
def spec (l : Listed) : String × String := (l.tool, l.op)

/-- What the endpoint knows: a REST operation is reached over HTTP only. -/
def native (registry : Registry) : List Listed := (listOps registry).filter fun l => l.type ≠ .rest

def registeredOps (registry : Registry) : List (String × String) := (native registry).map spec

/-- `name.partition("__")`, where the separator occurs. -/
def partition : PyStr → Option (PyStr × PyStr)
  | a :: b :: s =>
    if a = Url.ch '_' ∧ b = Url.ch '_' then some ([], s)
    else (partition (b :: s)).map fun (tool, op) => (a :: tool, op)
  | _ => none

/-- `_resolve_name`: a registered name first, whatever the caller's policy; else a split. -/
def resolveName (registry : Registry) (wanted : PyStr) : Option (String × String) :=
  match Mapping.get (Mapping.collect joined (registeredOps registry)) wanted with
  | some spec => some spec
  | none =>
    match partition wanted with
    | some (tool, op) =>
      if idFullmatch tool && idFullmatch op then some (Registry.string tool, Registry.string op) else none
    | none => none

/-! ## Listing -/

def usable (policy : Policy) (spec : String × String) : Bool := policy.decide spec.1 spec.2 ≠ .deny

/-- An advertised tool, with what its description and its schema are made from. -/
structure Tool where
  name : PyStr
  described : Listed
  review : Bool

/-- `_list_tools`, over what `_allowed` yields. -/
def listTools (registry : Registry) (policy : Policy) : List Tool :=
  ((native registry).filter fun l => usable policy (spec l)).map fun l =>
    ⟨joined (spec l), l, policy.decide l.tool l.op = .review⟩

/-- `gateway._list_tools`, `GET /v1/tools`: REST operations too. -/
def httpTools (registry : Registry) (policy : Policy) : List Listed :=
  (listOps registry).filter fun l => usable policy (spec l)

/-! ## Calling -/

/-- The text of a result: the words for a tool the caller may not know, or a rendered body. -/
inductive Content
  | unknownTool (name : PyStr)
  | outcome (body : List (String × Json))

structure ToolResult where
  content : Content
  isError : Bool

/-- The exceptions of the module. -/
inductive Refusal
  | methodNotFound (method : Json)
  | invalidParams (message : String)
  | rateLimited
  | idempotencyConflict (result : ToolResult)

/-- `_MCP_FAIL`: a pending approval is in progress, not failed. -/
def mcpFail : OutcomeStatus → Bool
  | .ok | .pendingApproval | .notFound => false
  | _ => true

/-- What is looked up is a string; a list or a dict cannot be a key, and nothing else can be split. -/
def nameOf : Json → Action PyStr
  | .str s => return s
  | .arr _ | .obj _ => Interleave.Prog.raise .typeError
  | _ => Interleave.Prog.raise .attributeError

def reasonKey : PyStr := py "_reason"

/-- A reason that is a text, and not a blank one. -/
def reasonOf (arguments : List (PyStr × Json)) : Json :=
  match Json.find? arguments reasonKey with
  | some (.str s) => if s.all Redaction.isSpace then .null else .str s
  | _ => .null

/-- The key in the metadata, or the one in the header; they must not differ. -/
def keyOf (params : List (PyStr × Json)) (header : Option PyStr) : Except Refusal Json :=
  match (Json.find? params (py "_meta")).getD (.obj []) with
  | .obj data =>
    match (Json.find? data (py "toolstack/idempotency-key")).getD .null, header with
    | key, none => .ok key
    | .null, some header => .ok (.str header)
    | .str key, some header =>
      if key = header then .ok (.str header)
      else .error (.invalidParams "conflicting idempotency metadata")
    | _, some _ => .error (.invalidParams "conflicting idempotency metadata")
  | _ => .error (.invalidParams "_meta must be an object")

/-- `result.get("isError") is True`. -/
def toolError : Json → Bool
  | .obj kvs =>
    match Json.find? kvs (py "isError") with
    | some (.bool b) => b
    | _ => false
  | _ => false

/-- The shape of an outcome: a denied and an unknown operation look alike. -/
def resultOf (wanted : PyStr) (outcome : Outcome) : Except Refusal ToolResult :=
  if outcome.status = .denied ∨ outcome.status = .notFound then .ok ⟨.unknownTool wanted, true⟩
  else
    let content := Content.outcome (Gateway.outcomeBody outcome)
    if outcome.status = .conflict then .error (.idempotencyConflict ⟨content, true⟩)
    else
      .ok ⟨content, mcpFail outcome.status || toolError outcome.result⟩

/-- `submit` and the terminal event, as for an action over HTTP. -/
def submitted (ctx : Context) (caller : Caller) (tool op : String) (arguments : List (PyStr × Json))
    (correlationId : Text) (reason key : Json) : Action Outcome := do
  let outcome ← Lifecycle.submit ctx caller tool op (.obj arguments) correlationId reason key
  Gateway.auditRequestTerminal outcome correlationId tool op
  return outcome

/-- The call of a name that was resolved. -/
def callResolved (ctx : Context) (caller : Caller) (correlationId : Text) (params : List (PyStr × Json))
    (header : Option PyStr) (arguments : List (PyStr × Json)) (wanted : PyStr) (tool op : String) :
    Action (Except Refusal ToolResult) := do
  let resolved : Option ToolOp ← perform (.lookup ctx.broker tool op)
  if resolved.any fun o => o.type = .rest then return .ok ⟨.unknownTool wanted, true⟩
  else
    match keyOf params header with
    | .error refusal => return .error refusal
    | .ok key => do
      let outcome ← submitted ctx caller tool op (arguments.filter fun kv => kv.1 ≠ reasonKey)
        correlationId (reasonOf arguments) key
      return resultOf wanted outcome

/-- Every call counts against the limit, whatever it names. -/
def throttled (ctx : Context) (caller : Caller) (call : Action (Except Refusal ToolResult)) :
    Action (Except Refusal ToolResult) := do
  let allowed : Bool ← if ctx.rateLimited then perform (.rateAllow caller.id) else pure true
  if !allowed then return .error .rateLimited else call

def callTool (ctx : Context) (registry : Registry) (caller : Caller) (correlationId : Text)
    (params : List (PyStr × Json)) (header : Option PyStr) : Action (Except Refusal ToolResult) := do
  match (Json.find? params (py "arguments")).getD .null with
  | .null => withArguments []
  | .obj arguments => withArguments arguments
  | _ => return .error (.invalidParams "arguments must be an object")
where
  withArguments (arguments : List (PyStr × Json)) : Action (Except Refusal ToolResult) :=
    throttled ctx caller do
      let wanted ← nameOf ((Json.find? params (py "name")).getD (.str []))
      match resolveName registry wanted with
      | none => return .ok ⟨.unknownTool wanted, true⟩
      | some (tool, op) =>
        callResolved ctx caller correlationId params header arguments wanted tool op

/-! ## Messages -/

inductive Result
  | initialized (protocolVersion : Json)
  | pong
  | tools (tools : List Tool)
  | called (result : ToolResult)

def protocolVersion : Json := strJson "2024-11-05"

def dispatch (ctx : Context) (registry : Registry) (caller : Caller) (correlationId : Text)
    (method : Json) (params : List (PyStr × Json)) (header : Option PyStr) :
    Action (Except Refusal Result) := do
  match method with
  | .str m =>
    if m = py "initialize" then
      return .ok (.initialized ((Json.find? params (py "protocolVersion")).getD protocolVersion))
    else if m = py "ping" then return .ok .pong
    else if m = py "tools/list" then do
      let policy : Policy ← perform (.policyFor caller.id)
      return .ok (.tools (listTools registry policy))
    else if m = py "tools/call" then do
      return (← callTool ctx registry caller correlationId params header).map .called
    else return .error (.methodNotFound method)
  | _ => return .error (.methodNotFound method)

/-- What a response carries beside the id of its message. -/
inductive Payload
  | result (r : Result)
  | error (code : Int) (message : String) (shown : Option Json := none)

/-- The body of a response; a notification has none. -/
abbrev Reply := Option (Json × Payload)

def replied (mid : Json) (payload : Payload) : Reply := if mid matches .null then none else some (mid, payload)

def refused (mid : Json) : Refusal → Nat × Reply
  | .rateLimited => (429, replied mid (.error (-32000) "rate_limited"))
  | .idempotencyConflict result => (409, replied mid (.result (.called result)))
  | .methodNotFound method => (200, replied mid (.error (-32601) "method not found" method))
  | .invalidParams message => (200, replied mid (.error (-32602) message))

/-- `handle`: the HTTP status and the body of one JSON-RPC message. -/
def handle (ctx : Context) (registry : Registry) (caller : Caller) (correlationId : Text) (body : Json)
    (header : Option PyStr) : Action (Nat × Reply) := do
  match body with
  | .null => return (200, some (.null, .error (-32700) "parse error: body is not valid JSON"))
  | .arr _ => return (200, some (.null, .error (-32600) "invalid request: batch is not supported"))
  | .obj message =>
    let mid := (Json.find? message (py "id")).getD .null
    let method := (Json.find? message (py "method")).getD (.str [])
    let given := (Json.find? message (py "params")).getD .null
    match if given.truthy then given else .obj [] with
    | .obj params => do
      match ← (dispatch ctx registry caller correlationId method params header).attempt with
      | .error _ =>
        return (500, replied mid (.error (-32603) s!"internal error (correlation id {String.ofList correlationId})"))
      | .ok (.error refusal) => return refused mid refusal
      | .ok (.ok result) => return (200, replied mid (.result result))
    | _ => return (200, replied mid (.error (-32602) "params must be an object"))
  | _ => return (200, some (.null, .error (-32600) "invalid request: expected a JSON-RPC object"))

/-! ## The route -/

/-- The body of a response of the route: a refusal of the gateway, or of JSON-RPC. -/
inductive Body
  | error (word : String)
  | rpc (reply : Reply)

/-- `gateway._route` of `POST /mcp`. -/
def route (H : Hash) (ctx : Context) (registry : Registry) (headers : Headers) (body : Json)
    (correlationId : Text) : Action (Nat × Body) := do
  let fingerprint := ((Identity.tokenFingerprint H headers.authorization).map fun t =>
    strJson (String.ofList t)).getD .null
  match ← Identity.authenticate H headers.authorization with
  | none => do
    Lifecycle.audit "identity" "token_rejected" "denied" correlationId none
      [("has_bearer", .bool (headers.authorization.any (· ≠ []))), ("token_fp", fingerprint)]
    return (401, .error "unauthorized")
  | some caller => do
    Lifecycle.audit "identity" "token_validated" "ok" correlationId none
      [("caller", strJson caller.name), ("token_fp", fingerprint)]
    let (status, reply) ← handle ctx registry caller correlationId body headers.idempotencyKey
    return (status, .rpc reply)

/-- `gateway.handle` of `POST /mcp`. -/
def gateway (H : Hash) (ctx : Context) (registry : Registry) (headers : Headers) (body : Json) :
    Action (Nat × Body) := do
  let correlationId ← Gateway.correlation headers
  Lifecycle.audit "gateway" "request_received" "accepted" correlationId none
    [("method", strJson "POST"), ("path", strJson "/mcp"),
      ("has_bearer", .bool headers.authorization.isSome)]
  let response ← route H ctx registry headers body correlationId
  Lifecycle.audit "gateway" "response_returned" (Gateway.auditOutcome response.1) correlationId none
    [("status", .int response.1)]
  return response

end Toolstack.Broker.Mcp
