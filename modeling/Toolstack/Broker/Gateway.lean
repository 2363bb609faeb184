import Toolstack.Broker.Requests

/-! `broker/gateway.py` and `broker/identity.py`: the two routes by which an agent reaches the
request lifecycle, `POST /v1/actions/…` and `GET /v1/requests/…`. -/

namespace Toolstack.Broker

open Interleave.Prog (raise)

/-! ## Identity -/

namespace Identity

def isSpace (c : Char) : Bool := Redaction.isSpace (Fin.ofNat _ c.toNat)

def strip (t : Text) : Text := ((t.dropWhile isSpace).reverse.dropWhile isSpace).reverse

def bearerToken (header : Option Text) : Option Text := do
  let header ← header
  let scheme := header.takeWhile (· ≠ ' ')
  let value := strip (header.drop (scheme.length + 1))
  if scheme.map Char.toLower = "bearer".toList ∧ value ≠ [] then some value else none

def authenticate (H : Hash) (header : Option Text) : Action (Option Caller) :=
  match bearerToken header with
  | none => return none
  | some token => perform (.callerByTokenHash (H.digest token))

def tokenFingerprint (H : Hash) (header : Option Text) : Option Text :=
  (bearerToken header).map fun token => (H.digest token).take 12

end Identity

structure Response where
  status : Nat
  body : List (String × Json)
  correlationId : Text

/-- The headers the two routes read. -/
structure Headers where
  authorization : Option Text := none
  correlationId : Option Text := none
  idempotencyKey : Option PyStr := none

namespace Gateway

open Lifecycle (audit)

def wordChar (c : Char) : Bool :=
  ('A' ≤ c && c ≤ 'Z') || ('a' ≤ c && c ≤ 'z') || ('0' ≤ c && c ≤ '9') || c = '_' || c = '-'

/-- `_ID_RE`. -/
def idMatch (t : Text) : Bool :=
  match t with
  | c :: s => wordChar c && c ≠ '_' && c ≠ '-' && s.all wordChar
  | [] => false

def correlation (headers : Headers) : Action Text :=
  let supplied := Identity.strip (headers.correlationId.getD [])
  if 1 ≤ supplied.length ∧ supplied.length ≤ 64 ∧ supplied.all wordChar then return supplied
  else perform .token

/-- `spec.split(".")` into exactly two identifiers. -/
def toolAndOp (spec : Text) : Option (String × String) :=
  let tool := spec.takeWhile (· ≠ '.')
  let op := spec.drop (tool.length + 1)
  if idMatch tool && idMatch op && spec.length = tool.length + 1 + op.length then
    some (String.ofList tool, String.ofList op)
  else none

/-! ## Answers -/

def outcomeStatus : OutcomeStatus → Nat
  | .ok => 200
  | .pendingApproval => 202
  | .denied => 403
  | .notFound => 404
  | .expired => 200
  | .failed => 502
  | .unavailable => 503
  | .received => 202
  | .executing => 202
  | .unknown => 502
  | .resultExpired => 200
  | .conflict => 409
  | .invalid => 400

/-- A field of the body that is left out where the outcome has none. -/
def optional {α : Type} (key : String) (f : α → Json) (v : Option α) : List (String × Json) :=
  (v.map fun v => (key, f v)).toList

def outcomeBody (outcome : Outcome) : List (String × Json) :=
  [("status", strJson outcome.status.text)] ++
    optional "idempotency_key" .str outcome.idempotencyKey ++
    (if outcome.payloadsPruned then [("payloads_pruned", .bool true)] else []) ++
    (if outcome.reused then [("reused", .bool true)] else []) ++
    optional "request_id" (fun n : Nat => .int n) outcome.requestId ++
    (match outcome.result with | .null => [] | result => [("result", result)]) ++
    optional "reason" strJson outcome.reason ++
    optional "error" strJson outcome.error ++
    optional "detail" strJson outcome.detail ++
    optional "approver" .str outcome.approver ++
    optional "note" .str outcome.note ++
    optional "decided_at" .str outcome.decidedAt

/-- `_REQUEST_TERMINAL`: the event type and the outcome word. -/
def requestTerminal : OutcomeStatus → Option (String × String)
  | .ok => some ("completed", "ok")
  | .denied => some ("denied", "denied")
  | .failed => some ("failed", "failed")
  | .unavailable => some ("failed", "failed")
  | .expired => some ("expired", "expired")
  | .unknown => some ("unknown", "unknown")
  | _ => none

def auditRequestTerminal (outcome : Outcome) (correlationId : Text) (tool op : String) :
    Action Unit := do
  if outcome.reused then
    audit "request" "receipt_reused" outcome.status.text correlationId outcome.requestId
      (Lifecycle.names tool op)
  else
    match requestTerminal outcome.status, outcome.requestId with
    | some (eventType, word), some requestId =>
      audit "request" eventType word correlationId requestId (Lifecycle.names tool op)
    | _, _ => return ()

/-! ## The two routes -/

def refuse (status : Nat) (correlationId : Text) (body : List (String × Json)) : Response :=
  ⟨status, body, correlationId⟩

def error (word : String) : List (String × Json) := [("error", strJson word)]

def authorityDenied (correlationId : Text) : Response :=
  refuse 403 correlationId [("status", strJson "denied"), ("error", strJson "authority")]

/-- `int(rid)` of a path part that `isdigit` accepted: latin-1 has three digits `int` refuses,
and the interpreter and the database bound the size of an integer. -/
def requestNumber (rid : Text) : Action Nat :=
  if rid.any (fun c => c = '²' || c = '³' || c = '¹') || 4300 < rid.length then raise .valueError
  else
    let n := rid.foldl (fun n c => 10 * n + (c.toNat - '0'.toNat)) 0
    if 2 ^ 63 ≤ n then raise (.other "OverflowError") else return n

def isDigits (rid : Text) : Bool :=
  rid ≠ [] && rid.all fun c => c.isDigit || c = '²' || c = '³' || c = '¹'

/-- `_request_status`: drives the approval, and discloses only under current authority. -/
def requestStatus (ctx : Context) (caller : Caller) (rid : Text) (correlationId : Text) :
    Action Response := do
  if !isDigits rid then return refuse 400 correlationId (error "invalid")
  else do
    let n ← requestNumber rid
    let req : Option Row ← perform (.request n)
    match req.filter fun req => req.callerId = caller.id with
    | none => return refuse 404 correlationId (error "not_found")
    | some req => do
      let allowed : Option Row ← perform (.authorizedRequest caller n)
      if allowed.isNone then return authorityDenied correlationId
      else do
        let outcome ← Lifecycle.resolveRequest ctx n none (some caller)
        let allowed : Option Row ← perform (.authorizedRequest caller n)
        if allowed.isNone then return authorityDenied correlationId
        else do
          if req.status = .pendingApproval then
            auditRequestTerminal outcome correlationId req.tool req.op
          return ⟨200, outcomeBody outcome, correlationId⟩

def malformed (correlationId : Text) (detail : String) : Response :=
  refuse 400 correlationId [("error", strJson "invalid"), ("detail", strJson detail)]

def action (ctx : Context) (caller : Caller) (spec : Text) (body : Json) (correlationId : Text)
    (key : Option PyStr) : Action Response := do
  match toolAndOp spec, body with
  | none, _ => return malformed correlationId "expected /v1/actions/<tool>.<op>"
  | some (tool, op), .obj kvs => do
    match (Json.find? kvs (py "arguments")).getD (.obj []) with
    | .obj arguments => do
      let outcome ← Lifecycle.submit ctx caller tool op (.obj arguments) correlationId
        ((Json.find? kvs (py "reason")).getD .null) ((key.map Json.str).getD .null)
      auditRequestTerminal outcome correlationId tool op
      return ⟨outcomeStatus outcome.status, outcomeBody outcome, correlationId⟩
    | _ => return malformed correlationId "arguments must be an object"
  | some _, _ => return malformed correlationId "body must be a JSON object"

inductive Request
  | action (spec : Text) (body : Json)
  | status (rid : Text)

def auditOutcome : Nat → String
  | 200 => "ok"
  | 202 => "accepted"
  | 400 => "invalid"
  | 401 => "denied"
  | 403 => "denied"
  | 404 => "not_found"
  | 429 => "rate_limited"
  | 502 => "failed"
  | 503 => "unavailable"
  | 409 => "conflict"
  | _ => "failed"

def auditPath : Request → String × String
  | .action spec _ => ("POST", "/v1/actions/" ++
      if (toolAndOp spec).isSome then String.ofList spec else "<invalid>")
  | .status rid => ("GET", "/v1/requests/" ++ String.ofList rid)

def route (H : Hash) (ctx : Context) (headers : Headers) (request : Request)
    (correlationId : Text) : Action Response := do
  let fingerprint := ((Identity.tokenFingerprint H headers.authorization).map fun t =>
    strJson (String.ofList t)).getD .null
  match ← Identity.authenticate H headers.authorization with
  | none => do
    audit "identity" "token_rejected" "denied" correlationId none
      [("has_bearer", .bool (headers.authorization.any (· ≠ []))), ("token_fp", fingerprint)]
    return refuse 401 correlationId (error "unauthorized")
  | some caller => do
    audit "identity" "token_validated" "ok" correlationId none
      [("caller", strJson caller.name), ("token_fp", fingerprint)]
    let allowed : Bool ← if ctx.rateLimited then perform (.rateAllow caller.id) else pure true
    if !allowed then return refuse 429 correlationId (error "rate_limited")
    else
      match request with
      | .action spec body => action ctx caller spec body correlationId headers.idempotencyKey
      | .status rid => requestStatus ctx caller rid correlationId

def handle (H : Hash) (ctx : Context) (headers : Headers) (request : Request) : Action Response := do
  let correlationId ← correlation headers
  let (method, path) := auditPath request
  audit "gateway" "request_received" "accepted" correlationId none
    [("method", strJson method), ("path", strJson path),
      ("has_bearer", .bool headers.authorization.isSome)]
  let response ← route H ctx headers request correlationId
  audit "gateway" "response_returned" (auditOutcome response.status) correlationId none
    [("status", .int response.status)]
  return response

end Gateway

end Toolstack.Broker
