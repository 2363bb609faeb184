import Toolstack.Broker.Runtime

/-! `broker/request_lifecycle.py`: registry, policy, execution, and the detour over an approval.
A program is the sequence of transactions and outside calls one invocation makes. -/

namespace Toolstack.Broker

open Interleave.Prog (raise attempt)

inductive OutcomeStatus
  | ok
  | pendingApproval
  | denied
  | notFound
  | failed
  | expired
  | unavailable
  | received
  | executing
  | unknown
  | conflict
  | invalid
  | resultExpired
  deriving DecidableEq, Repr

def OutcomeStatus.text : OutcomeStatus → String
  | ok => "ok"
  | pendingApproval => "pending_approval"
  | denied => "denied"
  | notFound => "not_found"
  | failed => "failed"
  | expired => "expired"
  | unavailable => "unavailable"
  | received => "received"
  | executing => "executing"
  | unknown => "unknown"
  | conflict => "conflict"
  | invalid => "invalid"
  | resultExpired => "result_expired"

/-- `result` is `null` where there is none. -/
structure Outcome where
  status : OutcomeStatus
  requestId : Option Nat := none
  result : Json := .null
  reason : Option String := none
  error : Option String := none
  detail : Option String := none
  approver : Option PyStr := none
  note : Option PyStr := none
  decidedAt : Option PyStr := none
  idempotencyKey : Option PyStr := none
  payloadsPruned : Bool := false
  reused : Bool := false

/-- What one broker process brings to a request: the number of its catalog, whether it has an
approval surface, its approval timeout, and the limits it was configured with. -/
structure Context where
  broker : Nat
  surface : Bool
  approvalTtl : Time
  rateLimited : Bool := false
  restBodyMax : Int := 20 * 1024 * 1024

namespace Lifecycle

def audit (component eventType outcome : String) (correlationId : Text)
    (requestId : Option Nat := none) (details : List (String × Json) := []) : Action Unit :=
  perform (.appendAudit component eventType outcome correlationId requestId details)

def updateRequest (requestId : Nat) (fields : RequestFields) : Action Unit :=
  perform (.updateRequest requestId fields)

def names (tool op : String) : List (String × Json) := [("tool", strJson tool), ("op", strJson op)]

def outcomeOf : Status → OutcomeStatus
  | .completed => .ok
  | .denied => .denied
  | .expired => .expired
  | .failed => .failed
  | .pendingApproval => .pendingApproval
  | .running | .executing => .executing
  | .received => .received
  | .unknown => .unknown
  | .resultExpired => .resultExpired
  | .notFound => .notFound
  | .invalid => .invalid

/-- `_outcome_from_request`. -/
def outcomeFromRequest (req : Row) (approval : Option ApprovalRow) : Outcome where
  status := outcomeOf req.status
  requestId := some req.id
  result := req.resultJson.getD .null
  error := req.error
  reason := if req.error = some "approval_rejected" then some "approval_rejected" else none
  approver := approval.bind (·.approver)
  note := approval.bind fun a => Redaction.redact a.note
  decidedAt := approval.bind (·.decidedAt)
  idempotencyKey := req.idempotencyKey
  payloadsPruned := req.prunedAt.isSome

/-- `req["…"]` of a row that was looked up by id; rows are never deleted. -/
def theRow (req : Option Row) : Action Row :=
  match req with
  | some req => return req
  | none => raise .typeError

def currentOutcome (requestId : Nat) : Action Outcome := do
  let req ← perform (.request requestId)
  let approval ← perform (.approvalForRequest requestId)
  return outcomeFromRequest (← theRow req) approval

/-! ## Expiry -/

def cancelOnSurface (ctx : Context) (ref : PyStr) : Action Unit := do
  if ctx.surface then
    let _ ← perform (.surfaceCancel ref)
  return ()

def expireApproval (ctx : Context) (requestId : Nat) (ref : PyStr) (tool op : String)
    (correlationId : Text) (now : Time) : Action Bool := do
  let changed : Bool ← perform (.finishPending requestId .expired .expired none none (some now) true)
  if !changed then return false
  else do
    cancelOnSurface ctx ref
    audit "approval" "expired" "expired" correlationId requestId (names tool op)
    return true

def sweepRows (ctx : Context) (now : Time) : List Db.Worklist → Action Nat
  | [] => return 0
  | row :: rows => do
    let done ← expireApproval ctx row.requestId row.surfaceRef row.tool row.op row.correlationId now
    let count ← sweepRows ctx now rows
    return count + if done then 1 else 0

def nowOr (now : Option Time) : Action Time :=
  match now with
  | some t => return t
  | none => perform .time

def sweepExpired (ctx : Context) (now : Option Time := none) : Action Nat := do
  let now ← nowOr now
  let rows : List Db.Worklist ← perform (.expiredPendingApprovals now)
  sweepRows ctx now rows

/-! ## Execution -/

def executionFailed (requestId : Nat) (tool op : String) (correlationId : Text) (e : Exn) :
    Action Outcome := do
  let detail := e.className
  if e = .notDispatched then
    updateRequest requestId { status := some .failed, error := some (some "tool_unreachable"),
                              argumentsJson := some none }
    audit "runtime" "execution_failed" "failed" correlationId requestId
      (names tool op ++ [("error", strJson "unreachable"), ("detail", strJson detail)])
    return { status := .failed, requestId := requestId, error := some "tool_unreachable"
             detail := some detail }
  else
    -- dispatch may have happened; never promise safe replay
    updateRequest requestId { status := some .unknown
                              error := some (some "execution_outcome_unknown")
                              argumentsJson := some none }
    audit "runtime" "execution_unknown" "unknown" correlationId requestId
      (names tool op ++ [("error", strJson detail), ("detail", strJson detail)])
    return { status := .unknown, requestId := requestId, error := some "execution_outcome_unknown"
             detail := some detail }

/-- The audit details of a completed call; a REST call names the outbound request. -/
def completedDetails (toolOp : ToolOp) (tool op : String) (result : Json) :
    List (String × Json) :=
  names tool op ++
    if toolOp.type = .rest then
      [("outbound_host", (toolOp.rest.map fun r => strJson r.baseUrlHost).getD .null),
        ("outbound_verb", (toolOp.rest.map fun r => strJson r.verb).getD .null),
        ("outbound_path_template", (toolOp.rest.map fun r => strJson r.pathTemplate).getD .null),
        ("outbound_status", match result with
          | .obj kvs => (Json.find? kvs (py "status")).getD .null
          | _ => .null)]
    else []

def executeRequest (requestId : Nat) (tool op : String) (arguments : Json)
    (correlationId : Text) (callerName : Option String) (claimedOp : Option ToolOp) :
    Action Outcome := do
  let req ← perform (.request requestId)
  match req, claimedOp with
  | some req, some toolOp =>
    if req.status ≠ .executing then
      return { status := .failed, requestId := requestId, error := some "execution_not_claimed" }
    else do
      audit "runtime" "execution_started" "accepted" correlationId requestId (names tool op)
      match ← (Runtime.execute toolOp arguments requestId callerName).attempt with
      | .error e => executionFailed requestId tool op correlationId e
      | .ok result => do
        updateRequest requestId { status := some .completed, resultJson := some (some result)
                                  argumentsJson := some none }
        audit "runtime" "execution_completed" "ok" correlationId requestId
          (completedDetails toolOp tool op result)
        return { status := .ok, requestId := requestId, result := result }
  | _, _ => return { status := .failed, requestId := requestId, error := some "execution_not_claimed" }

end Lifecycle

end Toolstack.Broker
