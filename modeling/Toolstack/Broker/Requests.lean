import Toolstack.Broker.Lifecycle

/-! The two entry points of `broker/request_lifecycle.py`: `submit` and `resolve_request`. -/

namespace Toolstack.Broker.Lifecycle

open Interleave.Prog (raise)

/-! ## The envelope of a REST call, `gateway._validate_rest_arguments` -/

def base64Char (c : CodePoint) : Bool :=
  let n := c.val
  (0x41 ≤ n && n ≤ 0x5A) || (0x61 ≤ n && n ≤ 0x7A) || (0x30 ≤ n && n ≤ 0x39) || n == 0x2B ||
    n == 0x2F

/-- The size of `base64.b64decode(s, validate=True)`: four characters give three bytes, and up
to two `=` of the last four stand for one missing byte each. -/
def base64Size (s : PyStr) : Option Nat :=
  let digits := s.takeWhile base64Char
  let padding := s.drop digits.length
  if padding.all (fun c => c.val = 0x3D) ∧ padding.length ≤ 2 ∧
      (digits.length + padding.length) % 4 = 0 then
    some (digits.length * 6 / 8)
  else none

/-- `len(s.encode("utf-8"))`, or `none` where a surrogate cannot be encoded. -/
def utf8Length : PyStr → Option Nat
  | [] => some 0
  | c :: s =>
    if c.isSurrogate then none
    else (utf8Length s).map fun n =>
      n + if c.val < 0x80 then 1 else if c.val < 0x800 then 2 else if c.val < 0x10000 then 3 else 4

/-- The check of `variables` and of `headers`. -/
def stringMap (key : String) (arguments : List (PyStr × Json)) : Option String :=
  match Json.find? arguments (py key) with
  | none | some .null => none
  | some (.obj kvs) =>
    if kvs.all fun kv => match kv.2 with | .str _ => true | _ => false then none
    else some s!"{key} must contain only string keys and values"
  | some _ => some s!"{key} must be an object"

def bodyProblem (bodyMax : Int) (kind : BodyKind) (arguments : List (PyStr × Json)) :
    Except Exn (Option String) :=
  let body := Json.find? arguments (py "body")
  let bounded := fun size : Nat =>
    if bodyMax < size then some "body exceeds TOOLSTACK_REST_BODY_MAX" else none
  match kind, body with
  | .none, some _ => .ok (some "body must be absent for this operation")
  | .none, none => .ok none
  | .binary, some (.str s) =>
    match base64Size s with
    | none => .ok (some "binary body must be base64")
    | some size => .ok (bounded size)
  | .text, some (.str s) =>
    match utf8Length s with
    | none => .error .unicodeEncodeError
    | some size => .ok (bounded size)
  | _, _ => .ok (some "body must be a string")

def validateRestArguments (bodyMax : Int) (toolOp : ToolOp) (arguments : List (PyStr × Json)) :
    Except Exn (Option String) :=
  match stringMap "variables" arguments, stringMap "headers" arguments with
  | some problem, _ => .ok (some problem)
  | none, some problem => .ok (some problem)
  | none, none => bodyProblem bodyMax toolOp.bodyKind arguments

/-! ## Opening an approval -/

/-- `_rest_endpoint`. -/
def restEndpoint (toolOp : ToolOp) : Option String :=
  if toolOp.type ≠ .rest then none
  else
    let bits := (toolOp.rest.map fun r => [r.verb, r.baseUrlHost, r.pathTemplate]).getD []
    let text := " ".intercalate (bits.filter (· ≠ ""))
    if text = "" then none else some text

def buildCard (requestId : Nat) (caller tool op : String) (toolOp : ToolOp) (details : Text)
    (installationId : Text) (requestDigest : Option Text) : Card where
  requestId := requestId
  title := s!"Approve {tool}.{op} for caller {caller}"
  caller := caller
  tool := tool
  op := op
  risk := toolOp.risk
  reason := "policy review"
  justification := none
  details := details
  endpoint := restEndpoint toolOp
  installationId := installationId
  requestDigest := requestDigest
  operationGeneration := toolOp.generation

def openApproval (ctx : Context) (requestId : Nat) (callerName tool op : String) (toolOp : ToolOp)
    (arguments : Json) (correlationId : Text) : Action Outcome := do
  if !ctx.surface then do
    updateRequest requestId { status := some .failed, error := some (some "approval_unavailable") }
    audit "approval" "unavailable" "unavailable" correlationId requestId (names tool op)
    return { status := .unavailable, requestId := requestId, error := some "approval_unavailable" }
  else do
    let req ← theRow (← perform (.request requestId))
    let digest := req.requestDigest
    match ApprovalSummary.summarize arguments toolOp.approvalFields with
    | none => raise .valueError
    | some details => do
      let installation ← perform .installationId
      let card := buildCard requestId callerName tool op toolOp details installation digest
      match ← perform (.surfaceOpen card) with
      | .error e => do
        updateRequest requestId { status := some .failed, error := some (some "approval_unavailable")
                                  argumentsJson := some none }
        audit "approval" "open_failed" "unavailable" correlationId requestId
          (names tool op ++ [("error", strJson e.className)])
        return { status := .unavailable, requestId := requestId, error := some "approval_unavailable" }
      | .ok ref => do
        let now : Time ← perform .time
        match ← perform (.createApproval requestId ref (now + ctx.approvalTtl) digest) with
        | .error e => raise e
        | .ok _ => do
          updateRequest requestId { status := some .pendingApproval }
          audit "approval" "opened" "pending_approval" correlationId requestId
            (names tool op ++ [("risk", toolOp.risk)])
          return { status := .pendingApproval, requestId := requestId }

/-! ## Submission -/

/-- `reason if reason and reason.strip() else None`. -/
def normalReason (reason : Json) : Json :=
  match reason with
  | .str s => if s.all Redaction.isSpace then .null else .str s
  | v => v

/-- The request was just reserved by this call, under catalog entry `toolOp`. -/
def advanceReserved (ctx : Context) (caller : Caller) (tool op : String) (toolOp : ToolOp)
    (arguments : List (PyStr × Json)) (correlationId : Text) (reason : Json) (hasKey : Bool)
    (req : Row) : Action Outcome := do
  let requestId := req.id
  audit "request" "received" "accepted" correlationId requestId
    (names tool op ++ [("risk", toolOp.risk), ("has_idempotency_key", .bool hasKey)] ++
      if reason.truthy then [("reason_provided", .bool true)] else [])
  let policy : Policy ← perform (.policyFor caller.id)
  match policy.decide tool op with
  | .deny => do
    updateRequest requestId { status := some .denied, argumentsJson := some none }
    audit "policy" "decision_deny" "denied" correlationId requestId (names tool op)
    return { status := .denied, requestId := requestId, reason := some "policy" }
  | decision => do
    match if toolOp.type = .rest then validateRestArguments ctx.restBodyMax toolOp arguments
      else .ok none with
    | .error e => raise e
    | .ok (some problem) => do
      updateRequest requestId { status := some .invalid, error := some (some "invalid_envelope")
                                argumentsJson := some none }
      return { status := .invalid, requestId := requestId, error := some "invalid_envelope"
               detail := some problem }
    | .ok none =>
      if decision = .review then do
        audit "policy" "decision_review_required" "pending_approval" correlationId requestId
          (names tool op ++ [("risk", toolOp.risk)])
        openApproval ctx requestId caller.name tool op toolOp (.obj arguments) correlationId
      else do
        audit "policy" "decision_allow" "ok" correlationId requestId (names tool op)
        let currentOp : Option ToolOp ← perform (.lookup ctx.broker tool op)
        let claimed : Bool ← perform (.claimReceived requestId (currentOp.map (·.generation))
          (some caller) req.requestDigest)
        if claimed then
          executeRequest requestId tool op (.obj arguments) correlationId (some caller.name) currentOp
        else do
          let req ← theRow (← perform (.request requestId))
          return outcomeFromRequest req none

/-- What `_submit` does with the answer of `reserve_action`. A retry never advances a request: its
creator, or an explicit poll, does. -/
def afterReservation (ctx : Context) (caller : Caller) (tool op : String) (toolOp : Option ToolOp)
    (arguments : List (PyStr × Json)) (correlationId : Text) (reason key : Json) :
    Except Exn (Row × Bool × Bool) → Action Outcome
  | .error .permissionError => return { status := .denied, reason := some "authority" }
  | .error .valueError | .error .typeError =>
    return { status := .invalid, error := some "invalid_action_or_key" }
  | .error e => raise e
  | .ok (req, created, conflict) =>
    if conflict then
      return { status := .conflict, requestId := req.id, error := some "idempotency_conflict" }
    else if !created then do
      let approval ← perform (.approvalForRequest req.id)
      return { outcomeFromRequest req approval with reused := true }
    else
      match toolOp with
      | none => do
        updateRequest req.id { status := some .notFound, argumentsJson := some none }
        return { status := .notFound, requestId := req.id }
      | some toolOp =>
        advanceReserved ctx caller tool op toolOp arguments correlationId reason (!(key matches .null))
          req

def submitValid (ctx : Context) (caller : Caller) (tool op : String) (arguments : Json)
    (correlationId : Text) (reason key : Json) : Action Outcome := do
  let _ ← sweepExpired ctx
  let toolOp : Option ToolOp ← perform (.lookup ctx.broker tool op)
  if toolOp.isNone && key matches .null then do
    audit "registry" "tool_lookup_failed" "not_found" correlationId none (names tool op)
    return { status := .notFound }
  else
    match arguments, reason with
    | .obj kvs, .null | .obj kvs, .str _ => do
      let reason := normalReason reason
      let answer ← perform (.reserveAction caller correlationId tool op arguments reason
        ((toolOp.map (·.generation)).getD []) key)
      afterReservation ctx caller tool op toolOp kvs correlationId reason key answer
    | _, _ => return { status := .invalid, error := some "invalid_action" }

def keyText : Json → Option PyStr
  | .str k => some k
  | _ => none

def submit (ctx : Context) (caller : Caller) (tool op : String) (arguments : Json)
    (correlationId : Text) (reason key : Json) : Action Outcome :=
  match Db.validateIdempotencyKey key with
  | .error _ => return { status := .invalid, error := some "invalid_idempotency_key" }
  | .ok _ => do
    let out ← submitValid ctx caller tool op arguments correlationId reason key
    return { out with idempotencyKey := keyText key }

/-! ## Polling -/

/-- `max(now, time.time())`. -/
def laterThan (now : Time) : Action Time := do
  let t : Time ← perform .time
  return max now t

/-- The surface reported an approval: claim the request and run it. -/
def resolveApproved (ctx : Context) (req : Row) (state : SurfaceState) (now : Time)
    (caller : Option Caller) : Action Outcome := do
  let toolOp : Option ToolOp ← perform (.lookup ctx.broker req.tool req.op)
  let claimTime ← laterThan now
  let claimed : Bool ← perform (.claimApproval req.id (toolOp.map (·.generation)) state claimTime caller)
  if !claimed then currentOutcome req.id
  else do
    audit "approval" "approved" "ok" req.correlationId req.id
      (names req.tool req.op ++ [("approver", (state.approver.map Json.str).getD .null)])
    let callerName ← perform (.callerName req.callerId)
    let out ← executeRequest req.id req.tool req.op (req.argumentsJson.getD (.obj []))
      req.correlationId callerName toolOp
    return { out with approver := state.approver, note := state.note, decidedAt := state.decidedAt }

def approvalEvent : ApprovalStatus → String
  | .pending => "pending"
  | .approved => "approved"
  | .rejected => "rejected"
  | .expired => "expired"
  | .cancelled => "cancelled"

def resolveRejected (req : Row) (state : SurfaceState) (now : Time) : Action Outcome := do
  let finishTime ← laterThan now
  let changed : Bool ← perform (.finishPending req.id .denied .rejected (some "approval_rejected")
    (some state) (some finishTime) false)
  if !changed then currentOutcome req.id
  else do
    let current : Option ApprovalRow ← perform (.approvalForRequest req.id)
    let out ← do
      let req ← theRow (← perform (.request req.id))
      pure (outcomeFromRequest req current)
    audit "approval" ((current.map fun a => approvalEvent a.status).getD "") out.status.text
      req.correlationId req.id
      (names req.tool req.op ++ [("approver", (state.approver.map Json.str).getD .null)])
    return out

def resolveEnded (req : Row) (outcome : ApprovalStatus) (now : Time) : Action Outcome := do
  let finishTime ← laterThan now
  let changed : Bool ← perform (.finishPending req.id .expired outcome none none (some finishTime) false)
  if !changed then currentOutcome req.id
  else do
    audit "approval" "expired" "expired" req.correlationId req.id (names req.tool req.op)
    currentOutcome req.id

/-- The surface answered with `state`, and request and approval are both still pending. -/
def resolveState (ctx : Context) (req : Row) (state : SurfaceState) (now : Time)
    (caller : Option Caller) : Action Outcome := do
  if state.outcome = .approved || state.outcome = .rejected then
    audit "approval" "surface_decision_received" "ok" req.correlationId req.id
      (names req.tool req.op ++ [("outcome", strJson (approvalEvent state.outcome))])
  match state.outcome with
  | .approved => resolveApproved ctx req state now caller
  | .rejected => resolveRejected req state now
  | .expired => resolveEnded req .expired now
  | .cancelled => resolveEnded req .cancelled now
  | .pending => currentOutcome req.id

def theApproval (a : Option ApprovalRow) : Action ApprovalRow :=
  match a with
  | some a => return a
  | none => raise .typeError

/-- Past the broker's own deadline: fail closed, whatever the surface says. -/
def resolveExpired (ctx : Context) (req : Row) (approval : ApprovalRow) (now : Time) :
    Action Outcome := do
  let _ ← expireApproval ctx req.id approval.surfaceRef req.tool req.op req.correlationId now
  currentOutcome req.id

def pollSurface (ctx : Context) (ref : PyStr) : Action SurfaceState := do
  if !ctx.surface then raise .attributeError
  else
    match ← perform (.surfacePoll ref) with
    | .error e => raise e
    | .ok state => return { state with note := Redaction.redact state.note }

/-- Advance a request that was pending when `req` was read. -/
def resolvePending (ctx : Context) (req : Row) (approval : ApprovalRow) (now : Time)
    (caller : Option Caller) : Action Outcome := do
  if approval.expiresAt ≤ now then resolveExpired ctx req approval now
  else do
    let state ← pollSurface ctx approval.surfaceRef
    let afterPoll ← laterThan now
    let currentReq ← perform (.request req.id)
    let currentApproval ← perform (.approvalForRequest req.id)
    let currentReq ← theRow currentReq
    if currentReq.status ≠ .pendingApproval then
      return outcomeFromRequest currentReq currentApproval
    else do
      let currentApproval ← theApproval currentApproval
      if currentApproval.status ≠ .pending then
        return outcomeFromRequest currentReq (some currentApproval)
      else if currentApproval.expiresAt ≤ afterPoll then
        resolveExpired ctx req currentApproval afterPoll
      else resolveState ctx req state now caller

def resolveRequest (ctx : Context) (requestId : Nat) (now : Option Time) (caller : Option Caller) :
    Action Outcome := do
  let now ← nowOr now
  match ← perform (.request requestId) with
  | none => return { status := .notFound }
  | some req => do
    let approval : Option ApprovalRow ← perform (.approvalForRequest requestId)
    if req.status ≠ .pendingApproval then return outcomeFromRequest req approval
    else
      match approval with
      | none => return { status := .pendingApproval, requestId := requestId }
      | some approval => resolvePending ctx req approval now caller

end Toolstack.Broker.Lifecycle
