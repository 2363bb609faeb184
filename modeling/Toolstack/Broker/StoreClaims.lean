import Toolstack.Broker.Store

/-! The transactions of `broker/store.py` that move a request on: the two claims, the end of a
pending approval, and the operator's recovery, pruning and restore. -/

namespace Toolstack.Broker

namespace Db

/-- `UPDATE approvals … WHERE request_id=? AND p`. -/
def setApprovals (requestId : Nat) (p : ApprovalRow → Bool) (f : ApprovalRow → ApprovalRow)
    (hf : ∀ a, (f a).id = a.id) (db : Db) : Db :=
  { db with approvals := db.approvals.update (fun a => a.requestId = requestId && p a) f hf }

/-- `UPDATE approvals … WHERE id=?`. -/
def setApproval (id : Nat) (f : ApprovalRow → ApprovalRow) (hf : ∀ a, (f a).id = a.id) (db : Db) :
    Db :=
  { db with approvals := db.approvals.update (fun a => a.id = id) f hf }

/-! ## Claims -/

/-- `generation and req["operation_generation"] == generation`. -/
def sameGeneration (generation : Option Text) (req : Row) : Bool :=
  generation.any fun g => g ≠ [] && req.operationGeneration = some g

/-- Whether `claim_received` may hand the request to its caller for execution. -/
def receivedValid (H : Hash) (fresh : PyStr) (req : Row) (generation : Option Text)
    (caller : Option Caller) (expectedDigest : Option Text) (db : Db) : Bool :=
  let policy := db.policyFor req.callerId
  req.status = .received && db.live req.callerId caller && sameGeneration generation req &&
    req.requestDigest = expectedDigest && bound H fresh req (generation.getD []) &&
    some policy.binding = req.policyBinding && policy.decide req.tool req.op = .allow

def claimReceived (H : Hash) (now : Time) (fresh : PyStr) (requestId : Nat)
    (generation : Option Text) (caller : Option Caller) (expectedDigest : Option Text) (db : Db) :
    Bool × Db :=
  match db.request requestId with
  | none => (false, db)
  | some req =>
    if receivedValid H fresh req generation caller expectedDigest db then
      (true, db.setRequest requestId
        (fun r => { r with status := .executing, updatedAt := now }) fun _ => rfl)
    else if req.status = .received then
      (false, db.setRequest requestId (Row.close now .denied (some "authority_changed")) fun _ => rfl)
    else (false, db)

/-- Whether `claim_approval` may hand the request to its caller for execution. -/
def approvalValid (H : Hash) (fresh : PyStr) (req : Row) (app : ApprovalRow)
    (generation : Option Text) (now : Time) (caller : Option Caller) (db : Db) : Bool :=
  let policy := db.policyFor req.callerId
  req.status = .pendingApproval && app.status = .pending && now < app.expiresAt &&
    db.live req.callerId caller && sameGeneration generation req &&
    req.requestDigest.any (· ≠ []) && req.requestDigest = app.requestDigest &&
    bound H fresh req (generation.getD []) &&
    req.policyBinding = some policy.binding && policy.decide req.tool req.op = .review

def decided (status : ApprovalStatus) (state : Option SurfaceState) (a : ApprovalRow) :
    ApprovalRow :=
  { a with status := status, approver := state.bind (·.approver), note := state.bind (·.note),
           decidedAt := state.bind (·.decidedAt) }

/-- The commit point of an approval. A refused claim ends the request, but never overwrites a
concurrent end of it. -/
def claimApproval (H : Hash) (fresh : PyStr) (requestId : Nat) (generation : Option Text)
    (state : SurfaceState) (now : Time) (caller : Option Caller) (db : Db) : Bool × Db :=
  match db.request requestId with
  | none => (false, db)
  | some req =>
    let app := db.approvalForRequest requestId
    match app.filter fun app => approvalValid H fresh req app generation now caller db with
    | some app =>
      (true, (db.setRequest requestId (fun r => { r with status := .executing, updatedAt := now })
        fun _ => rfl).setApproval app.id (decided .approved (some state)) fun _ => rfl)
    | none =>
      if req.status = .pendingApproval then
        let (status, error, approvalStatus) :=
          if app.any fun app => app.status = .pending && app.expiresAt ≤ now then
            (.expired, none, .expired)
          else (.denied, some "approval_invalidated", .cancelled)
        (false, (db.setRequest requestId (Row.close now status error) fun _ => rfl).setApprovals
          requestId (fun a => a.status = .pending) (ApprovalRow.setStatus approvalStatus) fun _ => rfl)
      else (false, db)

/-- The deadline, and then a caller who is revoked or has no token left, override the reason a
pending request is ended for. -/
def finishReason (req : Row) (app : ApprovalRow) (now : Time)
    (reason : Status × ApprovalStatus × Option String) (db : Db) :
    Status × ApprovalStatus × Option String :=
  if app.expiresAt ≤ now then (.expired, .expired, none)
  else if (db.callers.get? req.callerId).any (fun c => c.revokedAt.isSome) ||
      db.activeTokenCount req.callerId = 0 then (.expired, .cancelled, none)
  else reason

/-- End a pending request together with its approval, unless either has moved already. -/
def finishPending (requestId : Nat) (status : Status) (approvalStatus : ApprovalStatus)
    (error : Option String) (state : Option SurfaceState) (now : Time) (deadlineOnly : Bool)
    (db : Db) : Bool × Db :=
  match db.request requestId, db.approvalForRequest requestId with
  | some req, some app =>
    if req.status ≠ .pendingApproval || app.status ≠ .pending ||
        (deadlineOnly && now < app.expiresAt) then (false, db)
    else
      let reason := db.finishReason req app now (status, approvalStatus, error)
      (true, (db.setRequest requestId (Row.close now reason.1 reason.2.2) fun _ => rfl).setApproval
        app.id (decided reason.2.1 state) fun _ => rfl)
  | _, _ => (false, db)

/-! ## Approvals -/

def pendingRow (now : Time) (requestId : Nat) (surfaceRef : PyStr) (expiresAt : Time)
    (requestDigest : Option Text) (id : Nat) : ApprovalRow where
  id := id
  requestId := requestId
  surfaceRef := surfaceRef
  status := .pending
  expiresAt := expiresAt
  createdAt := now
  requestDigest := requestDigest

theorem pendingRow_key (now : Time) (requestId : Nat) (surfaceRef : PyStr) (expiresAt : Time)
    (requestDigest : Option Text) (id : Nat) :
    Keyed.key (pendingRow now requestId surfaceRef expiresAt requestDigest id) = id := rfl

def createApproval (now : Time) (requestId : Nat) (surfaceRef : PyStr) (expiresAt : Time)
    (requestDigest : Option Text) (db : Db) : Except Exn Nat × Db :=
  if (db.request requestId).isSome then
    (.ok db.approvals.nextId, { db with
      approvals := db.approvals.append (pendingRow now requestId surfaceRef expiresAt requestDigest)
        (pendingRow_key now requestId surfaceRef expiresAt requestDigest) })
  else (.error .integrityError, db)

/-- One line of the work lists: an approval with its request's tool, op and correlation. -/
structure Worklist where
  id : Nat
  surfaceRef : PyStr
  requestId : Nat
  tool : String
  op : String
  correlationId : Text

def joined (p : ApprovalRow → Row → Bool) (db : Db) : List Worklist :=
  db.approvals.rows.filterMap fun a => do
    let r ← db.requests.get? a.requestId
    if p a r then some ⟨a.id, a.surfaceRef, a.requestId, r.tool, r.op, r.correlationId⟩ else none

def pendingApprovalsForCaller (callerId : Nat) (db : Db) : List Worklist :=
  db.joined fun a r => r.callerId = callerId && a.status = .pending

def expiredPendingApprovals (now : Time) (db : Db) : List Worklist :=
  db.joined fun a _ => a.status = .pending && a.expiresAt ≤ now

/-! ## Operator maintenance -/

/-- A fixed end of every request whose status satisfies `p`, results included. -/
def sweepStatus (p : Status → Bool) (status : Status) (error : String) (now : Time) (db : Db) : Db :=
  { db with
    requests := db.requests.update (fun r => p r.status)
      (fun r => { Row.close now status (some error) r with resultJson := none }) fun _ => rfl }

def reconcileOffline (now : Time) (db : Db) : Db :=
  db.sweepStatus Status.unfinished .unknown "offline_reconciled" now

def retention : Time := 7 * 86400

/-- `updated_at < now - 7*86400 AND pruned_at IS NULL AND status IN (…)`. -/
def prunable (now : Time) (r : Row) : Bool :=
  r.updatedAt < now - retention && r.prunedAt.isNone && r.status.terminal

end Db

def Row.prune (now : Time) (r : Row) : Row :=
  { r with
    status := if r.status = .completed then .resultExpired else r.status
    argumentsJson := none, actionJson := none, resultJson := none, prunedAt := some now }

namespace Db

/-- Caller, key and digest stay, so that a pruned key still refuses a second effect. -/
def prunePayloads (now : Time) (db : Db) : Nat × Db :=
  ((db.requests.select (prunable now)).length, { db with
    approvals := db.approvals.update
      (fun a => (db.requests.get? a.requestId).any (prunable now))
      (fun a => { a with note := none }) fun _ => rfl
    requests := db.requests.update (prunable now) (Row.prune now) fun _ => rfl })

/-- What `restore_new` does to the snapshot before it is published. -/
def sanitize (now : Time) (uuid : Text) (db : Db) : Db :=
  let cancelled : Db := { db with
    approvals := db.approvals.update (fun a => a.status = .pending)
      (fun a => { a with status := .cancelled, note := none }) fun _ => rfl }
  let ended : Db := (cancelled.sweepStatus (fun s => s = .pendingApproval) .expired
    "restore_cancelled" now).sweepStatus Status.unfinished .unknown "restore_unknown" now
  { ended.revokeTokens now fun _ => true with
    policies := db.policies.update (fun _ => true)
      (fun p => { p with policy := .empty, updatedAt := now }) fun _ => rfl
    installationUuid := uuid
    audit := db.audit ++ [⟨now, "admin", "restored_offline", "ok", [], none,
      [("tokens_invalidated", .bool true), ("policies_cleared", .bool true), ("replayed", .int 0)]⟩] }

end Db

end Toolstack.Broker
