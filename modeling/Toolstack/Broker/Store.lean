import Toolstack.Broker.Schema
import Toolstack.Broker.Redaction

/-! `broker/store.py`: every method is one transaction on the database. `now` is the clock the
method reads and `fresh` the random value it draws. -/

namespace Toolstack.Broker

open Json (canonical normal)

namespace Db

/-! ## Callers and tokens -/

def addCaller (now : Time) (name : String) (db : Db) : Except Exn Nat × Db :=
  if db.callers.rows.any fun c => c.name = name then (.error .integrityError, db)
  else (.ok db.callers.nextId,
    { db with callers := db.callers.append (fun id => ⟨id, name, now, none⟩) fun _ => rfl })

def revokeCaller (now : Time) (name : String) (db : Db) : Db :=
  { db with
    callers := db.callers.update (fun c => c.name = name && c.revokedAt.isNone)
      (fun c => { c with revokedAt := some now }) fun _ => rfl }

def addToken (now : Time) (callerId : Nat) (tokenHash : Text) (db : Db) : Except Exn Unit × Db :=
  if h : (∀ t ∈ db.tokens.rows, Keyed.key t ≠ tokenHash) ∧ (db.callers.get? callerId).isSome then
    (.ok (), { db with tokens := db.tokens.insert ⟨tokenHash, callerId, now, none⟩ h.1 })
  else (.error .integrityError, db)

/-- Mark the active tokens that satisfy `p` revoked. -/
def revokeTokens (now : Time) (p : TokenRow → Bool) (db : Db) : Db :=
  { db with
    tokens := db.tokens.update (fun t => p t && t.revokedAt.isNone)
      (fun t => { t with revokedAt := some now }) fun _ => rfl }

def countActive (p : TokenRow → Bool) (db : Db) : Nat :=
  (db.tokens.select fun t => p t && t.revokedAt.isNone).length

def revokeTokensForCaller (now : Time) (callerId : Nat) (exceptHash : Option Text) (db : Db) :
    Nat × Db :=
  let p := fun t : TokenRow => t.callerId = callerId && exceptHash.all (t.tokenHash ≠ ·)
  (db.countActive p, db.revokeTokens now p)

/-- `[0-9a-f]{12,64}`. -/
def validTokenPrefix (pre : Text) : Bool :=
  12 ≤ pre.length && pre.length ≤ 64 &&
    pre.all fun c => c.isDigit || ('a' ≤ c && c ≤ 'f')

def revokeTokenByPrefix (now : Time) (pre : Text) (db : Db) : Except Exn Nat × Db :=
  if validTokenPrefix pre then
    let p := fun t : TokenRow => pre.isPrefixOf t.tokenHash
    (.ok (db.countActive p), db.revokeTokens now p)
  else (.error .valueError, db)

def callerIdsForTokenPrefix (pre : Text) (db : Db) : Except Exn (List Nat) :=
  if validTokenPrefix pre then
    .ok ((db.tokens.select fun t => pre.isPrefixOf t.tokenHash).map (·.callerId)).eraseDups
  else .error .valueError

def activeTokenCount (callerId : Nat) (db : Db) : Nat := db.countActive fun t => t.callerId = callerId

def callerByName (name : String) (db : Db) : Option CallerRow :=
  db.callers.rows.find? fun c => c.name = name

def callerName (callerId : Nat) (db : Db) : Option String := (db.callers.get? callerId).map (·.name)

def callerByTokenHash (tokenHash : Text) (db : Db) : Option Caller := do
  let t ← db.tokens.get? tokenHash
  let c ← db.callers.get? t.callerId
  if t.revokedAt.isNone && c.revokedAt.isNone then some ⟨c.id, c.name, some tokenHash⟩ else none

/-- The row exists, is not revoked, and either the presented token is one of its active tokens
or, where none was presented, it has an active token at all. -/
def live (callerId : Nat) (caller : Option Caller) (db : Db) : Bool :=
  (db.callers.get? callerId).any (fun c => c.revokedAt.isNone) &&
    match caller with
    | none => 0 < db.activeTokenCount callerId
    | some caller =>
      caller.id = callerId &&
        match caller.tokenHash with
        | none => 0 < db.activeTokenCount callerId
        | some h => (db.tokens.get? h).any fun t => t.callerId = callerId && t.revokedAt.isNone

/-! ## Policy -/

def policyFor (callerId : Nat) (db : Db) : Policy :=
  ((db.policies.get? callerId).map (·.policy)).getD .empty

def putPolicy (now : Time) (callerId : Nat) (policy : Policy) (t : Table PolicyRow) :
    Table PolicyRow :=
  if h : ∀ r ∈ t.rows, Keyed.key r ≠ callerId then t.insert ⟨callerId, policy, now⟩ h
  else t.update (fun r => r.callerId = callerId)
    (fun r => { r with policy := policy, updatedAt := now }) fun _ => rfl

end Db

/-- `SET status=…, error=…, arguments_json=NULL, action_json=NULL, updated_at=…`. -/
def Row.close (now : Time) (status : Status) (error : Option String) (r : Row) : Row :=
  { r with status := status, error := error, argumentsJson := none, actionJson := none,
           updatedAt := now }

/-- `caller_id=? AND status='pending_approval'`. -/
def Row.waiting (callerId : Nat) (r : Row) : Bool :=
  r.callerId = callerId && r.status = .pendingApproval

namespace Db

/-- Policy changes invalidate pending approvals: cancel them and deny their requests. -/
def cancelPending (now : Time) (callerId : Nat) (db : Db) : Db :=
  { db with
    approvals := db.approvals.update
      (fun a => a.status = .pending && (db.requests.get? a.requestId).any (Row.waiting callerId))
      (ApprovalRow.setStatus .cancelled) fun _ => rfl
    requests := db.requests.update (Row.waiting callerId)
      (Row.close now .denied (some "approval_invalidated")) fun _ => rfl }

def writePolicy (now : Time) (callerId : Nat) (policy : Policy) (db : Db) : Db :=
  { db with policies := putPolicy now callerId policy db.policies }.cancelPending now callerId

def setPolicy (now : Time) (callerId : Nat) (policy : Policy) (db : Db) : Except Exn Unit × Db :=
  if (db.callers.get? callerId).isSome then (.ok (), db.writePolicy now callerId policy)
  else (.error .integrityError, db)

def appendAudit (e : AuditEvent) (db : Db) : Db := { db with audit := db.audit ++ [e] }

/-- The stored policy is compared as a dict, which its sorted text determines. -/
def compareAndSetPolicy (now : Time) (fresh : Text) (callerId : Nat) (before after : Policy)
    (operator : String) (db : Db) : Bool × Db :=
  match db.callers.get? callerId with
  | none => (false, db)
  | some c =>
    if c.revokedAt.isSome || (db.policyFor callerId).binding ≠ before.binding then (false, db)
    else (true, (db.writePolicy now callerId after).appendAudit
      ⟨now, "admin", "settings_changed", "ok", fresh, none,
        [("operator", strJson operator), ("name", strJson c.name)]⟩)

/-! ## Requests -/

def request (requestId : Nat) (db : Db) : Option Row := db.requests.get? requestId

def approvalForRequest (requestId : Nat) (db : Db) : Option ApprovalRow :=
  db.approvals.rows.find? fun a => a.requestId = requestId

/-- Change one request row. -/
def setRequest (requestId : Nat) (f : Row → Row) (hf : ∀ r, (f r).id = r.id) (db : Db) : Db :=
  { db with requests := db.requests.update (fun r => r.id = requestId) f hf }

end Db

/-- The columns `update_request` lets its callers set. -/
structure RequestFields where
  status : Option Status := none
  argumentsJson : Option (Option Json) := none
  resultJson : Option (Option Json) := none
  error : Option (Option String) := none
  operationGeneration : Option (Option Text) := none
  policyBinding : Option (Option Text) := none
  actionJson : Option (Option Json) := none
  requestDigest : Option (Option Text) := none

namespace RequestFields

/-- A terminal status clears the private columns. -/
def cleared (f : RequestFields) : RequestFields :=
  if f.status.any Status.terminal then { f with actionJson := some none, argumentsJson := some none }
  else f

def isEmpty (f : RequestFields) : Bool :=
  f.status.isNone && f.argumentsJson.isNone && f.resultJson.isNone && f.error.isNone &&
    f.operationGeneration.isNone && f.policyBinding.isNone && f.actionJson.isNone &&
    f.requestDigest.isNone

def apply (f : RequestFields) (now : Time) (r : Row) : Row :=
  { r with
    status := f.status.getD r.status
    argumentsJson := f.argumentsJson.getD r.argumentsJson
    resultJson := f.resultJson.getD r.resultJson
    error := f.error.getD r.error
    operationGeneration := f.operationGeneration.getD r.operationGeneration
    policyBinding := f.policyBinding.getD r.policyBinding
    actionJson := f.actionJson.getD r.actionJson
    requestDigest := f.requestDigest.getD r.requestDigest
    updatedAt := now }

end RequestFields

namespace Db

def updateRequest (now : Time) (requestId : Nat) (fields : RequestFields) (db : Db) : Db :=
  if fields.cleared.isEmpty then db
  else db.setRequest requestId (fields.cleared.apply now) fun _ => rfl

/-- The stored action still is the one the digest was taken of, for this generation and for
the stored arguments. -/
def bound (H : Hash) (fresh : PyStr) (req : Row) (generation : Text) : Bool :=
  match req.actionJson with
  | some (.obj action) =>
    let get := fun k => (Json.find? action (py k)).getD .null
    match ApprovalSummary.boundRequest H req.callerId req.tool req.op generation (get "arguments")
        (get "reason") (get "nonce") fresh with
    | none => false
    | some (expected, digest) =>
      canonical (.obj action) = some expected && some digest = req.requestDigest &&
        ((canonical (get "arguments")).isSome &&
          canonical (get "arguments") = canonical (req.argumentsJson.getD .null))
  | _ => false

/-- Receipt and current authority in one snapshot. -/
def authorizedRequest (caller : Caller) (requestId : Nat) (db : Db) : Option Row := do
  let req ← db.request requestId
  if req.callerId = caller.id && db.live caller.id (some caller) &&
      (db.policyFor caller.id).decide req.tool req.op ≠ .deny then some req else none

def keyChar (c : CodePoint) : Bool :=
  let n := c.val
  (0x41 ≤ n && n ≤ 0x5A) || (0x61 ≤ n && n ≤ 0x7A) || (0x30 ≤ n && n ≤ 0x39) || n == 0x5F ||
    n == 0x2D

/-- `null`, or a string that matches `[A-Za-z0-9_-]{1,128}`. -/
def validateIdempotencyKey : Json → Except Exn (Option PyStr)
  | .null => .ok none
  | .str k => if 1 ≤ k.length ∧ k.length ≤ 128 ∧ k.all keyChar then .ok (some k) else .error .valueError
  | _ => .error .valueError

/-- What a payload digest is taken of. -/
def payload (tool op : String) (arguments reason : Json) : Json :=
  .obj [(py "tool", strJson tool), (py "op", strJson op), (py "arguments", arguments),
    (py "reason", reason)]

def priorRequest (callerId : Nat) (key : Option PyStr) (db : Db) : Option Row :=
  key.bind fun k => db.requests.rows.find? fun r => r.callerId = callerId && r.idempotencyKey = some k

/-- The row a first submit inserts. -/
def reservedRow (now : Time) (fresh : PyStr) (caller : Caller) (correlationId : Text)
    (tool op : String) (arguments reason : Json) (generation : Text) (key : Option PyStr)
    (policy : Policy) (binding digest : Text) (id : Nat) : Row where
  id := id
  correlationId := correlationId
  callerId := caller.id
  tool := tool
  op := op
  status := .received
  argumentsJson := some (normal arguments)
  createdAt := now
  updatedAt := now
  operationGeneration := some generation
  policyBinding := some policy.binding
  actionJson := some (normal (ApprovalSummary.action caller.id tool op generation arguments reason
    .null fresh))
  requestDigest := some binding
  idempotencyKey := key
  payloadDigest := some digest

theorem reservedRow_key (now : Time) (fresh : PyStr) (caller : Caller) (correlationId : Text)
    (tool op : String) (arguments reason : Json) (generation : Text) (key : Option PyStr)
    (policy : Policy) (binding digest : Text) (id : Nat) :
    Keyed.key (reservedRow now fresh caller correlationId tool op arguments reason generation key
      policy binding digest id) = id := rfl

/-- The answer is `(request, created, conflict)`. -/
def reserveAction (H : Hash) (now : Time) (fresh : PyStr) (caller : Caller) (correlationId : Text)
    (tool op : String) (arguments reason : Json) (generation : Text) (key : Json) (db : Db) :
    Except Exn (Row × Bool × Bool) × Db :=
  match validateIdempotencyKey key with
  | .error e => (.error e, db)
  | .ok key =>
    match canonical (payload tool op arguments reason),
        ApprovalSummary.boundRequest H caller.id tool op generation arguments reason .null fresh with
    | some text, some (_, binding) =>
      let digest := H.digest text
      if !db.live caller.id (some caller) then (.error .permissionError, db)
      else
        let policy := db.policyFor caller.id
        match db.priorRequest caller.id key with
        | some prior =>
          if policy.decide prior.tool prior.op = .deny then (.error .permissionError, db)
          else (.ok (prior, false, prior.payloadDigest ≠ some digest), db)
        | none =>
          let row := reservedRow now fresh caller correlationId tool op arguments reason generation key
            policy binding digest
          (.ok (row db.requests.nextId, true, false),
            { db with requests := db.requests.append row (reservedRow_key now fresh caller
                correlationId tool op arguments reason generation key policy binding digest) })
    | _, _ => (.error .valueError, db)

end Db

end Toolstack.Broker
