import Toolstack.Interleave.Program
import Toolstack.Broker.StoreClaims

/-! Everything a broker process calls that is not local to it: the transactions of the store,
the loaded catalog, the approval surface, the network and the clock. Each is one atomic call,
and the log keeps who made which call and what it answered. -/

namespace Toolstack.Broker

/-- `approval.OperationCard`. -/
structure Card where
  requestId : Nat
  title : String
  caller : String
  tool : String
  op : String
  risk : Json
  reason : String
  justification : Option PyStr
  details : Text
  endpoint : Option String
  installationId : Text
  requestDigest : Option Text
  operationGeneration : Text

/-! ## What is sent to a tool -/

inductive ToolMessage
  /-- `POST /v1/actions/<op>` of an api tool. -/
  | action (op : String) (arguments : Json) (requestId : Nat) (caller : Option String)
  /-- `POST /sendrequest` of the REST forwarder. -/
  | sendRequest (op : String) (arguments : Json) (requestId : Nat) (caller : Option String)
  | mcpInitialize
  | mcpInitialized
  | toolsCall (op : String) (arguments : Json) (requestId : Nat) (caller : Option String)

/-- The request whose action a message asks the tool to perform, if it does. -/
def ToolMessage.actionFor : ToolMessage → Option Nat
  | action _ _ r _ | sendRequest _ _ r _ | toolsCall _ _ r _ => some r
  | mcpInitialize | mcpInitialized => none

structure HttpRequest where
  port : Nat
  message : ToolMessage
  secret : Option PyStr := none
  session : Option PyStr := none
  protocol : Json := .null

/-- An exception the network client or the parser raises; `NotDispatched` is the runtime's own. -/
abbrev Fault := { e : Exn // e ≠ .notDispatched }

/-- A response as the client can read it. `body` is the whole body, where reading or parsing it
can raise; `events` are the decoded events of an event stream, which ends in `ending`. -/
structure HttpAnswer where
  status : Nat
  eventStream : Bool := false
  session : Option PyStr := none
  body : Except Fault (Except Fault Json)
  events : List (Option Json) := []
  ending : Fault := ⟨.runtimeError, by decide⟩

/-- What came of one request. Where it raised, `delivered` says whether the tool got it. -/
inductive Exchange
  | refused
  | unreachable (delivered : Bool)
  | raised (delivered : Bool) (exc : Fault)
  | answered (answer : HttpAnswer)

/-- A refused connection delivers nothing; an answer shows that the request arrived. -/
def Exchange.delivered : Exchange → Bool
  | refused => false
  | unreachable d | raised d _ => d
  | answered _ => true

/-! ## Calls -/

/-- What the outside decides about one call. -/
structure Oracle where
  now : Time := 0
  hex : PyStr := []
  text : Text := []
  opened : Except Exn PyStr := .error .runtimeError
  polled : Except Exn SurfaceState := .error .runtimeError
  cancelled : Except Exn Unit := .ok ()
  allowed : Bool := true
  secret : Except Exn (Option PyStr) := .ok none
  exchange : Exchange := .refused
  late : Bool := false

inductive Op
  | time
  | token
  | lookup (broker : Nat) (tool op : String)
  | surfaceOpen (card : Card)
  | surfacePoll (ref : PyStr)
  | surfaceCancel (ref : PyStr)
  | rateAllow (callerId : Nat)
  | toolSecret (tool : String)
  | execute (toolOp : ToolOp) (arguments : Json) (requestId : Nat) (callerName : Option String)
  | http (request : HttpRequest)
  | boundsExpired
  | installationId
  | policyFor (callerId : Nat)
  | request (requestId : Nat)
  | approvalForRequest (requestId : Nat)
  | callerName (callerId : Nat)
  | callerByName (name : String)
  | callerByTokenHash (tokenHash : Text)
  | callerIdsForTokenPrefix (pre : Text)
  | activeTokenCount (callerId : Nat)
  | pendingApprovalsForCaller (callerId : Nat)
  | expiredPendingApprovals (now : Time)
  | authorizedRequest (caller : Caller) (requestId : Nat)
  | addCaller (name : String)
  | addToken (callerId : Nat) (tokenHash : Text)
  | revokeCaller (name : String)
  | revokeTokensForCaller (callerId : Nat) (exceptHash : Option Text)
  | revokeTokenByPrefix (pre : Text)
  | setPolicy (callerId : Nat) (policy : Policy)
  | compareAndSetPolicy (callerId : Nat) (before after : Policy) (operator : String)
  | reserveAction (caller : Caller) (correlationId : Text) (tool op : String)
      (arguments reason : Json) (generation : Text) (key : Json)
  | updateRequest (requestId : Nat) (fields : RequestFields)
  | claimReceived (requestId : Nat) (generation : Option Text) (caller : Option Caller)
      (expectedDigest : Option Text)
  | claimApproval (requestId : Nat) (generation : Option Text) (state : SurfaceState) (now : Time)
      (caller : Option Caller)
  | finishPending (requestId : Nat) (status : Status) (approvalStatus : ApprovalStatus)
      (error : Option String) (state : Option SurfaceState) (now : Option Time) (deadlineOnly : Bool)
  | createApproval (requestId : Nat) (surfaceRef : PyStr) (expiresAt : Time)
      (requestDigest : Option Text)
  | prunePayloads (now : Option Time)
  | appendAudit (component eventType outcome : String) (correlationId : Text)
      (requestId : Option Nat) (details : List (String × Json))

@[reducible] def Op.Ret : Op → Type
  | time => Time
  | token => Text
  | lookup .. => Option ToolOp
  | surfaceOpen _ => Except Exn PyStr
  | surfacePoll _ => Except Exn SurfaceState
  | surfaceCancel _ => Except Exn Unit
  | rateAllow _ => Bool
  | toolSecret _ => Except Exn (Option PyStr)
  | execute .. => Unit
  | http _ => Exchange
  | boundsExpired => Bool
  | installationId => Text
  | policyFor _ => Policy
  | request _ => Option Row
  | approvalForRequest _ => Option ApprovalRow
  | callerName _ => Option String
  | callerByName _ => Option CallerRow
  | callerByTokenHash _ => Option Caller
  | callerIdsForTokenPrefix _ => Except Exn (List Nat)
  | activeTokenCount _ => Nat
  | pendingApprovalsForCaller _ => List Db.Worklist
  | expiredPendingApprovals _ => List Db.Worklist
  | authorizedRequest .. => Option Row
  | addCaller _ => Except Exn Nat
  | addToken .. => Except Exn Unit
  | revokeCaller _ => Unit
  | revokeTokensForCaller .. => Nat
  | revokeTokenByPrefix _ => Except Exn Nat
  | setPolicy .. => Except Exn Unit
  | compareAndSetPolicy .. => Bool
  | reserveAction .. => Except Exn (Row × Bool × Bool)
  | updateRequest .. => Unit
  | claimReceived .. => Bool
  | claimApproval .. => Bool
  | finishPending .. => Bool
  | createApproval .. => Except Exn Nat
  | prunePayloads _ => Nat
  | appendAudit .. => Unit

structure Call where
  thread : Nat
  op : Op
  answer : op.Ret

/-- `registry b` is the catalog broker `b` has loaded. The log is newest first; a backup keeps
the log of the database it is a snapshot of. -/
structure World where
  db : Db
  registry : Nat → Registry := fun _ => []
  disk : Disk := []
  log : List Call := []
  backups : List (Db × List Call) := []

/-- The answer to a call and the database after it. -/
def Op.run (H : Hash) (ω : Oracle) (w : World) : (o : Op) → o.Ret × Db
  | time => (ω.now, w.db)
  | token => (ω.text, w.db)
  | lookup broker tool op => ((w.registry broker).lookup H w.disk tool op, w.db)
  | surfaceOpen _ => (ω.opened, w.db)
  | surfacePoll _ => (ω.polled, w.db)
  | surfaceCancel _ => (ω.cancelled, w.db)
  | rateAllow _ => (ω.allowed, w.db)
  | toolSecret _ => (ω.secret, w.db)
  | execute .. => ((), w.db)
  | http _ => (ω.exchange, w.db)
  | boundsExpired => (ω.late, w.db)
  | installationId => (w.db.installationUuid, w.db)
  | policyFor c => (w.db.policyFor c, w.db)
  | request r => (w.db.request r, w.db)
  | approvalForRequest r => (w.db.approvalForRequest r, w.db)
  | callerName c => (w.db.callerName c, w.db)
  | callerByName name => (w.db.callerByName name, w.db)
  | callerByTokenHash h => (w.db.callerByTokenHash h, w.db)
  | callerIdsForTokenPrefix pre => (w.db.callerIdsForTokenPrefix pre, w.db)
  | activeTokenCount c => (w.db.activeTokenCount c, w.db)
  | pendingApprovalsForCaller c => (w.db.pendingApprovalsForCaller c, w.db)
  | expiredPendingApprovals now => (w.db.expiredPendingApprovals now, w.db)
  | authorizedRequest caller r => (w.db.authorizedRequest caller r, w.db)
  | addCaller name => w.db.addCaller ω.now name
  | addToken c h => w.db.addToken ω.now c h
  | revokeCaller name => ((), w.db.revokeCaller ω.now name)
  | revokeTokensForCaller c h => w.db.revokeTokensForCaller ω.now c h
  | revokeTokenByPrefix pre => w.db.revokeTokenByPrefix ω.now pre
  | setPolicy c policy => w.db.setPolicy ω.now c policy
  | compareAndSetPolicy c before after operator =>
    w.db.compareAndSetPolicy ω.now ω.text c before after operator
  | reserveAction caller corr tool op arguments reason generation key =>
    w.db.reserveAction H ω.now ω.hex caller corr tool op arguments reason generation key
  | updateRequest r fields => ((), w.db.updateRequest ω.now r fields)
  | claimReceived r generation caller digest =>
    w.db.claimReceived H ω.now ω.hex r generation caller digest
  | claimApproval r generation state now caller =>
    w.db.claimApproval H ω.hex r generation state now caller
  | finishPending r status approvalStatus error state now deadlineOnly =>
    w.db.finishPending r status approvalStatus error state (now.getD ω.now) deadlineOnly
  | createApproval r ref expiresAt digest => w.db.createApproval ω.now r ref expiresAt digest
  | prunePayloads now => w.db.prunePayloads (now.getD ω.now)
  | appendAudit component eventType outcome corr r details =>
    ((), w.db.appendAudit ⟨ω.now, component, eventType, outcome, corr, r, details⟩)

/-- One call of thread `i`, entered in the log. -/
def World.exec (H : Hash) (i : Nat) (o : Op) (ω : Oracle) (w : World) : o.Ret × World :=
  let (answer, db) := o.run H ω w
  (answer, { w with db := db, log := ⟨i, o, answer⟩ :: w.log })

/-- Programs of the broker. -/
abbrev Action := Interleave.Prog Op Op.Ret Exn

abbrev perform (o : Op) : Action o.Ret := Interleave.Prog.perform o

end Toolstack.Broker
