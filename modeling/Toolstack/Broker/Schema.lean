import Toolstack.Table
import Toolstack.Broker.Registry

/-! The tables of `broker/store.py`. A column that holds JSON text holds the value the text is
read back as: `arguments_json` and `action_json` are written by `canonical`, so they hold a
value in normal form. -/

namespace Toolstack.Broker

/-- Seconds, on the one clock all processes share. -/
abbrev Time := Int

inductive Status
  | received
  | pendingApproval
  | executing
  | running
  | completed
  | denied
  | expired
  | failed
  | unknown
  | resultExpired
  | notFound
  | invalid
  deriving DecidableEq, Repr

namespace Status

/-- The statuses `update_request` clears the private columns for. `running` is a status of
earlier versions. -/
def terminal : Status → Bool
  | received | pendingApproval | executing | running => false
  | _ => true

/-- `status IN ('received','executing','running')`. -/
def unfinished : Status → Bool
  | received | executing | running => true
  | _ => false

end Status

inductive ApprovalStatus
  | pending
  | approved
  | rejected
  | expired
  | cancelled
  deriving DecidableEq, Repr

/-- What the approval surface reports; its outcomes are the approval statuses. -/
structure SurfaceState where
  outcome : ApprovalStatus
  approver : Option PyStr := none
  note : Option PyStr := none
  decidedAt : Option PyStr := none

/-- `identity.Caller`: who a request runs for, and the token it presented, if any. -/
structure Caller where
  id : Nat
  name : String
  tokenHash : Option Text := none

structure CallerRow where
  id : Nat
  name : String
  createdAt : Time
  revokedAt : Option Time := none

structure TokenRow where
  tokenHash : Text
  callerId : Nat
  createdAt : Time
  revokedAt : Option Time := none

structure PolicyRow where
  callerId : Nat
  policy : Policy
  updatedAt : Time

structure Row where
  id : Nat
  correlationId : Text
  callerId : Nat
  tool : String
  op : String
  status : Status
  argumentsJson : Option Json := none
  resultJson : Option Json := none
  error : Option String := none
  createdAt : Time
  updatedAt : Time
  operationGeneration : Option Text := none
  policyBinding : Option Text := none
  actionJson : Option Json := none
  requestDigest : Option Text := none
  idempotencyKey : Option PyStr := none
  payloadDigest : Option Text := none
  prunedAt : Option Time := none

structure ApprovalRow where
  id : Nat
  requestId : Nat
  surfaceRef : PyStr
  status : ApprovalStatus
  expiresAt : Time
  approver : Option PyStr := none
  note : Option PyStr := none
  decidedAt : Option PyStr := none
  createdAt : Time
  requestDigest : Option Text := none

def ApprovalRow.setStatus (s : ApprovalStatus) (a : ApprovalRow) : ApprovalRow :=
  { a with status := s }

structure AuditEvent where
  at' : Time
  component : String
  eventType : String
  outcome : String
  correlationId : Text
  requestId : Option Nat
  details : List (String × Json)

instance : Keyed CallerRow Nat := ⟨CallerRow.id⟩
instance : Keyed TokenRow Text := ⟨TokenRow.tokenHash⟩
instance : Keyed PolicyRow Nat := ⟨PolicyRow.callerId⟩
instance : Keyed Row Nat := ⟨Row.id⟩
instance : Keyed ApprovalRow Nat := ⟨ApprovalRow.id⟩

theorem TokenRow.key_revoke (now : Time) (row : TokenRow) :
    Keyed.key { row with revokedAt := some now } = Keyed.key row := rfl

theorem PolicyRow.key_clear (now : Time) (row : PolicyRow) :
    Keyed.key { row with policy := .empty, updatedAt := now } = Keyed.key row := rfl

structure Db where
  installationUuid : Text
  callers : Table CallerRow := .empty
  tokens : Table TokenRow := .empty
  policies : Table PolicyRow := .empty
  requests : Table Row := .empty
  approvals : Table ApprovalRow := .empty
  audit : List AuditEvent := []

/-- The exceptions the modelled code tells apart, by class. -/
inductive Exn
  | valueError
  | typeError
  | attributeError
  | unicodeEncodeError
  | jsonDecodeError
  | permissionError
  | lookupError
  | integrityError
  | runtimeError
  | toolUnreachable
  | notDispatched
  | limitExceeded
  | timeoutError
  | other (className : String)
  deriving DecidableEq, Repr

/-- `type(exc).__name__`. -/
def Exn.className : Exn → String
  | valueError => "ValueError"
  | typeError => "TypeError"
  | attributeError => "AttributeError"
  | unicodeEncodeError => "UnicodeEncodeError"
  | jsonDecodeError => "JSONDecodeError"
  | permissionError => "PermissionError"
  | lookupError => "LookupError"
  | integrityError => "IntegrityError"
  | runtimeError => "RuntimeError"
  | toolUnreachable => "ToolUnreachable"
  | notDispatched => "NotDispatched"
  | limitExceeded => "LimitExceeded"
  | timeoutError => "TimeoutError"
  | other n => n

end Toolstack.Broker
