import Toolstack.Columns
import Toolstack.Broker.StoreClaims

/-! The database file as `Store.__init__` finds it: a broker of any earlier version wrote it, so
tables and columns may be missing. -/

namespace Toolstack.Broker

/-! ## Tables -/

/-- The columns `requests` was given after schema 1, in the order they are added. -/
inductive LateColumn
  | operationGeneration
  | policyBinding
  | actionJson
  | requestDigest
  | idempotencyKey
  | payloadDigest
  | prunedAt
  deriving DecidableEq, Repr

@[reducible] def LateColumn.Value : LateColumn → Type
  | operationGeneration | policyBinding | requestDigest | payloadDigest => Text
  | actionJson => Json
  | idempotencyKey => PyStr
  | prunedAt => Time

def LateColumn.all : List LateColumn :=
  [operationGeneration, policyBinding, actionJson, requestDigest, idempotencyKey, payloadDigest, prunedAt]

/-- The columns `_bound` and the claims compare. -/
def LateColumn.binding : LateColumn → Bool
  | operationGeneration | policyBinding | actionJson | requestDigest => true
  | _ => false

inductive LateApprovalColumn
  | requestDigest
  deriving DecidableEq, Repr

@[reducible] def LateApprovalColumn.Value : LateApprovalColumn → Type
  | requestDigest => Text

structure RequestRow where
  id : Nat
  correlationId : Text
  callerId : Nat
  tool : String
  op : String
  status : Status
  argumentsJson : Option Json := none
  resultJson : Option Json := none
  error : Option String := none
  createdAt : Time
  updatedAt : Time

structure ApprovalBase where
  id : Nat
  requestId : Nat
  surfaceRef : PyStr
  status : ApprovalStatus
  expiresAt : Time
  approver : Option PyStr := none
  note : Option PyStr := none
  decidedAt : Option PyStr := none
  createdAt : Time

structure MetadataRow where
  key : String
  value : Text

instance : Keyed RequestRow Nat := ⟨RequestRow.id⟩
instance : Keyed ApprovalBase Nat := ⟨ApprovalBase.id⟩
instance : Keyed MetadataRow String := ⟨MetadataRow.key⟩

abbrev RequestTable := WideTable RequestRow LateColumn.Value

abbrev ApprovalTable := WideTable ApprovalBase LateApprovalColumn.Value

variable {columns : List LateColumn}

/-- `(caller_id, idempotency_key)` of a row that has a key. -/
def ledgerKey (row : Wide RequestRow LateColumn.Value columns) : Option (Nat × PyStr) :=
  (row.read .idempotencyKey).map fun k => (row.base.callerId, k)

/-- What the unique index is over. -/
def RequestTable.keys (t : RequestTable) : List (Nat × PyStr) := t.rows.filterMap ledgerKey

/-- A row as the later statements read it. -/
def toRow (row : Wide RequestRow LateColumn.Value columns) : Row where
  id := row.base.id
  correlationId := row.base.correlationId
  callerId := row.base.callerId
  tool := row.base.tool
  op := row.base.op
  status := row.base.status
  argumentsJson := row.base.argumentsJson
  resultJson := row.base.resultJson
  error := row.base.error
  createdAt := row.base.createdAt
  updatedAt := row.base.updatedAt
  operationGeneration := row.read .operationGeneration
  policyBinding := row.read .policyBinding
  actionJson := row.read .actionJson
  requestDigest := row.read .requestDigest
  idempotencyKey := row.read .idempotencyKey
  payloadDigest := row.read .payloadDigest
  prunedAt := row.read .prunedAt

def toApprovalRow {columns : List LateApprovalColumn}
    (row : Wide ApprovalBase LateApprovalColumn.Value columns) : ApprovalRow where
  id := row.base.id
  requestId := row.base.requestId
  surfaceRef := row.base.surfaceRef
  status := row.base.status
  expiresAt := row.base.expiresAt
  approver := row.base.approver
  note := row.base.note
  decidedAt := row.base.decidedAt
  createdAt := row.base.createdAt
  requestDigest := row.read .requestDigest

/-! ## The file -/

/-- `none` for a table the file does not have. The index, where there is one, is unique. -/
structure DbFile where
  userVersion : Int
  metadata : Option (Table MetadataRow)
  callers : Option (Table CallerRow)
  tokens : Option (Table TokenRow)
  policies : Option (Table PolicyRow)
  requests : Option RequestTable
  approvals : Option ApprovalTable
  audit : Option (List AuditEvent)
  keyIndex : Bool
  unique : keyIndex = true → (requests.getD .empty).keys.Nodup

namespace DbFile

def requestTable (f : DbFile) : RequestTable := f.requests.getD .empty

def approvalTable (f : DbFile) : ApprovalTable := f.approvals.getD .empty

def metadataTable (f : DbFile) : Table MetadataRow := f.metadata.getD .empty

def keys (f : DbFile) : List (Nat × PyStr) := f.requestTable.keys

def installationUuid : String := "installation_uuid"

def identity (f : DbFile) : Option Text := (f.metadataTable.get? installationUuid).map (·.value)

/-- The database the statements of a `Store` on this file see. -/
def db (f : DbFile) : Db where
  installationUuid := f.identity.getD []
  callers := f.callers.getD .empty
  tokens := f.tokens.getD .empty
  policies := f.policies.getD .empty
  requests := f.requestTable.table.map toRow fun _ => rfl
  approvals := f.approvalTable.table.map toApprovalRow fun _ => rfl
  audit := f.audit.getD []

/-- A request's id and payload digest, by caller and key. -/
def ledger (f : DbFile) : List ((Nat × PyStr) × (Nat × Option Text)) :=
  f.requestTable.rows.filterMap fun row =>
    (ledgerKey row).map fun key => (key, row.base.id, row.read .payloadDigest)

/-! ## `Store.__init__` -/

/-- `SCHEMA`, whose statements all are `CREATE TABLE IF NOT EXISTS`. -/
def createTables (f : DbFile) : DbFile :=
  { f with
    metadata := some f.metadataTable
    callers := some (f.callers.getD .empty)
    tokens := some (f.tokens.getD .empty)
    policies := some (f.policies.getD .empty)
    requests := some f.requestTable
    approvals := some f.approvalTable
    audit := some (f.audit.getD []) }

theorem keys_addAll (cs : List LateColumn) (t : RequestTable) :
    RequestTable.keys (t.addAll cs) = t.keys := by
  have hgrown := t.grown_addAll cs
  unfold RequestTable.keys
  rw [hgrown.rows, List.filterMap_map]
  refine List.filterMap_congr fun row _ => ?_
  simp only [Function.comp_apply, ledgerKey, Wide.widen, Wide.read]
  by_cases hkey : LateColumn.idempotencyKey ∈ t.columns
  · simp only [dif_pos hkey, dif_pos (hgrown.columns _ hkey)]
  · simp only [dif_neg hkey, dite_eq_ite, ite_self]

/-- `ALTER TABLE … ADD COLUMN` for every column that is missing. -/
def addColumns (f : DbFile) : DbFile :=
  { f with
    requests := some (f.requestTable.addAll LateColumn.all)
    approvals := some (f.approvalTable.addAll [.requestDigest])
    unique := fun h => by
      rw [Option.getD_some, keys_addAll]
      exact f.unique h }

/-- `CREATE UNIQUE INDEX IF NOT EXISTS requests_caller_key`. -/
def createIndex (f : DbFile) : Except Exn DbFile :=
  if h : f.keys.Nodup then .ok { f with keyIndex := true, unique := fun _ => h }
  else .error .integrityError

/-- `INSERT OR IGNORE INTO broker_metadata`. -/
def identify (uuid : Text) (f : DbFile) : DbFile :=
  if h : ∀ row ∈ f.metadataTable.rows, Keyed.key row ≠ installationUuid then
    { f with metadata := some (f.metadataTable.insert ⟨installationUuid, uuid⟩ h) }
  else { f with metadata := some f.metadataTable }

/-- The statements of the one transaction. -/
def initialise (uuid : Text) (f : DbFile) : Except Exn DbFile :=
  if 3 < f.userVersion then .error .valueError
  else do
    let f ← f.createTables.addColumns.createIndex
    return { f.identify uuid with userVersion := 3 }

/-- What may go wrong beside the statements' own errors: the transaction does not begin or is
interrupted, or an error comes after it is committed. -/
inductive Fault
  | before (e : Exn)
  | after (e : Exn)

/-- Open the file: one transaction, which is rolled back whole unless it is committed. -/
def openStore (uuid : Text) (fault : Option Fault) (f : DbFile) : Except Exn Unit × DbFile :=
  match fault, f.initialise uuid with
  | some (.before e), _ => (.error e, f)
  | _, .error e => (.error e, f)
  | some (.after e), .ok f' => (.error e, f')
  | none, .ok f' => (.ok (), f')

end DbFile

end Toolstack.Broker
