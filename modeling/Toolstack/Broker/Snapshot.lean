import Toolstack.Interleave.Cleanup
import Toolstack.Broker.DbFile

/-! `Store.restore_new` and `Store._snapshot_new`: the calls on files and connections, in order,
each of which may fail. -/

namespace Toolstack.Broker

open Interleave (Prog)

/-! ## The statements of the sanitising transaction -/

namespace DbFile

/-- `UPDATE requests SET … WHERE p`, for a change that leaves ids, owners and keys alone. -/
def updateRequests (p : RequestRow → Bool)
    (g : ∀ {columns}, Wide RequestRow LateColumn.Value columns → Wide RequestRow LateColumn.Value columns)
    (hid : ∀ {columns} (row : Wide RequestRow LateColumn.Value columns), Keyed.key (g row) = Keyed.key row)
    (hledger : ∀ {columns} (row : Wide RequestRow LateColumn.Value columns),
      ledgerKey (g row) = ledgerKey row) (f : DbFile) : DbFile :=
  { f with
    requests := f.requests.map fun t => t.update p g hid
    unique := fun h => by
      have hkeys : ∀ t : RequestTable, RequestTable.keys (t.update p g hid) = t.keys := fun t => by
        simp only [RequestTable.keys, WideTable.rows, WideTable.update, Table.update, List.filterMap_map]
        refine List.filterMap_congr fun row _ => ?_
        simp only [Function.comp_apply]
        split_ifs
        · exact hledger row
        · rfl
      have hunique := f.unique h
      cases hrequests : f.requests with
      | none => exact List.nodup_nil
      | some t =>
        rw [hrequests] at hunique
        rw [Option.map_some, Option.getD_some, hkeys]
        exact hunique }

/-- `SET status=…, error=…, arguments_json=NULL, action_json=NULL, result_json=NULL, updated_at=…`. -/
def endRow (now : Time) (status : Status) (error : String) {columns : List LateColumn}
    (row : Wide RequestRow LateColumn.Value columns) : Wide RequestRow LateColumn.Value columns :=
  (row.setBase fun r => { r with
    status := status, error := some error, argumentsJson := none, resultJson := none, updatedAt := now }).clear
      .actionJson

theorem ledgerKey_endRow (now : Time) (status : Status) (error : String) {columns : List LateColumn}
    (row : Wide RequestRow LateColumn.Value columns) :
    ledgerKey (endRow now status error row) = ledgerKey row := by
  simp only [ledgerKey, endRow, Wide.read_clear, Wide.read_setBase, reduceCtorEq, if_false]
  rfl

def endRequests (p : Status → Bool) (status : Status) (error : String) (now : Time) (f : DbFile) :
    DbFile :=
  f.updateRequests (fun r => p r.status) (endRow now status error) (fun _ => rfl)
    (ledgerKey_endRow now status error)

end DbFile

inductive Statement
  | cancelApprovals
  | expirePending (now : Time)
  | endUnfinished (now : Time)
  | revokeTokens (now : Time)
  | clearPolicies (now : Time)
  | setIdentity (uuid : Text)

def Statement.apply : Statement → DbFile → DbFile
  | cancelApprovals, f => { f with
      approvals := f.approvals.map fun t => t.update (fun a => a.status = .pending)
        (fun row => row.setBase fun a => { a with status := .cancelled, note := none }) fun _ => rfl }
  | expirePending now, f =>
    f.endRequests (fun s => s = .pendingApproval) .expired "restore_cancelled" now
  | endUnfinished now, f => f.endRequests Status.unfinished .unknown "restore_unknown" now
  | revokeTokens now, f => { f with
      tokens := f.tokens.map fun t => t.update (fun r => r.revokedAt.isNone)
        (fun r => { r with revokedAt := some now }) (TokenRow.key_revoke now) }
  | clearPolicies now, f => { f with
      policies := f.policies.map fun t => t.update (fun _ => true)
        (fun p => { p with policy := .empty, updatedAt := now }) (PolicyRow.key_clear now) }
  | setIdentity uuid, f => { f with
      metadata := f.metadata.map fun t => t.update (fun r => r.key = DbFile.installationUuid)
        (fun r => { r with value := uuid }) fun _ => rfl }

/-- `append_audit`. -/
def DbFile.audited (now : Time) (f : DbFile) : DbFile :=
  { f with audit := f.audit.map fun events => events ++
      [⟨now, "admin", "restored_offline", "ok", [], none,
        [("tokens_invalidated", .bool true), ("policies_cleared", .bool true), ("replayed", .int 0)]⟩] }

/-! ## Files -/

/-- The database itself and what SQLite keeps beside it. -/
inductive Suffix
  | main
  | wal
  | shm
  | journal
  deriving DecidableEq, Repr

/-- `mkstemp` makes a name nobody has used, which nothing else is named after. -/
inductive Path
  | named (path : String)
  | stage (n : Nat) (suffix : Suffix)
  deriving DecidableEq, Repr

inductive Entry
  | database (f : DbFile)
  | other

/-- `session` is what the open transaction of the last connection has done so far; `drawn` counts the
identifiers `uuid4` has drawn. -/
structure Files where
  entry : Path → Option Entry
  session : Option DbFile := none
  drawn : Nat := 0
  stages : Nat := 0

/-- `uuid.uuid4`, which never draws the same twice. -/
structure Uuids where
  draw : Nat → Text
  injective : Function.Injective draw

inductive FileOp
  | privateParent (path : Path) (create : Bool)
  | lexists (path : Path)
  | privateFile (path : Path)
  | connect (path : Path)
  | mkstemp
  | chmod (path : Path)
  | backup (source target : Path)
  | journalDelete (path : Path)
  | openStore (path : Path)
  | journalWal (path : Path)
  | time
  | uuid4
  | begin (path : Path)
  | execute (statement : Statement)
  | commit (path : Path)
  | appendAudit (path : Path) (now : Time)
  | checkpoint (path : Path)
  | close (path : Path)
  | fsync (path : Path)
  | link (source target : Path)
  | unlink (path : Path)

namespace FileOp

@[reducible] def Value : FileOp → Type
  | lexists _ => Bool
  | mkstemp => Nat
  | time => Time
  | uuid4 => Text
  | _ => Unit

abbrev Ret (o : FileOp) : Type := Except Exn o.Value

/-- A call that does not fail of itself. `link` never replaces what is there. -/
def act (U : Uuids) (now : Time) (w : Files) : (o : FileOp) → o.Ret × Files
  | privateParent .. | privateFile _ | chmod _ | journalDelete _ | journalWal _ | checkpoint _ | fsync _ =>
    (.ok (), w)
  | lexists path => (.ok (w.entry path).isSome, w)
  | connect path =>
    (if (w.entry path).isSome then .ok () else .error (.other "OperationalError"),
      { w with session := none })
  | mkstemp =>
    (.ok w.stages, { w with
      entry := Function.update w.entry (.stage w.stages .main) (some .other), stages := w.stages + 1 })
  | backup source target =>
    match w.entry source with
    | some (.database f) =>
      (.ok (), { w with entry := Function.update w.entry target (some (.database f)) })
    | _ => (.error (.other "DatabaseError"), w)
  | openStore path =>
    match w.entry path with
    | some (.database f) =>
      match f.initialise (U.draw w.drawn) with
      | .ok f' =>
        (.ok (), { w with
          entry := Function.update w.entry path (some (.database f')), drawn := w.drawn + 1 })
      | .error e => (.error e, { w with drawn := w.drawn + 1 })
    | _ => (.error (.other "DatabaseError"), w)
  | time => (.ok now, w)
  | uuid4 => (.ok (U.draw w.drawn), { w with drawn := w.drawn + 1 })
  | begin path =>
    match w.entry path with
    | some (.database f) => (.ok (), { w with session := some f })
    | _ => (.error (.other "DatabaseError"), w)
  | execute statement => (.ok (), { w with session := w.session.map statement.apply })
  | commit path =>
    match w.session with
    | some f =>
      (.ok (), { w with entry := Function.update w.entry path (some (.database f)), session := none })
    | none => (.ok (), w)
  | appendAudit path now =>
    match w.entry path with
    | some (.database f) =>
      (.ok (), { w with entry := Function.update w.entry path (some (.database (f.audited now))) })
    | _ => (.error (.other "DatabaseError"), w)
  | close _ => (.ok (), { w with session := none })
  | link source target =>
    match w.entry source, w.entry target with
    | some e, none => (.ok (), { w with entry := Function.update w.entry target (some e) })
    | _, _ => (.error (.other "OSError"), w)
  | unlink path => (.ok (), { w with entry := Function.update w.entry path none })

end FileOp

/-- What the outside decides about one call: whether it fails, and what the clock says. -/
structure Outside where
  fault : Option Exn := none
  now : Time := 0

/-- The files, and the number of calls so far. -/
structure Machine where
  files : Files
  calls : Nat := 0

def FileOp.exec (U : Uuids) (ω : Nat → Outside) (o : FileOp) (w : Machine) : o.Ret × Machine :=
  match (ω w.calls).fault with
  | some e => (.error e, { w with calls := w.calls + 1 })
  | none =>
    let (answer, files) := o.act U (ω w.calls).now w.files
    (answer, ⟨files, w.calls + 1⟩)

/-! ## The programs -/

namespace Restore

abbrev Action := Prog FileOp FileOp.Ret Exn

def perform (o : FileOp) : Action o.Value := do
  match ← (Prog.perform o : Action o.Ret) with
  | .ok v => return v
  | .error e => Prog.raise e

/-- The transform of `restore_new`: `Store(stage)`, one transaction, and its audit event. -/
def sanitize (stage : Path) : Action Unit := do
  perform (.privateParent stage true)
  perform (.chmod stage)
  perform (.openStore stage)
  perform (.journalWal stage)
  Prog.tryFinally (do
    let now ← perform .time
    perform (.begin stage)
    perform (.execute .cancelApprovals)
    perform (.execute (.expirePending now))
    perform (.execute (.endUnfinished now))
    perform (.execute (.revokeTokens now))
    perform (.execute (.clearPolicies now))
    let uuid ← perform .uuid4
    perform (.execute (.setIdentity uuid))
    perform (.commit stage)
    perform (.appendAudit stage now)
    perform (.checkpoint stage)
    perform (.journalDelete stage)) (perform (.close stage))

def copy (snapshot stage : Path) : Action Unit := do
  perform (.connect stage)
  Prog.tryFinally (do
    perform (.backup snapshot stage)
    perform (.journalDelete stage)
    perform (.commit stage)) (perform (.close stage))

/-- `Path(stage + suffix).unlink(missing_ok=True)`. -/
def unlinkStage (n : Nat) : List Suffix → Action Unit
  | [] => return ()
  | suffix :: rest => do
    perform (.unlink (.stage n suffix))
    unlinkStage n rest

def snapshotNew (source destination : Path) : Action Path := do
  perform (.privateParent destination true)
  let taken : Bool ← perform (.lexists destination)
  if taken then Prog.raise (.other "FileExistsError")
  else do
    let n : Nat ← perform .mkstemp
    let stage := Path.stage n .main
    perform (.chmod stage)
    Prog.tryFinally (do
      copy source stage
      sanitize stage
      perform (.fsync stage)
      perform (.link stage destination)
      return destination) (unlinkStage n [.main, .wal, .shm, .journal])

def restoreNew (snapshot destination : Path) (confirmedOffline : Bool) : Action Path := do
  if !confirmedOffline then Prog.raise .valueError
  else do
    perform (.privateParent destination true)
    let taken : Bool ← perform (.lexists destination)
    if taken then Prog.raise (.other "FileExistsError")
    else do
      perform (.privateParent snapshot false)
      perform (.privateFile snapshot)
      perform (.connect snapshot)
      Prog.tryFinally (snapshotNew snapshot destination) (perform (.close snapshot))

end Restore

end Toolstack.Broker
