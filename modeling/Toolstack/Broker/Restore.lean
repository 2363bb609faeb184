import Toolstack.Broker.Snapshot
import Toolstack.Broker.Migration

/-! A restored database is inert: nothing in it can be decided, authorised or executed any more,
and no key it has seen is forgotten. A restore that fails publishes nothing. -/

namespace Toolstack.Broker

open Interleave (Prog)
open Interleave.Prog (Sat)

/-! ## The sanitised file -/

namespace DbFile

variable {f f' : DbFile} {now : Time} {uuid : Text}

/-- What `restore_new` makes of the migrated snapshot. -/
def sanitized (now : Time) (uuid : Text) (f : DbFile) : DbFile :=
  ([.cancelApprovals, .expirePending now, .endUnfinished now, .revokeTokens now, .clearPolicies now,
    .setIdentity uuid].foldl (fun f (s : Statement) => s.apply f) f).audited now

theorem db_endRequests (p : Status → Bool) (status : Status) (error : String) (now : Time)
    (f : DbFile) : (f.endRequests p status error now).db = f.db.sweepStatus p status error now := by
  have hrow : ∀ {columns} (row : Wide RequestRow LateColumn.Value columns),
      toRow (endRow now status error row) =
        { Row.close now status (some error) (toRow row) with resultJson := none } := by
    intro columns row
    simp only [toRow, endRow, Wide.read_clear, Wide.read_setBase, reduceCtorEq, if_false, if_true]
    rfl
  have hrequests : (f.endRequests p status error now).db.requests =
      (f.db.sweepStatus p status error now).requests :=
    WideTable.map_update f.requests (fun _ => endRow now status error) (fun _ _ => rfl)
      (fun _ => toRow) (fun _ _ => rfl) (fun row => p row.status)
      (fun row => { Row.close now status (some error) row with resultJson := none }) (fun _ => rfl)
      (fun _ _ => rfl) fun _ => hrow
  exact congrArg (fun t => { f.db with requests := t }) hrequests

theorem db_cancelApprovals (f : DbFile) : (Statement.cancelApprovals.apply f).db = { f.db with
    approvals := f.db.approvals.update (fun a => a.status = .pending)
      (fun a => { a with status := .cancelled, note := none }) fun _ => rfl } := by
  have happrovals : (Statement.cancelApprovals.apply f).db.approvals =
      f.db.approvals.update (fun a => a.status = .pending)
        (fun a => { a with status := .cancelled, note := none }) fun _ => rfl :=
    WideTable.map_update f.approvals
      (fun _ row => row.setBase fun a => { a with status := .cancelled, note := none })
      (fun _ _ => rfl) (fun _ => toApprovalRow) (fun _ _ => rfl) (fun a => a.status = .pending)
      (fun a => { a with status := .cancelled, note := none }) (fun _ => rfl) (fun _ _ => rfl)
      fun _ _ => rfl
  exact congrArg (fun t => { f.db with approvals := t }) happrovals

theorem db_revokeTokens (f : DbFile) :
    ((Statement.revokeTokens now).apply f).db = f.db.revokeTokens now fun _ => true := by
  have htokens : ((Statement.revokeTokens now).apply f).db.tokens =
      (f.db.revokeTokens now fun _ => true).tokens := by
    simp only [Statement.apply, db, Db.revokeTokens, Bool.true_and]
    cases f.tokens <;> rfl
  exact congrArg (fun t => { f.db with tokens := t }) htokens

theorem db_clearPolicies (f : DbFile) : ((Statement.clearPolicies now).apply f).db = { f.db with
    policies := f.db.policies.update (fun _ => true)
      (fun p => { p with policy := .empty, updatedAt := now }) fun _ => rfl } := by
  have hpolicies : ((Statement.clearPolicies now).apply f).db.policies =
      f.db.policies.update (fun _ => true)
        (fun p => { p with policy := .empty, updatedAt := now }) fun _ => rfl := by
    simp only [Statement.apply, db]
    cases f.policies <;> rfl
  exact congrArg (fun t => { f.db with policies := t }) hpolicies

theorem identity_setIdentity (f : DbFile) :
    ((Statement.setIdentity uuid).apply f).identity = f.identity.map fun _ => uuid := by
  simp only [Statement.apply, identity, metadataTable]
  cases f.metadata with
  | none => rfl
  | some t =>
    rw [Option.map_some, Option.getD_some, Option.getD_some, Table.get?_update]
    cases hrow : t.get? installationUuid with
    | none => rfl
    | some row =>
      have hkey : row.key = installationUuid := Table.get?_key hrow
      simp [hkey]

theorem db_setIdentity (h : f.identity.isSome = true) :
    ((Statement.setIdentity uuid).apply f).db = { f.db with installationUuid := uuid } := by
  have hidentity : ((Statement.setIdentity uuid).apply f).db.installationUuid = uuid := by
    obtain ⟨t, ht⟩ := Option.isSome_iff_exists.1 h
    rw [db, identity_setIdentity, ht]
    rfl
  exact congrArg (fun t => { f.db with installationUuid := t }) hidentity

theorem db_audited (h : f.audit.isSome = true) : (f.audited now).db = { f.db with
    audit := f.db.audit ++ [⟨now, "admin", "restored_offline", "ok", [], none,
      [("tokens_invalidated", .bool true), ("policies_cleared", .bool true), ("replayed", .int 0)]⟩] } := by
  obtain ⟨events, hevents⟩ := Option.isSome_iff_exists.1 h
  have haudit : (f.audited now).db.audit = f.db.audit ++ [⟨now, "admin", "restored_offline", "ok", [],
      none, [("tokens_invalidated", .bool true), ("policies_cleared", .bool true),
        ("replayed", .int 0)]⟩] := by
    simp only [audited, db, hevents]
    rfl
  exact congrArg (fun t => { f.db with audit := t }) haudit

@[simp] theorem audit_apply (s : Statement) (f : DbFile) : (s.apply f).audit = f.audit := by
  cases s <;> rfl

theorem metadata_apply {s : Statement} (h : ∀ uuid, s ≠ .setIdentity uuid) (f : DbFile) :
    (s.apply f).metadata = f.metadata := by
  cases s with
  | setIdentity uuid => exact absurd rfl (h uuid)
  | _ => rfl

/-- The file before its new identity is set. -/
def cleared (now : Time) (f : DbFile) : DbFile :=
  [.cancelApprovals, .expirePending now, .endUnfinished now, .revokeTokens now,
    .clearPolicies now].foldl (fun f (s : Statement) => s.apply f) f

theorem sanitized_eq (now : Time) (uuid : Text) (f : DbFile) :
    f.sanitized now uuid = ((Statement.setIdentity uuid).apply (f.cleared now)).audited now := rfl

theorem cleared_metadata (f : DbFile) : (f.cleared now).metadata = f.metadata := by
  simp only [cleared, List.foldl_cons, List.foldl_nil]
  iterate 5 rw [metadata_apply (by simp)]

theorem cleared_identity (f : DbFile) : (f.cleared now).identity = f.identity := by
  simp only [identity, metadataTable, cleared_metadata]

theorem db_cleared (f : DbFile) : (f.cleared now).db = { f.db.sanitize now f.db.installationUuid with
    audit := f.db.audit } := by
  simp only [cleared, List.foldl_cons, List.foldl_nil]
  rw [db_clearPolicies, db_revokeTokens]
  have hended : ((Statement.endUnfinished now).apply ((Statement.expirePending now).apply
      (Statement.cancelApprovals.apply f))).db = _ :=
    (db_endRequests _ _ _ now _).trans (congrArg _ ((db_endRequests _ _ _ now _).trans
      (congrArg _ (db_cancelApprovals f))))
  rw [hended]
  rfl

/-- The statements on the file are the sanitising step on its database. -/
theorem db_sanitized (hidentity : f.identity.isSome = true) (haudit : f.audit.isSome = true) :
    (f.sanitized now uuid).db = f.db.sanitize now uuid := by
  have haudit' : ((Statement.setIdentity uuid).apply (f.cleared now)).audit.isSome = true := by
    simp only [cleared, List.foldl_cons, List.foldl_nil, audit_apply, haudit]
  have hidentity' : (f.cleared now).identity.isSome = true := by rw [cleared_identity, hidentity]
  rw [sanitized_eq, db_audited haudit', db_setIdentity hidentity', db_cleared]
  rfl

/-! ### What the statements leave alone -/

theorem ledger_endRequests (p : Status → Bool) (status : Status) (error : String) (now : Time)
    (f : DbFile) : (f.endRequests p status error now).ledger = f.ledger := by
  simp only [ledger, requestTable, endRequests, updateRequests]
  cases f.requests with
  | none => rfl
  | some t =>
    simp only [Option.map_some, Option.getD_some, WideTable.update, WideTable.rows, Table.update,
      List.filterMap_map]
    refine List.filterMap_congr fun row _ => ?_
    simp only [Function.comp_apply]
    split_ifs
    · rw [ledgerKey_endRow]
      simp only [endRow, Wide.read_clear, Wide.read_setBase, reduceCtorEq, if_false]
      rfl
    · rfl

theorem ledger_apply (s : Statement) (f : DbFile) : (s.apply f).ledger = f.ledger := by
  cases s with
  | expirePending now => exact ledger_endRequests _ _ _ now f
  | endUnfinished now => exact ledger_endRequests _ _ _ now f
  | _ => rfl

theorem ledger_sanitized : (f.sanitized now uuid).ledger = f.ledger := by
  rw [sanitized_eq]
  change ((Statement.setIdentity uuid).apply (f.cleared now)).ledger = f.ledger
  simp only [cleared, List.foldl_cons, List.foldl_nil, ledger_apply]

theorem Migrated.ledger (h : Migrated uuid f f') : f'.ledger = f.ledger := by
  obtain ⟨t, ht, hcolumns, hgrown⟩ := h.requests
  obtain rfl : f'.requestTable = t := by rw [requestTable, ht, Option.getD_some]
  unfold DbFile.ledger
  rw [hgrown.rows, List.filterMap_map]
  refine List.filterMap_congr fun row _ => ?_
  simp only [Function.comp_apply, ledgerKey, Wide.read_widen (hcolumns _)]
  rfl

theorem Complete.apply (h : f.Complete) (s : Statement) : (s.apply f).Complete := by
  have hrequests : ∀ (p : Status → Bool) (status : Status) (error : String) (now : Time),
      (f.endRequests p status error now).Complete := by
    intro p status error now
    obtain ⟨t, ht, hcolumns⟩ := h.requests
    exact { h with requests := ⟨_, congrArg (Option.map _) ht, hcolumns⟩ }
  cases s with
  | cancelApprovals =>
    obtain ⟨t, ht, hcolumns⟩ := h.approvals
    exact { h with approvals := ⟨_, congrArg (Option.map _) ht, hcolumns⟩ }
  | expirePending now => exact hrequests (fun s => s = .pendingApproval) .expired "restore_cancelled" now
  | endUnfinished now => exact hrequests Status.unfinished .unknown "restore_unknown" now
  | revokeTokens now => exact { h with tokens := by rw [← h.tokens]; exact Option.isSome_map }
  | clearPolicies now => exact { h with policies := by rw [← h.policies]; exact Option.isSome_map }
  | setIdentity uuid =>
    exact { h with
      metadata := by rw [← h.metadata]; exact Option.isSome_map
      identity := by rw [identity_setIdentity, Option.isSome_map, h.identity] }

theorem Complete.sanitized (h : f.Complete) : (f.sanitized now uuid).Complete := by
  have hcleared : ((Statement.setIdentity uuid).apply (f.cleared now)).Complete := by
    simp only [cleared, List.foldl_cons, List.foldl_nil]
    exact ((((((h.apply _).apply _).apply _).apply _).apply _).apply _)
  exact { hcleared with audit := by rw [← hcleared.audit]; exact Option.isSome_map }

theorem identity_sanitized (h : f.identity.isSome = true) : (f.sanitized now uuid).identity = some uuid := by
  obtain ⟨t, ht⟩ := Option.isSome_iff_exists.1 h
  have hsame : (f.sanitized now uuid).identity =
      ((Statement.setIdentity uuid).apply (f.cleared now)).identity := rfl
  rw [hsame, identity_setIdentity, cleared_identity, ht, Option.map_some]

/-! ### The published file -/

/-- `g` is inert, and it remembers every key of `f`. -/
structure Restored (f g : DbFile) : Prop where
  ended : ∀ row ∈ g.db.requests.rows, row.status.terminal = true
  approvals : ∀ a ∈ g.db.approvals.rows, a.status ≠ .pending
  tokens : ∀ t ∈ g.db.tokens.rows, t.revokedAt.isSome = true
  policies : ∀ callerId tool op, (g.db.policyFor callerId).decide tool op = .deny
  identity : g.identity.isSome = true ∧ g.identity ≠ f.identity
  ledger : g.ledger = f.ledger
  complete : g.Complete
  inert : g.db.Inert fun r => ∃ row ∈ f.requestTable.rows, row.base.id = r

theorem restored_sanitized {m : DbFile} (h : Migrated uuid f m) {fresh : Text}
    (hfresh : f.identity ≠ some fresh) : Restored f (m.sanitized now fresh) := by
  have hdb : (m.sanitized now fresh).db = m.db.sanitize now fresh :=
    db_sanitized h.complete.identity h.complete.audit
  refine ⟨?_, ?_, ?_, ?_, ?_, ?_, h.complete.sanitized, ?_⟩
  · rw [hdb]
    exact fun row hrow => Db.sanitize_terminal (Table.get?_of_mem hrow)
  · rw [hdb]
    intro a ha
    obtain ⟨a₀, -, rfl⟩ := List.mem_map.1 ha
    split_ifs with hpending
    · simp
    · simpa using hpending
  · rw [hdb]
    intro t ht
    obtain ⟨t₀, -, rfl⟩ := List.mem_map.1 ht
    split_ifs with hactive
    · rfl
    · simpa [Option.isSome_iff_ne_none] using hactive
  · intro callerId tool op
    have hpolicies : (m.db.sanitize now fresh).policies = m.db.policies.update (fun _ => true)
      (fun p => { p with policy := .empty, updatedAt := now }) fun _ => rfl := rfl
    have hpolicy : (m.sanitized now fresh).db.policyFor callerId = .empty := by
      rw [hdb, Db.policyFor, hpolicies, Table.get?_update]
      cases m.db.policies.get? callerId <;> rfl
    rw [hpolicy]
    exact Policy.decide_empty tool op
  · rw [identity_sanitized h.complete.identity]
    exact ⟨rfl, fun he => hfresh he.symm⟩
  · rw [ledger_sanitized, h.ledger]
  · rintro r ⟨row, hrow, rfl⟩
    have hget := h.get?_request hrow
    rw [hdb]
    have hsome : ∃ row', (m.db.sanitize now fresh).requests.get? row.base.id = some row' := by
      have hreq : (m.db.sanitize now fresh).requests =
        ((m.db.sweepStatus (fun s => s = .pendingApproval) .expired "restore_cancelled" now).sweepStatus
          Status.unfinished .unknown "restore_unknown" now).requests := rfl
      rw [hreq, Db.get?_sweepStatus, Db.get?_sweepStatus, hget]
      exact ⟨_, rfl⟩
    obtain ⟨row', hrow'⟩ := hsome
    exact ⟨row', hrow', .inl (Db.sanitize_terminal hrow')⟩

end DbFile

/-! ## Calls on files -/

namespace FileOp

/-- The path a call may change; `mkstemp` makes a new one. -/
def target : FileOp → Option Path
  | backup _ path | openStore path | commit path | appendAudit path _ | link _ path | unlink path =>
    some path
  | _ => none

variable {U : Uuids} {now : Time} {w : Files} {o : FileOp} {path : String}

theorem act_named (h : o.target ≠ some (.named path)) :
    (o.act U now w).2.entry (.named path) = w.entry (.named path) := by
  have hne : ∀ {p e}, o.target = some p → Function.update w.entry p e (.named path) =
      w.entry (.named path) := fun hp =>
    Function.update_of_ne (fun he => h (hp.trans (congrArg some he.symm))) _ _
  cases o with
  | mkstemp =>
    have hname : Path.named path ≠ .stage w.stages .main := nofun
    exact Function.update_of_ne hname (some .other) w.entry
  | backup | openStore | begin | commit | appendAudit | link | unlink =>
    simp only [act]
    repeat' split
    all_goals first | rfl | exact hne rfl
  | _ => rfl

theorem act_drawn : w.drawn ≤ (o.act U now w).2.drawn := by
  cases o with
  | backup | openStore | begin | commit | appendAudit | link =>
    simp only [act]
    repeat' split
    all_goals first | exact Nat.le_refl _ | exact Nat.le_succ _
  | uuid4 => exact Nat.le_succ _
  | _ => exact Nat.le_refl _

theorem backup_ok {source target : Path} {v : Unit}
    (h : ((backup source target).act U now w).1 = .ok v) : ∃ f, w.entry source = some (.database f) ∧
      ((backup source target).act U now w).2 =
        { w with entry := Function.update w.entry target (some (.database f)) } := by
  simp only [act] at h ⊢
  split at h
  · rename_i f hf
    exact ⟨f, hf, rfl⟩
  · cases h

theorem openStore_ok {path : Path} {v : Unit} (h : ((openStore path).act U now w).1 = .ok v) :
    ∃ f f', w.entry path = some (.database f) ∧ f.initialise (U.draw w.drawn) = .ok f' ∧
      ((openStore path).act U now w).2 = { w with
        entry := Function.update w.entry path (some (.database f')), drawn := w.drawn + 1 } := by
  simp only [act] at h ⊢
  split at h
  · rename_i f hf
    split at h
    · rename_i f' hf'
      exact ⟨f, f', hf, hf', rfl⟩
    · cases h
  · cases h

theorem begin_ok {path : Path} {v : Unit} (h : ((begin path).act U now w).1 = .ok v) :
    ∃ f, w.entry path = some (.database f) ∧
      ((begin path).act U now w).2 = { w with session := some f } := by
  simp only [act] at h ⊢
  split at h
  · rename_i f hf
    exact ⟨f, hf, rfl⟩
  · cases h

theorem appendAudit_ok {path : Path} {t : Time} {v : Unit}
    (h : ((appendAudit path t).act U now w).1 = .ok v) : ∃ f, w.entry path = some (.database f) ∧
      ((appendAudit path t).act U now w).2 =
        { w with entry := Function.update w.entry path (some (.database (f.audited t))) } := by
  simp only [act] at h ⊢
  split at h
  · rename_i f hf
    exact ⟨f, hf, rfl⟩
  · cases h

/-- `link` publishes what the source is, and only where there is nothing. -/
theorem link_ok {source target : Path} {v : Unit} (h : ((link source target).act U now w).1 = .ok v) :
    ∃ e, w.entry source = some e ∧ w.entry target = none ∧
      ((link source target).act U now w).2 =
        { w with entry := Function.update w.entry target (some e) } := by
  simp only [act] at h ⊢
  split at h
  · rename_i e he hnone
    exact ⟨e, he, hnone, rfl⟩
  · cases h

theorem link_error {source target : Path} {e : Exn}
    (h : ((link source target).act U now w).1 = .error e) : ((link source target).act U now w).2 = w := by
  simp only [act] at h ⊢
  split at h
  · cases h
  · rfl

theorem exec_cases {ω : Nat → Outside} (o : FileOp) (s : Machine) :
    (∃ e, exec U ω o s = (.error e, { s with calls := s.calls + 1 })) ∨
      ∃ now, exec U ω o s = ((o.act U now s.files).1, ⟨(o.act U now s.files).2, s.calls + 1⟩) := by
  unfold exec
  cases (ω s.calls).fault with
  | some e => exact .inl ⟨e, rfl⟩
  | none => exact .inr ⟨(ω s.calls).now, rfl⟩

end FileOp

namespace Restore

variable {U : Uuids} {ω : Nat → Outside} {w₀ w : Files} {snapshot destination : String} {n : Nat}
  {α β : Type}

/-- Whatever has a name is as it was. -/
structure Kept (w₀ w : Files) : Prop where
  named : ∀ path, w.entry (.named path) = w₀.entry (.named path)
  drawn : w₀.drawn ≤ w.drawn

theorem Kept.act {o : FileOp} {now : Time} (h : Kept w₀ w) (ho : ∀ path, o.target ≠ some (.named path)) :
    Kept w₀ (o.act U now w).2 :=
  ⟨fun path => (FileOp.act_named (ho path)).trans (h.named path), h.drawn.trans FileOp.act_drawn⟩

/-- From files in `P` the program returns into `Q`, or raises with everything named as it was. -/
def Careful (U : Uuids) (ω : Nat → Outside) (w₀ : Files) (P : Files → Prop) (m : Action α)
    (Q : α → Files → Prop) : Prop :=
  Sat (FileOp.exec U ω) (fun s => P s.files) m (fun a s => Q a s.files) fun _ s => Kept w₀ s.files

section Careful
variable {P P' : Files → Prop} {Q Q' : α → Files → Prop} {R : β → Files → Prop} {m : Action α}

theorem Careful.bind {f : α → Action β} (hm : Careful U ω w₀ P m Q)
    (hf : ∀ a, Careful U ω w₀ (Q a) (f a) R) : Careful U ω w₀ P (m >>= f) R :=
  Sat.bind hm hf

theorem Careful.exists {γ : Type} {P : γ → Files → Prop} (h : ∀ x, Careful U ω w₀ (P x) m Q) :
    Careful U ω w₀ (fun w => ∃ x, P x w) m Q := Sat.exists h

theorem Careful.conseq (h : Careful U ω w₀ P m Q) (hP : ∀ w, P' w → P w)
    (hQ : ∀ a w, Q a w → Q' a w) : Careful U ω w₀ P' m Q' :=
  Sat.conseq h (fun _ => hP _) (fun a _ => hQ a _) fun _ _ h => h

/-- One call on the stage, or on nothing that has a name. -/
theorem careful_perform {o : FileOp} {P : Files → Prop} {Q : o.Value → Files → Prop}
    (ho : ∀ path, o.target ≠ some (.named path)) (hP : ∀ w, P w → Kept w₀ w)
    (hok : ∀ now w v, P w → (o.act U now w).1 = .ok v → Q v (o.act U now w).2) :
    Careful U ω w₀ P (perform o) Q := by
  intro s hs
  have hkept := hP s.files hs
  rcases FileOp.exec_cases (U := U) (ω := ω) o s with ⟨e, hexec⟩ | ⟨now, hexec⟩
  · simp only [perform, Prog.run_perform_bind, hexec]
    exact hkept
  · simp only [perform, Prog.run_perform_bind, hexec]
    cases hanswer : (o.act U now s.files).1 with
    | ok v => exact hok _ _ _ hs hanswer
    | error e => exact hkept.act ho

/-- A call that changes no file. -/
theorem careful_plain {o : FileOp} (ho : o.target = none) (hact : ∀ now w, (o.act U now w).2 = w)
    (hP : ∀ w, P w → Kept w₀ w) : Careful U ω w₀ P (perform o) fun _ => P :=
  careful_perform (by simp [ho]) hP fun now w v hw _ => (hact now w).symm ▸ hw

end Careful

theorem exec_files (o : FileOp) (s : Machine) : (FileOp.exec U ω o s).2.files = s.files ∨
    ∃ now, (FileOp.exec U ω o s).2.files = (o.act U now s.files).2 := by
  rcases FileOp.exec_cases (U := U) (ω := ω) o s with ⟨e, hexec⟩ | ⟨now, hexec⟩
  · exact .inl (by rw [hexec])
  · exact .inr ⟨now, by rw [hexec]⟩

/-- A `finally` that has nothing to do with what the program returned into. -/
theorem Careful.tryFinally {P : Files → Prop} {Q : α → Files → Prop} {m : Action α} {fin : Action Unit}
    {p : FileOp → Prop} (h : Careful U ω w₀ P m Q) (hfin : fin.All p)
    (hp : ∀ o, p o → ∀ path, o.target ≠ some (.named path))
    (hQ : ∀ a o now w, p o → Q a w → Q a (o.act U now w).2) (hkept : ∀ a w, Q a w → Kept w₀ w) :
    Careful U ω w₀ P (m.tryFinally fin) Q := by
  refine (Sat.tryFinally h hfin (fun a o s ho hs => ?_) fun e o s ho hs => ?_).conseq (fun _ h => h)
    (fun _ _ h => h) fun e s hs => ?_
  · rcases exec_files (U := U) (ω := ω) o s with hsame | ⟨now, hact⟩
    · exact hsame ▸ hs
    · exact hact ▸ hQ a o now s.files ho hs
  · rcases exec_files (U := U) (ω := ω) o s with hsame | ⟨now, hact⟩
    · exact hsame ▸ hs
    · exact hact ▸ hs.act (hp o ho)
  · rcases hs with ⟨-, hs⟩ | ⟨a, hs⟩
    · exact hs
    · exact hkept a s.files hs

/-! ## The stage -/

/-- The stage holds `f`. -/
structure Staged (w₀ : Files) (n : Nat) (f : DbFile) (w : Files) : Prop extends Kept w₀ w where
  stage : w.entry (.stage n .main) = some (.database f)

/-- It holds the database the snapshot is. -/
def Copied (w₀ : Files) (snapshot : String) (n : Nat) (w : Files) : Prop :=
  ∃ f, w₀.entry (.named snapshot) = some (.database f) ∧ Staged w₀ n f w

/-- `close` ends a transaction that was not committed, and changes no file. -/
theorem all_close (path : Path) : (perform (.close path)).All fun o => ∃ path, o = .close path :=
  ⟨⟨path, rfl⟩, fun r => by cases r <;> trivial⟩

theorem Staged.close {f : DbFile} {path : Path} {now : Time} (h : Staged w₀ n f w) :
    Staged w₀ n f ((FileOp.close path).act U now w).2 := ⟨h.toKept.act (by simp [FileOp.target]), h.stage⟩

theorem close_target {o : FileOp} (h : ∃ path, o = .close path) (path : String) :
    o.target ≠ some (.named path) := by
  obtain ⟨p, rfl⟩ := h
  simp [FileOp.target]

theorem backup_spec : Careful U ω w₀ (fun w => Kept w₀ w ∧ w.session = none)
    (perform (.backup (.named snapshot) (.stage n .main)))
    fun _ w => Copied w₀ snapshot n w ∧ w.session = none := by
  refine careful_perform (by simp [FileOp.target]) (fun _ h => h.1) fun now w v hw hok => ?_
  obtain ⟨f, hf, hact⟩ := FileOp.backup_ok hok
  refine ⟨⟨f, (hw.1.named snapshot).symm.trans hf, hw.1.act (by simp [FileOp.target]), ?_⟩, ?_⟩
  · rw [hact]
    exact Function.update_self ..
  · rw [hact]
    exact hw.2

theorem copy_spec : Careful U ω w₀ (Kept w₀) (copy (.named snapshot) (.stage n .main))
    fun _ => Copied w₀ snapshot n := by
  have hkept : ∀ w, Copied w₀ snapshot n w → Kept w₀ w := fun _ ⟨_, _, h⟩ => h.toKept
  have hconnect : Careful U ω w₀ (Kept w₀) (perform (.connect (.stage n .main)))
      fun _ w => Kept w₀ w ∧ w.session = none :=
    careful_perform (by simp [FileOp.target]) (fun _ h => h) fun now w v hw _ =>
      ⟨hw.act (o := .connect (.stage n .main)) (by simp [FileOp.target]), rfl⟩
  refine .bind hconnect fun _ => .tryFinally (.bind backup_spec fun _ =>
    .bind (careful_plain rfl (fun _ _ => rfl) fun w h => hkept w h.1) fun _ => ?_) (all_close _)
      (fun o => close_target) ?_ fun _ => hkept
  · -- there is nothing to commit
    refine careful_perform (by simp [FileOp.target]) (fun w h => hkept w h.1) fun now w v hw _ => ?_
    have hact : ((FileOp.commit (.stage n .main)).act U now w).2 = w := by
      simp only [FileOp.act, hw.2]
    exact hact.symm ▸ hw.1
  · rintro - o now w ⟨path, rfl⟩ ⟨f, hf, hstaged⟩
    exact ⟨f, hf, hstaged.close⟩

/-! ## The transform -/

/-- The snapshot is `f`, which `k`-th identifier or its own `m` was migrated with. -/
structure Opened (U : Uuids) (w₀ : Files) (snapshot : String) (f m : DbFile) (k : Nat) : Prop where
  snapshot : w₀.entry (.named snapshot) = some (.database f)
  migrated : DbFile.Migrated (U.draw k) f m
  drawn : w₀.drawn ≤ k

/-- The transaction on the stage, which holds `m`, has come to `g`. -/
structure Within (w₀ : Files) (n : Nat) (m : DbFile) (k : Nat) (g : DbFile) (w : Files) : Prop
    extends Staged w₀ n m w where
  drawn' : k < w.drawn
  session : w.session = some g

/-- The stage is what `restore_new` makes of the snapshot. -/
def Sanitized (U : Uuids) (w₀ : Files) (snapshot : String) (n : Nat) (w : Files) : Prop :=
  ∃ f m k k' now, Opened U w₀ snapshot f m k ∧ k < k' ∧ Staged w₀ n (m.sanitized now (U.draw k')) w

variable {m g : DbFile} {k : Nat}

theorem openStore_spec : Careful U ω w₀ (Copied w₀ snapshot n) (perform (.openStore (.stage n .main)))
    fun _ w => ∃ f m k, Opened U w₀ snapshot f m k ∧ Staged w₀ n m w ∧ k < w.drawn := by
  refine careful_perform (by simp [FileOp.target]) (fun _ ⟨_, _, h⟩ => h.toKept)
    fun now w v ⟨f, hf, hstaged⟩ hok => ?_
  obtain ⟨f', m, hf', hinit, hact⟩ := FileOp.openStore_ok hok
  obtain rfl : f = f' := by simpa using hstaged.stage.symm.trans hf'
  rcases f.initialise_cases (U.draw w.drawn) with ⟨-, herror⟩ | ⟨-, -, herror⟩ | ⟨-, -, m', hm', hmigrated⟩
  · cases hinit.symm.trans herror
  · cases hinit.symm.trans herror
  · obtain rfl : m = m' := Except.ok.inj (hinit.symm.trans hm')
    refine ⟨f, m, w.drawn, ⟨hf, hmigrated, hstaged.drawn⟩,
      ⟨hstaged.toKept.act (by simp [FileOp.target]), ?_⟩, ?_⟩
    · rw [hact]
      exact Function.update_self ..
    · rw [hact]
      exact Nat.lt_succ_self _

theorem begin_spec : Careful U ω w₀ (fun w => Staged w₀ n m w ∧ k < w.drawn)
    (perform (.begin (.stage n .main))) fun _ => Within w₀ n m k m := by
  refine careful_perform (by simp [FileOp.target]) (fun _ h => h.1.toKept) fun now w v hw hok => ?_
  obtain ⟨f, hf, hact⟩ := FileOp.begin_ok hok
  obtain rfl : m = f := by simpa using hw.1.stage.symm.trans hf
  rw [hact]
  exact ⟨⟨⟨hw.1.named, hw.1.drawn⟩, hw.1.stage⟩, hw.2, rfl⟩

theorem execute_spec (s : Statement) : Careful U ω w₀ (Within w₀ n m k g) (perform (.execute s))
    fun _ => Within w₀ n m k (s.apply g) :=
  careful_perform (by simp [FileOp.target]) (fun _ h => h.toKept) fun now w v hw _ =>
    ⟨⟨⟨hw.named, hw.drawn⟩, hw.stage⟩, hw.drawn', congrArg (Option.map s.apply) hw.session⟩

theorem uuid4_spec : Careful U ω w₀ (Within w₀ n m k g) (perform .uuid4)
    fun (uuid : Text) w => Within w₀ n m k g w ∧ ∃ k', k < k' ∧ uuid = U.draw k' := by
  refine careful_perform (by simp [FileOp.target]) (fun _ h => h.toKept) fun now w v hw hok => ?_
  exact ⟨⟨⟨⟨hw.named, hw.drawn.trans (Nat.le_succ _)⟩, hw.stage⟩, hw.drawn'.trans (Nat.lt_succ_self _),
    hw.session⟩, w.drawn, hw.drawn', (Except.ok.inj hok).symm⟩

theorem commit_spec : Careful U ω w₀ (Within w₀ n m k g) (perform (.commit (.stage n .main)))
    fun _ => Staged w₀ n g := by
  refine careful_perform (by simp [FileOp.target]) (fun _ h => h.toKept) fun now w v hw _ => ?_
  refine ⟨hw.toKept.act (by simp [FileOp.target]), ?_⟩
  simp only [FileOp.act, hw.session]
  exact Function.update_self ..

theorem appendAudit_spec (t : Time) : Careful U ω w₀ (Staged w₀ n g)
    (perform (.appendAudit (.stage n .main) t)) fun _ => Staged w₀ n (g.audited t) := by
  refine careful_perform (by simp [FileOp.target]) (fun _ h => h.toKept) fun now w v hw hok => ?_
  obtain ⟨f, hf, hact⟩ := FileOp.appendAudit_ok hok
  obtain rfl : g = f := by simpa using hw.stage.symm.trans hf
  refine ⟨hw.toKept.act (by simp [FileOp.target]), ?_⟩
  rw [hact]
  exact Function.update_self ..

theorem sanitize_spec : Careful U ω w₀ (Copied w₀ snapshot n) (sanitize (.stage n .main))
    fun _ => Sanitized U w₀ snapshot n := by
  have hcopied : ∀ w, Copied w₀ snapshot n w → Kept w₀ w := fun _ ⟨_, _, h⟩ => h.toKept
  have hkept : ∀ w, Sanitized U w₀ snapshot n w → Kept w₀ w := fun _ ⟨_, _, _, _, _, _, _, h⟩ => h.toKept
  refine .bind (careful_plain rfl (fun _ _ => rfl) hcopied) fun _ =>
    .bind (careful_plain rfl (fun _ _ => rfl) hcopied) fun _ => .bind openStore_spec fun _ =>
    .bind (careful_plain rfl (fun _ _ => rfl) fun w ⟨_, _, _, _, h, _⟩ => h.toKept) fun _ =>
    .tryFinally (.exists fun f => .exists fun m => .exists fun k => ?_) (all_close _)
      (fun o => close_target) ?_ fun _ => hkept
  · intro s ⟨hopened, hs⟩
    refine Careful.bind (careful_plain rfl (fun _ _ => rfl)
      fun w (h : Staged w₀ n m w ∧ k < w.drawn) => h.1.toKept) (fun now => ?_) s hs
    refine .bind begin_spec fun _ => .bind (execute_spec _) fun _ => .bind (execute_spec _) fun _ =>
      .bind (execute_spec _) fun _ => .bind (execute_spec _) fun _ => .bind (execute_spec _) fun _ =>
      .bind uuid4_spec fun uuid => ?_
    intro s ⟨hs, k', hk, huuid⟩
    obtain rfl := huuid
    refine Careful.conseq (Q := fun _ => Staged w₀ n (m.sanitized now (U.draw k'))) ?_ (fun _ h => h)
      (fun _ w h => ⟨f, m, k, k', now, hopened, hk, h⟩) s hs
    exact .bind (execute_spec _) fun _ => .bind commit_spec fun _ => .bind (appendAudit_spec now) fun _ =>
      .bind (careful_plain rfl (fun _ _ => rfl) fun _ h => h.toKept) fun _ =>
      careful_plain rfl (fun _ _ => rfl) fun _ h => h.toKept
  · rintro - o now w ⟨path, rfl⟩ ⟨f, m, k, k', t, hopened, hk, hstaged⟩
    exact ⟨f, m, k, k', t, hopened, hk, hstaged.close⟩

/-! ## Publication -/

/-- The destination was free, and is what `restore_new` makes of the snapshot; nothing else with a
name has changed. -/
structure Published (U : Uuids) (w₀ : Files) (snapshot destination : String) (w : Files) : Prop where
  others : ∀ path, path ≠ destination → w.entry (.named path) = w₀.entry (.named path)
  free : w₀.entry (.named destination) = none
  published : ∃ f m k k' now, Opened U w₀ snapshot f m k ∧ k < k' ∧
    w.entry (.named destination) = some (.database (m.sanitized now (U.draw k')))

/-- What a restore leaves behind, whether it returns or raises. -/
def Done (U : Uuids) (w₀ : Files) (snapshot destination : String) (w : Files) : Prop :=
  Kept w₀ w ∨ Published U w₀ snapshot destination w

theorem Published.act {o : FileOp} {now : Time} (h : Published U w₀ snapshot destination w)
    (ho : ∀ path, o.target ≠ some (.named path)) :
    Published U w₀ snapshot destination (o.act U now w).2 := by
  obtain ⟨f, m, k, k', t, hopened, hk, hdestination⟩ := h.published
  exact ⟨fun path hne => (FileOp.act_named (ho path)).trans (h.others path hne), h.free, f, m, k, k', t,
    hopened, hk, (FileOp.act_named (ho destination)).trans hdestination⟩

theorem kept_exec {I : Files → Prop} {o : FileOp} {s : Machine} (h : I s.files)
    (hact : ∀ now, I (o.act U now s.files).2) : I (FileOp.exec U ω o s).2.files := by
  rcases exec_files (U := U) (ω := ω) o s with hsame | ⟨now, heq⟩
  · exact hsame ▸ h
  · exact heq ▸ hact now

/-- What a program leaves behind that returns only when it has published. -/
def Publishes (U : Uuids) (ω : Nat → Outside) (w₀ : Files) (snapshot destination : String)
    (P : Files → Prop) (m : Action α) : Prop :=
  Sat (FileOp.exec U ω) (fun s => P s.files) m
    (fun _ s => Published U w₀ snapshot destination s.files)
    fun _ s => Done U w₀ snapshot destination s.files

section Publishes
variable {P : Files → Prop} {Q : α → Files → Prop}

theorem Careful.then {m : Action α} {f : α → Action β} (hm : Careful U ω w₀ P m Q)
    (hf : ∀ a, Publishes U ω w₀ snapshot destination (Q a) (f a)) :
    Publishes U ω w₀ snapshot destination P (m >>= f) :=
  Sat.bind (Sat.conseq hm (fun _ h => h) (fun _ _ h => h) fun _ _ h => Or.inl h) hf

theorem Publishes.refuse {e : Exn} (hP : ∀ w, P w → Kept w₀ w) :
    Publishes U ω w₀ snapshot destination P (Prog.raise e : Action α) :=
  .raise fun s hs => .inl (hP s.files hs)

theorem Publishes.tryFinally {m : Action α} {fin : Action Unit} {p : FileOp → Prop}
    (h : Publishes U ω w₀ snapshot destination P m) (hfin : fin.All p)
    (hp : ∀ o, p o → ∀ path, o.target ≠ some (.named path)) :
    Publishes U ω w₀ snapshot destination P (m.tryFinally fin) := by
  refine (Sat.tryFinally h hfin (fun a o s ho hs => ?_) fun e o s ho hs => ?_).conseq (fun _ h => h)
    (fun _ _ h => h) fun e s hs => ?_
  · exact kept_exec hs fun now => hs.act (hp o ho)
  · refine kept_exec hs fun now => ?_
    rcases hs with hkept | hpublished
    · exact .inl (hkept.act (hp o ho))
    · exact .inr (hpublished.act (hp o ho))
  · rcases hs with ⟨-, hs⟩ | ⟨a, hs⟩
    · exact hs
    · exact .inr hs

end Publishes

theorem link_spec : Publishes U ω w₀ snapshot destination (Sanitized U w₀ snapshot n)
    (perform (.link (.stage n .main) (.named destination))) := by
  intro s ⟨f, m, k, k', t, hopened, hk, hstaged⟩
  rcases FileOp.exec_cases (U := U) (ω := ω) (.link (.stage n .main) (.named destination)) s with
    ⟨e, hexec⟩ | ⟨now, hexec⟩
  · simp only [perform, Prog.run_perform_bind, hexec]
    exact .inl hstaged.toKept
  · simp only [perform, Prog.run_perform_bind, hexec]
    cases hanswer : ((FileOp.link (.stage n .main) (.named destination)).act U now s.files).1 with
    | error e =>
      refine .inl ?_
      simp only [Prog.run_raise]
      rw [FileOp.link_error hanswer]
      exact hstaged.toKept
    | ok v =>
      obtain ⟨entry, hentry, hfree, hact⟩ := FileOp.link_ok hanswer
      obtain rfl := Option.some.inj (hstaged.stage.symm.trans hentry)
      simp only [Prog.pure_eq, Prog.run_ret, hact]
      refine ⟨fun path hne => ?_, (hstaged.named destination).symm.trans hfree, f, m, k, k', t, hopened,
        hk, Function.update_self ..⟩
      exact (Function.update_of_ne (fun he => hne (Path.named.inj he)) _ _).trans (hstaged.named path)

theorem all_unlinkStage (suffixes : List Suffix) :
    (unlinkStage n suffixes).All fun o => ∃ suffix, o = .unlink (.stage n suffix) := by
  induction suffixes with
  | nil => trivial
  | cons suffix rest ih =>
    exact Prog.All.bind ⟨⟨suffix, rfl⟩, fun r => by cases r <;> trivial⟩ fun _ => ih

theorem unlink_target {o : FileOp} (h : ∃ suffix, o = .unlink (.stage n suffix)) (path : String) :
    o.target ≠ some (.named path) := by
  obtain ⟨suffix, rfl⟩ := h
  simp [FileOp.target]

theorem snapshotNew_spec : Publishes U ω w₀ snapshot destination (Kept w₀)
    (snapshotNew (.named snapshot) (.named destination)) := by
  refine (careful_plain rfl (fun _ _ => rfl) fun _ h => h).then fun _ =>
    (careful_plain rfl (fun _ _ => rfl) fun _ h => h).then fun (taken : Bool) => ?_
  cases taken with
  | true => exact .refuse fun _ h => h
  | false =>
    have hmkstemp : Careful U ω w₀ (Kept w₀) (perform .mkstemp) fun _ => Kept w₀ :=
      careful_perform (by simp [FileOp.target]) (fun _ h => h) fun now w v hw _ =>
        hw.act (o := .mkstemp) (by simp [FileOp.target])
    refine hmkstemp.then fun n => (careful_plain rfl (fun _ _ => rfl) fun _ h => h).then fun _ =>
      .tryFinally (copy_spec.then fun _ => sanitize_spec.then fun _ =>
        (careful_plain rfl (fun _ _ => rfl) fun w ⟨_, _, _, _, _, _, _, h⟩ => h.toKept).then fun _ =>
        Sat.bind link_spec fun _ => .ret fun _ h => h) (all_unlinkStage _) fun o => unlink_target

theorem restoreNew_spec {confirmed : Bool} : Publishes U ω w₀ snapshot destination (Kept w₀)
    (restoreNew (.named snapshot) (.named destination) confirmed) := by
  cases confirmed with
  | false => exact .refuse fun _ h => h
  | true =>
    refine (careful_plain rfl (fun _ _ => rfl) fun _ h => h).then fun _ =>
      (careful_plain rfl (fun _ _ => rfl) fun _ h => h).then fun (taken : Bool) => ?_
    cases taken with
    | true => exact .refuse fun _ h => h
    | false =>
      have hconnect : Careful U ω w₀ (Kept w₀) (perform (.connect (.named snapshot)))
          fun _ => Kept w₀ :=
        careful_perform (by simp [FileOp.target]) (fun _ h => h) fun now w v hw _ =>
          hw.act (o := .connect (.named snapshot)) (by simp [FileOp.target])
      exact (careful_plain rfl (fun _ _ => rfl) fun _ h => h).then fun _ =>
        (careful_plain rfl (fun _ _ => rfl) fun _ h => h).then fun _ => hconnect.then fun _ =>
          snapshotNew_spec.tryFinally (all_close _) fun o => close_target

/-! ## Failures -/

def Failed (o : FileOp) (answer : o.Ret) : Prop := ∃ e, answer = .error e

def Cleans (o : FileOp) : Prop := (∃ path, o = .close path) ∨ ∃ path, o = .unlink path

theorem failStop_perform (o : FileOp) : (perform o).FailStop Failed Cleans := by
  intro r
  cases r with
  | ok v => exact ⟨(fun ⟨_, he⟩ => nomatch he), trivial⟩
  | error e => exact ⟨fun _ => trivial, trivial⟩

theorem cleans_close (path : Path) : (perform (.close path)).All Cleans :=
  (all_close path).mono fun _ => .inl

theorem cleans_unlinkStage (suffixes : List Suffix) : (unlinkStage n suffixes).All Cleans :=
  (all_unlinkStage suffixes).mono fun _ ⟨_, h⟩ => .inr ⟨_, h⟩

theorem failStop_unlinkStage (suffixes : List Suffix) :
    (unlinkStage n suffixes).FailStop Failed Cleans := by
  induction suffixes with
  | nil => trivial
  | cons suffix rest ih => exact (failStop_perform _).bind fun _ => ih

theorem failStop_sanitize (stage : Path) : (sanitize stage).FailStop Failed Cleans := by
  have h := failStop_perform
  refine (h _).bind fun _ => (h _).bind fun _ => (h _).bind fun _ => (h _).bind fun _ =>
    .tryFinally ((h _).bind fun now => ?_) (h _) (cleans_close _)
  exact (h _).bind fun _ => (h _).bind fun _ => (h _).bind fun _ => (h _).bind fun _ =>
    (h _).bind fun _ => (h _).bind fun _ => (h _).bind fun uuid => (h _).bind fun _ =>
    (h _).bind fun _ => (h _).bind fun _ => (h _).bind fun _ => h _

theorem failStop_copy (source stage : Path) : (copy source stage).FailStop Failed Cleans := by
  have h := failStop_perform
  exact (h _).bind fun _ => .tryFinally ((h _).bind fun _ => (h _).bind fun _ => h _) (h _)
    (cleans_close _)

theorem failStop_restoreNew (source target : Path) (confirmed : Bool) :
    (restoreNew source target confirmed).FailStop Failed Cleans := by
  have h := failStop_perform
  have hsnapshot : (snapshotNew source target).FailStop Failed Cleans := by
    refine (h _).bind fun _ => (h _).bind fun (taken : Bool) => ?_
    cases taken with
    | true => trivial
    | false =>
      exact (h _).bind fun n => (h _).bind fun _ => .tryFinally ((failStop_copy _ _).bind fun _ =>
        (failStop_sanitize _).bind fun _ => (h _).bind fun _ => (h _).bind fun _ => trivial)
          (failStop_unlinkStage _) (cleans_unlinkStage _)
  cases confirmed with
  | false => trivial
  | true =>
    refine (h _).bind fun _ => (h _).bind fun (taken : Bool) => ?_
    cases taken with
    | true => trivial
    | false =>
      exact (h _).bind fun _ => (h _).bind fun _ => (h _).bind fun _ =>
        hsnapshot.tryFinally (h _) (cleans_close _)

/-- Only the link changes anything that has a name. -/
def Confined (destination : String) (o : FileOp) : Prop :=
  (∀ path, o.target ≠ some (.named path)) ∨ ∃ source, o = .link source (.named destination)

theorem confined_perform {o : FileOp} (h : Confined destination o) :
    (perform o).All (Confined destination) := ⟨h, fun r => by cases r <;> trivial⟩

theorem confined_restoreNew (source : Path) (confirmed : Bool) :
    (restoreNew source (.named destination) confirmed).All (Confined destination) := by
  have h : ∀ {o : FileOp}, (∀ path, o.target ≠ some (.named path)) →
      (perform o).All (Confined destination) := fun ho => confined_perform (.inl ho)
  have hclose : ∀ path, (perform (.close path)).All (Confined destination) := fun path =>
    h (by simp [FileOp.target])
  have hsanitize : ∀ n, (sanitize (.stage n .main)).All (Confined destination) := fun n =>
    .bind (h (by simp [FileOp.target])) fun _ => .bind (h (by simp [FileOp.target])) fun _ =>
    .bind (h (by simp [FileOp.target])) fun _ => .bind (h (by simp [FileOp.target])) fun _ =>
    .tryFinally (.bind (h (by simp [FileOp.target])) fun now =>
      .bind (h (by simp [FileOp.target])) fun _ => .bind (h (by simp [FileOp.target])) fun _ =>
      .bind (h (by simp [FileOp.target])) fun _ => .bind (h (by simp [FileOp.target])) fun _ =>
      .bind (h (by simp [FileOp.target])) fun _ => .bind (h (by simp [FileOp.target])) fun _ =>
      .bind (h (by simp [FileOp.target])) fun uuid => .bind (h (by simp [FileOp.target])) fun _ =>
      .bind (h (by simp [FileOp.target])) fun _ => .bind (h (by simp [FileOp.target])) fun _ =>
      .bind (h (by simp [FileOp.target])) fun _ => h (by simp [FileOp.target])) (hclose _)
  have hcopy : ∀ n, (copy source (.stage n .main)).All (Confined destination) := fun n =>
    .bind (h (by simp [FileOp.target])) fun _ => .tryFinally (.bind (h (by simp [FileOp.target]))
      fun _ => .bind (h (by simp [FileOp.target])) fun _ => h (by simp [FileOp.target])) (hclose _)
  have hsnapshot : (snapshotNew source (.named destination)).All (Confined destination) := by
    refine .bind (h (by simp [FileOp.target])) fun _ => .bind (h (by simp [FileOp.target]))
      fun (taken : Bool) => ?_
    cases taken with
    | true => trivial
    | false =>
      exact .bind (h (by simp [FileOp.target])) fun n => .bind (h (by simp [FileOp.target])) fun _ =>
        .tryFinally (.bind (hcopy n) fun _ => .bind (hsanitize n) fun _ =>
          .bind (h (by simp [FileOp.target])) fun _ => .bind (confined_perform (.inr ⟨_, rfl⟩))
            fun _ => trivial) ((all_unlinkStage _).mono fun _ ho => .inl (unlink_target ho))
  cases confirmed with
  | false => trivial
  | true =>
    refine .bind (h (by simp [FileOp.target])) fun _ => .bind (h (by simp [FileOp.target]))
      fun (taken : Bool) => ?_
    cases taken with
    | true => trivial
    | false =>
      exact .bind (h (by simp [FileOp.target])) fun _ => .bind (h (by simp [FileOp.target])) fun _ =>
        .bind (h (by simp [FileOp.target])) fun _ => .tryFinally hsnapshot (hclose _)

def isLink (o : FileOp) : Prop := ∃ source target, o = .link source target

/-- A run in which no link succeeds leaves what has a name alone. -/
theorem unpublished {α : Type} {m : Action α} (hm : m.All (Confined destination)) {s : Machine}
    (hlink : ∀ c ∈ (m.run (FileOp.exec U ω) s).calls, isLink c.1 → Failed c.1 c.2) (path : String) :
    (m.run (FileOp.exec U ω) s).world.files.entry (.named path) = s.files.entry (.named path) := by
  have hgood : ∀ c ∈ (m.run (FileOp.exec U ω) s).calls,
      Confined destination c.1 ∧ (isLink c.1 → Failed c.1 c.2) := fun c hc =>
    ⟨hm.calls s c hc, hlink c hc⟩
  refine Prog.run_keeps (I := fun s' : Machine => s'.files.entry (.named path) =
    s.files.entry (.named path)) (fun o s' hs hgood => ?_) rfl hgood
  obtain ⟨hconfined, hfailed⟩ := hgood
  rcases hconfined with htarget | ⟨source, rfl⟩
  · exact kept_exec (I := fun w => w.entry (.named path) = s.files.entry (.named path)) hs fun now =>
      (FileOp.act_named (htarget path)).trans hs
  · obtain ⟨e, he⟩ := hfailed ⟨source, _, rfl⟩
    rcases FileOp.exec_cases (U := U) (ω := ω) (.link source (.named destination)) s' with
      ⟨e', hexec⟩ | ⟨now, hexec⟩
    · rw [hexec]
      exact hs
    · rw [hexec] at he ⊢
      exact (congrArg (fun w => w.entry (.named path)) (FileOp.link_error he)).trans hs

/-! ## The result -/

theorem Published.restored (hdrawn : ∀ f, w₀.entry (.named snapshot) = some (.database f) →
      ∀ t, f.identity = some t → ∃ k < w₀.drawn, t = U.draw k)
    (h : Published U w₀ snapshot destination w) : ∃ f g, w₀.entry (.named snapshot) = some (.database f) ∧
      w.entry (.named destination) = some (.database g) ∧ DbFile.Restored f g := by
  obtain ⟨f, m, k, k', now, hopened, hk, hdestination⟩ := h.published
  refine ⟨f, _, hopened.snapshot, hdestination, DbFile.restored_sanitized hopened.migrated fun hsame => ?_⟩
  obtain ⟨k₀, hk₀, hdraw⟩ := hdrawn f hopened.snapshot _ hsame
  have hindex := U.injective hdraw
  have hle := hopened.drawn
  omega

theorem Published.source (h : Published U w₀ snapshot destination w) :
    w.entry (.named snapshot) = w₀.entry (.named snapshot) := by
  refine h.others snapshot fun hsame => ?_
  obtain ⟨f, m, k, k', now, hopened, -⟩ := h.published
  have hfree := h.free
  rw [← hsame, hopened.snapshot] at hfree
  cases hfree

theorem Published.ne (h : Published U w₀ snapshot destination w) :
    w.entry (.named destination) ≠ w₀.entry (.named destination) := by
  obtain ⟨f, m, k, k', now, -, -, hdestination⟩ := h.published
  rw [hdestination, h.free]
  exact Option.some_ne_none _

/-- What `restore_new` publishes is inert and remembers every key of the snapshot, which it never
changes; and where a call before the link fails, or no link is made, it raises and nothing is
published. Identifiers are drawn by `uuid4`, the snapshot's too. -/
theorem restore_inert_lossless (U : Uuids) (ω : Nat → Outside) (w : Files)
    (snapshot destination : String) (confirmed : Bool)
    (hdrawn : ∀ f, w.entry (.named snapshot) = some (.database f) →
      ∀ t, f.identity = some t → ∃ k < w.drawn, t = U.draw k) :
    let ran := (restoreNew (.named snapshot) (.named destination) confirmed).run (FileOp.exec U ω) ⟨w, 0⟩
    ran.world.files.entry (.named snapshot) = w.entry (.named snapshot) ∧
    ((∃ path, ran.result = .ok path) ∨
        ran.world.files.entry (.named destination) ≠ w.entry (.named destination) →
      ∃ f g, w.entry (.named snapshot) = some (.database f) ∧
        ran.world.files.entry (.named destination) = some (.database g) ∧ DbFile.Restored f g ∧
        ∀ (H : Hash) (w' : World) (ok : Config → Move → Prop) (c : Config), w'.db = g.db → w'.log = [] →
          w'.backups = [] → (broker H).Steps ok ⟨w', []⟩ c →
            ∀ row ∈ f.requestTable.rows, Unexecuted c row.base.id) ∧
    (∀ pre call post, ran.calls = pre ++ call :: post → Failed call.1 call.2 →
        (∀ c ∈ pre, ¬isLink c.1) → (∃ e, ran.result = .error e) ∧
          ran.world.files.entry (.named destination) = w.entry (.named destination)) ∧
    ((∀ c ∈ ran.calls, ¬isLink c.1) → (∃ e, ran.result = .error e) ∧
      ran.world.files.entry (.named destination) = w.entry (.named destination)) := by
  intro ran
  have hstart : Kept w w := ⟨fun _ => rfl, Nat.le_refl _⟩
  have hspec : Publishes U ω w snapshot destination (Kept w)
      (restoreNew (.named snapshot) (.named destination) confirmed) := restoreNew_spec
  have hok : ∀ path, ran.result = .ok path → Published U w snapshot destination ran.world.files :=
    fun path hresult => hspec.returned (w := ⟨w, 0⟩) hstart hresult
  have hdone : Done U w snapshot destination ran.world.files := by
    cases hresult : ran.result with
    | ok path => exact .inr (hok path hresult)
    | error e => exact hspec.raised (w := ⟨w, 0⟩) hstart hresult
  have hraises : ran.world.files.entry (.named destination) = w.entry (.named destination) →
      ∃ e, ran.result = .error e := by
    intro hsame
    cases hresult : ran.result with
    | ok path => exact absurd hsame (hok path hresult).ne
    | error e => exact ⟨e, rfl⟩
  have hconfined : (restoreNew (.named snapshot) (.named destination) confirmed).All
      (Confined destination) := confined_restoreNew (.named snapshot) confirmed
  refine ⟨?_, fun haccepted => ?_, fun pre call post hcalls hfailed hpre => ?_, fun hnone => ?_⟩
  · rcases hdone with hkept | hpublished
    · exact hkept.named snapshot
    · exact hpublished.source
  · have hpublished : Published U w snapshot destination ran.world.files := by
      rcases haccepted with ⟨path, hresult⟩ | hchanged
      · exact hok path hresult
      · exact hdone.resolve_left fun hkept => hchanged (hkept.named destination)
    obtain ⟨f, g, hf, hg, hrestored⟩ := hpublished.restored hdrawn
    refine ⟨f, g, hf, hg, hrestored, fun H w' ok c hdb hlog hbackups hrun row hrow => ?_⟩
    exact ((hdb ▸ hrestored.inert : w'.db.Inert _).world hlog hbackups).unexecuted hrun ⟨row, hrow, rfl⟩
  · obtain ⟨herror, hpost⟩ := (failStop_restoreNew _ _ confirmed).run hcalls hfailed
    refine ⟨herror, unpublished hconfined (fun c hc hlink => ?_) destination⟩
    have hmem : c ∈ pre ++ call :: post := hcalls ▸ hc
    rcases List.mem_append.1 hmem with hbefore | hafter
    · exact absurd hlink (hpre c hbefore)
    · rcases List.mem_cons.1 hafter with rfl | hlater
      · exact hfailed
      · obtain ⟨source, target, heq⟩ := hlink
        rcases hpost c hlater with ⟨path, hclose⟩ | ⟨path, hunlink⟩
        · exact nomatch heq.symm.trans hclose
        · exact nomatch heq.symm.trans hunlink
  · have hsame := unpublished (U := U) (ω := ω) (s := ⟨w, 0⟩) hconfined
      (fun c hc hlink => absurd hlink (hnone c hc)) destination
    exact ⟨hraises hsame, hsame⟩

namespace Sample

def uuids : Uuids := ⟨fun n => List.replicate n 'u', List.replicate_left_injective 'u'⟩

/-- An old database that has been opened once, and nothing else. -/
def files : Files where
  entry path := if path = .named "old" then
    some (.database (DbFile.legacyFile.openAll [⟨uuids.draw 0, none⟩])) else none
  drawn := 1

def restored : Interleave.Ran FileOp FileOp.Ret Exn Path Machine :=
  (restoreNew (.named "old") (.named "new") true).run (FileOp.exec uuids fun _ => {}) ⟨files, 0⟩

end Sample

/-- The old database is restored to a new path. -/
theorem restore_inert_lossless_published : ∃ f g, Sample.files.entry (.named "old") = some (.database f) ∧
    Sample.restored.world.files.entry (.named "new") = some (.database g) ∧ DbFile.Restored f g := by
  have haccepted : Sample.restored.result.isOk = true := by decide +kernel
  obtain ⟨path, hpath⟩ : ∃ path, Sample.restored.result = .ok path := by
    cases hresult : Sample.restored.result with
    | ok path => exact ⟨path, rfl⟩
    | error e =>
      rw [hresult] at haccepted
      cases haccepted
  obtain ⟨f, g, hf, hg, hrestored, -⟩ := (restore_inert_lossless Sample.uuids (fun _ => {}) Sample.files
    "old" "new" true fun f hf t ht => by
      obtain rfl : DbFile.legacyFile.openAll [⟨Sample.uuids.draw 0, none⟩] = f :=
        Entry.database.inj (Option.some.inj hf)
      have hidentity : (DbFile.legacyFile.openAll [⟨Sample.uuids.draw 0, none⟩]).identity =
          some (Sample.uuids.draw 0) := by decide +kernel
      exact ⟨0, by decide, Option.some.inj (ht.symm.trans hidentity)⟩).2.1 (.inl ⟨path, hpath⟩)
  exact ⟨f, g, hf, hg, hrestored⟩

end Restore

end Toolstack.Broker
