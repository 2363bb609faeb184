import Toolstack.Broker.Effects

/-! Terminal statuses: nothing leaves them, nothing private stays behind them, and pruning
touches nothing else. -/

namespace Toolstack.Broker

open Interleave (System)

variable {H : Hash} {c c' : Config} {r : Nat} {row : Row} {db : Db} {now : Time}

/-! ## Pruning -/

theorem Row.prune_not_prunable (row : Row) : Db.prunable now (row.prune now) = false := by
  simp [Db.prunable, Row.prune]

theorem Db.prunePayloads_row (db : Db) (now : Time) (r : Nat) :
    (db.prunePayloads now).2.request r =
      (db.request r).map fun row => if Db.prunable now row then row.prune now else row :=
  Table.get?_update _ _ _ (fun _ => by rfl) r

/-- Pruning leaves nothing to prune. -/
theorem Db.prunePayloads_settled (db : Db) (now : Time) :
    ∀ row ∈ (db.prunePayloads now).2.requests.rows, Db.prunable now row = false := by
  intro row hrow
  obtain ⟨row₀, -, rfl⟩ := List.mem_map.1 hrow
  cases hp : Db.prunable now row₀ with
  | true => exact Row.prune_not_prunable row₀
  | false => simpa using hp

theorem Db.prunePayloads_of_settled (h : ∀ row ∈ db.requests.rows, Db.prunable now row = false) :
    db.prunePayloads now = (0, db) := by
  have hcount : db.requests.select (Db.prunable now) = [] := by
    simpa [Table.select, List.filter_eq_nil_iff] using h
  have happ : ∀ a ∈ db.approvals.rows,
      (db.requests.get? a.requestId).any (Db.prunable now) = false := by
    intro a _
    cases hget : db.requests.get? a.requestId with
    | none => rfl
    | some row => exact h row (Table.mem_of_get? hget)
  have hreq' : (db.prunePayloads now).2.requests = db.requests :=
    Table.update_eq_self _ _ (fun _ => by rfl) h
  have happ' : (db.prunePayloads now).2.approvals = db.approvals :=
    Table.update_eq_self _ _ (fun _ => by rfl) happ
  refine Prod.ext (congrArg List.length hcount) ?_
  change Db.mk _ _ _ _ (db.prunePayloads now).2.requests (db.prunePayloads now).2.approvals _ = db
  rw [hreq', happ']

theorem Db.prunePayloads_idempotent (db : Db) (now : Time) :
    (db.prunePayloads now).2.prunePayloads now = (0, (db.prunePayloads now).2) :=
  Db.prunePayloads_of_settled (db.prunePayloads_settled now)

/-- Requests under way, and requests touched within the last seven days, are left alone. -/
theorem Db.prunePayloads_frame (hrow : db.request r = some row)
    (hkeep : row.status.terminal = false ∨ now - Db.retention ≤ row.updatedAt) :
    (db.prunePayloads now).2.request r = some row ∧
      ((db.prunePayloads now).2.approvals.select fun a => a.requestId = r) =
        db.approvals.select fun a => a.requestId = r := by
  have hnot : Db.prunable now row = false := by
    rcases hkeep with h | h
    · simp [Db.prunable, h]
    · simp [Db.prunable, not_lt.2 h]
  refine ⟨by rw [db.prunePayloads_row, hrow, Option.map_some, hnot]; rfl, ?_⟩
  have hsel := Table.select_update db.approvals
    (fun a => (db.requests.get? a.requestId).any (Db.prunable now)) (fun a => a.requestId = r)
    (fun a => { a with note := none }) (fun _ => by rfl) fun _ => rfl
  refine hsel.trans ?_
  rw [List.map_congr_left (g := id), List.map_id]
  intro a ha
  have hreq : a.requestId = r := of_decide_eq_true (Table.mem_select.1 ha).2
  have hget : db.requests.get? a.requestId = some row := hreq ▸ hrow
  rw [hget, Option.any_some, hnot]
  rfl

/-! ## Terminal requests -/

/-- The approval of a request was granted by the claim that took the request. -/
theorem Reachable.approved (h : Reachable H c) {a : ApprovalRow} (ha : a ∈ c.world.db.approvals.rows)
    (hstatus : a.status = .approved) :
    ∃ i g state now caller,
      (⟨i, .claimApproval a.requestId g state now caller, true⟩ : Call) ∈ c.world.log := by
  have hsound := h.sound.current.receipts a.requestId
  have hmem : a ∈ (c.world.receipt a.requestId).approvals := mem_approvals.2 ⟨ha, rfl⟩
  cases hrow : c.world.db.requests.get? a.requestId with
  | none =>
    have hnone : (c.world.receipt a.requestId).approvals = [] := (hsound.absent hrow).1
    simp [hnone] at hmem
  | some row =>
    obtain ⟨e, he, hact⟩ := (hsound.row hrow).approved a hmem hstatus
    obtain ⟨call, hcall, habout⟩ := List.mem_filterMap.1 he
    obtain ⟨-, hcallact⟩ := Call.act_of_about habout
    rw [hact] at hcallact
    rcases Call.act_claimed hcallact with ⟨hb, -⟩ | ⟨-, i, g, state, now, caller, rfl⟩
    · cases hb
    · exact ⟨i, g, state, now, caller, hcall⟩

/-- A terminal status is final and leaves nothing private; a result belongs to a completed
request; a request has one approval at most, approved by the claim of the request alone; and
pruning changes nothing that is younger or still under way, and nothing twice. -/
theorem terminal_final (h : Reachable H c) (r : Nat) :
    (∀ c' row, (broker H).Steps SameDatabase c c' → c.world.db.request r = some row →
      row.status.terminal = true →
      ∃ row', c'.world.db.request r = some row' ∧ row'.status.terminal = true) ∧
    (∀ row, c.world.db.request r = some row →
      (row.status.terminal = true → row.argumentsJson = none ∧ row.actionJson = none) ∧
      (row.resultJson.isSome → row.status = .completed)) ∧
    (c.world.db.approvals.select fun a => a.requestId = r).length ≤ 1 ∧
    (∀ a ∈ c.world.db.approvals.rows, a.status = .approved → ∃ i g state now caller,
      (⟨i, .claimApproval a.requestId g state now caller, true⟩ : Call) ∈ c.world.log) ∧
    ∀ now,
      (∀ row, c.world.db.request r = some row →
        row.status.terminal = false ∨ now - 7 * 86400 ≤ row.updatedAt →
        (c.world.db.prunePayloads now).2.request r = some row) ∧
      (c.world.db.prunePayloads now).2.prunePayloads now = (0, (c.world.db.prunePayloads now).2) := by
  refine ⟨fun c' row hrun hrow hterm => ?_, fun row hrow => ?_, ?_, fun a ha => h.approved ha,
    fun now => ⟨fun row hrow hkeep => (Db.prunePayloads_frame hrow hkeep).1,
      Db.prunePayloads_idempotent _ now⟩⟩
  · obtain ⟨row', hrow', hprec⟩ := (h.later hrun r).row row hrow
    exact ⟨row', hrow', hprec.terminal hterm⟩
  · have hsound := (h.sound.current.receipts r).row hrow
    exact ⟨hsound.cleared, hsound.result⟩
  · have hsound := h.sound.current.receipts r
    cases hrow : c.world.db.requests.get? r with
    | none =>
      have hnone : (c.world.db.approvals.select fun a => a.requestId = r) = [] :=
        (hsound.absent hrow).1
      simp [hnone]
    | some row => exact (hsound.row hrow).single

theorem terminal_final_completed : ∃ c row, after Sample.hash Sample.completed = some c ∧
    c.world.db.request 1 = some row ∧ row.status = .completed ∧ row.argumentsJson = none ∧
    row.actionJson = none := by
  have hrun : ((after Sample.hash Sample.completed).bind fun c => c.world.db.request 1).map
      Row.status = some .completed := by decide +kernel
  obtain ⟨row, hrow, hstatus⟩ := Option.map_eq_some_iff.1 hrun
  obtain ⟨c, hc, hrow⟩ := Option.bind_eq_some_iff.1 hrow
  have hclear := ((terminal_final (.after hc) 1).2.1 row hrow).1 (by rw [hstatus]; rfl)
  exact ⟨c, row, hc, hrow, hstatus, hclear.1, hclear.2⟩

end Toolstack.Broker
