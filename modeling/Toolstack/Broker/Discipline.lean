import Toolstack.Interleave.Rely
import Toolstack.Broker.Calls

/-! The discipline all threads keep: every call meets its requirement, the database stays
sound, and a thread may count on whatever no sequence of moves of the others can change. -/

namespace Toolstack.Broker

open Interleave (Discipline)

variable {H : Hash} {i j : Nat} {w w' : World}

/-! ## The invariant -/

/-- The database and all its snapshots are sound. -/
structure World.Sound (H : Hash) (w : World) : Prop where
  current : Broker.Sound H w.db w.log
  backups : ∀ b ∈ w.backups, Broker.Sound H b.1 b.2

namespace Sound
variable {db db' : Db} {log : List Call}

theorem initial (uuid : Text) : Sound H { installationUuid := uuid } [] :=
  ⟨fun _ => ⟨rfl, rfl⟩, fun _ _ _ _ _ h => by simp at h, fun _ _ _ _ _ h => by simp [eventsOf] at h⟩

/-- A sweep over the requests that keeps callers, keys and the soundness of each row. -/
theorem update_requests {p : Row → Bool} {f : Row → Row} (hs : Sound H db log)
    (hf : ∀ r, Keyed.key (f r) = Keyed.key r)
    (hreq : db'.requests = db.requests.update p f hf) (happ : db'.approvals = db.approvals)
    (hfrozen : ∀ row, (f row).frozen = row.frozen)
    (hstep : ∀ row R, p row = true → R.row = some row → RowSound H row R →
      RowSound H (f row) ⟨some (f row), R.approvals, R.events⟩) : Sound H db' log := by
  have hget : ∀ r, db'.requests.get? r =
      (db.requests.get? r).map fun row => if p row then f row else row := fun r => by
    rw [hreq, Table.get?_update]
  have hsame : ∀ row, (if p row then f row else row).frozen = row.frozen := fun row => by
    split_ifs
    · exact hfrozen row
    · rfl
  refine ⟨fun r => ?_, fun r r' row row' k hr hr' hc hk hk' => ?_, hs.once⟩
  · have hrec := hs.receipts r
    cases hrow : db.requests.get? r with
    | none =>
      have hnone : (receiptOf r db' log).row = none := (hget r).trans (by rw [hrow]; rfl)
      have habs := hrec.absent hrow
      simp only [Receipt.Sound, hnone]
      exact ⟨by rw [← habs.1]; simp only [receiptOf, happ], habs.2⟩
    | some row =>
      have hsome : receiptOf r db' log = ⟨some (if p row then f row else row),
          (receiptOf r db log).approvals, (receiptOf r db log).events⟩ := by
        simp only [receiptOf, hget, hrow, Option.map_some, happ]
      rw [hsome]
      split_ifs with hp
      · exact .of_row (hstep row _ hp hrow (hrec.row hrow))
      · have heq : receiptOf r db log = ⟨some row, (receiptOf r db log).approvals,
            (receiptOf r db log).events⟩ := by rw [← hrow]; rfl
        exact heq ▸ hrec
  · rw [hget] at hr hr'
    obtain ⟨row₀, hr₀, rfl⟩ := Option.map_eq_some_iff.1 hr
    obtain ⟨row₀', hr₀', rfl⟩ := Option.map_eq_some_iff.1 hr'
    rw [Row.frozen_callerId (hsame row₀), Row.frozen_callerId (hsame row₀')] at hc
    rw [Row.frozen_key (hsame _)] at hk hk'
    exact hs.keys r r' row₀ row₀' k hr₀ hr₀' hc hk hk'

/-- A sweep over the approvals that approves nothing. -/
theorem update_approvals {q : ApprovalRow → Bool} {g : ApprovalRow → ApprovalRow}
    (hs : Sound H db log) (hg : ∀ a, Keyed.key (g a) = Keyed.key a) (hreq : db'.requests = db.requests)
    (happ : db'.approvals = db.approvals.update q g hg)
    (hkeep : ∀ a, (g a).requestId = a.requestId)
    (hstatus : ∀ a, (g a).status = .approved → a.status = .approved) : Sound H db' log := by
  have hsel : ∀ r, (db'.approvals.select fun a => a.requestId = r) =
      (db.approvals.select fun a => a.requestId = r).map fun a => if q a then g a else a :=
    fun r => by rw [happ, Table.select_update _ _ _ _ _ fun a => by simp [hkeep]]
  refine ⟨fun r => ?_, fun r r' row row' k hr hr' => ?_, hs.once⟩
  · have hrec := hs.receipts r
    cases hrow : db.requests.get? r with
    | none =>
      have hnone : (receiptOf r db' log).row = none := by simp only [receiptOf, hreq, hrow]
      have habs := hrec.absent hrow
      have hempty : (db.approvals.select fun a => a.requestId = r) = [] := habs.1
      simp only [Receipt.Sound, hnone]
      exact ⟨by simp only [receiptOf, hsel, hempty, List.map_nil], habs.2⟩
    | some row =>
      have hsound := hrec.row hrow
      have hsome : receiptOf r db' log = ⟨some row, (receiptOf r db log).approvals.map fun a =>
          if q a then g a else a, (receiptOf r db log).events⟩ := by
        simp only [receiptOf, hreq, hrow, hsel]
      rw [hsome]
      refine .of_row { hsound with
        single := by simpa using hsound.single
        approved := hsound.approved_mono (fun a' ha' hst => ?_) fun _ he => he }
      obtain ⟨a, ha, rfl⟩ := List.mem_map.1 ha'
      refine ⟨a, ha, ?_⟩
      split_ifs at hst with hq
      · exact hstatus a hst
      · exact hst
  · rw [hreq] at hr hr'
    exact hs.keys r r' row row' k hr hr'

/-- Nothing but requests, approvals and the log is looked at. -/
theorem of_tables (hs : Sound H db log) (hreq : db'.requests = db.requests)
    (happ : db'.approvals = db.approvals) : Sound H db' log := by
  refine ⟨fun r => ?_, fun r r' row row' k hr hr' => ?_, hs.once⟩
  · have heq : receiptOf r db' log = receiptOf r db log := by simp only [receiptOf, hreq, happ]
    exact heq ▸ hs.receipts r
  · rw [hreq] at hr hr'
    exact hs.keys r r' row row' k hr hr'

/-- A fixed end fits whatever the request has done so far. -/
theorem sweepStatus {p : Status → Bool} {s : Status} {e : String} {now : Time}
    (hs : Sound H db log) (hterm : s.terminal = true)
    (hfits : ∀ row row' (st : Stage), p row.status = true → row'.status = s → st.Fits row →
      st.Fits row') : Sound H (db.sweepStatus p s e now) log := by
  refine hs.update_requests (fun _ => by rfl) rfl rfl (fun _ => rfl) fun row R hp hrow hsound => ?_
  obtain ⟨st, hst, hfit⟩ := hsound.stage
  exact hsound.ends ⟨rfl, hterm, rfl, rfl⟩ rfl (fun a ha hst => ⟨a, ha, hst⟩) (by simp)
    ⟨st, hst, hfits row _ st hp rfl hfit⟩

theorem unfinished_unknown {e : String} {now : Time} (hs : Sound H db log) :
    Sound H (db.sweepStatus Status.unfinished .unknown e now) log :=
  hs.sweepStatus rfl fun _ _ _ _ hrow' _ => by simp [Stage.Fits, hrow']

theorem reconcileOffline {now : Time} (hs : Sound H db log) :
    Sound H (db.reconcileOffline now) log := hs.unfinished_unknown

theorem sanitize {now : Time} {uuid : Text} (hs : Sound H db log) :
    Sound H (db.sanitize now uuid) log := by
  have hcancel : Sound H { db with
      approvals := db.approvals.update (fun a => a.status = .pending)
        (fun a => { a with status := .cancelled, note := none }) fun _ => rfl } log :=
    hs.update_approvals (fun _ => by rfl) rfl rfl (fun _ => rfl) fun _ h => by simp at h
  have hexpire : Sound H (Db.sweepStatus (fun s => s = .pendingApproval) .expired
      "restore_cancelled" now _) log :=
    hcancel.sweepStatus rfl fun row row' st hp hrow' hfit => by
      have hunclaimed : row.status.unclaimed = true := by
        rw [of_decide_eq_true hp]
        rfl
      rw [hfit.idle hunclaimed]
      exact Stage.fits_idle (by simp [hrow', Status.unclaimed])
  have hunknown : Sound H (Db.sweepStatus Status.unfinished .unknown "restore_unknown" now _) log :=
    hexpire.unfinished_unknown
  exact hunknown.of_tables rfl rfl

end Sound

/-! ## The rely -/

/-- What the other threads, and whatever moves beside the threads, may do in any time. -/
inductive Others (H : Hash) (i : Nat) (w : World) : World → Prop
  | refl : Others H i w w
  | call {w' : World} {j : Nat} {o : Op} (ω : Oracle) (before : Others H i w w') (other : j ≠ i)
      (sound : w'.Sound H) (requires : Requires j o w') : Others H i w (w'.exec H j o ω).2
  | env {w' : World} (e : EnvMove) (before : Others H i w w') : Others H i w (e.apply w')

theorem EnvMove.apply_receipt (e : EnvMove) (w : World) (r : Nat) :
    (e.apply w).receipt r = w.receipt r := by
  cases e <;> rfl

theorem EnvMove.apply_log (e : EnvMove) (w : World) : (e.apply w).log = w.log := by
  cases e <;> rfl

theorem EnvMove.apply_db (e : EnvMove) (w : World) : (e.apply w).db = w.db := by
  cases e <;> rfl

namespace Others

theorem trans {w'' : World} (h : Others H i w w') (h' : Others H i w' w'') : Others H i w w'' := by
  induction h' with
  | refl => exact h
  | call ω _ other sound requires ih => exact .call ω ih other sound requires
  | env e _ ih => exact .env e ih

/-- A held request belongs to its holder. -/
theorem owned (h : Others H i w w') {r : Nat} (hown : (w.receipt r).Owned i) :
    w'.receipt r = w.receipt r := by
  induction h with
  | refl => rfl
  | call ω _ other sound requires ih =>
    have hstep := (exec_worldStep (ω := ω) sound.current requires).receipts r
    rw [hstep.frame (ih ▸ hown) other, ih]
  | env e _ ih => rw [e.apply_receipt, ih]

theorem later (h : Others H i w w') (r : Nat) : (w.receipt r).Later (w'.receipt r) := by
  induction h with
  | refl => exact .refl _
  | call ω _ _ sound requires ih =>
    exact ih.trans ((exec_worldStep (ω := ω) sound.current requires).receipts r).later
  | env e _ ih => rwa [e.apply_receipt]

theorem log (h : Others H i w w') : ∃ new, w'.log = new ++ w.log ∧ ∀ c ∈ new, c.thread ≠ i := by
  induction h with
  | refl => exact ⟨[], rfl, by simp⟩
  | @call w' j o ω _ other _ _ ih =>
    obtain ⟨new, hlog, hnew⟩ := ih
    refine ⟨⟨j, o, _⟩ :: new, by rw [exec_snd, hlog, List.cons_append], ?_⟩
    intro c hc
    rcases List.mem_cons.1 hc with rfl | hmem
    · exact other
    · exact hnew c hmem
  | env e _ ih => rwa [e.apply_log]

end Others

/-! ## The discipline -/

/-- Thread `i` has not acted, in this database or in any snapshot of it. -/
structure Fresh (i : Nat) (w : World) : Prop where
  log : ∀ c ∈ w.log, c.thread ≠ i
  backups : ∀ b ∈ w.backups, ∀ c ∈ b.2, c.thread ≠ i

theorem World.Sound.exec {o : Op} (ω : Oracle) (hs : w.Sound H) (hreq : Requires i o w) :
    (w.exec H i o ω).2.Sound H :=
  ⟨exec_sound hs.current hreq, hs.backups⟩

theorem World.Sound.env (e : EnvMove) (hs : w.Sound H) : (e.apply w).Sound H := by
  cases e with
  | reload => exact ⟨hs.current, hs.backups⟩
  | edit => exact ⟨hs.current, hs.backups⟩
  | backup =>
    refine ⟨hs.current, fun b hb => ?_⟩
    rcases List.mem_append.1 hb with hold | hnew
    · exact hs.backups b hold
    · obtain rfl := List.mem_singleton.1 hnew
      exact hs.current

theorem World.Sound.offline (f : OfflineMove) (hs : w.Sound H) (h : f.apply w = some w') :
    w'.Sound H := by
  cases f with
  | reconcile now =>
    obtain rfl := Option.some.inj h
    exact ⟨hs.current.reconcileOffline, hs.backups⟩
  | restore n now uuid =>
    obtain ⟨b, hb, rfl⟩ := Option.map_eq_some_iff.1 h
    exact ⟨(hs.backups b (List.mem_of_getElem? hb)).sanitize, hs.backups⟩

theorem Fresh.others (hf : Fresh i w) (h : Others H i w w') : Fresh i w' := by
  induction h with
  | refl => exact hf
  | call ω _ other _ _ ih =>
    refine ⟨fun c hc => ?_, ih.backups⟩
    rcases List.mem_cons.1 hc with rfl | hmem
    · exact other
    · exact ih.log c hmem
  | env e _ ih =>
    refine ⟨by rw [e.apply_log]; exact ih.log, ?_⟩
    cases e with
    | reload => exact ih.backups
    | edit => exact ih.backups
    | backup =>
      intro b hb
      rcases List.mem_append.1 hb with hold | hnew
      · exact ih.backups b hold
      · obtain rfl := List.mem_singleton.1 hnew
        exact ih.log

theorem Fresh.offline (f : OfflineMove) (hf : Fresh i w) (h : f.apply w = some w') : Fresh i w' := by
  cases f with
  | reconcile now =>
    obtain rfl := Option.some.inj h
    exact ⟨hf.log, hf.backups⟩
  | restore n now uuid =>
    obtain ⟨b, hb, rfl⟩ := Option.map_eq_some_iff.1 h
    exact ⟨hf.backups b (List.mem_of_getElem? hb), hf.backups⟩

def discipline (H : Hash) : Discipline (broker H) where
  inv := World.Sound H
  rely := Others H
  requires := Requires
  fresh := Fresh
  rely_refl _ _ := .refl
  rely_trans := Others.trans
  fresh_rely := Fresh.others
  exec_inv ω hs hreq := hs.exec ω hreq
  exec_rely ω hs hreq hne := .call ω .refl hne hs hreq
  env_inv e hs := hs.env e
  env_rely e _ _ := .env e .refl
  offline_inv f hs h := hs.offline f h
  offline_fresh f hf h := hf.offline f h

end Toolstack.Broker
