import Toolstack.Broker.Recovery
import Toolstack.Interleave.Supplement

/-! What an audit event says about its request, as a fact that outlives whatever happens to the request
afterwards, and what a thread must be able to show before it records one. -/

namespace Toolstack.Broker

open Interleave (Discipline Prog)
open Interleave.Discipline (Shows)

variable {H : Hash} {i r : Nat} {w : World} {ω : Oracle}

/-! ## Facts -/

/-- What an event says about its request. -/
inductive Fact
  | known
  | opened
  | approved
  | started
  | ended (s : Status)

/-- A completed request keeps its effect and loses its result. -/
def Row.Ended (s : Status) (row : Row) : Prop :=
  s.terminal = true ∧ (row.status = s ∨ s = .completed ∧ row.status = .resultExpired)

def Fact.Says : Fact → Row → Receipt → Prop
  | known, _, _ => True
  | opened, _, R => R.approvals ≠ []
  | approved, _, R => ∃ j, ⟨j, .claimed true⟩ ∈ R.events
  | started, _, R => ∃ j b, ⟨j, .claimed b⟩ ∈ R.events
  | ended s, row, _ => row.Ended s

/-- The request exists, and it is as the fact has it. -/
def Fact.Holds (f : Fact) (R : Receipt) : Prop := ∃ row, R.row = some row ∧ f.Says row R

/-- What the events of the broker say about their requests, by component and type. -/
def said (component eventType : String) : Fact :=
  match component, eventType with
  | "request", "completed" => .ended .completed
  | "request", "denied" => .ended .denied
  | "request", "failed" => .ended .failed
  | "request", "expired" => .ended .expired
  | "request", "unknown" => .ended .unknown
  | "policy", "decision_deny" => .ended .denied
  | "approval", "unavailable" => .ended .failed
  | "approval", "open_failed" => .ended .failed
  | "approval", "opened" => .opened
  | "approval", "approved" => .approved
  | "approval", "rejected" => .ended .denied
  | "approval", "expired" => .ended .expired
  | "approval", "cancelled" => .ended .expired
  | "runtime", "execution_started" => .started
  | "runtime", "execution_completed" => .ended .completed
  | "runtime", "execution_failed" => .ended .failed
  | "runtime", "execution_unknown" => .ended .unknown
  | _, _ => .known

theorem Fact.Holds.known {f : Fact} {R : Receipt} (h : f.Holds R) : Fact.known.Holds R := by
  obtain ⟨row, hrow, -⟩ := h
  exact ⟨row, hrow, trivial⟩

/-! ## Facts last -/

theorem Row.Ended.terminal {s : Status} {row : Row} (h : row.Ended s) : row.status.terminal = true := by
  obtain ⟨hterminal, rfl | ⟨-, hstatus⟩⟩ := h
  · exact hterminal
  · rw [hstatus]
    rfl

theorem Row.Ended.prune {s : Status} {row : Row} (h : row.Ended s) (now : Time) : (row.prune now).Ended s := by
  obtain ⟨hterminal, hstatus⟩ := h
  refine ⟨hterminal, ?_⟩
  rcases hstatus with rfl | ⟨rfl, hstatus⟩
  · by_cases hcompleted : row.status = .completed
    · exact .inr ⟨hcompleted, if_pos hcompleted⟩
    · exact .inl (if_neg hcompleted)
  · refine .inr ⟨rfl, ?_⟩
    show (if row.status = .completed then Status.resultExpired else row.status) = .resultExpired
    rw [hstatus]
    rfl

namespace Receipt
variable {R R' R'' : Receipt}

/-- Only pruning touches a request that has ended. -/
theorem Step.ended (h : Step H i R R') {row : Row} (hrow : R.row = some row)
    (hterminal : row.status.terminal = true) : R' = R ∨ ∃ now f, (∀ a ∈ R.approvals, (f a).status = a.status) ∧
      R' = { R with row := some (row.prune now), approvals := R.approvals.map f } := by
  have hopen : ∀ {row'}, R.row = some row' → row'.status.terminal = true := by
    intro row' h
    obtain rfl := Option.some.inj (hrow.symm.trans h)
    exact hterminal
  have howned : ¬R.Owned i := by
    rintro ⟨⟨row', hrow', hheld⟩, -⟩
    exact Bool.false_ne_true ((Status.not_terminal_of_held hheld).symm.trans (hopen hrow'))
  cases h with
  | stay => exact .inl rfl
  | reserve absent => cases hrow.symm.trans absent
  | card _ owned | opening owned | park _ owned | claim _ owned | execute _ _ owned | send _ _ owned
  | settle owned => exact absurd owned howned
  | approve _ present status | refuse _ present status =>
    have hstatus := hopen present
    rw [status] at hstatus
    cases hstatus
  | prune now f present _ kept =>
    obtain rfl := Option.some.inj (hrow.symm.trans present)
    exact .inr ⟨now, f, fun a ha => (kept a ha).2, rfl⟩

theorem Step.events (h : Step H i R R') {e : Event} (he : e ∈ R.events) : e ∈ R'.events := by
  cases h with
  | stay | park | settle | refuse | prune => exact he
  | reserve | card | opening | claim | approve | execute | send => exact List.mem_cons_of_mem _ he

theorem Step.opened (h : Step H i R R') (hopened : R.approvals ≠ []) : R'.approvals ≠ [] := by
  have hprefix := h.later.approvals
  intro hnil
  rw [hnil, List.map_nil, List.prefix_nil, List.map_eq_nil_iff] at hprefix
  exact hopened hprefix

end Receipt

theorem Fact.Holds.step {f : Fact} {R R' : Receipt} (h : f.Holds R) (hstep : R.Step H i R') : f.Holds R' := by
  obtain ⟨row, hrow, hholds⟩ := h
  obtain ⟨row', hrow', -⟩ := hstep.later.row row hrow
  cases f with
  | known => exact ⟨row', hrow', trivial⟩
  | opened => exact ⟨row', hrow', hstep.opened hholds⟩
  | approved =>
    obtain ⟨j, hj⟩ := hholds
    exact ⟨row', hrow', j, hstep.events hj⟩
  | started =>
    obtain ⟨j, b, hj⟩ := hholds
    exact ⟨row', hrow', j, b, hstep.events hj⟩
  | ended s =>
    rcases hstep.ended hrow hholds.terminal with rfl | ⟨now, g, -, rfl⟩
    · exact ⟨row, hrow, hholds⟩
    · exact ⟨_, rfl, hholds.prune now⟩

theorem Lasting.holds (f : Fact) (r : Nat) : Lasting H i fun w => f.Holds (w.receipt r) :=
  .of_step fun hstep h => h.step hstep

/-! ## Maintenance -/

/-- What becomes of a receipt that is kept in a maintained database. -/
structure Receipt.Survives (R R' : Receipt) : Prop where
  row : ∀ row, R.row = some row →
    ∃ row', R'.row = some row' ∧ (row.status.terminal = true → row'.status = row.status)
  approvals : R.approvals ≠ [] → R'.approvals ≠ []
  events : R'.events = R.events

theorem Receipt.Survives.trans {R R' R'' : Receipt} (h : R.Survives R') (h' : R'.Survives R'') : R.Survives R'' where
  row := by
    intro row hrow
    obtain ⟨row', hrow', hstatus⟩ := h.row row hrow
    obtain ⟨row'', hrow'', hstatus'⟩ := h'.row row' hrow'
    refine ⟨row'', hrow'', fun hterminal => ?_⟩
    rw [hstatus' (by rwa [hstatus hterminal]), hstatus hterminal]
  approvals := fun ha => h'.approvals (h.approvals ha)
  events := h'.events.trans h.events

theorem Fact.Holds.survives {f : Fact} {R R' : Receipt} (h : f.Holds R) (hR : R.Survives R') : f.Holds R' := by
  obtain ⟨row, hrow, hholds⟩ := h
  obtain ⟨row', hrow', hstatus⟩ := hR.row row hrow
  refine ⟨row', hrow', ?_⟩
  cases f with
  | known => trivial
  | opened => exact hR.approvals hholds
  | approved =>
    obtain ⟨j, hj⟩ := hholds
    exact ⟨j, by rwa [hR.events]⟩
  | started =>
    obtain ⟨j, b, hj⟩ := hholds
    exact ⟨j, b, by rwa [hR.events]⟩
  | ended s =>
    refine ⟨hholds.1, ?_⟩
    rw [hstatus hholds.terminal]
    exact hholds.2

theorem survives_sweep {db : Db} {log : List Call} {s : Status} {e : String} {now : Time} {p : Status → Bool}
    (hp : ∀ s, p s = true → s.terminal = false) (r : Nat) :
    (receiptOf r db log).Survives (receiptOf r (db.sweepStatus p s e now) log) where
  row := by
    intro row hrow
    refine ⟨_, (Db.get?_sweepStatus p s e now db r).trans (congrArg (Option.map _) hrow), fun hterminal => ?_⟩
    have hnot : ¬p row.status = true := by
      intro h
      rw [hp _ h] at hterminal
      cases hterminal
    simp only [if_neg hnot]
  approvals := fun h => h
  events := rfl

theorem Status.unfinished_open {s : Status} (h : s.unfinished = true) : s.terminal = false := by
  cases s <;> first | rfl | cases h

/-- A restored database keeps what its snapshot says of each request. -/
theorem survives_sanitize (db : Db) (log : List Call) (now : Time) (uuid : Text) (r : Nat) :
    (receiptOf r db log).Survives (receiptOf r (db.sanitize now uuid) log) := by
  let cancelled : Db := { db with
    approvals := db.approvals.update (fun a => a.status = .pending)
      (fun a => { a with status := .cancelled, note := none }) fun _ => rfl }
  have hcancelled : (receiptOf r db log).Survives (receiptOf r cancelled log) := by
    refine ⟨fun row hrow => ⟨row, hrow, fun _ => rfl⟩, fun hopened hnil => hopened ?_, rfl⟩
    have hselect := Table.select_update db.approvals (fun a => a.status = .pending) (fun a => a.requestId = r)
      (fun a => { a with status := .cancelled, note := none }) (fun _ => rfl) fun _ => rfl
    exact List.map_eq_nil_iff.1 (hselect.symm.trans hnil)
  have hexpired : (receiptOf r cancelled log).Survives (receiptOf r (cancelled.sweepStatus
      (fun s => s = .pendingApproval) .expired "restore_cancelled" now) log) :=
    survives_sweep (fun s hs => by rw [of_decide_eq_true hs]; rfl) r
  exact (hcancelled.trans hexpired).trans (survives_sweep (fun _ => Status.unfinished_open) r)

/-! ## What is asked of an audit event -/

/-- An event about a request says what holds of it. -/
def Tells (_ : Nat) : Op → World → Prop
  | .appendAudit component eventType _ _ (some r) _, w => (said component eventType).Holds (w.receipt r)
  | _, _ => True

def AuditEvent.Truthful (db : Db) (log : List Call) (e : AuditEvent) : Prop :=
  ∀ r, e.requestId = some r → (said e.component e.eventType).Holds (receiptOf r db log)

/-- Every event of the trail is true, and every event of a snapshot's trail. -/
structure World.Truthful (w : World) : Prop where
  current : ∀ e ∈ w.db.audit, e.Truthful w.db w.log
  backups : ∀ b ∈ w.backups, ∀ e ∈ b.1.audit, e.Truthful b.1 b.2

theorem writePolicy_audit (now : Time) (c : Nat) (policy : Policy) (db : Db) :
    (db.writePolicy now c policy).audit = db.audit := rfl

theorem claimApproval_audit (fresh : PyStr) (r : Nat) (generation : Option Text) (state : SurfaceState) (now : Time)
    (caller : Option Caller) (db : Db) :
    (db.claimApproval H fresh r generation state now caller).2.audit = db.audit := by
  unfold Db.claimApproval
  split
  · rfl
  · simp only
    split
    · rfl
    · split_ifs <;> rfl

/-- The calls that append to the trail. -/
def Op.audits : Op → Bool
  | appendAudit .. | compareAndSetPolicy .. => true
  | _ => false

theorem Op.audit_run {o : Op} (ho : o.audits = false) : (o.run H ω w).2.audit = w.db.audit := by
  cases o with
  | reserveAction caller corr tool op arguments reason generation key =>
    simp only [Op.run]
    rcases reserveAction_cases H ω.now ω.hex caller corr tool op arguments reason generation key w.db with
      ⟨e, hdb⟩ | ⟨k, text, prior, -, -, -, -, -, hdb⟩ | ⟨k, text, bound, -, -, -, -, -, hdb⟩ <;> rw [hdb]
  | claimReceived r generation caller digest =>
    simp only [Op.run, Db.claimReceived]
    split
    · rfl
    · split_ifs <;> rfl
  | claimApproval => exact claimApproval_audit ..
  | finishPending r s as e st now b =>
    simp only [Op.run]
    rcases finishPending_eq r s as e st (now.getD ω.now) b w.db with hdb | ⟨row, a, -, -, -, -, -, hdb⟩
    · rw [hdb]
    · rw [hdb]
      rfl
  | setPolicy c policy =>
    rcases setPolicy_cases ω.now c policy w.db with hdb | hdb <;> simp only [Op.run, hdb, writePolicy_audit]
  | updateRequest r fields =>
    simp only [Op.run, Db.updateRequest]
    split_ifs <;> rfl
  | createApproval r ref expiresAt digest =>
    simp only [Op.run, Db.createApproval]
    split_ifs <;> rfl
  | addCaller name =>
    simp only [Op.run, Db.addCaller]
    split_ifs <;> rfl
  | addToken c h =>
    simp only [Op.run, Db.addToken]
    split_ifs <;> rfl
  | revokeTokenByPrefix pre =>
    simp only [Op.run, Db.revokeTokenByPrefix]
    split_ifs <;> rfl
  | appendAudit | compareAndSetPolicy => cases ho
  | _ => rfl

/-- The trail only grows, by an event about a request only where that holds. -/
theorem audit_grows {o : Op} (htells : Tells i o w) : ∀ e ∈ (o.run H ω w).2.audit,
    e ∈ w.db.audit ∨ ∀ r, e.requestId = some r → (said e.component e.eventType).Holds (w.receipt r) := by
  intro e he
  cases hop : o.audits with
  | false =>
    rw [Op.audit_run hop] at he
    exact .inl he
  | true =>
    cases o with
    | appendAudit component eventType outcome corr rid details =>
      rcases List.mem_append.1 he with hold | hnew
      · exact .inl hold
      · obtain rfl := List.mem_singleton.1 hnew
        refine .inr fun r hr => ?_
        obtain rfl : rid = some r := hr
        exact htells
    | compareAndSetPolicy c before after operator =>
      simp only [Op.run, Db.compareAndSetPolicy] at he
      split at he
      · exact .inl he
      · split_ifs at he
        · exact .inl he
        · rcases List.mem_append.1 he with hold | hnew
          · exact .inl hold
          · obtain rfl := List.mem_singleton.1 hnew
            exact .inr fun r hr => by cases hr
    | _ => cases hop

/-! ## Truth is kept -/

namespace World.Truthful

theorem exec {o : Op} (ω : Oracle) (hs : w.Sound H) (hreq : Requires i o w) (h : w.Truthful) (htells : Tells i o w) :
    (w.exec H i o ω).2.Truthful where
  current := by
    intro e he r hr
    have hbefore : (said e.component e.eventType).Holds (w.receipt r) := by
      rcases audit_grows (ω := ω) htells e he with hold | hnew
      · exact h.current e hold r hr
      · exact hnew r hr
    exact hbefore.step ((exec_worldStep hs.current hreq).receipts r)
  backups := h.backups

theorem env (e : EnvMove) (h : w.Truthful) : (e.apply w).Truthful := by
  cases e with
  | reload | edit => exact ⟨h.current, h.backups⟩
  | backup =>
    refine ⟨h.current, fun b hb => ?_⟩
    rcases List.mem_append.1 hb with hold | hnew
    · exact h.backups b hold
    · obtain rfl := List.mem_singleton.1 hnew
      exact h.current

theorem offline {w' : World} (f : OfflineMove) (h : w.Truthful) (happ : f.apply w = some w') : w'.Truthful := by
  cases f with
  | reconcile now =>
    obtain rfl := Option.some.inj happ
    refine ⟨fun e he r hr => ?_, h.backups⟩
    exact (h.current e he r hr).survives (survives_sweep (fun _ => Status.unfinished_open) r)
  | restore n now uuid =>
    obtain ⟨b, hb, rfl⟩ := Option.map_eq_some_iff.1 happ
    refine ⟨fun e he r hr => ?_, h.backups⟩
    rcases List.mem_append.1 he with hold | hnew
    · exact (h.backups b (List.mem_of_getElem? hb) e hold r hr).survives (survives_sanitize b.1 b.2 now uuid r)
    · obtain rfl := List.mem_singleton.1 hnew
      cases hr

end World.Truthful

end Toolstack.Broker
