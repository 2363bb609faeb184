import Toolstack.Broker.Revocation

/-! Recovery after a crash: an approval does not outlive its request, and a sweep past its deadline
closes it, unless its request is reconciled, or swept, before it has been parked. -/

namespace Toolstack.Broker

open Interleave (Discipline Prog System)
open Interleave.Discipline (Triple)

variable {H : Hash} {i r : Nat} {row : Row} {a : ApprovalRow} {c c' : Config} {m : Move} {w : World}

/-! ## Approvals beside their request -/

namespace Receipt

/-- Only a request that is being opened or is parked has a pending approval. -/
def Tidy (R : Receipt) : Prop :=
  ∀ row, R.row = some row → row.status ≠ .received → row.status ≠ .pendingApproval →
    ∀ a ∈ R.approvals, a.status ≠ .pending

/-- The request got past its reservation and has no pending approval: it never gets one again. -/
structure Shut (R : Receipt) : Prop where
  advanced : R.Advanced
  closed : ∀ a ∈ R.approvals, a.status ≠ .pending

/-- The request got past its reservation, with an approval of this deadline. -/
structure Awaiting (deadline : Time) (R : Receipt) : Prop where
  advanced : R.Advanced
  tidy : R.Tidy
  timed : ∃ a ∈ R.approvals, a.expiresAt = deadline

variable {R R' : Receipt}

theorem Step.closed (h : Step H i R R') (hadvanced : R.Advanced)
    (hclosed : ∀ a ∈ R.approvals, a.status ≠ .pending) : ∀ a ∈ R'.approvals, a.status ≠ .pending := by
  cases h with
  | stay | reserve | card | park | claim | execute | send | settle => exact hclosed
  | opening owned present status =>
    obtain ⟨row, hrow, hstatus⟩ := hadvanced
    obtain rfl := Option.some.inj (present.symm.trans hrow)
    exact absurd status hstatus
  | approve now present status single pending frozen approved =>
    refine List.forall_mem_singleton.2 ?_
    rw [approved]
    decide
  | refuse f present status ends result refused closes =>
    exact List.forall_mem_map.2 fun a ha => (closes a ha).closed
  | prune now f present old kept =>
    refine List.forall_mem_map.2 fun a ha => ?_
    rw [(kept a ha).2]
    exact hclosed a ha

theorem tidy_some {row : Row} {as : List ApprovalRow} {es : List Event}
    (h : row.status ≠ .received → row.status ≠ .pendingApproval → ∀ a ∈ as, a.status ≠ .pending) :
    Tidy ⟨some row, as, es⟩ := by
  intro row' hrow'
  obtain rfl := Option.some.inj hrow'
  exact h

theorem Step.tidy (h : Step H i R R') (htidy : R.Tidy) : R'.Tidy := by
  cases h with
  | stay | card | execute | send => exact htidy
  | reserve absent reserved status => exact tidy_some fun hne => absurd status hne
  | opening owned present status =>
    intro row hrow hne
    obtain rfl := Option.some.inj (present.symm.trans hrow)
    exact absurd status hne
  | park => exact tidy_some fun _ hne => absurd rfl hne
  | claim now owned present status untouched => exact tidy_some fun _ _ => untouched.settled
  | approve now present status single pending frozen approved =>
    refine tidy_some fun _ _ => List.forall_mem_singleton.2 ?_
    rw [approved]
    decide
  | settle owned present ends settled => exact tidy_some fun _ _ => settled
  | refuse f present status ends result refused closes =>
    exact tidy_some fun _ _ => List.forall_mem_map.2 fun a ha => (closes a ha).closed
  | prune now f present old kept =>
    refine tidy_some fun _ _ => List.forall_mem_map.2 fun a ha => ?_
    rw [(kept a ha).2]
    have hterm := Db.prunable_terminal old
    exact htidy _ present (fun heq => by rw [heq] at hterm; cases hterm)
      (fun heq => by rw [heq] at hterm; cases hterm) a ha

theorem Step.shut (h : Step H i R R') (hR : R.Shut) : R'.Shut :=
  ⟨hR.advanced.later h.later, h.closed hR.advanced hR.closed⟩

theorem Step.awaiting {deadline : Time} (h : Step H i R R') (hR : R.Awaiting deadline) :
    R'.Awaiting deadline := by
  refine ⟨hR.advanced.later h.later, h.tidy hR.tidy, ?_⟩
  obtain ⟨a, ha, htimed⟩ := hR.timed
  have hmem : a.frozen ∈ R'.approvals.map ApprovalRow.frozen :=
    h.later.approvals.subset (List.mem_map_of_mem ha)
  obtain ⟨a', ha', hfrozen⟩ := List.mem_map.1 hmem
  exact ⟨a', ha', (congrArg ApprovalRow.expiresAt hfrozen :).trans htimed⟩

end Receipt

theorem Others.keeps_receipt {Φ : Receipt → Prop} {w' : World} (h : Others H i w w')
    (hstep : ∀ {j R R'}, Receipt.Step H j R R' → Φ R → Φ R') (hw : Φ (w.receipt r)) :
    Φ (w'.receipt r) := by
  induction h with
  | refl => exact hw
  | call ω _ _ sound requires ih =>
    exact hstep ((exec_worldStep (ω := ω) sound.current requires).receipts r) ih
  | env e _ ih => rwa [e.apply_receipt]

/-- What every step of a receipt keeps lasts. -/
theorem Lasting.of_step {Φ : Receipt → Prop} (hstep : ∀ {j R R'}, Receipt.Step H j R R' → Φ R → Φ R') :
    Lasting H i fun w => Φ (w.receipt r) where
  stable _ _ hothers hw := hothers.keeps_receipt hstep hw
  exec _ _ ω hs hreq hw := hstep ((exec_worldStep (ω := ω) hs.current hreq).receipts r) hw

theorem Kept.of_step {Φ : Receipt → Prop} (hstep : ∀ {j R R'}, Receipt.Step H j R R' → Φ R → Φ R') :
    Kept H i fun w => Φ (w.receipt r) where
  stable := (Lasting.of_step hstep).stable
  quiet _ hq hw := by rwa [Op.quiet_receipt hq]

theorem Kept.shut : Kept H i fun w => (w.receipt r).Shut := .of_step fun h hR => h.shut hR

theorem Kept.awaiting {deadline : Time} : Kept H i fun w => (w.receipt r).Awaiting deadline :=
  .of_step fun h hR => h.awaiting hR

theorem Lasting.shut : Lasting H i fun w => (w.receipt r).Shut := .of_step fun h hR => h.shut hR

theorem Lasting.awaiting {deadline : Time} : Lasting H i fun w => (w.receipt r).Awaiting deadline :=
  .of_step fun h hR => h.awaiting hR

/-! ## The sweep -/

/-- A finish of a parked request whose deadline has passed does not fail. -/
theorem finishPending_due {s : Status} {as : ApprovalStatus} {e : Option String} {st : Option SurfaceState}
    {now : Time} {db : Db} (hrow : db.request r = some row) (hstatus : row.status = .pendingApproval)
    (ha : db.approvalForRequest r = some a) (hpending : a.status = .pending) (hdue : a.expiresAt ≤ now) :
    db.finishPending r s as e st now true =
      (true, (db.setRequest r (Row.close now .expired none) fun _ => rfl).setApproval a.id
        (Db.decided .expired st) fun _ => rfl) := by
  have hreason : db.finishReason row a now (s, as, e) = (.expired, .expired, none) := if_pos hdue
  have hguard : (decide (row.status ≠ .pendingApproval) || decide (a.status ≠ .pending) ||
      (true && decide (now < a.expiresAt))) = false := by
    simp [hstatus, hpending, hdue]
  simp only [Db.finishPending, hrow, ha, hguard, hreason]
  rfl

theorem Receipt.Awaiting.shut {deadline : Time} {R : Receipt} (h : R.Awaiting deadline)
    (hnot : ∀ row, R.row = some row → row.status ≠ .pendingApproval) : R.Shut := by
  obtain ⟨row, hrow, hstatus⟩ := h.advanced
  exact ⟨h.advanced, h.tidy row hrow hstatus (hnot row hrow)⟩

theorem RowSound.approvals_eq {R : Receipt} (h : RowSound H row R) (ha : a ∈ R.approvals) :
    R.approvals = [a] := by
  have hlen := h.single
  cases happ : R.approvals with
  | nil =>
    rw [happ] at ha
    cases ha
  | cons b l =>
    rw [happ] at ha hlen
    obtain rfl : l = [] := List.eq_nil_of_length_eq_zero (by simpa using hlen)
    rw [List.mem_singleton.1 ha]

/-- The finish of the sweep closes an approval whose deadline has passed. -/
theorem Receipt.Awaiting.finished {deadline now : Time} {ω : Oracle} (hs : w.Sound H)
    (h : (w.receipt r).Awaiting deadline) (hdue : deadline ≤ now) :
    ((w.exec H i (.finishPending r .expired .expired none none (some now) true) ω).2.receipt r).Shut := by
  have hreq : Requires i (.finishPending r .expired .expired none none (some now) true) w :=
    ⟨.inr rfl, by decide, by decide⟩
  obtain ⟨row, hrow, hstatus⟩ := h.advanced
  obtain ⟨a, ha, htimed⟩ := h.timed
  have hsingle := ((hs.current.receipts r).row hrow).approvals_eq ha
  by_cases hopen : row.status = .pendingApproval ∧ a.status = .pending
  · have happ : w.db.approvalForRequest r = some a :=
      (approvalForRequest_eq w.db r).trans (congrArg List.head? hsingle)
    have hdb : (Op.finishPending r .expired .expired none none (some now) true).run H ω w = _ :=
      finishPending_due hrow hopen.1 happ hopen.2 (htimed ▸ hdue)
    have hafter := (Lasting.awaiting (H := H) (i := i)).exec _ _ ω hs hreq h
    have hrun := receipt_setBoth (i := i) hdb hsingle (fun _ => rfl) r
    rw [if_pos rfl, hrow] at hrun
    refine hafter.shut fun row' hrow' => ?_
    rw [hrun] at hrow'
    obtain rfl := Option.some.inj hrow'
    simp [Row.close]
  · have hclosed : ∀ b ∈ (w.receipt r).approvals, b.status ≠ .pending := by
      by_cases hparked : row.status = .pendingApproval
      · refine hsingle ▸ List.forall_mem_singleton.2 fun hpending => hopen ⟨hparked, hpending⟩
      · exact h.tidy row hrow hstatus hparked
    exact Lasting.shut.exec _ _ ω hs hreq ⟨h.advanced, hclosed⟩

namespace Lifecycle

variable {ctx : Context} {t deadline : Time}

theorem triple_cancelOnSurface {P : World → Prop} {E : Exn → World → Prop} {ref : PyStr}
    (hP : Kept H i P) : (discipline H).Triple i P (cancelOnSurface ctx ref) (fun _ => P) E := by
  unfold cancelOnSurface
  split_ifs
  · exact .bind (triple_quiet hP rfl) fun _ => .ret fun _ _ h => h
  · exact .ret fun _ _ h => h

/-- What a sweep does for one approval leaves alone what every step keeps. -/
theorem expireApproval_keeps {Φ : Receipt → Prop}
    (hstep : ∀ {j R R'}, Receipt.Step H j R R' → Φ R → Φ R') {r' : Nat} {ref : PyStr} {tool op : String}
    {corr : Text} : (discipline H).Triple i (fun w => Φ (w.receipt r))
      (expireApproval ctx r' ref tool op corr t) (fun _ w => Φ (w.receipt r)) (fun _ _ => False) := by
  have hkept : Kept H i fun w => Φ (w.receipt r) := .of_step hstep
  have hreq : ∀ w, w.Sound H → Φ (w.receipt r) →
      Requires i (.finishPending r' .expired .expired none none (some t) true) w :=
    fun _ _ _ => ⟨.inr rfl, by decide, by decide⟩
  refine .bind (triple_perform (Q := fun _ w => Φ (w.receipt r)) hkept hreq fun w ω hs hw =>
    (Lasting.of_step hstep).exec _ _ ω hs (hreq w hs hw) hw) fun changed => ?_
  cases changed with
  | false => exact .ret fun _ _ h => h
  | true =>
    exact .bind (triple_cancelOnSurface hkept) fun _ => .bind (triple_quiet hkept rfl) fun _ =>
      .ret fun _ _ h => h

/-- What a sweep at `t` makes of an approval it has listed. -/
theorem expireApproval_closes {ref : PyStr} {tool op : String} {corr : Text} (hdue : deadline ≤ t) :
    (discipline H).Triple i (fun w => (w.receipt r).Awaiting deadline)
      (expireApproval ctx r ref tool op corr t) (fun _ w => (w.receipt r).Shut) (fun _ _ => False) := by
  refine .bind (Q := fun _ w => (w.receipt r).Shut) (.perform Lasting.awaiting.stable
    (fun _ _ _ => ⟨.inr rfl, by decide, by decide⟩) fun w ω hs hw => hw.finished hs hdue) fun changed => ?_
  cases changed with
  | false => exact .ret fun _ _ h => h
  | true =>
    exact .bind (triple_cancelOnSurface Kept.shut) fun _ => .bind (triple_quiet Kept.shut rfl) fun _ =>
      .ret fun _ _ h => h

theorem sweepRows_keeps {Φ : Receipt → Prop}
    (hstep : ∀ {j R R'}, Receipt.Step H j R R' → Φ R → Φ R') (rows : List Db.Worklist) :
    (discipline H).Triple i (fun w => Φ (w.receipt r)) (sweepRows ctx t rows)
      (fun _ w => Φ (w.receipt r)) (fun _ _ => False) := by
  induction rows with
  | nil => exact .ret fun _ _ h => h
  | cons row rows ih =>
    exact .bind (expireApproval_keeps hstep) fun _ => .bind ih fun _ => .ret fun _ _ h => h

/-- The sweep goes through the whole list. -/
theorem sweepRows_closes (hdue : deadline ≤ t) {rows : List Db.Worklist} (hlisted : ∃ x ∈ rows, x.requestId = r) :
    (discipline H).Triple i (fun w => (w.receipt r).Awaiting deadline) (sweepRows ctx t rows)
      (fun _ w => (w.receipt r).Shut) (fun _ _ => False) := by
  induction rows with
  | nil =>
    obtain ⟨x, hx, -⟩ := hlisted
    cases hx
  | cons row rows ih =>
    by_cases hrow : row.requestId = r
    · subst hrow
      exact .bind (expireApproval_closes hdue) fun _ =>
        .bind (sweepRows_keeps (fun h hR => h.shut hR) rows) fun _ => .ret fun _ _ h => h
    · have hrest : ∃ x ∈ rows, x.requestId = r := by
        obtain ⟨x, hx, hxr⟩ := hlisted
        rcases List.mem_cons.1 hx with rfl | hmem
        · exact absurd hxr hrow
        · exact ⟨x, hmem, hxr⟩
      exact .bind (expireApproval_keeps fun h hR => h.awaiting hR) fun _ =>
        .bind (ih hrest) fun _ => .ret fun _ _ h => h

/-- The sweep is made for the time `t`: the one it was given, or the one its thread read. -/
def SweptAt (i : Nat) (now : Option Time) (t : Time) (w : World) : Prop :=
  now = some t ∨ now = none ∧ (⟨i, .time, t⟩ : Call) ∈ w.log

theorem Lasting.sweptAt {now : Option Time} : Lasting H i (SweptAt i now t) where
  stable hinv hinv' hothers := Or.imp_right fun h =>
    ⟨h.1, (Lasting.logged _).stable hinv hinv' hothers h.2⟩
  exec _ _ ω hs hreq := Or.imp_right fun h => ⟨h.1, (Lasting.logged _).exec _ _ ω hs hreq h.2⟩

theorem Kept.sweptAt {now : Option Time} : Kept H i (SweptAt i now t) :=
  .or (.const _) ((Kept.const _).and (.logged _))

theorem listed_of_due (hs : w.Sound H) (h : (w.receipt r).Awaiting deadline) (hdue : deadline ≤ t) :
    (w.receipt r).Shut ∨ ∃ x ∈ w.db.expiredPendingApprovals t, x.requestId = r := by
  obtain ⟨row, hrow, hstatus⟩ := h.advanced
  obtain ⟨a, ha, htimed⟩ := h.timed
  have hsingle := ((hs.current.receipts r).row hrow).approvals_eq ha
  by_cases hpending : a.status = .pending
  · obtain ⟨hmem, rfl⟩ := mem_approvals.1 ha
    have hget : w.db.requests.get? a.requestId = some row := hrow
    refine .inr ⟨⟨a.id, a.surfaceRef, a.requestId, row.tool, row.op, row.correlationId⟩, ?_, rfl⟩
    exact List.mem_filterMap.2 ⟨a, hmem, by simp [hget, hpending, htimed, hdue]⟩
  · exact .inl ⟨h.advanced, hsingle ▸ List.forall_mem_singleton.2 hpending⟩

/-- Every sweep closes the approvals whose deadline has passed, whoever makes it. -/
theorem sweepExpired_closes {now : Option Time} :
    (discipline H).Triple i (fun w => (w.receipt r).Awaiting deadline) (sweepExpired ctx now)
      (fun _ w => ∃ t, SweptAt i now t w ∧ (deadline ≤ t → (w.receipt r).Shut)) (fun _ _ => False) := by
  have htime : (discipline H).Triple i (fun w => (w.receipt r).Awaiting deadline) (nowOr now)
      (fun t w => (w.receipt r).Awaiting deadline ∧ SweptAt i now t w) (fun _ _ => False) := by
    cases now with
    | some t => exact .ret fun _ _ h => ⟨h, .inl rfl⟩
    | none =>
      exact triple_perform Kept.awaiting (fun _ _ _ => trivial) fun w ω _ hw =>
        ⟨Kept.awaiting.quiet ω rfl hw, .inr ⟨rfl, List.mem_cons_self ..⟩⟩
  refine .bind htime fun t => .bind (Q := fun rows w => ((w.receipt r).Awaiting deadline ∧ SweptAt i now t w) ∧
    (deadline ≤ t → (w.receipt r).Shut ∨ ∃ x ∈ rows, x.requestId = r)) ?_ fun rows => ?_
  · have hkept : Kept H i fun w => (w.receipt r).Awaiting deadline ∧ SweptAt i now t w :=
      Kept.awaiting.and Kept.sweptAt
    refine triple_perform hkept (fun _ _ _ => trivial) fun w ω hs hw => ⟨hkept.quiet ω rfl hw, fun hdue => ?_⟩
    exact (listed_of_due hs hw.1 hdue).imp_left fun hshut => Kept.shut.quiet ω rfl hshut
  · have hframe : ∀ {P Q : World → Prop}, (discipline H).Triple i P (sweepRows ctx t rows) (fun _ => Q)
        (fun _ _ => False) → (∀ w, Q w → deadline ≤ t → (w.receipt r).Shut) → ∀ w, w.Sound H → P w →
        SweptAt i now t w → (discipline H).wp i (sweepRows ctx t rows)
          (fun _ w => ∃ t, SweptAt i now t w ∧ (deadline ≤ t → (w.receipt r).Shut)) (fun _ _ => False) w :=
      fun htriple hQ w hs hP hswept => ((Lasting.sweptAt.triple htriple).conseq (fun _ _ h => h)
        (fun _ _ _ h => ⟨t, h.2, hQ _ h.1⟩) fun _ _ _ h => h.1) w hs ⟨hP, hswept⟩
    intro w hs ⟨⟨hawaiting, hswept⟩, hlisted⟩
    by_cases hdue : deadline ≤ t
    · rcases hlisted hdue with hshut | hlisted
      · exact hframe (sweepRows_keeps (fun h hR => h.shut hR) rows) (fun _ h _ => h) w hs hshut hswept
      · exact hframe (sweepRows_closes hdue hlisted) (fun _ h _ => h) w hs hawaiting hswept
    · exact hframe (sweepRows_keeps (fun h hR => h.awaiting hR) rows) (fun _ _ h => absurd h hdue) w hs
        hawaiting hswept

end Lifecycle

/-! ## Orderly runs -/

/-- The submit that created the approval has not parked its request. -/
def BeingOpened (a : ApprovalRow) (db : Db) : Prop :=
  ∃ row, db.request a.requestId = some row ∧ row.status = .received

/-- Nothing is reconciled while a request has its approval and is not parked. -/
def Orderly (c : Config) (m : Move) : Prop :=
  ∀ now, m = .offline (.reconcile now) → ∀ a ∈ c.world.db.approvals.rows, ¬ BeingOpened a c.world.db

theorem Db.sanitize_closed {now : Time} {uuid : Text} {db : Db} :
    ∀ a ∈ (db.sanitize now uuid).approvals.rows, a.status ≠ .pending := by
  intro a ha
  have hrows : (db.sanitize now uuid).approvals.rows = db.approvals.rows.map fun a =>
      if a.status = .pending then { a with status := .cancelled, note := none } else a := by
    simp only [Db.sanitize, Db.sweepStatus, Db.revokeTokens, Table.update, decide_eq_true_eq]
  rw [hrows] at ha
  obtain ⟨a, -, rfl⟩ := List.mem_map.1 ha
  split_ifs with h
  · exact fun h => by cases h
  · exact h

theorem tidy_step (h : Reachable H c) (hs : (broker H).step c m = some c') (horderly : Orderly c m)
    (htidy : (c.world.receipt r).Tidy) : (c'.world.receipt r).Tidy := by
  by_cases hm : SameDatabase c m
  · cases h.moved hs with
    | call i o ω move thread requires world =>
      exact world ▸ ((exec_worldStep (ω := ω) h.sound.current requires).receipts r).tidy htidy
    | still db log =>
      have heq : c'.world.receipt r = c.world.receipt r := by simp only [World.receipt, db, log]
      exact heq ▸ htidy
    | offline f move world =>
      cases f with
      | reconcile now =>
        have hworld := Option.some.inj world
        have heq : c'.world.receipt r = ⟨(c.world.receipt r).row.map (Row.reconcile now),
            (c.world.receipt r).approvals, (c.world.receipt r).events⟩ :=
          hworld ▸ receipt_reconcile c.world now r
        rw [heq]
        intro row' hrow' hne hne' a ha
        obtain ⟨row, hrow, rfl⟩ := Option.map_eq_some_iff.1 hrow'
        obtain ⟨hmem, rfl⟩ := mem_approvals.1 ha
        have hreceived : row.status ≠ .received := fun hreceived =>
          horderly now move a hmem ⟨row, hrow, hreceived⟩
        refine htidy row hrow hreceived (fun hpending => hne' ?_) a ha
        rw [Row.reconcile, if_neg (by rw [hpending]; decide)]
        exact hpending
      | restore n now uuid => exact absurd move (hm n now uuid)
  · obtain ⟨b, -, now, uuid, hworld⟩ := restored hs hm
    intro row hrow hne hne' a ha
    rw [hworld] at ha
    exact Db.sanitize_closed a (mem_approvals.1 ha).1

theorem tidy_of_steps {uuid : Text} (hrun : (broker H).Steps Orderly ⟨World.initial uuid, []⟩ c) :
    (c.world.receipt r).Tidy := by
  refine hrun.invariant (P := fun c => (c.world.receipt r).Tidy) (fun row hrow => by cases hrow)
    fun c₁ m c₂ hrun₁ horderly hs ih => ?_
  have hreach : Reachable H c₁ := ⟨uuid, hrun₁.mono fun _ _ _ => trivial⟩
  exact tidy_step hreach hs horderly ih

theorem listed_cases {now : Time} {db : Db} {x : Db.Worklist} (hx : x ∈ db.expiredPendingApprovals now) :
    ∃ a ∈ db.approvals.rows, a.requestId = x.requestId ∧ a.status = .pending ∧ a.expiresAt ≤ now := by
  obtain ⟨a, ha, hlist⟩ := List.mem_filterMap.1 hx
  obtain ⟨row, -, hif⟩ := Option.bind_eq_some_iff.1 hlist
  split_ifs at hif with hopen
  obtain rfl := Option.some.inj hif
  rw [Bool.and_eq_true, decide_eq_true_eq, decide_eq_true_eq] at hopen
  exact ⟨a, ha, rfl, hopen.1, hopen.2⟩

/-- In a run in which no half-opened request is reconciled, no approval outlives its request; and, but for
the approvals of requests that are still being opened, what is listed as expired can be finished, and what
a sweep finds past its deadline is closed when the sweep returns, whatever happens beside it. -/
theorem no_orphan_approval {uuid : Text} (hrun : (broker H).Steps Orderly ⟨World.initial uuid, []⟩ c)
    (ha : a ∈ c.world.db.approvals.rows) (hrow : c.world.db.request a.requestId = some row) :
    (row.status.terminal = true → a.status ≠ .pending) ∧
      (row.status ≠ .received →
        (∀ now, (∃ x ∈ c.world.db.expiredPendingApprovals now, x.requestId = a.requestId) →
          (c.world.db.finishPending a.requestId .expired .expired none none now true).1 = true) ∧
        ∀ i ctx now, (discipline H).wp i (Lifecycle.sweepExpired ctx now)
          (fun _ w => ∃ t, Lifecycle.SweptAt i now t w ∧ (a.expiresAt ≤ t →
            ∀ b ∈ w.db.approvals.rows, b.requestId = a.requestId → b.status ≠ .pending))
          (fun _ _ => False) c.world) := by
  have hreach : Reachable H c := ⟨uuid, hrun.mono fun _ _ _ => trivial⟩
  have htidy : (c.world.receipt a.requestId).Tidy := tidy_of_steps hrun
  have hmem : a ∈ (c.world.receipt a.requestId).approvals := mem_approvals.2 ⟨ha, rfl⟩
  refine ⟨fun hterm => ?_, fun hreceived => ⟨fun now hlisted => ?_, fun i ctx now => ?_⟩⟩
  · exact htidy row hrow (fun heq => by rw [heq] at hterm; cases hterm)
      (fun heq => by rw [heq] at hterm; cases hterm) a hmem
  · obtain ⟨x, hx, hxa⟩ := hlisted
    obtain ⟨b, hb, hbx, hpending, hdue⟩ := listed_cases hx
    have hsingle := ((hreach.sound.current.receipts a.requestId).row hrow).approvals_eq hmem
    have hbmem : b ∈ (c.world.receipt a.requestId).approvals := mem_approvals.2 ⟨hb, hbx.trans hxa⟩
    obtain rfl : b = a := List.mem_singleton.1 (hsingle ▸ hbmem)
    have hparked : row.status = .pendingApproval := by
      by_contra hne
      exact htidy row hrow hreceived hne b hmem hpending
    have happ : c.world.db.approvalForRequest b.requestId = some b :=
      (approvalForRequest_eq c.world.db b.requestId).trans (congrArg List.head? hsingle)
    rw [finishPending_due hrow hparked happ hpending hdue]
  · have hawaiting : (c.world.receipt a.requestId).Awaiting a.expiresAt :=
      ⟨⟨row, hrow, hreceived⟩, htidy, a, hmem, rfl⟩
    refine Discipline.wp_mono (fun _ w _ h => ?_) (fun _ _ _ h => h) hreach.sound
      (Lifecycle.sweepExpired_closes c.world hreach.sound hawaiting)
    obtain ⟨t, hswept, hshut⟩ := h
    exact ⟨t, hswept, fun hdue b hb hba => (hshut hdue).closed b (mem_approvals.2 ⟨hb, hba⟩)⟩

namespace Sample

/-- Nothing is reconciled while a request has its approval and is not parked, by evaluation. -/
def orderly (c : Config) : Move → Bool
  | .offline (.reconcile _) =>
    c.world.db.approvals.rows.all fun a => (c.world.db.request a.requestId).all (·.status ≠ .received)
  | _ => true

theorem orderly_of_orderly (h : orderly c m = true) : Orderly c m := by
  rintro now rfl a ha ⟨row, hrow, hreceived⟩
  have hall := List.all_eq_true.1 h a ha
  rw [hrow, Option.all_some, decide_eq_true_eq] at hall
  exact hall hreceived

/-- Thread 1 parks its request, a sweep past the deadline expires it, and the database is reconciled. -/
def swept : List Move :=
  setup [] ["echo.run"] ++ .start (submit .null) :: calls 1 approving 14 ++
    .start (.sweep context (some 1000)) :: calls 2 {} 4 ++ [.offline (.reconcile 2000)]

/-- Thread 1 is killed once it has created its approval, and the database is reconciled. -/
def orphaned : List Move :=
  setup [] ["echo.run"] ++ .start (submit .null) :: calls 1 approving 12 ++
    [.crash 1, .offline (.reconcile 5)]

end Sample

/-- The swept request has ended, and its approval is closed. -/
theorem no_orphan_approval_swept : ∃ c a row,
    (broker Sample.hash).runIf Sample.orderly ⟨World.initial [], []⟩ Sample.swept = some c ∧
    a ∈ c.world.db.approvals.rows ∧ c.world.db.request a.requestId = some row ∧
    row.status.terminal = true ∧ a.status ≠ .pending := by
  have hrun : (((broker Sample.hash).runIf Sample.orderly ⟨World.initial [], []⟩ Sample.swept).bind fun c =>
      c.world.db.approvals.rows.head?.bind fun a =>
        (c.world.db.request a.requestId).map fun row => row.status.terminal) = some true := by
    decide +kernel
  obtain ⟨c, hc, hrun⟩ := Option.bind_eq_some_iff.1 hrun
  obtain ⟨a, ha, hrun⟩ := Option.bind_eq_some_iff.1 hrun
  obtain ⟨row, hrow, hterm⟩ := Option.map_eq_some_iff.1 hrun
  have hmem : a ∈ c.world.db.approvals.rows := List.mem_of_mem_head? ha
  exact ⟨c, a, row, hc, hmem, hrow, hterm,
    (no_orphan_approval (.of_runIf hc fun _ _ => Sample.orderly_of_orderly) hmem hrow).1 hterm⟩

/-- The approval of the killed submit stays pending beside a request that has ended: every sweep lists it,
and none can finish it. -/
theorem orphan_approval : ∃ c a row, after Sample.hash Sample.orphaned = some c ∧
    a ∈ c.world.db.approvals.rows ∧ c.world.db.request a.requestId = some row ∧
    row.status.terminal = true ∧ a.status = .pending ∧
    (∃ x ∈ c.world.db.expiredPendingApprovals 1000, x.requestId = a.requestId) ∧
    (c.world.db.finishPending a.requestId .expired .expired none none 1000 true).1 = false := by
  have hrun : ((after Sample.hash Sample.orphaned).bind fun c =>
      c.world.db.approvals.rows.head?.bind fun a =>
        (c.world.db.request a.requestId).map fun row => row.status.terminal && a.status = .pending &&
          (c.world.db.expiredPendingApprovals 1000).any (fun x => x.requestId = a.requestId) &&
          !(c.world.db.finishPending a.requestId .expired .expired none none 1000 true).1) = some true := by
    decide +kernel
  obtain ⟨c, hc, hrun⟩ := Option.bind_eq_some_iff.1 hrun
  obtain ⟨a, ha, hrun⟩ := Option.bind_eq_some_iff.1 hrun
  obtain ⟨row, hrow, hfacts⟩ := Option.map_eq_some_iff.1 hrun
  simp only [Bool.and_eq_true, decide_eq_true_eq, List.any_eq_true, Bool.not_eq_true'] at hfacts
  obtain ⟨⟨⟨hterm, hpending⟩, hlisted⟩, hrefused⟩ := hfacts
  exact ⟨c, a, row, hc, List.mem_of_mem_head? ha, hrow, hterm, hpending, hlisted, hrefused⟩

end Toolstack.Broker
