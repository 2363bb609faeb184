import Toolstack.Broker.Submission

/-! Polls, sweeps and the operator's programs; and with them every job of the system. -/

namespace Toolstack.Broker

open Interleave (Discipline Prog)
open Interleave.Discipline (Triple)
open Json (canonical)

variable {H : Hash} {i r : Nat} {w : World} {ω : Oracle} {α β : Type}

/-! ## Programs anybody may run at any time -/

/-- None of the calls has a requirement. -/
def Free (p : Action α) : Prop := p.All fun o => ∀ i w, Requires i o w

theorem Free.of_quiet {p : Action α} (h : Quiet p) : Free p :=
  Prog.All.mono (fun _ hq _ _ => Op.quiet_requires hq) h

theorem Free.of_sweeps {p : Action α} (h : Lifecycle.Sweeps p) : Free p :=
  Prog.All.mono (fun _ ho _ _ => Op.sweeps_requires ho) h

theorem Free.perform {o : Op} (h : ∀ i w, Requires i o w) : Free (perform o) := ⟨h, fun _ => trivial⟩

theorem Free.quiet {o : Op} (h : o.quiet = true) : Free (Broker.perform o) :=
  .perform fun _ _ => Op.quiet_requires h

theorem Free.bind {p : Action α} {f : α → Action β} (hp : Free p) (hf : ∀ a, Free (f a)) :
    Free (p >>= f) := Prog.All.bind hp hf

theorem Free.triple {P : World → Prop} {p : Action α} (h : Free p) :
    (discipline H).Triple i P p (fun _ _ => True) (fun _ _ => True) :=
  .of_all (h.mono fun _ ho w _ => ho i w)

/-! ## The claim through an approval -/

/-- The request went on from where `req` was read. -/
def Receipt.Seen (req : Row) (R : Receipt) : Prop := ∃ row, R.row = some row ∧ req.Precedes row

theorem Receipt.Seen.later {req : Row} {R R' : Receipt} (h : R.Later R') (hR : R.Seen req) :
    R'.Seen req := by
  obtain ⟨row, hrow, hp⟩ := hR
  obtain ⟨row', hrow', hp'⟩ := h.row row hrow
  exact ⟨row', hrow', hp.trans hp'⟩

/-- The approval of the request is the one the surface knows as `ref`. -/
def Receipt.HasRef (ref : PyStr) (R : Receipt) : Prop :=
  ∃ a, R.approvals.head? = some a ∧ a.surfaceRef = ref

theorem Receipt.HasRef.later {ref : PyStr} {R R' : Receipt} (h : R.Later R') (hR : R.HasRef ref) :
    R'.HasRef ref := by
  obtain ⟨a, ha, rfl⟩ := hR
  have happ := h.approvals
  cases hl : R.approvals with
  | nil => simp [hl] at ha
  | cons b l =>
    obtain rfl : b = a := by simpa [hl] using ha
    cases hl' : R'.approvals with
    | nil => simp [hl, hl'] at happ
    | cons b' l' =>
      rw [hl, hl', List.map_cons, List.map_cons, List.cons_prefix_cons] at happ
      exact ⟨b', by rw [hl']; rfl, (congrArg ApprovalRow.surfaceRef happ.1 :).symm⟩

/-- What a poll has seen of its request before it claims it. -/
structure Polled (i : Nat) (req : Row) (st : SurfaceState) (w : World) : Prop where
  seen : (w.receipt req.id).Seen req
  ref : ∃ ref, (w.receipt req.id).HasRef ref ∧ (⟨i, .surfacePoll ref, .ok st⟩ : Call) ∈ w.log

theorem Kept.polled {req : Row} {st : SurfaceState} : Kept H i (Polled i req st) := by
  have hseen : Kept H i fun w => (w.receipt req.id).Seen req := .later Receipt.Seen.later
  have href : Kept H i fun w => ∃ ref, (w.receipt req.id).HasRef ref ∧
      (⟨i, .surfacePoll ref, .ok st⟩ : Call) ∈ w.log :=
    .exists' fun ref => (Kept.later Receipt.HasRef.later).and (.logged _)
  exact ⟨fun hi hi' hr h => ⟨hseen.stable hi hi' hr h.seen, href.stable hi hi' hr h.ref⟩,
    fun ω hq h => ⟨hseen.quiet ω hq h.seen, href.quiet ω hq h.ref⟩⟩

theorem triple_claimApproval {E : Exn → World → Prop} {req : Row} {st state : SurfaceState}
    {t : Option ToolOp} {now : Time} {c : Option Caller} (hst : st.outcome = .approved)
    (hstate : state.outcome = .approved)
    (ht : ∀ toolOp, t = some toolOp → toolOp.tool = req.tool ∧ toolOp.op = req.op) :
    (discipline H).Triple i (Polled i req st)
      (perform (.claimApproval req.id (t.map (·.generation)) state now c))
      (fun (won : Bool) w => won = true → ∃ row', (w.receipt req.id).Claimed i row' true t
        (req.argumentsJson.getD (.obj []))) E := by
  refine triple_perform Kept.polled (fun w hs hw a ha => ?_) fun w ω hs hw hwon => ?_
  · obtain ⟨ref, ⟨a', ha', rfl⟩, hlog⟩ := hw.ref
    rw [approvalForRequest_eq] at ha
    obtain rfl := Option.some.inj (ha.symm.trans ha')
    exact ⟨st, hlog, hst, hstate⟩
  · obtain ⟨row, hrow', hprec⟩ := hw.seen
    have hrow : w.db.request req.id = some row := hrow'
    rcases claimApproval_cases H ω.hex (t.map (·.generation)) state now c hrow with
      ⟨app, hlook, hvalid, hdb⟩ | ⟨hstatus, happ⟩ | ⟨-, hdb⟩
    · obtain ⟨hstatus, hpending⟩ := approvalValid_status hvalid
      have hgen : Db.sameGeneration (t.map (·.generation)) row = true := by
        simp only [Db.approvalValid, Bool.and_eq_true] at hvalid
        tauto
      obtain ⟨toolOp, rfl, hop⟩ := sameGeneration_some hgen
      have hsound := (hs.current.receipts req.id).row hrow
      have hact : Call.act ⟨i, .claimApproval req.id (some toolOp.generation) state now c, true⟩ =
          some (req.id, .claimed true) := rfl
      have hidle : effects (eventsOf req.id w.log) = [] :=
        hsound.idle (by simp [hstatus, Status.unclaimed])
      have hrun := receipt_setBoth (H := H) (i := i)
        (o := .claimApproval req.id (some toolOp.generation) state now c) hdb
        (approvals_eq hs.current hrow' hlook) (fun _ => rfl) req.id
      rw [if_pos rfl, if_pos rfl, hrow', eventsOf_cons_self hact] at hrun
      rw [Option.map_some, hrun]
      refine ⟨_, ⟨⟨⟨_, rfl, rfl⟩, rfl⟩, rfl, rfl, ?_, ?_⟩, fun toolOp' heq j res hmem => ?_⟩
      · simp [Db.decided]
      · rw [effects_cons rfl, hidle]
        rfl
      · obtain rfl := Option.some.inj heq
        obtain ⟨htool, hopn⟩ := ht toolOp rfl
        have hin : ⟨j, .reserved res⟩ ∈ eventsOf req.id w.log := by simpa using hmem
        have hres : Reserved H res row := hsound.reserved_of_mem hin
        have hopen : row.status.terminal = false := by simp [hstatus, Status.terminal]
        have hargs : req.argumentsJson = some (Json.normal res.arguments) :=
          (hprec.pending hopen).1.symm.trans (hres.arguments hopen)
        refine ⟨htool.trans ?_, hopn.trans ?_, ?_, ?_⟩
        · exact (congrArg Row.tool hprec.frozen :).symm.trans hres.tool
        · exact (congrArg Row.op hprec.frozen :).symm.trans hres.op
        · exact Option.some.inj (hop.symm.trans hres.generation)
        · rw [hargs, Option.getD_some, Json.canonical_normal]
    · obtain ⟨s, e, as, -, -, -, hdb⟩ := claimApproval_refused state hrow happ hstatus
      have hlost : ((Op.claimApproval req.id (t.map (·.generation)) state now c).run H ω w).1 =
          false := congrArg Prod.fst hdb
      exact absurd (hlost.symm.trans hwon) Bool.false_ne_true
    · have hlost : ((Op.claimApproval req.id (t.map (·.generation)) state now c).run H ω w).1 =
          false := congrArg Prod.fst hdb
      exact absurd (hlost.symm.trans hwon) Bool.false_ne_true

/-! ## Polls -/

namespace Lifecycle

variable {ctx : Context} {req : Row} {state : SurfaceState} {now : Time}

theorem free_theRow {row : Option Row} : Free (theRow row) := by cases row <;> trivial

theorem free_currentOutcome : Free (currentOutcome r) :=
  .bind (.quiet rfl) fun _ => .bind (.quiet rfl) fun _ => .bind free_theRow fun _ => trivial

theorem free_laterThan : Free (laterThan now) := .bind (.quiet rfl) fun _ => trivial

theorem free_finishPending {s : Status} {as : ApprovalStatus} {e : Option String}
    {st : Option SurfaceState} {t : Option Time} {b : Bool} (hs : s = .denied ∨ s = .expired)
    (has : as ≠ .approved ∧ as ≠ .pending) :
    Free (perform (.finishPending r s as e st t b)) := .perform fun _ _ => ⟨hs, has⟩

theorem free_resolveRejected : Free (resolveRejected req state now) := by
  refine .bind free_laterThan fun _ => .bind (free_finishPending (.inl rfl) (by decide)) fun changed => ?_
  cases changed with
  | false => exact free_currentOutcome
  | true =>
    exact .bind (.quiet rfl) fun _ => .bind (.quiet rfl) fun _ => .bind free_theRow fun _ =>
      .bind trivial fun _ => .bind (.of_quiet quiet_audit) fun _ => trivial

theorem free_resolveEnded {outcome : ApprovalStatus}
    (has : outcome ≠ .approved ∧ outcome ≠ .pending) : Free (resolveEnded req outcome now) := by
  refine .bind free_laterThan fun _ => .bind (free_finishPending (.inr rfl) has) fun changed => ?_
  cases changed with
  | false => exact free_currentOutcome
  | true => exact .bind (.of_quiet quiet_audit) fun _ => free_currentOutcome

theorem free_resolveExpired {approval : ApprovalRow} : Free (resolveExpired ctx req approval now) :=
  .bind (.of_sweeps sweeps_expireApproval) fun _ => free_currentOutcome

theorem resolveApproved_spec {st : SurfaceState} {c : Option Caller} (hst : st.outcome = .approved)
    (hstate : state.outcome = .approved) :
    (discipline H).Triple i (Polled i req st) (resolveApproved ctx req state now c)
      (fun _ _ => True) (fun _ _ => True) := by
  refine .bind (triple_read (A := fun t : Option ToolOp => ∀ toolOp, t = some toolOp →
    toolOp.tool = req.tool ∧ toolOp.op = req.op) Kept.polled rfl fun w _ _ _ t ht => ?_) fun t => ?_
  · obtain ⟨htool, hop, -⟩ := Registry.lookup_eq_some ht
    exact ⟨htool, hop⟩
  · intro w hs ⟨hnames, hpolled⟩
    refine Triple.bind (Q := fun _ => Polled i req st) ?_ (fun claimTime => ?_) w hs hpolled
    · exact .bind (triple_quiet Kept.polled rfl) fun _ => .ret fun _ _ h => h
    refine .bind (triple_claimApproval hst hstate hnames) fun won => ?_
    cases won with
    | false => exact free_currentOutcome.triple
    | true =>
      intro w hs hwon
      obtain ⟨row', hclaimed⟩ := hwon rfl
      refine Triple.bind (triple_quiet Kept.claimed rfl) (fun _ => ?_) w hs hclaimed
      refine .bind (triple_quiet Kept.claimed rfl) fun _ => ?_
      exact .bind (executeRequest_spec.conseq (fun _ _ h => h) (fun _ _ _ _ => trivial)
        fun _ _ _ _ => trivial) fun _ => .ret fun _ _ _ => trivial

theorem resolveState_spec {st : SurfaceState} {c : Option Caller} (hst : st.outcome = state.outcome) :
    (discipline H).Triple i (Polled i req st) (resolveState ctx req state now c)
      (fun _ _ => True) (fun _ _ => True) := by
  unfold resolveState
  cases hout : state.outcome with
  | approved =>
    exact .bind (triple_quiet Kept.polled rfl) fun _ => resolveApproved_spec (hst.trans hout) hout
  | rejected => exact .bind (triple_quiet Kept.polled rfl) fun _ => free_resolveRejected.triple
  | expired => exact (free_resolveEnded (by decide)).triple
  | cancelled => exact (free_resolveEnded (by decide)).triple
  | pending => exact free_currentOutcome.triple

/-- What the surface answers is kept with its reference. -/
theorem pollSurface_spec {approval : ApprovalRow} :
    (discipline H).Triple i
      (fun w => (w.receipt req.id).Seen req ∧ (w.receipt req.id).HasRef approval.surfaceRef)
      (pollSurface ctx approval.surfaceRef)
      (fun state w => ∃ st : SurfaceState, st.outcome = state.outcome ∧ Polled i req st w)
      (fun _ _ => True) := by
  have hkept : Kept H i fun w => (w.receipt req.id).Seen req ∧
      (w.receipt req.id).HasRef approval.surfaceRef :=
    (Kept.later Receipt.Seen.later).and (.later Receipt.HasRef.later)
  unfold pollSurface
  split_ifs with hsurface
  · exact .raise fun _ _ _ => trivial
  · refine .bind (Q := fun polled w => ∀ st, polled = .ok st → Polled i req st w)
      (triple_perform hkept (fun _ _ _ => trivial) fun w ω _ hw st hst => ?_) fun polled => ?_
    · obtain ⟨hseen, href⟩ := hkept.quiet (o := .surfacePoll approval.surfaceRef) ω rfl hw
      refine ⟨hseen, _, href, ?_⟩
      rw [← hst]
      exact List.mem_cons_self ..
    · cases polled with
      | error e => exact .raise fun _ _ _ => trivial
      | ok st => exact .ret fun _ _ h => ⟨st, rfl, h st rfl⟩

theorem resolvePending_spec {approval : ApprovalRow} {c : Option Caller} :
    (discipline H).Triple i
      (fun w => (w.receipt req.id).Seen req ∧ (w.receipt req.id).HasRef approval.surfaceRef)
      (resolvePending ctx req approval now c) (fun _ _ => True) (fun _ _ => True) := by
  unfold resolvePending
  split_ifs with hlate
  · exact free_resolveExpired.triple
  · refine .bind pollSurface_spec fun state => ?_
    intro w hs ⟨st, hst, hpolled⟩
    refine Triple.bind (Q := fun _ => Polled i req st) ?_ (fun afterPoll => ?_) w hs hpolled
    · exact .bind (triple_quiet Kept.polled rfl) fun _ => .ret fun _ _ h => h
    refine .bind (triple_quiet Kept.polled rfl) fun currentReq => ?_
    refine .bind (triple_quiet Kept.polled rfl) fun currentApproval => ?_
    cases currentReq with
    | none => exact .raise fun _ _ _ => trivial
    | some currentReq =>
      simp only [theRow, Prog.pure_eq, Prog.ret_bind]
      split_ifs with hstatus
      · exact .ret fun _ _ _ => trivial
      · cases currentApproval with
        | none => exact .raise fun _ _ _ => trivial
        | some currentApproval =>
          simp only [theApproval, Prog.pure_eq, Prog.ret_bind]
          split_ifs
          · exact .ret fun _ _ _ => trivial
          · exact free_resolveExpired.triple
          · exact resolveState_spec hst

theorem resolveRequest_spec {now : Option Time} {c : Option Caller} :
    (discipline H).Triple i (fun _ => True) (resolveRequest ctx r now c)
      (fun _ _ => True) (fun _ _ => True) := by
  refine .bind ((Quiet.triple quiet_nowOr (.const True)).conseq (fun _ _ h => h) (fun _ _ _ h => h)
    fun _ _ _ h => h) fun now => ?_
  refine .bind (Q := fun (req : Option Row) w => ∀ row, req = some row → row.id = r ∧
    (w.receipt r).Seen row) (triple_perform (.const True) (fun _ _ _ => Op.quiet_requires rfl)
      fun w ω _ _ row hrow => ⟨Table.get?_key hrow, ?_⟩) fun req => ?_
  · rw [Op.quiet_receipt rfl]
    exact ⟨row, hrow, .refl row⟩
  cases req with
  | none => exact .ret fun _ _ _ => trivial
  | some req =>
    intro w hs hreq
    obtain ⟨rfl, hseen⟩ := hreq req rfl
    have hkept : Kept H i fun w => (w.receipt req.id).Seen req := .later Receipt.Seen.later
    refine Triple.bind (P := fun w => (w.receipt req.id).Seen req)
      (Q := fun (approval : Option ApprovalRow) w => (w.receipt req.id).Seen req ∧ ∀ a, approval =
        some a → (w.receipt req.id).HasRef a.surfaceRef) ?_ (fun approval => ?_) w hs hseen
    · refine triple_perform hkept (fun _ _ _ => Op.quiet_requires rfl) fun w ω _ hw =>
        ⟨hkept.quiet ω rfl hw, fun a ha => ?_⟩
      rw [Op.quiet_receipt rfl]
      have hlook : w.db.approvalForRequest req.id = some a := ha
      rw [approvalForRequest_eq] at hlook
      exact ⟨a, hlook, rfl⟩
    · split_ifs
      · exact .ret fun _ _ _ => trivial
      · cases approval with
        | none => exact .ret fun _ _ _ => trivial
        | some approval =>
          exact resolvePending_spec.conseq (fun _ _ h => ⟨h.1, h.2 approval rfl⟩)
            (fun _ _ _ h => h) fun _ _ _ h => h

end Lifecycle

end Toolstack.Broker
