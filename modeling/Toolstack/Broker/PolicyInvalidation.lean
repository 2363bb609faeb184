import Toolstack.Broker.Revocation

/-! Policy writes: what a write makes of the requests that wait for an approval. It ends those that are
parked, in its own transaction and for good; one whose card is out but which is not parked yet slips
through. -/

namespace Toolstack.Broker

open Interleave (System)

variable {H : Hash} {i r callerId : Nat} {row row' : Row} {c c' : Config} {m : Move}

/-! ## What never comes into execution -/

/-- A request that was reserved is held by the thread that reserved it until somebody claims it. -/
theorem RowSound.holder {R : Receipt} (h : RowSound H row R) (hstatus : row.status = .received) :
    ∃ i res, (⟨i, .reserved res⟩ : Event) ∈ R.events ∧ Broker.holder R.events = some i := by
  obtain ⟨front, i, res, hevents, hfront, -⟩ := h.reserved
  have hidle : effects R.events = [] := h.idle (by rw [hstatus]; rfl)
  have hnone : front.find? (fun e => e.act.takes) = none := by
    refine List.find?_eq_none.2 fun e he htakes => ?_
    have heffect : e.act.isEffect = false := by
      have hmem : e ∈ R.events := hevents ▸ List.mem_append_left _ he
      have hnot := List.filter_eq_nil_iff.1 hidle e hmem
      simpa using hnot
    rw [Act.takes, hfront e he, Bool.false_or] at htakes
    cases hact : e.act <;> rw [hact] at htakes heffect
    case claimed => cases heffect
    all_goals cases htakes
  refine ⟨i, res, hevents ▸ List.mem_append_right _ (List.mem_singleton_self _), ?_⟩
  rw [Broker.holder, hevents, List.find?_append, hnone]
  rfl

/-- The request is still `received`, and the thread that alone may work on it has stopped. -/
structure Abandoned (i r : Nat) (c : Config) : Prop where
  owned : (c.world.receipt r).Owned i
  received : ∃ row, c.world.db.request r = some row ∧ row.status = .received
  stopped : ∃ t, c.threads[i]? = some t ∧ t.stopped = true

/-- It stays so until it is reconciled. -/
theorem Abandoned.step (h : Abandoned i r c) (hreach : Reachable H c) (hs : (broker H).step c m = some c')
    (hm : SameDatabase c m) :
    Abandoned i r c' ∨ ∃ row, c'.world.db.request r = some row ∧ row.status.terminal = true := by
  obtain ⟨t, ht, hstop⟩ := h.stopped
  have hstill : c'.world.receipt r = c.world.receipt r → Abandoned i r c' := by
    intro heq
    refine ⟨heq ▸ h.owned, ?_, t, Interleave.Discipline.stopped_of_step hs ht hstop, hstop⟩
    obtain ⟨row, hrow, hstatus⟩ := h.received
    exact ⟨row, (congrArg Receipt.row heq).trans hrow, hstatus⟩
  cases hreach.moved hs with
  | call k o ω move thread requires world =>
    refine .inl (hstill ?_)
    have hne : k ≠ i := by
      rintro rfl
      obtain ⟨j, k', hthread⟩ := thread
      obtain rfl := Option.some.inj (ht.symm.trans hthread)
      cases hstop
    rw [world]
    exact ((exec_worldStep (ω := ω) hreach.sound.current requires).receipts r).frame h.owned hne
  | still db log => exact .inl (hstill (by simp only [World.receipt, db, log]))
  | offline f move world =>
    cases f with
    | reconcile now =>
      obtain ⟨row, hrow, hstatus⟩ := h.received
      refine .inr ⟨row.reconcile now, ?_, ?_⟩
      · rw [← Option.some.inj world]
        refine (congrArg Receipt.row (receipt_reconcile c.world now r)).trans ?_
        exact congrArg (Option.map _) hrow
      · rw [Row.reconcile, if_pos (by rw [hstatus]; rfl)]
        rfl
    | restore n now uuid => exact absurd move (hm n now uuid)

theorem terminal_stays (h : Reachable H c) (hrun : (broker H).Steps SameDatabase c c')
    (hrow : c.world.db.request r = some row) (hterm : row.status.terminal = true)
    (hrow' : c'.world.db.request r = some row') : row'.status ≠ .executing := by
  obtain ⟨row₁, hrow₁, hprecedes⟩ := (h.later hrun r).row row hrow
  obtain rfl := Option.some.inj (hrow'.symm.trans hrow₁)
  intro hexec
  have hterm' := hprecedes.terminal hterm
  rw [hexec] at hterm'
  cases hterm'

theorem Abandoned.never (h : Abandoned i r c) (hreach : Reachable H c)
    (hrun : (broker H).Steps SameDatabase c c') (hrow' : c'.world.db.request r = some row') :
    row'.status ≠ .executing := by
  have hkeep : Abandoned i r c' ∨ ∃ row, c'.world.db.request r = some row ∧ row.status.terminal = true := by
    refine hrun.invariant (P := fun c' => Abandoned i r c' ∨
      ∃ row, c'.world.db.request r = some row ∧ row.status.terminal = true) (.inl h)
      fun c₁ m c₂ hrun₁ hok hs ih => ?_
    rcases ih with hab | ⟨row, hrow, hterm⟩
    · exact hab.step (hreach.steps hrun₁) hs hok
    · obtain ⟨row₂, hrow₂, hprecedes⟩ :=
        (((hreach.steps hrun₁).later (System.Steps.tail .refl hok hs)) r).row row hrow
      exact .inr ⟨row₂, hrow₂, hprecedes.terminal hterm⟩
  rcases hkeep with hab | ⟨row, hrow, hterm⟩
  · obtain ⟨row, hrow, hstatus⟩ := hab.received
    obtain rfl := Option.some.inj (hrow'.symm.trans hrow)
    rw [hstatus]
    decide
  · obtain rfl := Option.some.inj (hrow'.symm.trans hrow)
    rintro hexec
    rw [hexec] at hterm
    cases hterm

theorem gone_steps (hrun : (broker H).Steps SameDatabase c c') (h : c.world.db.Gone callerId) :
    c'.world.db.Gone callerId := by
  refine hrun.invariant (P := fun c => c.world.db.Gone callerId) h fun c₁ m c₂ _ hok hs ih => ?_
  cases m with
  | start j =>
    obtain rfl := Option.some.inj hs
    exact ih
  | call i ω =>
    obtain ⟨j, o, k, -, hworld, -⟩ := System.step_call hs
    rw [hworld]
    exact gone_exec ih
  | crash i =>
    obtain ⟨-, -, -, -, hworld, -⟩ := System.step_crash hs
    rwa [hworld]
  | env e =>
    obtain rfl := Option.some.inj hs
    exact (e.apply_db c₁.world).symm ▸ ih
  | offline f =>
    cases f with
    | reconcile now =>
      rw [← Option.some.inj (System.step_offline hs).2.1]
      exact ih
    | restore n now uuid => exact absurd rfl (hok n now uuid)

theorem events_of_steps (hrun : (broker H).Steps SameDatabase c c') :
    (c.world.receipt r).events <:+ (c'.world.receipt r).events := by
  obtain ⟨new, hlog⟩ := log_of_steps hrun
  exact ⟨eventsOf r new, by simp only [World.receipt, receiptOf, ← hlog, eventsOf_append]⟩

/-- Some policy sends the request to review, and it is the one the request was reserved under. -/
def Reviewable (row : Row) : Prop :=
  ∃ policy : Policy, row.policyBinding = some policy.binding ∧ policy.decide row.tool row.op = .review

/-- A request whose card has been sent is not claimed any more once its caller is revoked, nor if it was
reserved under a policy that does not review it. -/
structure Unclaimable (row : Row) (c : Config) : Prop where
  carded : ∃ e ∈ (c.world.receipt row.id).events, e.act.isReserved = false
  refused : c.world.db.Gone row.callerId ∨ ¬ Reviewable row

theorem Unclaimable.never (h : Unclaimable row c) (hreach : Reachable H c)
    (hrow : c.world.db.request row.id = some row) (hopen : row.status ≠ .executing)
    (hrun : (broker H).Steps SameDatabase c c') (hrow' : c'.world.db.request row.id = some row') :
    row'.status ≠ .executing := by
  refine hrun.invariant (P := fun c' => ∀ row', c'.world.db.request row.id = some row' →
    row'.status ≠ .executing) ?_ (fun c₁ m c₂ hrun₁ hok hs ih row' hrow' hexec => ?_) row' hrow'
  · intro row' hrow'
    obtain rfl := Option.some.inj (hrow.symm.trans hrow')
    exact hopen
  obtain ⟨i, ω, o, row₁, -, -, hreq, hrow₁, hwon⟩ := (hreach.steps hrun₁).won hs hrow' hexec ih
  obtain ⟨row₂, hrow₂, hprecedes⟩ := (hreach.later hrun₁ row.id).row row hrow
  obtain rfl := Option.some.inj (hrow₁.symm.trans hrow₂)
  have hid : row₁.id = row.id := (congrArg Row.id hprecedes.frozen :)
  cases hwon with
  | received g caller d valid =>
    -- an immediate claim finds nothing in the history but the reservation
    obtain ⟨-, huntouched⟩ := hreq row₁ (hid ▸ hrow₁) (receivedValid_status valid)
    obtain ⟨e, he, hcarded⟩ := h.carded
    have hreserved := huntouched.events e (hid ▸ (events_of_steps hrun₁).subset he)
    rw [hcarded] at hreserved
    cases hreserved
  | approval g state now caller app look valid =>
    simp only [Db.approvalValid, Bool.and_eq_true, decide_eq_true_eq] at valid
    obtain ⟨⟨⟨⟨⟨⟨⟨-, hlive⟩, -⟩, -⟩, -⟩, -⟩, hbinding⟩, hreview⟩ := valid
    rcases h.refused with hgone | hreviewable
    · have howner := Row.frozen_callerId hprecedes.frozen
      rw [(howner ▸ gone_steps hrun₁ hgone : c₁.world.db.Gone row₁.callerId).not_live] at hlive
      cases hlive
    · have hfrozen : row.policyBinding = row₁.policyBinding ∧ row.tool = row₁.tool ∧ row.op = row₁.op :=
        ⟨(congrArg Row.policyBinding hprecedes.frozen :).symm, (congrArg Row.tool hprecedes.frozen :).symm,
          (congrArg Row.op hprecedes.frozen :).symm⟩
      obtain ⟨hpolicy, htool, hop⟩ := hfrozen
      exact hreviewable ⟨_, hpolicy.trans hbinding, by rw [htool, hop]; exact hreview⟩

/-! ## The write -/

/-- The move is a policy write for the caller, and it commits. -/
inductive WritesPolicy (callerId : Nat) (c : Config) : Move → Prop
  | set (i : Nat) (ω : Oracle) (policy : Policy)
      (thread : ∃ j k, c.threads[i]? = some ⟨j, some (.call (.setPolicy callerId policy) k)⟩)
      (stored : (c.world.db.setPolicy ω.now callerId policy).1 = .ok ()) :
      WritesPolicy callerId c (.call i ω)
  | compareAndSet (i : Nat) (ω : Oracle) (before after : Policy) (operator : String)
      (thread : ∃ j k, c.threads[i]? =
        some ⟨j, some (.call (.compareAndSetPolicy callerId before after operator) k)⟩)
      (stored : (c.world.db.compareAndSetPolicy ω.now ω.text callerId before after operator).1 = true) :
      WritesPolicy callerId c (.call i ω)

theorem WritesPolicy.same (h : WritesPolicy callerId c m) : SameDatabase c m := by
  cases h <;> exact fun _ _ _ heq => by cases heq

/-- The surface took the card of the request. -/
def CardSent (r : Nat) (w : World) : Prop :=
  ∃ i card ref, card.requestId = r ∧ (⟨i, .surfaceOpen card, .ok ref⟩ : Call) ∈ w.log

theorem CardSent.event {w : World} (h : CardSent r w) :
    ∃ e ∈ (w.receipt r).events, e.act.isReserved = false := by
  obtain ⟨i, card, ref, hcard, hmem⟩ := h
  exact ⟨⟨i, .carded card⟩, List.mem_filterMap.2 ⟨_, hmem, by simp [Call.about, Call.act, hcard]⟩, rfl⟩

/-- The request waits for an approval: it is parked, or its card is out. -/
def Waiting (row : Row) (w : World) : Prop :=
  row.status = .pendingApproval ∨ row.status = .received ∧ CardSent row.id w

/-- The card of the request is out and the thread that reserved it has still to park it, for a caller that
is not revoked and under a policy that sends it to review. -/
structure Parking (row : Row) (c : Config) : Prop where
  received : row.status = .received
  carded : CardSent row.id c.world
  running : ∃ i res t, (⟨i, .reserved res⟩ : Event) ∈ (c.world.receipt row.id).events ∧
    c.threads[i]? = some t ∧ t.stopped = false
  known : ¬ c.world.db.Gone row.callerId
  reviewable : Reviewable row

theorem request_writePolicy (now : Time) (policy : Policy) (db : Db) (hrow : db.request r = some row)
    (howner : row.callerId = callerId) (hpending : row.status = .pendingApproval) :
    (db.writePolicy now callerId policy).request r =
      some (Row.close now .denied (some "approval_invalidated") row) := by
  have hwaiting : row.waiting callerId = true := by simp [Row.waiting, howner, hpending]
  have hget : (db.writePolicy now callerId policy).requests.get? r = (db.requests.get? r).map fun row =>
      if row.waiting callerId then Row.close now .denied (some "approval_invalidated") row else row :=
    Table.get?_update _ _ _ (fun _ => by rfl) r
  have hsome : db.requests.get? r = some row := hrow
  rw [Db.request, hget, hsome, Option.map_some, if_pos hwaiting]

/-- The write ends every parked request of the caller in its own transaction. -/
theorem WritesPolicy.closes (h : WritesPolicy callerId c m) (hs : (broker H).step c m = some c')
    (hrow : c.world.db.request r = some row) (howner : row.callerId = callerId)
    (hpending : row.status = .pendingApproval) :
    ∃ row', c'.world.db.request r = some row' ∧ row'.status.terminal = true := by
  cases h with
  | set i ω policy thread stored =>
    obtain ⟨j, o, k, hthread, hworld, -⟩ := System.step_call hs
    obtain ⟨j', k', hthread'⟩ := thread
    cases hthread.symm.trans hthread'
    have hafter : c'.world.db = (c.world.db.setPolicy ω.now callerId policy).2 :=
      congrArg World.db hworld
    rcases setPolicy_cases ω.now callerId policy c.world.db with hdb | hdb
    · rw [hafter, hdb]
      exact ⟨_, request_writePolicy ω.now policy c.world.db hrow howner hpending, rfl⟩
    · rw [hdb] at stored
      cases stored
  | compareAndSet i ω before after operator thread stored =>
    obtain ⟨j, o, k, hthread, hworld, -⟩ := System.step_call hs
    obtain ⟨j', k', hthread'⟩ := thread
    cases hthread.symm.trans hthread'
    have hafter : c'.world.db =
        (c.world.db.compareAndSetPolicy ω.now ω.text callerId before after operator).2 :=
      congrArg World.db hworld
    rcases compareAndSetPolicy_cases ω.now ω.text callerId before after operator c.world.db with
      hdb | ⟨-, -, e, -, -, hdb⟩
    · rw [hdb] at stored
      cases stored
    · rw [hafter, hdb]
      exact ⟨_, request_writePolicy ω.now after c.world.db hrow howner hpending, rfl⟩

/-- A request that was not being parked at a policy write does not come into execution after it. -/
theorem policy_write_invalidates {c₂ : Config} {row₂ : Row} (h : Reachable H c)
    (hs : (broker H).step c m = some c') (hwrite : WritesPolicy callerId c m)
    (hrow : c.world.db.request r = some row) (howner : row.callerId = callerId)
    (hwaiting : Waiting row c.world) (hclear : ¬ Parking row c)
    (hlater : (broker H).Steps SameDatabase c' c₂) (hrow₂ : c₂.world.db.request r = some row₂) :
    row₂.status ≠ .executing := by
  have hrun : (broker H).Steps SameDatabase c c₂ := (System.Steps.tail .refl hwrite.same hs).trans hlater
  rcases hwaiting with hpending | ⟨hreceived, hcarded⟩
  · obtain ⟨row', hrow', hterm⟩ := hwrite.closes hs hrow howner hpending
    exact terminal_stays (h.step hs) hlater hrow' hterm hrow₂
  obtain rfl : row.id = r := Table.get?_key hrow
  by_cases hopen : c.world.db.Gone row.callerId ∨ ¬ Reviewable row
  · have hnever : Unclaimable row c := ⟨hcarded.event, hopen⟩
    exact hnever.never h hrow (by rw [hreceived]; decide) hrun hrow₂
  obtain ⟨hknown, hreviewable⟩ := not_or.1 hopen
  obtain ⟨i, res, hres, hholder⟩ := ((h.sound.current.receipts row.id).row hrow).holder hreceived
  obtain ⟨t, ht⟩ : ∃ t, c.threads[i]? = some t := by
    refine Option.ne_none_iff_exists'.1 fun hnone => ?_
    exact (h.covered.fresh i (List.getElem?_eq_none_iff.1 hnone)).idle.no_event _ hres
  have hstopped : t.stopped = true := by
    by_contra hrunning
    exact hclear ⟨hreceived, hcarded, ⟨i, res, t, hres, ht, by simpa using hrunning⟩, hknown,
      not_not.1 hreviewable⟩
  have habandoned : Abandoned i row.id c :=
    ⟨⟨⟨row, hrow, by rw [hreceived]; rfl⟩, hholder⟩, ⟨row, hrow, hreceived⟩, t, ht, hstopped⟩
  exact habandoned.never h hrun hrow₂

namespace Sample

/-- The policy that sends `echo.run` to review. -/
def reviewing : Policy := Operations.buildPolicy [] ["echo.run"] []

/-- Thread 1 submits a request that needs an approval, and the surface takes its card. -/
def carded : List Move :=
  setup [] ["echo.run"] ++ .start (submit .null) :: calls 1 approving 10

/-- An operator takes the grant back, once thread 1 has made `n` more calls. -/
def withdrawing (n : Nat) : List Move := carded ++ calls 1 {} n ++ [.start (.storePolicy 1 {})]

/-- The grant comes back; thread 1 makes its last calls, the request is approved, and thread 4 polls it. -/
def restoring (n polls : Nat) : List Move :=
  .start (.storePolicy 1 reviewing) :: calls 3 {} 1 ++ calls 1 {} n ++
    .start (.resolve context 1 (some 0) none) :: calls 4 approving polls

/-- The move is not offline work of the operator. -/
def online (_ : Config) : Move → Bool
  | .offline _ => false
  | _ => true

theorem sameDatabase_of_online (h : online c m = true) : SameDatabase c m := by
  rintro n now uuid rfl
  cases h

/-- The move writes a policy for the caller. -/
def writes (callerId : Nat) (c : Config) : Move → Bool
  | .call i ω =>
    match c.threads[i]? with
    | some ⟨_, some (.call (.setPolicy owner policy) _)⟩ =>
      owner == callerId && (c.world.db.setPolicy ω.now owner policy).1.toBool
    | _ => false
  | _ => false

theorem writesPolicy_of_writes (h : writes callerId c m = true) : WritesPolicy callerId c m := by
  cases m with
  | call i ω =>
    simp only [writes] at h
    split at h
    · rename_i j owner policy k hthread
      rw [Bool.and_eq_true, beq_iff_eq] at h
      obtain ⟨rfl, hstored⟩ := h
      refine .set i ω policy ⟨j, k, hthread⟩ ?_
      rcases setPolicy_cases ω.now owner policy c.world.db with hdb | hdb <;> rw [hdb] at hstored ⊢
      cases hstored
    · cases h
  | _ => cases h

/-- The call sends the card of a request, and the surface takes it. -/
def takes (r : Nat) : Call → Bool
  | ⟨_, .surfaceOpen card, .ok _⟩ => card.requestId == r
  | _ => false

theorem cardSent_of_takes {w : World} (h : w.log.any (takes r) = true) : CardSent r w := by
  obtain ⟨call, hmem, htakes⟩ := List.any_eq_true.1 h
  unfold takes at htakes
  split at htakes
  · exact ⟨_, _, _, beq_iff_eq.1 htakes, hmem⟩
  · cases htakes

end Sample

/-- A request whose card is out is parked between a write and the write that restores the policy, and is
executed once it is approved. -/
theorem policy_write_outlived : ∃ c c' c₂ row row₂, after Sample.hash (Sample.withdrawing 0) = some c ∧
    (broker Sample.hash).step c (.call 2 {}) = some c' ∧ WritesPolicy 1 c (.call 2 {}) ∧
    c.world.db.request 1 = some row ∧ row.callerId = 1 ∧ Waiting row c.world ∧
    (broker Sample.hash).Steps SameDatabase c' c₂ ∧ c₂.world.db.request 1 = some row₂ ∧
    row₂.status = .executing := by
  have hrun : ((after Sample.hash (Sample.withdrawing 0)).bind fun c =>
      ((broker Sample.hash).step c (.call 2 {})).bind fun c' =>
        ((broker Sample.hash).runIf Sample.online c' (Sample.restoring 4 10)).bind fun c₂ =>
          (c.world.db.request 1).bind fun row => (c₂.world.db.request 1).map fun row₂ =>
            decide (Sample.writes 1 c (.call 2 {}) = true ∧ row.callerId = 1 ∧ row.id = 1 ∧
              row.status = .received ∧ row₂.status = .executing)) = some true := by
    decide +kernel
  have hcard : ((after Sample.hash (Sample.withdrawing 0)).map fun c =>
      c.world.log.any (Sample.takes 1)) = some true := by
    decide +kernel
  obtain ⟨c, hc, hrun⟩ := Option.bind_eq_some_iff.1 hrun
  obtain ⟨c', hs, hrun⟩ := Option.bind_eq_some_iff.1 hrun
  obtain ⟨c₂, hlater, hrun⟩ := Option.bind_eq_some_iff.1 hrun
  obtain ⟨row, hrow, hrun⟩ := Option.bind_eq_some_iff.1 hrun
  obtain ⟨row₂, hrow₂, hfacts⟩ := Option.map_eq_some_iff.1 hrun
  obtain ⟨hwrites, howner, hid, hreceived, hexec⟩ := of_decide_eq_true hfacts
  rw [hc, Option.map_some, Option.some_inj] at hcard
  exact ⟨c, c', c₂, row, row₂, hc, hs, Sample.writesPolicy_of_writes hwrites, hrow, howner,
    .inr ⟨hreceived, hid.symm ▸ Sample.cardSent_of_takes hcard⟩,
    .of_runIf hlater fun _ _ => Sample.sameDatabase_of_online, hrow₂, hexec⟩

/-- A parked request is denied by the write; the policy comes back, and the approval comes too late. -/
theorem policy_write_invalidates_parked : ∃ c c' c₂ row₂,
    after Sample.hash (Sample.withdrawing 4) = some c ∧
    (broker Sample.hash).step c (.call 2 {}) = some c' ∧
    (broker Sample.hash).runIf Sample.online c' (Sample.restoring 0 2) = some c₂ ∧
    c₂.world.db.request 1 = some row₂ ∧ row₂.status ≠ .executing := by
  have hrun : ((after Sample.hash (Sample.withdrawing 4)).bind fun c =>
      ((broker Sample.hash).step c (.call 2 {})).bind fun c' =>
        ((broker Sample.hash).runIf Sample.online c' (Sample.restoring 0 2)).bind fun c₂ =>
          (c.world.db.request 1).bind fun row => (c₂.world.db.request 1).map fun _ =>
            decide (Sample.writes 1 c (.call 2 {}) = true ∧ row.callerId = 1 ∧
              row.status = .pendingApproval)) = some true := by
    decide +kernel
  obtain ⟨c, hc, hrun⟩ := Option.bind_eq_some_iff.1 hrun
  obtain ⟨c', hs, hrun⟩ := Option.bind_eq_some_iff.1 hrun
  obtain ⟨c₂, hlater, hrun⟩ := Option.bind_eq_some_iff.1 hrun
  obtain ⟨row, hrow, hrun⟩ := Option.bind_eq_some_iff.1 hrun
  obtain ⟨row₂, hrow₂, hfacts⟩ := Option.map_eq_some_iff.1 hrun
  obtain ⟨hwrites, howner, hpending⟩ := of_decide_eq_true hfacts
  refine ⟨c, c', c₂, row₂, hc, hs, hlater, hrow₂, policy_write_invalidates (.after hc) hs
    (Sample.writesPolicy_of_writes hwrites) hrow howner (.inl hpending) (fun hparking => ?_)
    (.of_runIf hlater fun _ _ => Sample.sameDatabase_of_online) hrow₂⟩
  rw [hparking.received] at hpending
  cases hpending

end Toolstack.Broker
