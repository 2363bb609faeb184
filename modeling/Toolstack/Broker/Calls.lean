import Toolstack.Broker.Transactions

/-! The calls that touch many requests at once or none, and with them every call: whatever a
thread does, its requirement given, is one step in the life of every request. -/

namespace Toolstack.Broker

variable {H : Hash} {i : Nat} {w : World} {ω : Oracle}

/-! ## Updates of whole tables -/

section Update
variable {o : Op} {answer : o.Ret} {db : Db} {p : Row → Bool} {f : Row → Row} {hf}
  {q : ApprovalRow → Bool} {g : ApprovalRow → ApprovalRow} {hg}

theorem receipt_update (hrun : o.run H ω w = (answer, db)) (hact : Call.act ⟨i, o, answer⟩ = none)
    (hreq : db.requests = w.db.requests.update p f hf)
    (happ : db.approvals = w.db.approvals.update q g hg)
    (hkeep : ∀ a, (g a).requestId = a.requestId) (r : Nat) :
    (w.exec H i o ω).2.receipt r =
      { row := (w.receipt r).row.map fun row => if p row then f row else row
        approvals := (w.receipt r).approvals.map fun a => if q a then g a else a
        events := (w.receipt r).events } := by
  rw [receipt_exec hrun, receiptOf, hreq, happ, Table.get?_update,
    Table.select_update _ _ _ _ _ fun a => by simp [hkeep], eventsOf_cons_none hact]
  rfl

/-- It is enough to look at the requests that are there. -/
theorem worldStep_update (hs : Sound H w.db w.log) (hrun : o.run H ω w = (answer, db))
    (hact : Call.act ⟨i, o, answer⟩ = none) (hreq : db.requests = w.db.requests.update p f hf)
    (happ : db.approvals = w.db.approvals.update q g hg)
    (hkeep : ∀ a, (g a).requestId = a.requestId)
    (hstep : ∀ r row, (w.receipt r).row = some row → Receipt.Step H i (w.receipt r)
      { row := some (if p row then f row else row)
        approvals := (w.receipt r).approvals.map fun a => if q a then g a else a
        events := (w.receipt r).events }) :
    WorldStep H i w (w.exec H i o ω).2 := by
  have hreceipt := receipt_update (i := i) hrun hact hreq happ hkeep
  refine ⟨fun r => ?_, fun r row habs hrow => ?_, ⟨_, rfl, rfl⟩, rfl⟩
  · cases hrow : (w.receipt r).row with
    | none =>
      have hnone : (w.receipt r).approvals = [] := ((hs.receipts r).absent hrow).1
      have hsame : (w.exec H i o ω).2.receipt r = w.receipt r := by
        rw [hreceipt, hnone, hrow, Option.map_none, List.map_nil, ← hnone, ← hrow]
      rw [hsame]
      exact .stay _
    | some row =>
      rw [hreceipt, hrow, Option.map_some]
      exact hstep r row hrow
  · rw [hreceipt, habs] at hrow
    cases hrow

end Update

theorem approvals_request {r : Nat} {a : ApprovalRow} (ha : a ∈ (w.receipt r).approvals) :
    w.db.requests.get? a.requestId = (w.receipt r).row := by
  rw [(mem_approvals.1 ha).2]
  rfl

/-- A policy write ends the caller's pending requests and touches no other. -/
theorem worldStep_cancelPending {o : Op} {answer : o.Ret} {db : Db} (now : Time) (c : Nat)
    (hs : Sound H w.db w.log) (hrun : o.run H ω w = (answer, db))
    (hact : Call.act ⟨i, o, answer⟩ = none)
    (hreq : db.requests = (w.db.cancelPending now c).requests)
    (happ : db.approvals = (w.db.cancelPending now c).approvals) :
    WorldStep H i w (w.exec H i o ω).2 := by
  have hreq' : db.requests = w.db.requests.update (Row.waiting c)
      (Row.close now .denied (some "approval_invalidated")) fun _ => rfl := hreq
  have happ' : db.approvals = w.db.approvals.update
      (fun a => a.status = .pending && (w.db.requests.get? a.requestId).any (Row.waiting c))
      (ApprovalRow.setStatus .cancelled) fun _ => rfl := happ
  refine worldStep_update hs hrun hact hreq' happ' (fun _ => rfl) fun r row hrow => ?_
  have hany : ∀ a ∈ (w.receipt r).approvals,
      (w.db.requests.get? a.requestId).any (Row.waiting c) = row.waiting c := fun a ha => by
    rw [approvals_request ha, hrow, Option.any_some]
  cases hwait : row.waiting c with
  | true =>
    have hmap : ∀ a ∈ (w.receipt r).approvals,
        (if a.status = .pending && (w.db.requests.get? a.requestId).any (Row.waiting c)
          then a.setStatus .cancelled else a) =
        if a.status = .pending then a.setStatus .cancelled else a := fun a ha => by
      simp [hany a ha, hwait]
    have hstatus : row.status = .pendingApproval := by
      simp only [Row.waiting, Bool.and_eq_true, decide_eq_true_eq] at hwait
      exact hwait.2
    rw [List.map_congr_left hmap, if_pos rfl]
    refine .refuse _ hrow hstatus (Row.close_ends rfl) rfl (.inl rfl) fun a _ => ?_
    split_ifs with hp
    · exact ⟨rfl, .inr ⟨hp, by simp [ApprovalRow.setStatus]⟩, by simp [ApprovalRow.setStatus]⟩
    · exact ⟨rfl, .inl rfl, hp⟩
  | false =>
    have hmap : ∀ a ∈ (w.receipt r).approvals,
        (if a.status = .pending && (w.db.requests.get? a.requestId).any (Row.waiting c)
          then a.setStatus .cancelled else a) = a := fun a ha => by
      simp [hany a ha, hwait]
    rw [List.map_congr_left hmap, List.map_id', if_neg (by decide), ← hrow]
    exact .stay _

theorem setPolicy_cases (now : Time) (c : Nat) (policy : Policy) (db : Db) :
    db.setPolicy now c policy = (.ok (), db.writePolicy now c policy) ∨
      db.setPolicy now c policy = (.error .integrityError, db) := by
  unfold Db.setPolicy
  split_ifs
  · exact .inl rfl
  · exact .inr rfl

theorem worldStep_setPolicy {c : Nat} {policy : Policy} (hs : Sound H w.db w.log) :
    WorldStep H i w (w.exec H i (.setPolicy c policy) ω).2 := by
  rcases setPolicy_cases ω.now c policy w.db with hdb | hdb
  · exact worldStep_cancelPending ω.now c hs hdb rfl rfl rfl
  · exact worldStep_quiet hdb rfl rfl rfl

theorem compareAndSetPolicy_cases (now : Time) (fresh : Text) (c : Nat) (before after : Policy)
    (operator : String) (db : Db) :
    db.compareAndSetPolicy now fresh c before after operator = (false, db) ∨
      (db.policyFor c).binding = before.binding ∧
      ∃ row e, db.callers.get? c = some row ∧ row.revokedAt = none ∧
        db.compareAndSetPolicy now fresh c before after operator =
          (true, (db.writePolicy now c after).appendAudit e) := by
  unfold Db.compareAndSetPolicy
  cases hc : db.callers.get? c with
  | none => exact .inl rfl
  | some row =>
    cases hrev : row.revokedAt with
    | some t => exact .inl (by simp [hrev])
    | none =>
      by_cases hbind : (db.policyFor c).binding = before.binding
      · have hguard : ¬(row.revokedAt.isSome || (db.policyFor c).binding ≠ before.binding) = true := by
          simp [hrev, hbind]
        exact .inr ⟨hbind, row, _, rfl, hrev, if_neg hguard⟩
      · exact .inl (by simp [hbind])

theorem worldStep_compareAndSetPolicy {c : Nat} {before after : Policy} {operator : String}
    (hs : Sound H w.db w.log) :
    WorldStep H i w (w.exec H i (.compareAndSetPolicy c before after operator) ω).2 := by
  rcases compareAndSetPolicy_cases ω.now ω.text c before after operator w.db with
    hdb | ⟨-, row, e, -, -, hdb⟩
  · exact worldStep_quiet hdb rfl rfl rfl
  · exact worldStep_cancelPending ω.now c hs hdb rfl rfl rfl

theorem worldStep_prunePayloads {now : Option Time} (hs : Sound H w.db w.log) :
    WorldStep H i w (w.exec H i (.prunePayloads now) ω).2 := by
  have hreq : (w.db.prunePayloads (now.getD ω.now)).2.requests =
      w.db.requests.update (Db.prunable (now.getD ω.now)) (Row.prune (now.getD ω.now))
        fun _ => rfl := rfl
  have happ : (w.db.prunePayloads (now.getD ω.now)).2.approvals = w.db.approvals.update
      (fun a => (w.db.requests.get? a.requestId).any (Db.prunable (now.getD ω.now)))
      (fun a => { a with note := none }) fun _ => rfl := rfl
  refine worldStep_update hs (o := .prunePayloads now) rfl rfl hreq happ (fun _ => rfl)
    fun r row hrow => ?_
  by_cases hold : Db.prunable (now.getD ω.now) row = true
  · rw [if_pos hold]
    refine .prune _ _ hrow hold fun a _ => ?_
    split_ifs <;> exact ⟨rfl, rfl⟩
  · have hmap : ∀ a ∈ (w.receipt r).approvals,
        (if (w.db.requests.get? a.requestId).any (Db.prunable (now.getD ω.now))
          then { a with note := none } else a) = a := by
      intro a ha
      simp [approvals_request ha, hrow, hold]
    rw [List.map_congr_left hmap, List.map_id', if_neg hold, ← hrow]
    exact .stay _

/-! ## Calls outside -/

theorem worldStep_surfaceOpen {card : Card} (hreq : Requires i (.surfaceOpen card) w) :
    WorldStep H i w (w.exec H i (.surfaceOpen card) ω).2 := by
  obtain ⟨howned, row, hrow, hstatus⟩ := hreq
  have hrun : (Op.surfaceOpen card).run H ω w = (ω.opened, w.db) := rfl
  have hact : Call.act ⟨i, .surfaceOpen card, ω.opened⟩ =
      some (card.requestId, .carded card) := rfl
  exact worldStep_event hrun hact (.card card howned hrow hstatus) (by simp [hrow])

theorem worldStep_execute {toolOp : ToolOp} {arguments : Json} {r : Nat} {name : Option String}
    (hreq : Requires i (.execute toolOp arguments r name) w) :
    WorldStep H i w (w.exec H i (.execute toolOp arguments r name) ω).2 := by
  obtain ⟨howned, ⟨row, hrow, hstatus⟩, ⟨b, hstage⟩, hhanded⟩ := hreq
  have hrun : (Op.execute toolOp arguments r name).run H ω w = ((), w.db) := rfl
  have hact : Call.act ⟨i, .execute toolOp arguments r name, ()⟩ =
      some (r, .executed toolOp arguments) := rfl
  exact worldStep_event hrun hact
    (.execute toolOp arguments howned hrow hstatus hstage hhanded) (by simp [hrow])

theorem worldStep_http {request : HttpRequest} (hreq : Requires i (.http request) w) :
    WorldStep H i w (w.exec H i (.http request) ω).2 := by
  have hrun : (Op.http request).run H ω w = (ω.exchange, w.db) := rfl
  cases hfor : request.message.actionFor with
  | none => exact worldStep_quiet hrun rfl rfl (by simp [Call.act, hfor])
  | some r =>
    obtain ⟨howned, ⟨row, hrow, hstatus⟩, b, t, a, hstage⟩ := hreq r hfor
    have hact : Call.act ⟨i, .http request, ω.exchange⟩ = some (r, .sent request ω.exchange) := by
      simp [Call.act, hfor]
    exact worldStep_event hrun hact (.send request ω.exchange howned hrow hstatus hstage)
      (by simp [hrow])

/-! ## Every call -/

theorem addCaller_tables (now : Time) (name : String) (db : Db) :
    (db.addCaller now name).2.requests = db.requests ∧
      (db.addCaller now name).2.approvals = db.approvals := by
  unfold Db.addCaller
  split_ifs <;> exact ⟨rfl, rfl⟩

theorem addToken_tables (now : Time) (c : Nat) (h : Text) (db : Db) :
    (db.addToken now c h).2.requests = db.requests ∧
      (db.addToken now c h).2.approvals = db.approvals := by
  unfold Db.addToken
  split_ifs <;> exact ⟨rfl, rfl⟩

theorem revokeTokenByPrefix_tables (now : Time) (pre : Text) (db : Db) :
    (db.revokeTokenByPrefix now pre).2.requests = db.requests ∧
      (db.revokeTokenByPrefix now pre).2.approvals = db.approvals := by
  unfold Db.revokeTokenByPrefix
  split_ifs <;> exact ⟨rfl, rfl⟩

/-- The calls that leave requests and approvals alone and are about no request. -/
def Op.quiet : Op → Bool
  | surfaceOpen _ | execute .. | reserveAction .. | updateRequest .. | claimReceived ..
  | claimApproval .. | finishPending .. | createApproval .. | setPolicy .. | compareAndSetPolicy ..
  | prunePayloads _ => false
  | http m => m.message.actionFor.isNone
  | _ => true

theorem Op.quiet_run {o : Op} (hq : o.quiet = true) :
    (o.run H ω w).2.requests = w.db.requests ∧ (o.run H ω w).2.approvals = w.db.approvals ∧
      Call.act ⟨i, o, (o.run H ω w).1⟩ = none := by
  cases o with
  | addCaller name => exact ⟨(addCaller_tables ..).1, (addCaller_tables ..).2, rfl⟩
  | addToken c h => exact ⟨(addToken_tables ..).1, (addToken_tables ..).2, rfl⟩
  | revokeTokenByPrefix pre =>
    exact ⟨(revokeTokenByPrefix_tables ..).1, (revokeTokenByPrefix_tables ..).2, rfl⟩
  | http m =>
    have hnone : m.message.actionFor = none := Option.isNone_iff_eq_none.1 hq
    exact ⟨rfl, rfl, by simp [Call.act, hnone]⟩
  | surfaceOpen | execute | reserveAction | updateRequest | claimReceived | claimApproval
  | finishPending | createApproval | setPolicy | compareAndSetPolicy | prunePayloads => cases hq
  | time | token | lookup | surfacePoll | surfaceCancel | rateAllow | toolSecret | boundsExpired
  | installationId | policyFor | request | approvalForRequest | callerName | callerByName
  | callerByTokenHash | callerIdsForTokenPrefix | activeTokenCount | pendingApprovalsForCaller
  | expiredPendingApprovals | authorizedRequest | revokeCaller | revokeTokensForCaller
  | appendAudit => exact ⟨rfl, rfl, rfl⟩

theorem Op.quiet_receipt {o : Op} (hq : o.quiet = true) (r : Nat) :
    (w.exec H i o ω).2.receipt r = w.receipt r := by
  obtain ⟨hreq, happ, hact⟩ := Op.quiet_run (H := H) (i := i) (w := w) (ω := ω) hq
  exact receipt_quiet rfl hreq happ hact r

theorem Op.quiet_requires {o : Op} (hq : o.quiet = true) : Requires i o w := by
  cases o with
  | http m =>
    have hnone : m.message.actionFor = none := Option.isNone_iff_eq_none.1 hq
    intro r hr
    simp [hnone] at hr
  | _ => trivial

/-- The step rule of the broker: a call whose requirement is met is one step in the life of
every request. -/
theorem exec_worldStep {o : Op} (hs : Sound H w.db w.log) (hreq : Requires i o w) :
    WorldStep H i w (w.exec H i o ω).2 := by
  cases hq : o.quiet with
  | true =>
    obtain ⟨hr, ha, hact⟩ := Op.quiet_run (H := H) (i := i) (w := w) (ω := ω) hq
    exact worldStep_quiet rfl hr ha hact
  | false =>
    cases o with
    | reserveAction => exact worldStep_reserveAction
    | updateRequest => exact worldStep_updateRequest hreq
    | claimReceived => exact worldStep_claimReceived hs hreq
    | claimApproval => exact worldStep_claimApproval hs
    | finishPending => exact worldStep_finishPending hs hreq
    | createApproval => exact worldStep_createApproval hreq
    | setPolicy => exact worldStep_setPolicy hs
    | compareAndSetPolicy => exact worldStep_compareAndSetPolicy hs
    | prunePayloads => exact worldStep_prunePayloads hs
    | surfaceOpen => exact worldStep_surfaceOpen hreq
    | execute => exact worldStep_execute hreq
    | http => exact worldStep_http hreq
    | _ => cases hq

/-- A call that reserves a request is a `reserve_action`. -/
theorem Call.about_reserved {c : Call} {r j : Nat} {res : Reservation}
    (h : c.about r = some ⟨j, .reserved res⟩) :
    j = c.thread ∧ c.act = some (r, .reserved res) ∧
      ∃ caller corr tool op arguments reason generation key,
        c.op = .reserveAction caller corr tool op arguments reason generation key := by
  obtain ⟨act, hact, hcond⟩ : ∃ act, c.act = some (r, act) ∧ ⟨c.thread, act⟩ = Event.mk j (.reserved res) := by
    unfold Call.about at h
    split at h
    · rename_i r' act hact
      split_ifs at h with hr
      exact ⟨act, hr ▸ hact, Option.some.inj h⟩
    · cases h
  obtain ⟨rfl, rfl⟩ := Event.mk.inj hcond
  refine ⟨rfl, hact, ?_⟩
  unfold Call.act at hact
  split at hact
  · exact ⟨_, _, _, _, _, _, _, _, rfl⟩
  all_goals simp at hact

theorem reservedOnce_exec {o : Op} (hreq : Requires i o w) (h : ReservedOnce w.log) :
    ReservedOnce (w.exec H i o ω).2.log := by
  have hnew : ∀ {r j res}, (⟨i, o, (o.run H ω w).1⟩ : Call).about r = some ⟨j, .reserved res⟩ →
      j = i ∧ ∀ r' res', ⟨i, .reserved res'⟩ ∉ eventsOf r' w.log := by
    intro r j res habout
    obtain ⟨rfl, -, caller, corr, tool, op, arguments, reason, generation, key, rfl⟩ :=
      Call.about_reserved habout
    exact ⟨rfl, hreq⟩
  intro j r r' res res' hr hr'
  rw [exec_snd] at hr hr'
  simp only [eventsOf_cons, List.mem_append, Option.mem_toList] at hr hr'
  rcases hr with hr | hr <;> rcases hr' with hr' | hr'
  · have hact := (Call.about_reserved hr).2.1
    have hact' := (Call.about_reserved hr').2.1
    exact (Prod.mk.inj (Option.some.inj (hact.symm.trans hact'))).1
  · obtain ⟨rfl, hno⟩ := hnew hr
    exact absurd hr' (hno _ _)
  · obtain ⟨rfl, hno⟩ := hnew hr'
    exact absurd hr (hno _ _)
  · exact h j r r' res res' hr hr'

theorem exec_sound {o : Op} (hs : Sound H w.db w.log) (hreq : Requires i o w) :
    Sound H (w.exec H i o ω).2.db (w.exec H i o ω).2.log :=
  ⟨fun r => ((exec_worldStep hs hreq).receipts r).sound (hs.receipts r),
    (exec_worldStep hs hreq).keys hs, reservedOnce_exec hreq hs.once⟩

/-! ## Who is known -/

/-- The callers, their tokens and the installation are the same in both databases. -/
structure SameIdentity (db db' : Db) : Prop where
  callers : db'.callers = db.callers
  tokens : db'.tokens = db.tokens
  installation : db'.installationUuid = db.installationUuid

theorem SameIdentity.refl (db : Db) : SameIdentity db db := ⟨rfl, rfl, rfl⟩

/-- The calls that write callers or tokens. -/
def Op.identifies : Op → Bool
  | addCaller _ | addToken .. | revokeCaller _ | revokeTokensForCaller .. | revokeTokenByPrefix _ => true
  | _ => false

theorem reserveAction_identity (now : Time) (fresh : PyStr) (caller : Caller) (corr : Text)
    (tool op : String) (arguments reason : Json) (generation : Text) (key : Json) (db : Db) :
    SameIdentity db
      (db.reserveAction H now fresh caller corr tool op arguments reason generation key).2 := by
  rcases reserveAction_cases H now fresh caller corr tool op arguments reason generation key db with
    ⟨e, hdb⟩ | ⟨k, text, prior, -, -, -, -, -, hdb⟩ | ⟨k, text, bound, -, -, -, -, -, hdb⟩ <;>
    rw [hdb] <;> exact ⟨rfl, rfl, rfl⟩

theorem claimReceived_identity (now : Time) (fresh : PyStr) (r : Nat) (generation : Option Text)
    (caller : Option Caller) (digest : Option Text) (db : Db) :
    SameIdentity db (db.claimReceived H now fresh r generation caller digest).2 := by
  unfold Db.claimReceived
  split
  · exact .refl db
  · split_ifs <;> exact ⟨rfl, rfl, rfl⟩

theorem claimApproval_identity (fresh : PyStr) (r : Nat) (generation : Option Text)
    (state : SurfaceState) (now : Time) (caller : Option Caller) (db : Db) :
    SameIdentity db (db.claimApproval H fresh r generation state now caller).2 := by
  unfold Db.claimApproval
  split
  · exact .refl db
  · simp only
    split
    · exact ⟨rfl, rfl, rfl⟩
    · split_ifs <;> exact ⟨rfl, rfl, rfl⟩

theorem finishPending_identity (r : Nat) (status : Status) (approvalStatus : ApprovalStatus)
    (error : Option String) (state : Option SurfaceState) (now : Time) (deadlineOnly : Bool) (db : Db) :
    SameIdentity db (db.finishPending r status approvalStatus error state now deadlineOnly).2 := by
  unfold Db.finishPending
  split
  · split_ifs <;> exact ⟨rfl, rfl, rfl⟩
  · exact .refl db

theorem Op.identity_run {o : Op} (ho : o.identifies = false) :
    SameIdentity w.db (o.run H ω w).2 := by
  cases o with
  | reserveAction => exact reserveAction_identity ..
  | claimReceived => exact claimReceived_identity ..
  | claimApproval => exact claimApproval_identity ..
  | finishPending => exact finishPending_identity ..
  | setPolicy c policy =>
    simp only [Op.run, Db.setPolicy]
    split_ifs <;> exact ⟨rfl, rfl, rfl⟩
  | compareAndSetPolicy c before after operator =>
    rcases compareAndSetPolicy_cases ω.now ω.text c before after operator w.db with
      hdb | ⟨-, row, e, -, -, hdb⟩ <;> simp only [Op.run, hdb] <;> exact ⟨rfl, rfl, rfl⟩
  | updateRequest r fields =>
    simp only [Op.run, Db.updateRequest]
    split_ifs <;> exact ⟨rfl, rfl, rfl⟩
  | createApproval r ref expiresAt digest =>
    simp only [Op.run, Db.createApproval]
    split_ifs <;> exact ⟨rfl, rfl, rfl⟩
  | addCaller | addToken | revokeCaller | revokeTokensForCaller | revokeTokenByPrefix => cases ho
  | _ => exact ⟨rfl, rfl, rfl⟩

end Toolstack.Broker
