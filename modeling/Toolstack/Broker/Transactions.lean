import Toolstack.Broker.Lifetime

/-! What each transaction does to each receipt. A call that may advance a request has a
requirement; given it, the call is one step in the life of every request. -/

namespace Toolstack.Broker

open Json (canonical normal)

variable {H : Hash} {i : Nat} {w : World} {ω : Oracle}

@[simp] theorem exec_fst (o : Op) : (w.exec H i o ω).1 = (o.run H ω w).1 := rfl

theorem exec_snd (o : Op) : (w.exec H i o ω).2 =
    { w with db := (o.run H ω w).2, log := ⟨i, o, (o.run H ω w).1⟩ :: w.log } := rfl

/-! ## Sound databases -/

/-- A thread reserves at most one request. -/
def ReservedOnce (log : List Call) : Prop :=
  ∀ j r r' res res', ⟨j, .reserved res⟩ ∈ eventsOf r log → ⟨j, .reserved res'⟩ ∈ eventsOf r' log →
    r = r'

/-- Every receipt is sound and a caller's key names one request. -/
structure Sound (H : Hash) (db : Db) (log : List Call) : Prop where
  receipts : ∀ r, (receiptOf r db log).Sound H
  keys : ∀ r r' row row' k, db.requests.get? r = some row → db.requests.get? r' = some row' →
    row.callerId = row'.callerId → row.idempotencyKey = some k → row'.idempotencyKey = some k →
    r = r'
  once : ReservedOnce log

/-- What one call does to the whole database. -/
structure WorldStep (H : Hash) (i : Nat) (w w' : World) : Prop where
  receipts : ∀ r, Receipt.Step H i (w.receipt r) (w'.receipt r)
  inserted : ∀ r row, (w.receipt r).row = none → (w'.receipt r).row = some row →
    r = w.db.requests.nextId ∧
      ∀ k, row.idempotencyKey = some k → w.db.priorRequest row.callerId (some k) = none
  log : ∃ c : Call, c.thread = i ∧ w'.log = c :: w.log
  backups : w'.backups = w.backups

theorem Db.priorRequest_none {db : Db} {callerId : Nat} {k : PyStr} {r : Nat} {row : Row}
    (h : db.priorRequest callerId (some k) = none) (hr : db.requests.get? r = some row)
    (hc : row.callerId = callerId) : row.idempotencyKey ≠ some k := by
  intro hk
  have hnone : ∀ row ∈ db.requests.rows, ¬(row.callerId = callerId ∧ row.idempotencyKey = some k) := by
    simpa [priorRequest] using h
  exact hnone row (Table.mem_of_get? hr) ⟨hc, hk⟩

theorem Row.frozen_callerId {r r' : Row} (h : r'.frozen = r.frozen) : r'.callerId = r.callerId :=
  (congrArg Row.callerId h :)

theorem Row.frozen_key {r r' : Row} (h : r'.frozen = r.frozen) :
    r'.idempotencyKey = r.idempotencyKey :=
  (congrArg Row.idempotencyKey h :)

theorem WorldStep.keys {w' : World} (h : WorldStep H i w w') (hs : Sound H w.db w.log) :
    ∀ r r' row row' k, w'.db.requests.get? r = some row → w'.db.requests.get? r' = some row' →
      row.callerId = row'.callerId → row.idempotencyKey = some k → row'.idempotencyKey = some k →
      r = r' := by
  have hold : ∀ r row, w'.db.requests.get? r = some row →
      (∃ row₀, w.db.requests.get? r = some row₀ ∧ row.callerId = row₀.callerId ∧
        row.idempotencyKey = row₀.idempotencyKey) ∨
      (r = w.db.requests.nextId ∧
        ∀ k, row.idempotencyKey = some k → w.db.priorRequest row.callerId (some k) = none) := by
    intro r row hr
    cases hr₀ : w.db.requests.get? r with
    | none => exact .inr (h.inserted r row hr₀ hr)
    | some row₀ =>
      obtain ⟨row₁, hr₁, hp⟩ := (h.receipts r).later.row row₀ hr₀
      obtain rfl := Option.some.inj (hr.symm.trans hr₁)
      exact .inl ⟨row₀, rfl, Row.frozen_callerId hp.frozen, Row.frozen_key hp.frozen⟩
  intro r r' row row' k hr hr' hc hk hk'
  rcases hold r row hr with ⟨row₀, h₀, hc₀, hk₀⟩ | ⟨rfl, hprior⟩ <;>
    rcases hold r' row' hr' with ⟨row₀', h₀', hc₀', hk₀'⟩ | ⟨rfl, hprior'⟩
  · exact hs.keys r r' row₀ row₀' k h₀ h₀' (by rw [← hc₀, hc, hc₀']) (hk₀ ▸ hk) (hk₀' ▸ hk')
  · exact absurd (hk₀ ▸ hk) (Db.priorRequest_none (hprior' k hk') h₀ (by rw [← hc₀, hc]))
  · exact absurd (hk₀' ▸ hk') (Db.priorRequest_none (hprior k hk) h₀' (by rw [← hc₀', hc]))
  · rfl

/-! ## Requirements -/

/-- The row `update_request` leaves. -/
def RequestFields.result (f : RequestFields) (now : Time) (row : Row) : Row := f.cleared.apply now row

/-- `update_request` is unguarded: its caller must hold the request, and either park it or end
it in a status that its history bears out. -/
def UpdateAllowed (i : Nat) (R : Receipt) (f : RequestFields) : Prop :=
  R.Owned i ∧ ∃ row, R.row = some row ∧
    ((f = { status := some .pendingApproval } ∧ row.status = .received) ∨
      ((∀ a ∈ R.approvals, a.status ≠ .pending) ∧
        ∃ st : Stage, effects R.events = st.events ∧ ∀ now, Ends row (f.result now row) ∧
          st.Fits (f.result now row) ∧
          ((f.result now row).resultJson.isSome → (f.result now row).status = .completed)))

/-- What thread `i` must be able to show before it makes a call. -/
def Requires (i : Nat) : Op → World → Prop
  | .updateRequest r f, w => UpdateAllowed i (w.receipt r) f
  | .claimReceived r _ _ _, w => ∀ row, (w.receipt r).row = some row → row.status = .received →
      (w.receipt r).Owned i ∧ (w.receipt r).Untouched
  | .claimApproval r _ state _ _, w => ∀ a, w.db.approvalForRequest r = some a →
      ∃ st : SurfaceState, (⟨i, .surfacePoll a.surfaceRef, .ok st⟩ : Call) ∈ w.log ∧
        st.outcome = .approved ∧ state.outcome = .approved
  | .finishPending _ status approvalStatus _ _ _ _, _ =>
      (status = .denied ∨ status = .expired) ∧ approvalStatus ≠ .approved ∧ approvalStatus ≠ .pending
  | .reserveAction .., w => ∀ r res, ⟨i, .reserved res⟩ ∉ (w.receipt r).events
  | .createApproval r _ _ _, w => (w.receipt r).Owned i ∧ (w.receipt r).approvals = [] ∧
      ∃ row, (w.receipt r).row = some row ∧ row.status = .received
  | .surfaceOpen card, w => (w.receipt card.requestId).Owned i ∧
      ∃ row, (w.receipt card.requestId).row = some row ∧ row.status = .received
  | .execute toolOp arguments r _, w => (w.receipt r).Owned i ∧
      (∃ row, (w.receipt r).row = some row ∧ row.status = .executing) ∧
      (∃ b, effects (w.receipt r).events = (Stage.claimed i b).events) ∧
      ∀ j res, ⟨j, .reserved res⟩ ∈ (w.receipt r).events → Handed res toolOp arguments
  | .http request, w => ∀ r, request.message.actionFor = some r → (w.receipt r).Owned i ∧
      (∃ row, (w.receipt r).row = some row ∧ row.status = .executing) ∧
      ∃ b t a, effects (w.receipt r).events = (Stage.executed i b t a).events
  | _, _ => True

/-! ## Receipts after a change of the tables -/

theorem eventsOf_cons (r : Nat) (c : Call) (log : List Call) :
    eventsOf r (c :: log) = (c.about r).toList ++ eventsOf r log := by
  cases h : c.about r <;> simp [eventsOf, h]

theorem Call.about_none {r : Nat} {c : Call} (h : c.act = none) : c.about r = none := by
  simp [Call.about, h]

theorem Call.about_some {r r' : Nat} {c : Call} {act : Act} (h : c.act = some (r', act)) :
    c.about r = if r' = r then some ⟨c.thread, act⟩ else none := by
  simp [Call.about, h]

theorem eventsOf_cons_none {r : Nat} {c : Call} {log : List Call} (h : c.act = none) :
    eventsOf r (c :: log) = eventsOf r log := by
  rw [eventsOf_cons, Call.about_none h]
  rfl

theorem eventsOf_cons_self {r : Nat} {c : Call} {log : List Call} {act : Act}
    (h : c.act = some (r, act)) : eventsOf r (c :: log) = ⟨c.thread, act⟩ :: eventsOf r log := by
  rw [eventsOf_cons, Call.about_some h, if_pos rfl]
  rfl

theorem eventsOf_cons_ne {r r' : Nat} {c : Call} {log : List Call} {act : Act}
    (h : c.act = some (r', act)) (hne : r ≠ r') : eventsOf r (c :: log) = eventsOf r log := by
  rw [eventsOf_cons, Call.about_some h, if_neg hne.symm]
  rfl

theorem exec_of_run {o : Op} {answer : o.Ret} {db : Db} (hrun : o.run H ω w = (answer, db)) :
    (w.exec H i o ω).2 = { w with db := db, log := ⟨i, o, answer⟩ :: w.log } := by
  rw [exec_snd, hrun]

theorem receipt_exec {o : Op} {answer : o.Ret} {db : Db} (hrun : o.run H ω w = (answer, db))
    (r : Nat) : (w.exec H i o ω).2.receipt r = receiptOf r db (⟨i, o, answer⟩ :: w.log) := by
  rw [exec_of_run hrun]
  rfl

theorem receipt_quiet {o : Op} {answer : o.Ret} {db : Db} (hrun : o.run H ω w = (answer, db))
    (hreq : db.requests = w.db.requests) (happ : db.approvals = w.db.approvals)
    (hact : Call.act ⟨i, o, answer⟩ = none) (r : Nat) :
    (w.exec H i o ω).2.receipt r = w.receipt r := by
  simp only [World.receipt, exec_of_run hrun, receiptOf, hreq, happ, eventsOf_cons_none hact]

/-- A call that leaves requests and approvals alone and is about no request. -/
theorem worldStep_quiet {o : Op} {answer : o.Ret} {db : Db} (hrun : o.run H ω w = (answer, db))
    (hreq : db.requests = w.db.requests) (happ : db.approvals = w.db.approvals)
    (hact : Call.act ⟨i, o, answer⟩ = none) : WorldStep H i w (w.exec H i o ω).2 := by
  have heq := receipt_quiet hrun hreq happ hact
  refine ⟨fun r => heq r ▸ .stay _, fun r row habs hrow => ?_, ⟨_, rfl, rfl⟩, rfl⟩
  rw [heq, habs] at hrow
  cases hrow

/-- A call that changes one receipt only. -/
theorem worldStep_one {o : Op} (r₀ : Nat)
    (hstep : Receipt.Step H i (w.receipt r₀) ((w.exec H i o ω).2.receipt r₀))
    (hother : ∀ r, r ≠ r₀ → (w.exec H i o ω).2.receipt r = w.receipt r)
    (hrow : (w.receipt r₀).row.isSome) : WorldStep H i w (w.exec H i o ω).2 := by
  refine ⟨fun r => ?_, fun r row habs hrow' => ?_, ⟨_, rfl, rfl⟩, rfl⟩
  · rcases eq_or_ne r r₀ with rfl | hne
    · exact hstep
    · rw [hother r hne]
      exact .stay _
  · rcases eq_or_ne r r₀ with rfl | hne
    · simp [habs] at hrow
    · rw [hother r hne, habs] at hrow'
      cases hrow'

theorem receipt_event {o : Op} {answer : o.Ret} {r₀ : Nat} {act : Act}
    (hrun : o.run H ω w = (answer, w.db)) (hact : Call.act ⟨i, o, answer⟩ = some (r₀, act)) :
    (w.exec H i o ω).2.receipt r₀ =
      { w.receipt r₀ with events := ⟨i, act⟩ :: (w.receipt r₀).events } := by
  simp only [World.receipt, exec_of_run hrun, receiptOf, eventsOf_cons_self hact]

/-- A call that is about one request and leaves the tables alone. -/
theorem worldStep_event {o : Op} {answer : o.Ret} {r₀ : Nat} {act : Act}
    (hrun : o.run H ω w = (answer, w.db)) (hact : Call.act ⟨i, o, answer⟩ = some (r₀, act))
    (hstep : Receipt.Step H i (w.receipt r₀)
      { w.receipt r₀ with events := ⟨i, act⟩ :: (w.receipt r₀).events })
    (hrow : (w.receipt r₀).row.isSome) : WorldStep H i w (w.exec H i o ω).2 := by
  refine worldStep_one r₀ (receipt_event hrun hact ▸ hstep) (fun r hne => ?_) hrow
  simp only [World.receipt, exec_of_run hrun, receiptOf, eventsOf_cons_ne hact hne]

/-! ## The rows of one request -/

theorem get?_setRequest (db : Db) (r₀ : Nat) (f : Row → Row) (hf) (r : Nat) :
    (db.setRequest r₀ f hf).requests.get? r =
      if r = r₀ then (db.requests.get? r).map f else db.requests.get? r := by
  simp only [Db.setRequest, Table.get?_update]
  cases h : db.requests.get? r with
  | none => simp
  | some row =>
    have hid : row.id = r := Table.get?_key h
    by_cases hr : r = r₀ <;> simp [hid, hr]

theorem receipt_row {r : Nat} {row : Row} (h : w.db.request r = some row) :
    (w.receipt r).row = some row := h

theorem approvalForRequest_eq (db : Db) (r : Nat) :
    db.approvalForRequest r = (db.approvals.select fun a => a.requestId = r).head? := by
  simp [Db.approvalForRequest, Table.select, List.head?_filter]

/-- In a sound database a request has at most the one approval that is looked up for it. -/
theorem approvals_eq (hs : Sound H w.db w.log) {r : Nat} {row : Row}
    (hrow : (w.receipt r).row = some row) {a : ApprovalRow}
    (ha : w.db.approvalForRequest r = some a) : (w.receipt r).approvals = [a] := by
  have hlen := ((hs.receipts r).row hrow).single
  rw [approvalForRequest_eq] at ha
  change (w.db.approvals.select fun a => a.requestId = r).length ≤ 1 at hlen
  change (w.db.approvals.select fun a => a.requestId = r) = [a]
  cases hl : w.db.approvals.select fun a => a.requestId = r with
  | nil => simp [hl] at ha
  | cons b l =>
    rw [hl] at ha hlen
    obtain rfl := Option.some.inj ha
    have hnil : l = [] := List.eq_nil_of_length_eq_zero (by simpa using hlen)
    rw [hnil]

theorem mem_approvals {r : Nat} {a : ApprovalRow} :
    a ∈ (w.receipt r).approvals ↔ a ∈ w.db.approvals.rows ∧ a.requestId = r := by
  simp [World.receipt, receiptOf, Table.mem_select]

/-- An update that hits one approval leaves the approvals of the other requests alone. -/
theorem select_update_one {t : Table ApprovalRow} {a : ApprovalRow} (ha : a ∈ t.rows)
    {f : ApprovalRow → ApprovalRow} (hf) (hreq : ∀ b, (f b).requestId = b.requestId) {r : Nat}
    (hne : r ≠ a.requestId) :
    (t.update (fun b => b.id = a.id) f hf).select (fun b => b.requestId = r) =
      t.select fun b => b.requestId = r := by
  rw [Table.select_update _ _ _ _ _ fun b => by simp [hreq]]
  refine (List.map_congr_left fun b hb => ?_).trans (List.map_id _)
  obtain ⟨hb, hr⟩ := Table.mem_select.1 hb
  have hid : b.id ≠ a.id := by
    intro he
    obtain rfl := List.inj_on_of_nodup_map t.nodup hb ha he
    simp at hr
    exact hne hr.symm
  simp [hid]

theorem select_update_self {t : Table ApprovalRow} {a : ApprovalRow} {r : Nat}
    (hsel : (t.select fun b => b.requestId = r) = [a]) {f : ApprovalRow → ApprovalRow} (hf)
    (hreq : ∀ b, (f b).requestId = b.requestId) :
    (t.update (fun b => b.id = a.id) f hf).select (fun b => b.requestId = r) = [f a] := by
  rw [Table.select_update _ _ _ _ _ fun b => by simp [hreq], hsel]
  simp

/-- An update of the approvals of one request. -/
theorem select_update_request (t : Table ApprovalRow) (r : Nat) (p : ApprovalRow → Bool)
    (f : ApprovalRow → ApprovalRow) (hf) (hreq : ∀ b, (f b).requestId = b.requestId) (r' : Nat) :
    (t.update (fun b => b.requestId = r && p b) f hf).select (fun b => b.requestId = r') =
      if r' = r then (t.select fun b => b.requestId = r').map fun b => if p b then f b else b
      else t.select fun b => b.requestId = r' := by
  rw [Table.select_update _ _ _ _ _ fun b => by simp [hreq]]
  split_ifs with hr
  · refine List.map_congr_left fun b hb => ?_
    have hb' : b.requestId = r := by simpa [hr] using (Table.mem_select.1 hb).2
    simp [hb']
  · refine (List.map_congr_left fun b hb => ?_).trans (List.map_id _)
    have hb' : b.requestId ≠ r := by
      have hmem : b.requestId = r' := by simpa using (Table.mem_select.1 hb).2
      exact hmem ▸ hr
    simp [hb']

/-! ## The transactions on one request -/

/-- The receipts after a call that sets one request row and nothing else. -/
theorem receipt_setRequest {o : Op} {answer : o.Ret} {r : Nat} {f : Row → Row} {hf}
    (hrun : o.run H ω w = (answer, w.db.setRequest r f hf)) (r' : Nat) :
    (w.exec H i o ω).2.receipt r' =
      { row := if r' = r then (w.receipt r').row.map f else (w.receipt r').row,
        approvals := (w.receipt r').approvals,
        events := eventsOf r' (⟨i, o, answer⟩ :: w.log) } := by
  simp only [World.receipt, exec_of_run hrun, receiptOf, get?_setRequest]
  rfl

theorem worldStep_updateRequest {r : Nat} {f : RequestFields}
    (hreq : Requires i (.updateRequest r f) w) :
    WorldStep H i w (w.exec H i (.updateRequest r f) ω).2 := by
  obtain ⟨howned, row, hrow, hallowed⟩ := hreq
  by_cases hempty : f.cleared.isEmpty = true
  · have hdb : w.db.updateRequest ω.now r f = w.db := by simp [Db.updateRequest, hempty]
    exact worldStep_quiet (congrArg (Prod.mk ()) hdb) rfl rfl rfl
  have hdb : w.db.updateRequest ω.now r f =
      w.db.setRequest r (f.cleared.apply ω.now) fun _ => rfl := by
    simp [Db.updateRequest, hempty]
  have hrun := receipt_setRequest (H := H) (i := i) (o := .updateRequest r f) (congrArg (Prod.mk ()) hdb)
  have hev : ∀ r', eventsOf r' (⟨i, .updateRequest r f, ()⟩ :: w.log) = eventsOf r' w.log :=
    fun r' => eventsOf_cons_none rfl
  refine worldStep_one r ?_ (fun r' hne => ?_) (by simp [hrow])
  · rw [hrun, if_pos rfl, hrow, hev, Option.map_some]
    rcases hallowed with ⟨rfl, hstatus⟩ | ⟨hsettled, st, hst, hend⟩
    · exact .park ω.now howned hrow hstatus
    · obtain ⟨hends, hfits, hresult⟩ := hend ω.now
      exact .settle howned hrow hends hsettled hst hfits hresult
  · rw [hrun, if_neg hne, hev]
    rfl

/-- An immediate claim is won by a valid request, ends an invalid one, and leaves any other. -/
theorem claimReceived_cases (H : Hash) (now : Time) (fresh : PyStr) (g : Option Text)
    (c : Option Caller) (d : Option Text) {db : Db} {r : Nat} {row : Row} (hrow : db.request r = some row) :
    (Db.receivedValid H fresh row g c d db = true ∧ db.claimReceived H now fresh r g c d =
      (true, db.setRequest r (fun r => { r with status := .executing, updatedAt := now })
        fun _ => rfl)) ∨
    (row.status = .received ∧ db.claimReceived H now fresh r g c d =
      (false, db.setRequest r (Row.close now .denied (some "authority_changed")) fun _ => rfl)) ∨
    (row.status ≠ .received ∧ db.claimReceived H now fresh r g c d = (false, db)) := by
  cases hvalid : Db.receivedValid H fresh row g c d db with
  | true => exact .inl ⟨rfl, by simp [Db.claimReceived, hrow, hvalid]⟩
  | false =>
    by_cases hstatus : row.status = .received
    · exact .inr (.inl ⟨hstatus, by simp [Db.claimReceived, hrow, hvalid, hstatus]⟩)
    · exact .inr (.inr ⟨hstatus, by simp [Db.claimReceived, hrow, hvalid, hstatus]⟩)

theorem receivedValid_status {db : Db} {fresh : PyStr} {g : Option Text} {c : Option Caller}
    {d : Option Text} {row : Row} (h : Db.receivedValid H fresh row g c d db = true) :
    row.status = .received := by
  simp only [Db.receivedValid, Bool.and_eq_true, decide_eq_true_eq] at h
  tauto

theorem worldStep_claimReceived {r : Nat} {g : Option Text} {c : Option Caller} {d : Option Text}
    (hs : Sound H w.db w.log) (hreq : Requires i (.claimReceived r g c d) w) :
    WorldStep H i w (w.exec H i (.claimReceived r g c d) ω).2 := by
  cases hrow : w.db.request r with
  | none =>
    have hdb : w.db.claimReceived H ω.now ω.hex r g c d = (false, w.db) := by
      simp [Db.claimReceived, hrow]
    exact worldStep_quiet hdb rfl rfl rfl
  | some row =>
    have hrow' : (w.receipt r).row = some row := hrow
    rcases claimReceived_cases H ω.now ω.hex g c d hrow with
      ⟨hvalid, hdb⟩ | ⟨hstatus, hdb⟩ | ⟨-, hdb⟩
    · have hstatus := receivedValid_status hvalid
      obtain ⟨howned, huntouched⟩ := hreq row hrow' hstatus
      have hrun := receipt_setRequest (i := i) (o := .claimReceived r g c d) hdb
      have hact : Call.act ⟨i, .claimReceived r g c d, true⟩ = some (r, .claimed false) := rfl
      refine worldStep_one r ?_ (fun r' hne => ?_) (by simp [hrow'])
      · rw [hrun, if_pos rfl, hrow', eventsOf_cons_self hact]
        exact .claim ω.now howned hrow' hstatus huntouched
      · rw [hrun, if_neg hne, eventsOf_cons_ne hact hne]
        rfl
    · obtain ⟨howned, huntouched⟩ := hreq row hrow' hstatus
      have hrun := receipt_setRequest (i := i) (o := .claimReceived r g c d) hdb
      have hev : ∀ r', eventsOf r' (⟨i, .claimReceived r g c d, false⟩ :: w.log) =
          eventsOf r' w.log := fun r' => eventsOf_cons_none rfl
      have hidle : effects (w.receipt r).events = Stage.idle.events :=
        ((hs.receipts r).row hrow').idle (by simp [hstatus, Status.unclaimed])
      refine worldStep_one r ?_ (fun r' hne => ?_) (by simp [hrow'])
      · rw [hrun, if_pos rfl, hrow', hev, Option.map_some]
        refine .settle howned hrow' (Row.close_ends rfl) huntouched.settled hidle
          (Stage.fits_idle rfl) fun hr => ?_
        simpa [hstatus] using ((hs.receipts r).row hrow').result hr
      · rw [hrun, if_neg hne, hev]
        rfl
    · exact worldStep_quiet hdb rfl rfl rfl

/-- The receipts after a transaction that sets one request row and its one approval. -/
theorem receipt_setBoth {o : Op} {answer : o.Ret} {r : Nat} {a : ApprovalRow}
    {f : Row → Row} {hf} {g : ApprovalRow → ApprovalRow} {hg}
    (hrun : o.run H ω w = (answer, (w.db.setRequest r f hf).setApproval a.id g hg))
    (hsel : (w.receipt r).approvals = [a]) (hreq : ∀ b, (g b).requestId = b.requestId) (r' : Nat) :
    (w.exec H i o ω).2.receipt r' =
      { row := if r' = r then (w.receipt r').row.map f else (w.receipt r').row,
        approvals := if r' = r then [g a] else (w.receipt r').approvals,
        events := eventsOf r' (⟨i, o, answer⟩ :: w.log) } := by
  have ha : a ∈ w.db.approvals.rows ∧ a.requestId = r := mem_approvals.1 (by rw [hsel]; simp)
  have happ : (w.exec H i o ω).2.db.approvals =
      w.db.approvals.update (fun b => b.id = a.id) g hg := by rw [exec_of_run hrun]; rfl
  have hget : (w.exec H i o ω).2.db.requests.get? r' =
      if r' = r then (w.db.requests.get? r').map f else w.db.requests.get? r' := by
    rw [exec_of_run hrun]
    exact get?_setRequest w.db r f hf r'
  simp only [World.receipt, receiptOf, hget, happ]
  split_ifs with hr
  · rw [hr, select_update_self hsel hg hreq, exec_of_run hrun]
  · rw [select_update_one ha.1 hg hreq (ha.2 ▸ hr), exec_of_run hrun]

/-- A claim that is refused while the request is pending ends it. -/
theorem claimApproval_refused {db : Db} {fresh : PyStr} {r : Nat} {g : Option Text}
    (state : SurfaceState) {now : Time} {c : Option Caller} {row : Row}
    (hrow : db.request r = some row)
    (happ : (db.approvalForRequest r).filter
      (fun app => Db.approvalValid H fresh row app g now c db) = none)
    (hstatus : row.status = .pendingApproval) : ∃ s e as,
      (s = Status.denied ∨ s = Status.expired) ∧ as ≠ ApprovalStatus.pending ∧
      as ≠ ApprovalStatus.approved ∧ db.claimApproval H fresh r g state now c =
        (false, (db.setRequest r (Row.close now s e) fun _ => rfl).setApprovals r
          (fun a => a.status = .pending) (ApprovalRow.setStatus as) fun _ => rfl) := by
  by_cases hexp : (db.approvalForRequest r).any
      (fun app => app.status = .pending && app.expiresAt ≤ now) = true
  · exact ⟨.expired, none, .expired, .inr rfl, by decide, by decide,
      by simp only [Db.claimApproval, hrow, happ, hstatus, hexp]; rfl⟩
  · exact ⟨.denied, some "approval_invalidated", .cancelled, .inl rfl, by decide, by decide,
      by simp only [Db.claimApproval, hrow, happ, hstatus, hexp]; rfl⟩

theorem worldStep_refusedClaim {r : Nat} {g : Option Text} {state : SurfaceState} {now : Time}
    {c : Option Caller} {row : Row} (hrow : w.db.request r = some row)
    (happ : (w.db.approvalForRequest r).filter
      (fun app => Db.approvalValid H ω.hex row app g now c w.db) = none)
    (hstatus : row.status = .pendingApproval) :
    WorldStep H i w (w.exec H i (.claimApproval r g state now c) ω).2 := by
  have hrow' : (w.receipt r).row = some row := hrow
  obtain ⟨s, e, as, hs, has, has', hdb⟩ := claimApproval_refused state hrow happ hstatus
  have hrun := exec_of_run (i := i) (o := .claimApproval r g state now c) hdb
  have hev : ∀ r', eventsOf r' (⟨i, .claimApproval r g state now c, false⟩ :: w.log) =
      eventsOf r' w.log := fun r' => eventsOf_cons_none rfl
  have hreceipt : ∀ r', (w.exec H i (.claimApproval r g state now c) ω).2.receipt r' =
      { row := if r' = r then (w.receipt r').row.map (Row.close now s e) else (w.receipt r').row
        approvals := if r' = r then (w.receipt r').approvals.map fun a =>
          if a.status = .pending then a.setStatus as else a else (w.receipt r').approvals
        events := (w.receipt r').events } := by
    intro r'
    have hget := get?_setRequest w.db r (Row.close now s e) (fun _ => rfl) r'
    have happs := select_update_request w.db.approvals r (fun a => a.status = .pending)
      (ApprovalRow.setStatus as) (fun _ => rfl) (fun _ => rfl) r'
    simp only [decide_eq_true_eq] at happs
    rw [World.receipt, hrun]
    simp only [receiptOf, hev]
    exact congrArg₂ (fun row as => Receipt.mk row as _) hget happs
  refine worldStep_one r ?_ (fun r' hne => ?_) (by simp [hrow'])
  · rw [hreceipt, if_pos rfl, if_pos rfl, hrow', Option.map_some]
    refine .refuse _ hrow' hstatus (Row.close_ends ?_) rfl hs fun a _ => ?_
    · rcases hs with rfl | rfl <;> rfl
    · split_ifs with hp
      · exact ⟨rfl, .inr ⟨hp, has'⟩, has⟩
      · exact ⟨rfl, .inl rfl, hp⟩
  · rw [hreceipt, if_neg hne, if_neg hne]

/-- A claim through an approval is won by a valid pair, ends an invalid one, and leaves a
request that is not pending. -/
theorem claimApproval_cases (H : Hash) (fresh : PyStr) (g : Option Text) (state : SurfaceState)
    (now : Time) (c : Option Caller) {db : Db} {r : Nat} {row : Row} (hrow : db.request r = some row) :
    (∃ app, db.approvalForRequest r = some app ∧
      Db.approvalValid H fresh row app g now c db = true ∧ db.claimApproval H fresh r g state now c =
      (true, (db.setRequest r (fun r => { r with status := .executing, updatedAt := now })
        fun _ => rfl).setApproval app.id (Db.decided .approved (some state)) fun _ => rfl)) ∨
    (row.status = .pendingApproval ∧ (db.approvalForRequest r).filter
      (fun app => Db.approvalValid H fresh row app g now c db) = none) ∨
    (row.status ≠ .pendingApproval ∧ db.claimApproval H fresh r g state now c = (false, db)) := by
  cases happ : (db.approvalForRequest r).filter
      fun app => Db.approvalValid H fresh row app g now c db with
  | some app =>
    obtain ⟨hlook, hvalid⟩ := Option.filter_eq_some_iff.1 happ
    exact .inl ⟨app, hlook, hvalid, by simp [Db.claimApproval, hrow, happ]⟩
  | none =>
    by_cases hstatus : row.status = .pendingApproval
    · exact .inr (.inl ⟨hstatus, rfl⟩)
    · exact .inr (.inr ⟨hstatus, by simp [Db.claimApproval, hrow, happ, hstatus]⟩)

theorem approvalValid_status {db : Db} {fresh : PyStr} {g : Option Text} {now : Time}
    {c : Option Caller} {row : Row} {app : ApprovalRow}
    (h : Db.approvalValid H fresh row app g now c db = true) :
    row.status = .pendingApproval ∧ app.status = .pending := by
  simp only [Db.approvalValid, Bool.and_eq_true, decide_eq_true_eq] at h
  tauto

theorem worldStep_claimApproval {r : Nat} {g : Option Text} {state : SurfaceState} {now : Time}
    {c : Option Caller} (hs : Sound H w.db w.log) :
    WorldStep H i w (w.exec H i (.claimApproval r g state now c) ω).2 := by
  cases hrow : w.db.request r with
  | none =>
    have hdb : w.db.claimApproval H ω.hex r g state now c = (false, w.db) := by
      simp [Db.claimApproval, hrow]
    exact worldStep_quiet hdb rfl rfl rfl
  | some row =>
    have hrow' : (w.receipt r).row = some row := hrow
    rcases claimApproval_cases H ω.hex g state now c hrow with ⟨app, hlook, hvalid, hdb⟩ | ⟨hstatus, happ⟩ | ⟨-, hdb⟩
    · obtain ⟨hstatus, hpending⟩ := approvalValid_status hvalid
      have hsingle := approvals_eq hs hrow' hlook
      have hrun := receipt_setBoth (i := i) (o := .claimApproval r g state now c) hdb hsingle
        fun _ => rfl
      have hact : Call.act ⟨i, .claimApproval r g state now c, true⟩ = some (r, .claimed true) := rfl
      refine worldStep_one r ?_ (fun r' hne => ?_) (by simp [hrow'])
      · rw [hrun, if_pos rfl, if_pos rfl, hrow', eventsOf_cons_self hact]
        exact .approve now hrow' hstatus hsingle hpending rfl rfl
      · rw [hrun, if_neg hne, if_neg hne, eventsOf_cons_ne hact hne]
        rfl
    · exact worldStep_refusedClaim hrow happ hstatus
    · exact worldStep_quiet hdb rfl rfl rfl

theorem finishReason_cases (row : Row) (a : ApprovalRow) (now : Time)
    (reason : Status × ApprovalStatus × Option String) (db : Db) :
    db.finishReason row a now reason = reason ∨
      (db.finishReason row a now reason).1 = .expired ∧
        ((db.finishReason row a now reason).2.1 = .expired ∨
          (db.finishReason row a now reason).2.1 = .cancelled) := by
  unfold Db.finishReason
  split_ifs
  · exact .inr ⟨rfl, .inl rfl⟩
  · exact .inr ⟨rfl, .inr rfl⟩
  · exact .inl rfl

/-- A finish either finds nothing pending or ends both rows. -/
theorem finishPending_eq (r : Nat) (s : Status) (as : ApprovalStatus) (e : Option String)
    (st : Option SurfaceState) (now : Time) (deadlineOnly : Bool) (db : Db) :
    db.finishPending r s as e st now deadlineOnly = (false, db) ∨
    ∃ row a, db.request r = some row ∧ db.approvalForRequest r = some a ∧
      row.status = .pendingApproval ∧ a.status = .pending ∧
      (deadlineOnly = true → a.expiresAt ≤ now) ∧
      db.finishPending r s as e st now deadlineOnly =
        (true, (db.setRequest r (Row.close now (db.finishReason row a now (s, as, e)).1
          (db.finishReason row a now (s, as, e)).2.2) fun _ => rfl).setApproval a.id
          (Db.decided (db.finishReason row a now (s, as, e)).2.1 st) fun _ => rfl) := by
  unfold Db.finishPending
  split
  · rename_i row a hrow ha
    split_ifs with hguard
    · exact .inl rfl
    · simp only [Bool.or_eq_true, not_or, decide_eq_true_eq, ne_eq, not_not,
        Bool.and_eq_true, not_and, not_lt] at hguard
      obtain ⟨⟨hstatus, hpending⟩, hdeadline⟩ := hguard
      exact .inr ⟨row, a, hrow, ha, hstatus, hpending, hdeadline, rfl⟩
  · exact .inl rfl

theorem worldStep_finishPending {r : Nat} {s : Status} {as : ApprovalStatus} {e : Option String}
    {st : Option SurfaceState} {now : Option Time} {deadlineOnly : Bool}
    (hs : Sound H w.db w.log)
    (hreq : Requires i (.finishPending r s as e st now deadlineOnly) w) :
    WorldStep H i w (w.exec H i (.finishPending r s as e st now deadlineOnly) ω).2 := by
  obtain ⟨hstat, hnapp, hnpend⟩ := hreq
  rcases finishPending_eq r s as e st (now.getD ω.now) deadlineOnly w.db with hdb | hfin
  · exact worldStep_quiet hdb rfl rfl rfl
  · obtain ⟨row, a, hrow, ha, hstatus, hpending, -, hdb⟩ := hfin
    have hrow' : (w.receipt r).row = some row := hrow
    have hsingle := approvals_eq hs hrow' ha
    have hrun := receipt_setBoth (H := H) (i := i) (o := .finishPending r s as e st now deadlineOnly) hdb
      hsingle fun _ => rfl
    have hev : ∀ r', eventsOf r' (⟨i, .finishPending r s as e st now deadlineOnly, true⟩ :: w.log) =
        eventsOf r' w.log := fun r' => eventsOf_cons_none rfl
    have hreason := finishReason_cases row a (now.getD ω.now) (s, as, e) w.db
    generalize w.db.finishReason row a (now.getD ω.now) (s, as, e) = reason at hrun hreason
    obtain ⟨s', as', e'⟩ := reason
    have hrefused : s' = .denied ∨ s' = .expired := by
      rcases hreason with heq | ⟨rfl, -⟩
      · obtain ⟨rfl, -⟩ := Prod.mk.inj heq
        exact hstat
      · exact .inr rfl
    have hclosed : as' ≠ .approved ∧ as' ≠ .pending := by
      rcases hreason with heq | ⟨-, rfl | rfl⟩
      · obtain ⟨-, heq⟩ := Prod.mk.inj heq
        obtain ⟨rfl, -⟩ := Prod.mk.inj heq
        exact ⟨hnapp, hnpend⟩
      · exact ⟨by decide, by decide⟩
      · exact ⟨by decide, by decide⟩
    refine worldStep_one r ?_ (fun r' hne => ?_) (by simp [hrow'])
    · rw [hrun, if_pos rfl, if_pos rfl, hrow', hev, Option.map_some]
      have hends : Ends row (row.close (now.getD ω.now) s' e') :=
        Row.close_ends (by rcases hrefused with rfl | rfl <;> rfl)
      have hstep := Receipt.Step.refuse (H := H) (i := i) (Db.decided as' st) hrow' hstatus hends rfl
        hrefused fun b hb => by
          obtain rfl := List.mem_singleton.1 (hsingle ▸ hb)
          exact ⟨rfl, .inr ⟨hpending, hclosed.1⟩, hclosed.2⟩
      simp only [hsingle, List.map_singleton] at hstep
      exact hstep
    · rw [hrun, if_neg hne, if_neg hne, hev]
      rfl

theorem worldStep_createApproval {r : Nat} {ref : PyStr} {t : Time} {d : Option Text}
    (hreq : Requires i (.createApproval r ref t d) w) :
    WorldStep H i w (w.exec H i (.createApproval r ref t d) ω).2 := by
  obtain ⟨howned, hempty, row, hrow, hstatus⟩ := hreq
  have hrow' : w.db.request r = some row := hrow
  have hdb : w.db.createApproval ω.now r ref t d = (.ok w.db.approvals.nextId, { w.db with
      approvals := w.db.approvals.append (Db.pendingRow ω.now r ref t d)
        (Db.pendingRow_key ω.now r ref t d) }) := by
    simp [Db.createApproval, hrow']
  have hrun := receipt_exec (H := H) (i := i) (o := .createApproval r ref t d) hdb
  have hact : Call.act ⟨i, .createApproval r ref t d, .ok w.db.approvals.nextId⟩ =
      some (r, .opened) := rfl
  have hsel : ∀ r', ((w.db.approvals.append (Db.pendingRow ω.now r ref t d)
      (Db.pendingRow_key ω.now r ref t d)).select fun a => a.requestId = r') =
      (w.receipt r').approvals ++
        if r = r' then [Db.pendingRow ω.now r ref t d w.db.approvals.nextId] else [] := by
    intro r'
    rw [Table.append, Table.select_insert]
    by_cases hr : r = r' <;> simp [World.receipt, receiptOf, Db.pendingRow, hr]
  refine worldStep_one r ?_ (fun r' hne => ?_) (by simp [hrow])
  · rw [hrun, receiptOf, hsel, hempty, if_pos rfl, eventsOf_cons_self hact]
    exact .opening howned hrow hstatus hempty rfl
  · rw [hrun, receiptOf, hsel, if_neg hne.symm, eventsOf_cons_ne hact hne, List.append_nil]
    rfl

/-! ## Reservation -/

/-- A reservation is refused, answered with the earlier request of its key, or inserted. -/
theorem reserveAction_cases (H : Hash) (now : Time) (fresh : PyStr) (caller : Caller) (corr : Text)
    (tool op : String) (arguments reason : Json) (generation : Text) (key : Json) (db : Db) :
    (∃ e, db.reserveAction H now fresh caller corr tool op arguments reason generation key =
      (.error e, db)) ∨
    (∃ k text prior, Db.validateIdempotencyKey key = .ok k ∧
      canonical (Db.payload tool op arguments reason) = some text ∧
      db.live caller.id (some caller) = true ∧ db.priorRequest caller.id k = some prior ∧
      (db.policyFor caller.id).decide prior.tool prior.op ≠ .deny ∧
      db.reserveAction H now fresh caller corr tool op arguments reason generation key =
        (.ok (prior, false, prior.payloadDigest ≠ some (H.digest text)), db)) ∨
    ∃ k text bound, Db.validateIdempotencyKey key = .ok k ∧
      canonical (Db.payload tool op arguments reason) = some text ∧
      canonical (ApprovalSummary.action caller.id tool op generation arguments reason .null fresh) =
        some bound ∧
      db.live caller.id (some caller) = true ∧ db.priorRequest caller.id k = none ∧
      db.reserveAction H now fresh caller corr tool op arguments reason generation key =
        (.ok (Db.reservedRow now fresh caller corr tool op arguments reason generation k
            (db.policyFor caller.id) (H.digest bound) (H.digest text) db.requests.nextId, true, false),
          { db with
            requests := db.requests.append (Db.reservedRow now fresh caller corr tool op arguments
              reason generation k (db.policyFor caller.id) (H.digest bound) (H.digest text))
              (Db.reservedRow_key now fresh caller corr tool op arguments reason generation k
                (db.policyFor caller.id) (H.digest bound) (H.digest text)) }) := by
  unfold Db.reserveAction
  cases hkey : Db.validateIdempotencyKey key with
  | error e => exact .inl ⟨e, rfl⟩
  | ok k =>
    simp only [ApprovalSummary.boundRequest]
    cases htext : canonical (Db.payload tool op arguments reason) with
    | none => exact .inl ⟨_, rfl⟩
    | some text =>
      cases hbound : canonical (ApprovalSummary.action caller.id tool op generation arguments reason
        .null fresh) with
      | none => exact .inl ⟨_, rfl⟩
      | some bound =>
        cases hlive : db.live caller.id (some caller) with
        | false => exact .inl ⟨_, rfl⟩
        | true =>
          cases hprior : db.priorRequest caller.id k with
          | none => exact .inr (.inr ⟨k, text, bound, rfl, rfl, rfl, rfl, hprior, rfl⟩)
          | some prior =>
            by_cases hdeny : (db.policyFor caller.id).decide prior.tool prior.op = .deny
            · exact .inl ⟨.permissionError, by simp [hdeny]⟩
            · exact .inr (.inl ⟨k, text, prior, rfl, rfl, rfl, hprior, hdeny, by simp [hdeny]⟩)

theorem worldStep_reserveAction {caller : Caller} {corr : Text} {tool op : String}
    {arguments reason : Json} {generation : Text} {key : Json} :
    WorldStep H i w
      (w.exec H i (.reserveAction caller corr tool op arguments reason generation key) ω).2 := by
  rcases reserveAction_cases H ω.now ω.hex caller corr tool op arguments reason generation key w.db
    with ⟨e, hdb⟩ | ⟨k, text, prior, -, -, -, -, -, hdb⟩ |
      ⟨k, text, bound, hkey, htext, hbound, hlive, hprior, hdb⟩
  · exact worldStep_quiet hdb rfl rfl rfl
  · exact worldStep_quiet hdb rfl rfl rfl
  · have hrun := receipt_exec (H := H) (i := i)
      (o := .reserveAction caller corr tool op arguments reason generation key) hdb
    set mk := Db.reservedRow ω.now ω.hex caller corr tool op arguments reason generation k
      (w.db.policyFor caller.id) (H.digest bound) (H.digest text) with hmk
    have hact : Call.act ⟨i, .reserveAction caller corr tool op arguments reason generation key,
        .ok (mk w.db.requests.nextId, true, false)⟩ = some (w.db.requests.nextId,
          .reserved ⟨caller, tool, op, arguments, reason, generation, key⟩) := rfl
    have hreserved : Reserved H ⟨caller, tool, op, arguments, reason, generation, key⟩
        (mk w.db.requests.nextId) :=
      { callerId := rfl, tool := rfl, op := rfl, generation := rfl, key := hkey
        payload := ⟨text, htext, rfl⟩
        bound := ⟨ω.hex, bound, hbound, rfl⟩
        arguments := fun _ => rfl }
    have habs : w.db.requests.get? w.db.requests.nextId = none := Table.get?_nextId _
    have hself : (w.exec H i (.reserveAction caller corr tool op arguments reason generation key)
        ω).2.receipt w.db.requests.nextId =
        { w.receipt w.db.requests.nextId with
          row := some (mk w.db.requests.nextId)
          events := ⟨i, .reserved ⟨caller, tool, op, arguments, reason, generation, key⟩⟩ ::
            (w.receipt w.db.requests.nextId).events } := by
      rw [hrun, receiptOf, Table.get?_append_self, eventsOf_cons_self hact]
      rfl
    have hother : ∀ r, r ≠ w.db.requests.nextId →
        (w.exec H i (.reserveAction caller corr tool op arguments reason generation key)
          ω).2.receipt r = w.receipt r := by
      intro r hne
      rw [hrun, receiptOf, Table.get?_append_of_ne _ _ _ hne, eventsOf_cons_ne hact hne]
      rfl
    refine ⟨fun r => ?_, fun r row hnone hrow => ?_, ⟨_, rfl, rfl⟩, rfl⟩
    · rcases eq_or_ne r w.db.requests.nextId with rfl | hne
      · rw [hself]
        exact .reserve habs hreserved rfl rfl
      · rw [hother r hne]
        exact .stay _
    · rcases eq_or_ne r w.db.requests.nextId with rfl | hne
      · rw [hself] at hrow
        obtain rfl := Option.some.inj hrow
        refine ⟨rfl, fun k' hk' => ?_⟩
        have hkk : k = some k' := hk'
        exact hkk ▸ hprior
      · rw [hother r hne, hnone] at hrow
        cases hrow

end Toolstack.Broker
