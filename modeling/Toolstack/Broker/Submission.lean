import Toolstack.Broker.Execution

/-! A submit reserves one request and brings it out of `received`, or it reserves none and
touches no request except by expiring it. -/

namespace Toolstack.Broker

open Interleave (Discipline Prog)
open Interleave.Discipline (Triple)
open Json (canonical)

variable {H : Hash} {i r : Nat} {w : World} {ω : Oracle}

/-! ## Idle threads -/

/-- What the lazy sweep may call. -/
def Op.sweeps : Op → Bool
  | finishPending _ .expired .expired none none (some _) true => true
  | o => o.quiet

/-- A call that advances no request: at most it expires one, or looks a key up. -/
def Call.idle : Call → Bool
  | ⟨_, .reserveAction .., .ok (_, true, _)⟩ => false
  | ⟨_, .reserveAction .., _⟩ => true
  | ⟨_, o, _⟩ => o.sweeps

theorem Op.sweeps_of_quiet {o : Op} (h : o.quiet = true) : o.sweeps = true := by
  unfold sweeps
  split
  · rfl
  · exact h

theorem Op.sweeps_requires {o : Op} (h : o.sweeps = true) : Requires i o w := by
  unfold sweeps at h
  split at h
  · exact ⟨.inr rfl, by decide, by decide⟩
  · exact Op.quiet_requires h

theorem Call.idle_of_sweeps {o : Op} (h : o.sweeps = true) (a : o.Ret) :
    Call.idle ⟨i, o, a⟩ = true := by
  cases o with
  | reserveAction => cases h
  | _ => exact h

theorem Call.act_of_idle {c : Call} (h : c.idle = true) : c.act = none := by
  obtain ⟨i, o, a⟩ := c
  cases o with
  | http m =>
    have hnone : m.message.actionFor = none := Option.isNone_iff_eq_none.1 h
    simp [Call.act, hnone]
  | reserveAction =>
    cases a with
    | error e => rfl
    | ok res =>
      obtain ⟨row, created, conflict⟩ := res
      cases created with
      | false => rfl
      | true => cases h
  | surfaceOpen | execute | updateRequest | claimReceived | claimApproval | createApproval
  | setPolicy | compareAndSetPolicy | prunePayloads => cases h
  | _ => rfl

/-- Every call of the thread so far was idle. -/
def Idle (i : Nat) (w : World) : Prop := ∀ c ∈ w.log, c.thread = i → c.idle = true

theorem Fresh.idle (h : Fresh i w) : Idle i w := fun c hc hi => absurd hi (h.log c hc)

theorem Idle.exec (h : Idle i w) {o : Op} (ho : Call.idle ⟨i, o, (o.run H ω w).1⟩ = true) :
    Idle i (w.exec H i o ω).2 := by
  intro c hc hi
  rcases List.mem_cons.1 hc with rfl | hmem
  · exact ho
  · exact h c hmem hi

theorem Kept.idle : Kept H i (Idle i) where
  stable _ _ hr hw := by
    obtain ⟨new, hlog, hnew⟩ := Others.log hr
    intro c hc hi
    rw [hlog] at hc
    rcases List.mem_append.1 hc with hmem | hmem
    · exact absurd hi (hnew c hmem)
    · exact hw c hmem hi
  quiet _ hq hw := hw.exec (Call.idle_of_sweeps (Op.sweeps_of_quiet hq) _)

theorem Idle.no_event (h : Idle i w) (act : Act) : ⟨i, act⟩ ∉ (w.receipt r).events := by
  intro he
  obtain ⟨c, hc, habout⟩ := List.mem_filterMap.1 he
  have hthread : c.thread = i ∧ c.act ≠ none := by
    unfold Call.about at habout
    split at habout
    · rename_i r' act' hact
      split_ifs at habout
      exact ⟨congrArg Event.thread (Option.some.inj habout), by simp [hact]⟩
    · cases habout
  exact hthread.2 (Call.act_of_idle (h c hc hthread.1))

/-! ## The sweep -/

namespace Lifecycle

/-- All calls of a program belong to the sweep. -/
def Sweeps {α : Type} (p : Action α) : Prop := p.All fun o => o.sweeps = true

theorem sweeps_of_quiet {α : Type} {p : Action α} (h : Quiet p) : Sweeps p :=
  Prog.All.mono (fun _ => Op.sweeps_of_quiet) h

theorem quiet_cancelOnSurface {ctx : Context} {ref : PyStr} : Quiet (cancelOnSurface ctx ref) := by
  unfold cancelOnSurface
  split_ifs
  · exact .bind (.perform rfl) fun _ => trivial
  · trivial

theorem sweeps_expireApproval {ctx : Context} {ref : PyStr} {tool op : String} {corr : Text}
    {now : Time} : Sweeps (expireApproval ctx r ref tool op corr now) := by
  refine Prog.All.bind ⟨rfl, fun _ => trivial⟩ fun changed => ?_
  cases changed with
  | false => trivial
  | true =>
    simp only [Bool.not_true, Bool.false_eq_true, if_false]
    exact sweeps_of_quiet (.bind quiet_cancelOnSurface fun _ => .bind quiet_audit fun _ => trivial)

theorem sweeps_sweepRows {ctx : Context} {now : Time} (rows : List Db.Worklist) :
    Sweeps (sweepRows ctx now rows) := by
  induction rows with
  | nil => trivial
  | cons row rows ih =>
    exact Prog.All.bind sweeps_expireApproval fun _ => Prog.All.bind ih fun _ => trivial

theorem quiet_nowOr {now : Option Time} : Quiet (nowOr now) := by
  cases now with
  | none => exact .perform rfl
  | some t => trivial

theorem sweeps_sweepExpired {ctx : Context} {now : Option Time} : Sweeps (sweepExpired ctx now) :=
  Prog.All.bind (sweeps_of_quiet quiet_nowOr) fun _ =>
    Prog.All.bind (sweeps_of_quiet (.perform rfl)) fun rows => sweeps_sweepRows rows

theorem sweepExpired_idle {ctx : Context} {now : Option Time} :
    (discipline H).Triple i (Idle i) (sweepExpired ctx now) (fun _ => Idle i) (fun _ => Idle i) :=
  .of_all_keep Kept.idle.stable (Prog.All.mono (fun _ ho _ _ hw =>
    ⟨Op.sweeps_requires ho, fun _ => hw.exec (Call.idle_of_sweeps ho _)⟩) sweeps_sweepExpired)

end Lifecycle

/-! ## Reservation -/

/-- What a reserving call answers and leaves: a new request of the thread, or nothing new. -/
def Reserved.Answer (i : Nat) (res : Reservation) (w : World) :
    Except Exn (Row × Bool × Bool) → Prop
  | .error _ => Idle i w
  | .ok (req, created, conflict) =>
    if created then conflict = false ∧ (w.receipt req.id).New i res req ∧
      (canonical (Db.payload res.tool res.op res.arguments res.reason)).isSome
    else Idle i w

theorem triple_reserveAction {E : Exn → World → Prop} {caller : Caller} {corr : Text}
    {tool op : String} {arguments reason : Json} {generation : Text} {key : Json} :
    (discipline H).Triple i (Idle i)
      (perform (.reserveAction caller corr tool op arguments reason generation key))
      (fun answer w => Reserved.Answer i ⟨caller, tool, op, arguments, reason, generation, key⟩ w
        answer) E := by
  refine triple_perform Kept.idle (fun w _ hw r res => hw.no_event _) fun w ω hs hw => ?_
  have hstay : ∀ answer, (w.db.reserveAction H ω.now ω.hex caller corr tool op arguments reason
      generation key) = (answer, w.db) →
      Call.idle ⟨i, .reserveAction caller corr tool op arguments reason generation key, answer⟩ = true →
      Idle i (w.exec H i (.reserveAction caller corr tool op arguments reason generation key) ω).2 := by
    intro answer hdb hidle
    refine hw.exec ?_
    rw [← hidle]
    exact congrArg (fun a => Call.idle ⟨i, .reserveAction caller corr tool op arguments reason
      generation key, a⟩) (congrArg Prod.fst hdb)
  change Reserved.Answer i _ _ (w.db.reserveAction H ω.now ω.hex caller corr tool op arguments reason
    generation key).1
  rcases reserveAction_cases H ω.now ω.hex caller corr tool op arguments reason generation key w.db
    with ⟨e, hdb⟩ | ⟨k, text, prior, -, -, -, -, -, hdb⟩ | ⟨k, text, bound, -, htext, -, -, -, hdb⟩
  · have hidle := hstay _ hdb rfl
    rw [hdb]
    exact hidle
  · have hidle := hstay _ hdb rfl
    rw [hdb]
    exact hidle
  · have hrun := receipt_exec (H := H) (i := i)
      (o := .reserveAction caller corr tool op arguments reason generation key) hdb
      w.db.requests.nextId
    have hact : Call.act ⟨i, .reserveAction caller corr tool op arguments reason generation key,
        .ok (Db.reservedRow ω.now ω.hex caller corr tool op arguments reason generation k
          (w.db.policyFor caller.id) (H.digest bound) (H.digest text) w.db.requests.nextId, true,
          false)⟩ = some (w.db.requests.nextId,
          .reserved ⟨caller, tool, op, arguments, reason, generation, key⟩) := rfl
    have habs := (hs.current.receipts w.db.requests.nextId).absent (Table.get?_nextId _)
    have hevents : eventsOf w.db.requests.nextId w.log = [] := habs.2
    have happ : (w.db.approvals.select fun a => a.requestId = w.db.requests.nextId) = [] := habs.1
    rw [receiptOf, Table.get?_append_self, eventsOf_cons_self hact, hevents, happ] at hrun
    rw [hdb]
    refine ⟨rfl, ?_, by rw [htext]; rfl⟩
    change ((w.exec H i (.reserveAction caller corr tool op arguments reason generation key)
      ω).2.receipt w.db.requests.nextId).New i _ _
    rw [hrun]
    exact ⟨⟨⟨⟨⟨_, rfl, rfl⟩, rfl⟩, rfl, rfl⟩, rfl⟩, rfl⟩

/-! ## The immediate claim -/

theorem RowSound.reserved_of_mem {row : Row} {R : Receipt} (h : RowSound H row R) {j : Nat}
    {res : Reservation} (hmem : ⟨j, .reserved res⟩ ∈ R.events) : Reserved H res row := by
  obtain ⟨front, i, res', hev, hfront, hres, -⟩ := h.reserved
  rw [hev] at hmem
  rcases List.mem_append.1 hmem with hin | hin
  · have hno := hfront _ hin
    simp [Act.isReserved] at hno
  · obtain ⟨rfl, hact⟩ := Event.mk.inj (List.mem_singleton.1 hin)
    obtain rfl := Act.reserved.inj hact
    exact hres

/-- A generation that a claim accepts is the one the request was reserved under. -/
theorem sameGeneration_some {t : Option ToolOp} {row : Row}
    (h : Db.sameGeneration (t.map (·.generation)) row = true) :
    ∃ toolOp, t = some toolOp ∧ row.operationGeneration = some toolOp.generation := by
  cases t with
  | none => cases h
  | some toolOp =>
    simp only [Db.sameGeneration, Option.map_some, Option.any_some, Bool.and_eq_true,
      decide_eq_true_eq] at h
    exact ⟨toolOp, rfl, h.2⟩

theorem triple_claimReceived {E : Exn → World → Prop} {res : Reservation} {row : Row}
    {t : Option ToolOp} {c : Option Caller} {d : Option Text}
    (ht : ∀ toolOp, t = some toolOp → toolOp.tool = res.tool ∧ toolOp.op = res.op) :
    (discipline H).Triple i (fun w => (w.receipt r).New i res row)
      (perform (.claimReceived r (t.map (·.generation)) c d))
      (fun (won : Bool) w => if won then ∃ row', (w.receipt r).Claimed i row' false t res.arguments
        else (w.receipt r).Advanced) E := by
  refine triple_perform Kept.new (fun w _ hw row' _ _ =>
    ⟨hw.opening.received.owned, hw.untouched⟩) fun w ω hs hw => ?_
  have hrow : w.db.request r = some row := hw.opening.received.present
  have hset : ∀ {g : Option Text} {answer : Bool} {f : Row → Row} {hf},
      w.db.claimReceived H ω.now ω.hex r g c d = (answer, w.db.setRequest r f hf) →
      (w.exec H i (.claimReceived r g c d) ω).2.receipt r = ⟨some (f row), (w.receipt r).approvals,
        eventsOf r (⟨i, .claimReceived r g c d, answer⟩ :: w.log)⟩ := by
    intro g answer f hf hdb
    rw [receipt_setRequest (H := H) (i := i) (o := .claimReceived r g c d) hdb r, if_pos rfl,
      hw.opening.received.present, Option.map_some]
  rcases claimReceived_cases H ω.now ω.hex (t.map (·.generation)) c d hrow with
    ⟨hvalid, hdb⟩ | ⟨-, hdb⟩ | ⟨hne, -⟩
  · have hsound := (hs.current.receipts r).row hw.opening.received.present
    have hgen : Db.sameGeneration (t.map (·.generation)) row = true := by
      simp only [Db.receivedValid, Bool.and_eq_true] at hvalid
      tauto
    obtain ⟨toolOp, rfl, hop⟩ := sameGeneration_some hgen
    have hres : Reserved H res row := hsound.reserved_of_mem (j := i) (by
      change _ ∈ (w.receipt r).events
      simp [hw.events])
    have hact : Call.act ⟨i, .claimReceived r (some toolOp.generation) c d, true⟩ =
        some (r, .claimed false) := rfl
    have hevents : eventsOf r w.log = [⟨i, .reserved res⟩] := hw.events
    have hwon : ((Op.claimReceived r (some toolOp.generation) c d).run H ω w).1 = true :=
      congrArg Prod.fst hdb
    simp only [Option.map_some] at hdb
    rw [Option.map_some, if_pos hwon, hset hdb, eventsOf_cons_self hact, hevents]
    refine ⟨_, ⟨⟨⟨_, rfl, rfl⟩, rfl⟩, rfl, rfl, by simp [hw.opening.empty], rfl⟩, ?_⟩
    intro toolOp' heq j res' hmem
    obtain rfl := Option.some.inj heq
    obtain ⟨-, rfl⟩ : j = i ∧ res' = res := by simpa using hmem
    obtain ⟨htool, hopn⟩ := ht toolOp rfl
    exact ⟨htool, hopn, Option.some.inj (hop.symm.trans hres.generation), rfl⟩
  · have hlost : ((Op.claimReceived r (t.map (·.generation)) c d).run H ω w).1 = false :=
      congrArg Prod.fst hdb
    rw [hlost, if_neg Bool.false_ne_true, hset hdb]
    exact ⟨_, rfl, by simp [Row.close]⟩
  · exact absurd hw.opening.received.status hne

/-! ## Opening an approval -/

theorem triple_surfaceOpen {E : Exn → World → Prop} {row : Row} {card : Card}
    (hcard : card.requestId = r) :
    (discipline H).Triple i (fun w => (w.receipt r).Opening i row) (perform (.surfaceOpen card))
      (fun _ w => (w.receipt r).Opening i row) E := by
  subst hcard
  refine triple_perform Kept.opening (fun w _ hw => ⟨hw.received.owned, row, hw.received.present,
    hw.received.status⟩) fun w ω _ hw => ?_
  rw [receipt_event (o := .surfaceOpen card) rfl rfl]
  exact ⟨⟨⟨hw.received.owned.1, hw.received.owned.2⟩, hw.received.present, hw.received.status⟩,
    hw.empty⟩

/-- The request is there, so the approval is created. -/
theorem triple_createApproval {E : Exn → World → Prop} {row : Row} {ref : PyStr} {t : Time}
    {d : Option Text} :
    (discipline H).Triple i (fun w => (w.receipt r).Opening i row)
      (perform (.createApproval r ref t d))
      (fun answer w => (∃ id, answer = .ok id) ∧ (w.receipt r).Received i row) E := by
  refine triple_perform Kept.opening (fun w _ hw => ⟨hw.received.owned, hw.empty, row,
    hw.received.present, hw.received.status⟩) fun w ω _ hw => ?_
  have hrow : w.db.request r = some row := hw.received.present
  have hdb : w.db.createApproval ω.now r ref t d = (.ok w.db.approvals.nextId, { w.db with
      approvals := w.db.approvals.append (Db.pendingRow ω.now r ref t d)
        (Db.pendingRow_key ω.now r ref t d) }) := by
    simp [Db.createApproval, hrow]
  have hact : Call.act ⟨i, .createApproval r ref t d, .ok w.db.approvals.nextId⟩ =
      some (r, .opened) := rfl
  refine ⟨⟨_, congrArg Prod.fst hdb⟩, ?_⟩
  have hrun := receipt_exec (H := H) (i := i) (o := .createApproval r ref t d) hdb r
  rw [receiptOf, eventsOf_cons_self hact] at hrun
  rw [hrun]
  exact ⟨⟨hw.received.owned.1, hw.received.owned.2⟩, hrow, hw.received.status⟩

theorem triple_park {E : Exn → World → Prop} {row : Row} :
    (discipline H).Triple i (fun w => (w.receipt r).Received i row)
      (perform (.updateRequest r { status := some .pendingApproval }))
      (fun _ w => (w.receipt r).Advanced) E := by
  refine triple_perform Kept.received (fun w _ hw => ⟨hw.owned, row, hw.present,
    .inl ⟨rfl, hw.status⟩⟩) fun w ω _ hw => ?_
  have hrun := receipt_setRequest (H := H) (i := i) (w := w) (ω := ω)
    (o := .updateRequest r { status := some .pendingApproval }) rfl r
  rw [if_pos rfl, hw.present] at hrun
  exact ⟨_, congrArg Receipt.row hrun, by
    simp [RequestFields.apply, RequestFields.cleared, Status.terminal]⟩

namespace Lifecycle

/-- Opening an approval always brings the request out of `received`. -/
theorem openApproval_spec {ctx : Context} {name tool op : String} {toolOp : ToolOp}
    {arguments : Json} {corr : Text} {row : Row} (hfin : arguments.finite = true) :
    (discipline H).Triple i (fun w => (w.receipt r).Opening i row)
      (openApproval ctx r name tool op toolOp arguments corr)
      (fun _ w => (w.receipt r).Advanced) (fun _ _ => False) := by
  obtain ⟨details, hdetails⟩ :=
    Option.isSome_iff_exists.1 (ApprovalSummary.summarize_isSome hfin toolOp.approvalFields)
  unfold openApproval
  split_ifs with hsurface
  · exact .bind (triple_ending (s := .failed) Kept.opening ⟨rfl, rfl, rfl, rfl, rfl⟩
      fun w hs hw => hw.ends hs ⟨rfl, rfl, rfl, rfl, rfl⟩ (.inr rfl) rfl) fun _ =>
        .bind (triple_quiet Kept.advanced rfl) fun _ => .ret fun _ _ h => h
  · refine .bind (triple_read (A := fun req => req ≠ none) Kept.opening rfl fun w _ _ hw => ?_)
      fun req => ?_
    · change (w.receipt r).row ≠ none
      simp [hw.received.present]
    rcases req with - | req
    · exact fun _ _ h => absurd rfl h.1
    simp only [theRow, Prog.pure_eq, Prog.ret_bind, hdetails]
    refine .conseq (.bind (triple_quiet Kept.opening rfl) fun installation => ?_)
      (fun _ _ h => h.2) (fun _ _ _ h => h) fun _ _ _ h => h
    refine .bind (triple_surfaceOpen rfl) fun opened => ?_
    cases opened with
    | error e =>
      exact .bind (triple_ending (s := .failed) Kept.opening ⟨rfl, rfl, rfl, rfl, rfl⟩
        fun w hs hw => hw.ends hs ⟨rfl, rfl, rfl, rfl, rfl⟩ (.inr rfl) rfl) fun _ =>
          .bind (triple_quiet Kept.advanced rfl) fun _ => .ret fun _ _ h => h
    | ok ref =>
      refine .bind (triple_quiet Kept.opening rfl) fun now => ?_
      refine .bind triple_createApproval fun created => ?_
      cases created with
      | error e => exact fun _ _ h => absurd h.1 (by simp)
      | ok id =>
        exact .conseq (.bind triple_park fun _ => .bind (triple_quiet Kept.advanced rfl) fun _ =>
          .ret fun _ _ h => h) (fun _ _ h => h.2) (fun _ _ _ h => h) fun _ _ _ h => h

/-- The check of a REST call's arguments that raises instead of naming a problem. -/
def Raises (ctx : Context) (t : ToolOp) (arguments : List (PyStr × Json)) (e : Exn) : Prop :=
  t.type = .rest ∧ validateRestArguments ctx.restBodyMax t arguments = .error e

/-- The envelope check: it raises, it ends the request, or the rest of the submit runs. -/
theorem checked_spec {ctx : Context} {toolOp : ToolOp} {arguments : List (PyStr × Json)} {row : Row}
    {res : Reservation} {rest : Action Outcome}
    (hrest : (discipline H).Triple i (fun w => (w.receipt r).New i res row) rest
      (fun _ w => (w.receipt r).Advanced) (fun _ _ => False)) :
    (discipline H).Triple i (fun w => (w.receipt r).New i res row)
      (match if toolOp.type = .rest then validateRestArguments ctx.restBodyMax toolOp arguments
          else .ok none with
        | .error e => Prog.raise e
        | .ok (some problem) => do
          updateRequest r { status := some .invalid, error := some (some "invalid_envelope")
                            argumentsJson := some none }
          return { status := .invalid, requestId := r, error := some "invalid_envelope"
                   detail := some problem }
        | .ok none => rest)
      (fun _ w => (w.receipt r).Advanced) (fun e _ => Raises ctx toolOp arguments e) := by
  split
  · rename_i e hcheck
    refine .raise fun _ _ _ => ?_
    split_ifs at hcheck with htype
    exact ⟨htype, hcheck⟩
  · exact .bind (triple_ending (s := .invalid) Kept.new ⟨rfl, rfl, rfl, rfl, rfl⟩
      fun w hs hw => hw.opening.ends hs ⟨rfl, rfl, rfl, rfl, rfl⟩ (.inl rfl) rfl) fun _ =>
        .ret fun _ _ h => h
  · exact hrest.conseq (fun _ _ h => h) (fun _ _ _ h => h) fun _ _ _ h => h.elim

theorem advanceReserved_spec {ctx : Context} {caller : Caller} {tool op : String} {toolOp : ToolOp}
    {arguments : List (PyStr × Json)} {corr : Text} {reason : Json} {hasKey : Bool} {req row : Row}
    {res : Reservation} (hfin : (Json.obj arguments).finite = true) (hid : req.id = r)
    (htool : res.tool = tool) (hop : res.op = op) (hargs : res.arguments = .obj arguments) :
    (discipline H).Triple i (fun w => (w.receipt r).New i res row)
      (advanceReserved ctx caller tool op toolOp arguments corr reason hasKey req)
      (fun _ w => (w.receipt r).Advanced) (fun e _ => Raises ctx toolOp arguments e) := by
  subst hid
  refine .bind (triple_quiet Kept.new rfl) fun _ => ?_
  refine .bind (triple_quiet Kept.new rfl) fun policy => ?_
  cases hdecision : policy.decide tool op with
  | deny =>
    simp only
    exact .bind (triple_ending (s := .denied) Kept.new ⟨rfl, rfl, rfl, rfl, rfl⟩
      fun w hs hw => hw.opening.ends hs ⟨rfl, rfl, rfl, rfl, rfl⟩ (.inl rfl) rfl) fun _ =>
        .bind (triple_quiet Kept.advanced rfl) fun _ => .ret fun _ _ h => h
  | review =>
    refine checked_spec (.bind (triple_quiet Kept.new rfl) fun _ => ?_)
    exact (openApproval_spec hfin).conseq (fun _ _ h => h.opening) (fun _ _ _ h => h)
      fun _ _ _ h => h
  | allow =>
    refine checked_spec (.bind (triple_quiet Kept.new rfl) fun _ => ?_)
    refine .bind (triple_read (A := fun t : Option ToolOp => ∀ toolOp, t = some toolOp →
      toolOp.tool = res.tool ∧ toolOp.op = res.op) Kept.new rfl fun w _ _ _ t ht => ?_) fun t => ?_
    · obtain ⟨htool', hop', -⟩ := Registry.lookup_eq_some ht
      exact ⟨htool'.trans htool.symm, hop'.trans hop.symm⟩
    · intro w hs hw
      obtain ⟨hnames, hnew⟩ := hw
      refine Triple.bind (triple_claimReceived hnames) (fun won => ?_) w hs hnew
      cases won with
      | false =>
        refine .bind (triple_read (A := fun req => req ≠ none) Kept.advanced rfl fun w _ _ hw => ?_)
          fun req => ?_
        · obtain ⟨row, hrow, -⟩ := hw
          change (w.receipt req.id).row ≠ none
          simp [hrow]
        · cases req with
          | none => exact fun _ _ h => absurd rfl h.1
          | some req => exact .ret fun _ _ h => h.2
      | true =>
        intro w hs ⟨row', hclaimed⟩
        exact executeRequest_spec w hs (hargs ▸ hclaimed)

end Lifecycle

/-! ## The whole submit -/

/-- The thread reserved nothing, or brought what it reserved on. -/
def Settled (i : Nat) (w : World) : Prop :=
  Idle i w ∨ ∃ r res, ⟨i, .reserved res⟩ ∈ (w.receipt r).events ∧ (w.receipt r).Advanced

theorem Kept.settled : Kept H i (Settled i) :=
  Kept.idle.or (.exists' fun _ => .exists' fun _ => (Kept.recorded _).and Kept.advanced)

theorem Settled.advanced (h : Settled i w) (hs : w.Sound H) {res : Reservation}
    (hmem : ⟨i, .reserved res⟩ ∈ (w.receipt r).events) : (w.receipt r).Advanced := by
  rcases h with hidle | ⟨r', res', hmem', hadv⟩
  · exact absurd hmem (hidle.no_event _)
  · exact hs.current.once i r r' res res' hmem hmem' ▸ hadv

namespace Lifecycle

/-- Requests the store accepts for reservation. -/
structure Reservable (arguments : List (PyStr × Json)) (reason key : Json) : Prop where
  key : ∃ k, Db.validateIdempotencyKey key = .ok k
  reason : reason = .null ∨ ∃ s, reason = .str s
  finite : (Json.obj arguments).finite = true

/-- The thread looked up an operation on whose arguments the envelope check raises. -/
def Stuck (i : Nat) (ctx : Context) (tool op : String) (arguments reason key : Json) (e : Exn)
    (w : World) : Prop :=
  ∃ t kvs, (⟨i, .lookup ctx.broker tool op, some t⟩ : Call) ∈ w.log ∧ arguments = .obj kvs ∧
    Reservable kvs reason key ∧ Raises ctx t kvs e

theorem payload_finite {tool op : String} {arguments reason : Json}
    (h : (canonical (Db.payload tool op arguments reason)).isSome) : arguments.finite = true := by
  rw [Json.canonical_isSome] at h
  exact Json.finite_obj.1 h (py "arguments", arguments) (by simp)

/-- What the thread knows when it gets the answer of `reserve_action`. -/
theorem afterReservation_spec {ctx : Context} {caller : Caller} {tool op : String}
    {toolOp : Option ToolOp} {kvs : List (PyStr × Json)} {corr : Text} {reason reason' key : Json}
    {answer : Except Exn (Row × Bool × Bool)} {k : Option PyStr} {res : Reservation}
    (hkey : Db.validateIdempotencyKey key = .ok k) (hreason : reason = .null ∨ ∃ s, reason = .str s)
    (htool : res.tool = tool) (hop : res.op = op) (hargs : res.arguments = .obj kvs) :
    (discipline H).Triple i
      (fun w => Reserved.Answer i res w answer ∧
        (⟨i, .lookup ctx.broker tool op, toolOp⟩ : Call) ∈ w.log)
      (afterReservation ctx caller tool op toolOp kvs corr reason' key answer)
      (fun _ => Settled i)
      (fun e w => Settled i w ∨ Stuck i ctx tool op (.obj kvs) reason key e w) := by
  cases answer with
  | error e => cases e <;> first | exact .ret fun _ _ h => .inl h.1 | exact .raise fun _ _ h => .inl (.inl h.1)
  | ok answer =>
    obtain ⟨req, created, conflict⟩ := answer
    cases created with
    | false =>
      cases conflict with
      | true => exact .ret fun _ _ h => .inl h.1
      | false => exact .bind (triple_quiet (Kept.idle.and (.logged _)) rfl) fun _ => .ret fun _ _ h => .inl h.1
    | true =>
      intro w hs ⟨⟨hconflict, hnew, htext⟩, hlog⟩
      obtain rfl : conflict = false := hconflict
      have hfin : (Json.obj kvs).finite = true := hargs ▸ payload_finite htext
      have hmine : (⟨i, .reserved res⟩ : Event) ∈ (w.receipt req.id).events := by
        simp [hnew.events]
      have hrecorded := Lasting.recorded (H := H) (i := i) (r := req.id) ⟨i, .reserved res⟩
      cases toolOp with
      | none =>
        have hend : (discipline H).Triple i (fun w => (w.receipt req.id).New i res req)
            (updateRequest req.id { status := some .notFound, argumentsJson := some none })
            (fun _ w => (w.receipt req.id).Advanced) (fun _ _ => False) :=
          triple_ending (s := .notFound) Kept.new ⟨rfl, rfl, rfl, rfl, rfl⟩ fun w hs hw =>
            hw.opening.ends hs ⟨rfl, rfl, rfl, rfl, rfl⟩ (.inl rfl) rfl
        have hrest : (discipline H).Triple i _ (afterReservation ctx caller tool op none kvs corr
            reason' key (.ok (req, true, false))) (fun _ => Settled i)
            (fun e w => Settled i w ∨ Stuck i ctx tool op (.obj kvs) reason key e w) :=
          .bind ((hrecorded.triple hend).conseq (fun _ _ h => h)
            (fun _ _ _ h => .inr ⟨_, _, h.2, h.1⟩) fun _ _ _ h => h.1.elim) fun _ => .ret fun _ _ h => h
        exact hrest w hs ⟨hnew, hmine⟩
      | some t =>
        have hadv : ∀ hasKey, (discipline H).Triple i (fun w => (w.receipt req.id).New i res req)
            (advanceReserved ctx caller tool op t kvs corr reason' hasKey req) _ _ :=
          fun hasKey => advanceReserved_spec hfin rfl htool hop hargs
        have hlooked := Lasting.logged (H := H) (i := i) ⟨i, .lookup ctx.broker tool op, some t⟩
        have hrest : (discipline H).Triple i _ (afterReservation ctx caller tool op (some t) kvs corr
            reason' key (.ok (req, true, false))) (fun _ => Settled i)
            (fun e w => Settled i w ∨ Stuck i ctx tool op (.obj kvs) reason key e w) :=
          (hrecorded.triple (hlooked.triple (hadv _))).conseq (fun _ _ h => h)
            (fun _ _ _ h => .inr ⟨_, _, h.2, h.1.1⟩)
            fun e w _ h => .inr ⟨t, kvs, h.1.2, rfl, ⟨⟨k, hkey⟩, hreason, hfin⟩, h.1.1⟩
        exact hrest w hs ⟨⟨hnew, hlog⟩, hmine⟩

theorem submitValid_spec {ctx : Context} {caller : Caller} {tool op : String} {arguments : Json}
    {corr : Text} {reason key : Json} {k : Option PyStr} (hkey : Db.validateIdempotencyKey key = .ok k) :
    (discipline H).Triple i (Idle i) (submitValid ctx caller tool op arguments corr reason key)
      (fun _ => Settled i)
      (fun e w => Settled i w ∨ Stuck i ctx tool op arguments reason key e w) := by
  refine .bind (sweepExpired_idle.conseq (fun _ _ h => h) (fun _ _ _ h => h)
    fun _ _ _ h => .inl (.inl h)) fun _ => ?_
  refine .bind (Q := fun (t : Option ToolOp) w => Idle i w ∧
    (⟨i, .lookup ctx.broker tool op, t⟩ : Call) ∈ w.log) (triple_perform Kept.idle
      (fun _ _ _ => trivial) fun w ω _ hw => ⟨Kept.idle.quiet ω rfl hw, List.mem_cons_self ..⟩)
      fun t => ?_
  have hkept : Kept H i fun w => Idle i w ∧ (⟨i, .lookup ctx.broker tool op, t⟩ : Call) ∈ w.log :=
    Kept.idle.and (.logged _)
  have hdone : ∀ out : Outcome, (discipline H).Triple i
      (fun w => Idle i w ∧ (⟨i, .lookup ctx.broker tool op, t⟩ : Call) ∈ w.log)
      (.ret out : Action Outcome) (fun _ => Settled i)
      (fun e w => Settled i w ∨ Stuck i ctx tool op arguments reason key e w) :=
    fun out => .ret fun _ _ h => .inl h.1
  split_ifs with hnull
  · exact .bind (triple_quiet hkept rfl) fun _ => hdone _
  · have hreserve : ∀ kvs, (discipline H).Triple i
        (fun w => Idle i w ∧ (⟨i, .lookup ctx.broker tool op, t⟩ : Call) ∈ w.log)
        (perform (.reserveAction caller corr tool op (.obj kvs) (normalReason reason)
          ((t.map (·.generation)).getD []) key))
        (fun answer w => Reserved.Answer i ⟨caller, tool, op, .obj kvs, normalReason reason,
          (t.map (·.generation)).getD [], key⟩ w answer ∧
            (⟨i, .lookup ctx.broker tool op, t⟩ : Call) ∈ w.log)
        (fun e w => Settled i w ∨ Stuck i ctx tool op (.obj kvs) reason key e w) := fun kvs =>
      ((Lasting.logged _).triple (triple_reserveAction (E := fun _ _ => False))).conseq
        (fun _ _ h => h) (fun _ _ _ h => h) fun _ _ _ h => h.1.elim
    split
    · exact .bind (hreserve _) fun answer =>
        afterReservation_spec hkey (.inl rfl) rfl rfl rfl
    · exact .bind (hreserve _) fun answer =>
        afterReservation_spec hkey (.inr ⟨_, rfl⟩) rfl rfl rfl
    · exact hdone _

/-- A submit that returns has settled; one that raises has settled or is stuck. -/
theorem submit_spec {ctx : Context} {caller : Caller} {tool op : String} {arguments : Json}
    {corr : Text} {reason key : Json} :
    (discipline H).Triple i (Idle i) (submit ctx caller tool op arguments corr reason key)
      (fun _ => Settled i)
      (fun e w => Settled i w ∨ Stuck i ctx tool op arguments reason key e w) := by
  unfold submit
  cases hkey : Db.validateIdempotencyKey key with
  | error e => exact .ret fun _ _ h => .inl h
  | ok k => exact .bind (submitValid_spec hkey) fun _ => .ret fun _ _ h => h

end Lifecycle

end Toolstack.Broker
