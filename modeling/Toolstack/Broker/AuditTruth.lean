import Toolstack.Broker.AuditTrail

/-! Every program of the broker records about a request only what is so. Each call is given its requirement
by the discipline; what is shown here is that the events say no more than the calls before them bear out. -/

namespace Toolstack.Broker

open Interleave (Discipline Prog)
open Interleave.Discipline (Shows)

variable {H : Hash} {i r : Nat} {w : World} {ω : Oracle} {α β : Type}

/-- Whatever the program records about a request holds of it. -/
abbrev Honest (H : Hash) (i : Nat) (P : World → Prop) (p : Action α) (Q : α → World → Prop) : Prop :=
  (discipline H).Shows Tells i P p Q fun _ _ => True

/-! ## Programs that record nothing about a request -/

def Op.mute : Op → Bool
  | appendAudit _ _ _ _ (some _) _ => false
  | _ => true

theorem Tells.of_mute {o : Op} (h : o.mute = true) : Tells i o w := by
  unfold Op.mute at h
  split at h
  · cases h
  · rename_i hnot
    unfold Tells
    split
    · exact absurd rfl (hnot _ _ _ _ _ _)
    · trivial

def Mute (p : Action α) : Prop := p.All fun o => o.mute = true

theorem Mute.perform {o : Op} (h : o.mute = true) : Mute (perform o) := ⟨h, fun _ => trivial⟩

theorem Mute.bind {p : Action α} {f : α → Action β} (hp : Mute p) (hf : ∀ a, Mute (f a)) : Mute (p >>= f) :=
  Prog.All.bind hp hf

theorem Mute.honest {P : World → Prop} {p : Action α} (h : Mute p) (hP : Lasting H i P) :
    Honest H i P p fun _ => P := by
  refine .conseq (.of_all_keep hP.stable ?_) (fun _ _ h => h) (fun _ _ _ h => h) fun _ _ _ _ => trivial
  exact h.mono fun o hmute w hs hreq hw => ⟨.of_mute hmute, fun ω => hP.exec o w ω hs hreq hw⟩

theorem Lasting.true : Lasting H i fun _ => True := ⟨Discipline.Stable.const True, fun _ _ _ _ _ _ => trivial⟩

theorem Lasting.const (p : Prop) : Lasting H i fun _ => p := ⟨Discipline.Stable.const p, fun _ _ _ _ _ h => h⟩

theorem Lasting.exists' {γ : Type} {P : γ → World → Prop} (h : ∀ c, Lasting H i (P c)) :
    Lasting H i fun w => ∃ c, P c w where
  stable hi hi' hr hw := by
    obtain ⟨c, hc⟩ := hw
    exact ⟨c, (h c).stable hi hi' hr hc⟩
  exec o w ω hs hreq hw := by
    obtain ⟨c, hc⟩ := hw
    exact ⟨c, (h c).exec o w ω hs hreq hc⟩

theorem Lasting.and {P P' : World → Prop} (h : Lasting H i P) (h' : Lasting H i P') :
    Lasting H i fun w => P w ∧ P' w :=
  ⟨Discipline.Stable.and h.stable h'.stable,
    fun o w ω hs hreq hw => ⟨h.exec o w ω hs hreq hw.1, h'.exec o w ω hs hreq hw.2⟩⟩

/-! ## What an outcome says -/

/-- What the terminal event of a request would say. -/
def OutcomeStatus.fact : OutcomeStatus → Fact
  | ok => .ended .completed
  | denied => .ended .denied
  | failed | unavailable => .ended .failed
  | expired => .ended .expired
  | unknown => .ended .unknown
  | _ => .known

theorem said_requestTerminal {s : OutcomeStatus} {eventType word : String}
    (h : Gateway.requestTerminal s = some (eventType, word)) : said "request" eventType = s.fact := by
  cases s <;> cases h <;> rfl

/-- The request an outcome names is as the outcome has it. -/
def Outcome.Said (out : Outcome) (w : World) : Prop :=
  ∀ r, out.requestId = some r → out.status.fact.Holds (w.receipt r)

theorem Outcome.said_of {out : Outcome} (hid : out.requestId = some r) (h : out.status.fact.Holds (w.receipt r)) :
    out.Said w := by
  intro r' hr'
  obtain rfl := Option.some.inj (hid.symm.trans hr')
  exact h

theorem Lasting.said (out : Outcome) : Lasting H i out.Said where
  stable hi hi' hr h r hid := (Lasting.holds _ r).stable hi hi' hr (h r hid)
  exec o w ω hs hreq h r hid := (Lasting.holds _ r).exec o w ω hs hreq (h r hid)

def Row.fact (row : Row) : Fact := (Lifecycle.outcomeOf row.status).fact

theorem Row.fact_holds {row : Row} (hrow : (w.receipt r).row = some row) : row.fact.Holds (w.receipt r) := by
  refine ⟨row, hrow, ?_⟩
  unfold Row.fact
  cases hstatus : row.status <;> first
    | exact trivial
    | exact ⟨rfl, .inl hstatus⟩

/-! ## Rules -/

/-- The rule of one call. -/
theorem honest_perform {P : World → Prop} {o : Op} {Q : o.Ret → World → Prop} (hP : Lasting H i P)
    (htells : ∀ w, P w → Tells i o w)
    (hpost : ∀ w ω, w.Sound H → Requires i o w → P w → Q (o.run H ω w).1 (w.exec H i o ω).2) :
    Honest H i P (perform o) Q :=
  .perform hP.stable (fun w _ _ hw => htells w hw) hpost

theorem honest_keeps {P : World → Prop} {o : Op} (hP : Lasting H i P) (htells : ∀ w, P w → Tells i o w) :
    Honest H i P (perform o) fun _ => P :=
  honest_perform hP htells fun w ω hs hreq hw => hP.exec o w ω hs hreq hw

/-- An event is recorded where what it says is known. -/
theorem honest_audit {P : World → Prop} {component eventType outcome : String} {corr : Text}
    {details : List (String × Json)} (hP : Lasting H i P)
    (hheld : ∀ w, P w → (said component eventType).Holds (w.receipt r)) :
    Honest H i P (Lifecycle.audit component eventType outcome corr r details) fun _ => P :=
  honest_keeps hP hheld

/-- What a row says of its request once it has been read. -/
def WasRead (r : Nat) (req : Option Row) (w : World) : Prop :=
  ∀ row, req = some row → row.id = r ∧ row.fact.Holds (w.receipt r)

theorem Lasting.wasRead (req : Option Row) : Lasting H i (WasRead r req) where
  stable hi hi' hr h row hrow := ⟨(h row hrow).1, (Lasting.holds _ r).stable hi hi' hr (h row hrow).2⟩
  exec o w ω hs hreq h row hrow := ⟨(h row hrow).1, (Lasting.holds _ r).exec o w ω hs hreq (h row hrow).2⟩

theorem honest_request {P : World → Prop} (hP : Lasting H i P) :
    Honest H i P (perform (.request r)) fun req w => P w ∧ WasRead r req w := by
  refine honest_perform hP (fun _ _ => trivial) fun w ω hs hreq hw => ⟨hP.exec _ w ω hs hreq hw, ?_⟩
  intro row hrow
  rw [Op.quiet_receipt rfl]
  exact ⟨Table.get?_key hrow, Row.fact_holds hrow⟩

/-- An update that ends a request ends it. -/
theorem honest_ending {f : RequestFields} {s : Status} (hf : f.Ending s) :
    Honest H i (fun _ => True) (Lifecycle.updateRequest r f) fun _ w => (Fact.ended s).Holds (w.receipt r) := by
  refine honest_perform .true (fun _ _ => trivial) fun w ω _ hreq _ => ?_
  obtain ⟨-, row, hrow, -⟩ := hreq
  have hdb : w.db.updateRequest ω.now r f = w.db.setRequest r (f.cleared.apply ω.now) fun _ => rfl := by
    simp [Db.updateRequest, hf.cleared, RequestFields.isEmpty]
  have hrun := receipt_setRequest (H := H) (i := i) (o := .updateRequest r f) (congrArg (Prod.mk ()) hdb) r
  rw [if_pos rfl, hrow] at hrun
  exact ⟨_, congrArg Receipt.row hrun, hf.terminal, .inl hf.result_status⟩

/-! ## Finishing -/

/-- Request and approval have come to an end together. -/
def Receipt.Finished (s : Status) (as : ApprovalStatus) (R : Receipt) : Prop :=
  (∃ row, R.row = some row ∧ row.Ended s) ∧ ∀ a ∈ R.approvals, a.status = as

theorem Receipt.Finished.step {s : Status} {as : ApprovalStatus} {R R' : Receipt} (h : R.Step H i R')
    (hR : R.Finished s as) : R'.Finished s as := by
  obtain ⟨⟨row, hrow, hended⟩, hall⟩ := hR
  rcases h.ended hrow hended.terminal with rfl | ⟨now, f, hsame, rfl⟩
  · exact ⟨⟨row, hrow, hended⟩, hall⟩
  · refine ⟨⟨_, rfl, hended.prune now⟩, fun b hb => ?_⟩
    obtain ⟨a, ha, rfl⟩ := List.mem_map.1 hb
    rw [hsame a ha, hall a ha]

theorem Lasting.finished (s : Status) (as : ApprovalStatus) (r : Nat) :
    Lasting H i fun w => (w.receipt r).Finished s as := .of_step fun h hR => hR.step h

theorem Receipt.Finished.ended {s : Status} {as : ApprovalStatus} {R : Receipt} (h : R.Finished s as) :
    (Fact.ended s).Holds R := h.1

/-- A finish that changed anything ended both rows, as asked or because the approval was overtaken. -/
theorem honest_finishPending {s : Status} {as : ApprovalStatus} {e : Option String} {st : Option SurfaceState}
    {now : Option Time} {b : Bool} :
    Honest H i (fun _ => True) (perform (.finishPending r s as e st now b)) fun (changed : Bool) w =>
      changed = true → (w.receipt r).Finished s as ∨
        ∃ as', (as' = .expired ∨ as' = .cancelled) ∧ (w.receipt r).Finished .expired as' := by
  refine honest_perform .true (fun _ _ => trivial) fun w ω hs hreq _ hchanged => ?_
  obtain ⟨hstat, -, -⟩ := hreq
  have hterminal : s.terminal = true := by rcases hstat with rfl | rfl <;> rfl
  rcases finishPending_eq r s as e st (now.getD ω.now) b w.db with hdb | ⟨row, a, hrow, ha, -, -, -, hdb⟩
  · have hlost : ((Op.finishPending r s as e st now b).run H ω w).1 = false := congrArg Prod.fst hdb
    exact absurd (hlost.symm.trans hchanged) Bool.false_ne_true
  · have hrow' : (w.receipt r).row = some row := hrow
    have hsingle := approvals_eq hs.current hrow' ha
    have hrun := receipt_setBoth (H := H) (i := i) (o := .finishPending r s as e st now b) hdb hsingle
      (fun _ => rfl) r
    rw [if_pos rfl, if_pos rfl, hrow', Option.map_some] at hrun
    have hreason := finishReason_cases row a (now.getD ω.now) (s, as, e) w.db
    generalize w.db.finishReason row a (now.getD ω.now) (s, as, e) = reason at hrun hreason
    obtain ⟨s', as', e'⟩ := reason
    have hfinished : s'.terminal = true →
        ((w.exec H i (.finishPending r s as e st now b) ω).2.receipt r).Finished s' as' := by
      intro hterminal
      rw [hrun]
      refine ⟨⟨_, rfl, hterminal, .inl rfl⟩, fun a' ha' => ?_⟩
      rw [List.mem_singleton.1 ha']
      rfl
    rcases hreason with heq | ⟨rfl, has⟩
    · obtain ⟨hs', heq⟩ := Prod.mk.inj heq
      obtain ⟨has', -⟩ := Prod.mk.inj heq
      subst hs' has'
      exact .inl (hfinished hterminal)
    · exact .inr ⟨as', has, hfinished rfl⟩

/-! ## Claims -/

/-- The thread has claimed the request and executes it. -/
structure Receipt.Running (i : Nat) (R : Receipt) : Prop where
  owned : R.Owned i
  executing : ∃ row, R.row = some row ∧ row.status = .executing
  claimed : ∃ b, ⟨i, .claimed b⟩ ∈ R.events

theorem Kept.running : Kept H i fun w => (w.receipt r).Running i := .owned fun _ h => h.owned

theorem Receipt.Running.started {R : Receipt} (h : R.Running i) : Fact.started.Holds R := by
  obtain ⟨row, hrow, -⟩ := h.executing
  obtain ⟨b, hb⟩ := h.claimed
  exact ⟨row, hrow, i, b, hb⟩

/-- A receipt whose newest event is the thread's claim. -/
theorem Receipt.Running.of_claim {row : Row} {as : List ApprovalRow} {es : List Event} {b : Bool}
    (hstatus : row.status = .executing) : Receipt.Running i ⟨some row, as, ⟨i, .claimed b⟩ :: es⟩ where
  owned := ⟨⟨row, rfl, by rw [hstatus]; rfl⟩, rfl⟩
  executing := ⟨row, rfl, hstatus⟩
  claimed := ⟨b, List.mem_cons_self ..⟩

theorem Db.sameGeneration_isSome {g : Option Text} {row : Row} (h : Db.sameGeneration g row = true) :
    g.isSome = true := by
  cases g with
  | none => cases h
  | some g => rfl

theorem honest_claimReceived {g : Option Text} {caller : Option Caller} {d : Option Text} :
    Honest H i (fun _ => True) (perform (.claimReceived r g caller d)) fun (won : Bool) w =>
      won = true → g.isSome = true ∧ (w.receipt r).Running i := by
  refine honest_perform .true (fun _ _ => trivial) fun w ω hs hreq _ hwon => ?_
  have hwon' : (w.db.claimReceived H ω.now ω.hex r g caller d).1 = true := hwon
  cases hrow : w.db.request r with
  | none => simp [Db.claimReceived, hrow] at hwon'
  | some row =>
    have hrow' : (w.receipt r).row = some row := hrow
    rcases claimReceived_cases H ω.now ω.hex g caller d hrow with
      ⟨hvalid, hdb⟩ | ⟨-, hdb⟩ | ⟨-, hdb⟩
    · have hgen : Db.sameGeneration g row = true := by
        simp only [Db.receivedValid, Bool.and_eq_true] at hvalid
        tauto
      have hact : Call.act ⟨i, .claimReceived r g caller d, true⟩ =
          some (r, .claimed false) := rfl
      have hrun := receipt_setRequest (H := H) (i := i) (w := w) (ω := ω) (o := .claimReceived r g caller d) hdb r
      rw [if_pos rfl, hrow', eventsOf_cons_self hact, Option.map_some] at hrun
      refine ⟨Db.sameGeneration_isSome hgen, ?_⟩
      rw [hrun]
      exact .of_claim rfl
    · rw [hdb] at hwon'
      cases hwon'
    · rw [hdb] at hwon'
      cases hwon'

theorem honest_claimApproval {g : Option Text} {state : SurfaceState} {now : Time} {caller : Option Caller} :
    Honest H i (fun _ => True) (perform (.claimApproval r g state now caller))
      fun (won : Bool) w => won = true → g.isSome = true ∧ (w.receipt r).Running i ∧
        Fact.approved.Holds (w.receipt r) := by
  refine honest_perform .true (fun _ _ => trivial) fun w ω hs hreq _ hwon => ?_
  have hwon' : (w.db.claimApproval H ω.hex r g state now caller).1 = true := hwon
  cases hrow : w.db.request r with
  | none => simp [Db.claimApproval, hrow] at hwon'
  | some row =>
    have hrow' : (w.receipt r).row = some row := hrow
    rcases claimApproval_cases H ω.hex g state now caller hrow with
      ⟨app, hlook, hvalid, hdb⟩ | ⟨hstatus, happ⟩ | ⟨-, hdb⟩
    · have hgen : Db.sameGeneration g row = true := by
        simp only [Db.approvalValid, Bool.and_eq_true] at hvalid
        tauto
      have hact : Call.act ⟨i, .claimApproval r g state now caller, true⟩ =
          some (r, .claimed true) := rfl
      have hrun := receipt_setBoth (H := H) (i := i) (w := w) (ω := ω) (o := .claimApproval r g state now caller) hdb
        (approvals_eq hs.current hrow' hlook) (fun _ => rfl) r
      rw [if_pos rfl, if_pos rfl, hrow', eventsOf_cons_self hact, Option.map_some] at hrun
      refine ⟨Db.sameGeneration_isSome hgen, ?_⟩
      rw [hrun]
      exact ⟨.of_claim rfl, ⟨_, rfl, i, List.mem_cons_self ..⟩⟩
    · obtain ⟨s, e, as, -, -, -, hdb⟩ := claimApproval_refused state hrow happ hstatus
      rw [hdb] at hwon'
      cases hwon'
    · rw [hdb] at hwon'
      cases hwon'

/-- An approval that was created is there. -/
theorem honest_createApproval {ref : PyStr} {expiresAt : Time} {d : Option Text} :
    Honest H i (fun _ => True) (perform (.createApproval r ref expiresAt d))
      fun (created : Except Exn Nat) w => ∀ n, created = .ok n → Fact.opened.Holds (w.receipt r) := by
  refine honest_perform .true (fun _ _ => trivial) fun w ω hs hreq _ n _ => ?_
  obtain ⟨-, -, row, hrow, -⟩ := id hreq
  have hstep := (exec_worldStep (ω := ω) hs.current hreq).receipts r
  obtain ⟨row', hrow', -⟩ := hstep.later.row row hrow
  refine ⟨row', hrow', ?_⟩
  have hrow₀ : w.db.request r = some row := hrow
  have hdb : w.db.createApproval ω.now r ref expiresAt d = (.ok w.db.approvals.nextId, { w.db with
      approvals := w.db.approvals.append (Db.pendingRow ω.now r ref expiresAt d)
        (Db.pendingRow_key ω.now r ref expiresAt d) }) := by
    simp [Db.createApproval, hrow₀]
  show ((w.exec H i (.createApproval r ref expiresAt d) ω).2.receipt r).approvals ≠ []
  rw [receipt_exec (o := .createApproval r ref expiresAt d) hdb, receiptOf, Table.append, Table.select_insert]
  simp [Db.pendingRow]

/-- The row a reservation answers with is the row of its request. -/
theorem honest_reserveAction {caller : Caller} {corr : Text} {tool op : String} {arguments reason : Json}
    {generation : Text} {key : Json} :
    Honest H i (fun _ => True) (perform (.reserveAction caller corr tool op arguments reason generation key))
      fun (answer : Except Exn (Row × Bool × Bool)) w => ∀ req created conflict,
        answer = .ok (req, created, conflict) → req.fact.Holds (w.receipt req.id) := by
  refine honest_perform .true (fun _ _ => trivial) fun w ω hs hreq _ => ?_
  intro req created conflict hanswer
  rcases reserveAction_cases H ω.now ω.hex caller corr tool op arguments reason generation key w.db with
    ⟨e, hdb⟩ | ⟨k, text, prior, -, -, -, hprior, -, hdb⟩ | ⟨k, text, bound, -, -, -, -, -, hdb⟩
  · have herror := (congrArg Prod.fst hdb).symm.trans hanswer
    cases herror
  · have hok := (congrArg Prod.fst hdb).symm.trans hanswer
    obtain ⟨rfl, -⟩ := Prod.mk.inj (Except.ok.inj hok)
    rw [receipt_quiet (o := .reserveAction caller corr tool op arguments reason generation key) hdb rfl rfl rfl]
    obtain ⟨k, rfl, hfind⟩ := Option.bind_eq_some_iff.1 hprior
    exact Row.fact_holds (Table.get?_of_mem (List.mem_of_find?_eq_some hfind))
  · have hok := (congrArg Prod.fst hdb).symm.trans hanswer
    obtain ⟨rfl, -⟩ := Prod.mk.inj (Except.ok.inj hok)
    refine Row.fact_holds ?_
    rw [receipt_exec (o := .reserveAction caller corr tool op arguments reason generation key) hdb]
    exact Table.get?_append_self w.db.requests _ fun _ => rfl

/-! ## Execution -/

namespace Runtime

variable {tool : String} {toolOp : ToolOp} {arguments : Json} {name : Option String}

theorem mute_toolSecret : Mute (toolSecret tool) :=
  .bind (.perform rfl) fun secret => by cases secret <;> trivial

theorem mute_loadBody (a : HttpAnswer) : Mute (loadBody a) := by
  rcases loadBody_cases a with ⟨v, -, hload⟩ | ⟨e, -, hload⟩ <;>
  · rw [hload]
    trivial

theorem mute_executeApi : Mute (executeApi toolOp arguments r name) := by
  refine .bind mute_toolSecret fun secret => .bind (.perform rfl) fun exchange => ?_
  cases exchange with
  | refused | unreachable | raised => trivial
  | answered a =>
    simp only
    split_ifs
    · exact mute_loadBody a
    · trivial

theorem mute_executeRest : Mute (executeRest toolOp arguments r name) := by
  refine .bind mute_toolSecret fun secret => .bind (.perform rfl) fun exchange => ?_
  cases exchange with
  | refused | unreachable | raised => trivial
  | answered a =>
    refine .bind (mute_loadBody a) fun v => ?_
    rcases envelope_cases v with henv | ⟨e, -, henv⟩ <;>
    · rw [henv]
      trivial

theorem mute_mcpRequest {m : HttpRequest} {n : Int} : Mute (mcpRequest m n) := by
  refine .bind (.perform rfl) fun x => ?_
  rcases mcpReply_cases m n x with ⟨kvs, session, -, hreply⟩ | ⟨e, -, hreply⟩ <;>
  · rw [hreply]
    trivial

theorem mute_mcpNotify {m : HttpRequest} : Mute (mcpNotify m) := by
  refine .bind (.perform rfl) fun x => ?_
  cases x with
  | refused | unreachable | raised => trivial
  | answered a =>
    simp only
    split_ifs
    · trivial
    · cases a.body <;> trivial

theorem mute_executeMcp : Mute (executeMcp toolOp arguments r name) := by
  refine .bind mute_toolSecret fun secret => .bind mute_mcpRequest fun init => ?_
  obtain ⟨initResult, session⟩ := init
  cases initResult with
  | obj kvs =>
    refine .bind mute_mcpNotify fun _ => .bind mute_mcpRequest fun answer => ?_
    obtain ⟨result, session'⟩ := answer
    cases result <;> trivial
  | _ => trivial

theorem mute_transport : Mute (transport toolOp arguments r name) := by
  unfold transport
  cases toolOp.type with
  | api => exact mute_executeApi
  | mcp => exact mute_executeMcp
  | rest => exact mute_executeRest

theorem mute_execute : Mute (execute toolOp arguments r name) := by
  refine .bind (.perform rfl) fun _ => .bind mute_transport fun _ => .bind (.perform rfl) fun late => ?_
  cases late <;> trivial

end Runtime

namespace Lifecycle

variable {ctx : Context} {now : Time} {tool op : String} {arguments : Json} {corr : Text} {row req : Row}
  {approval : Option ApprovalRow} {toolOp : ToolOp} {state : SurfaceState} {caller : Caller}

theorem mute_theRow {row : Option Row} : Mute (theRow row) := by cases row <;> trivial

theorem mute_laterThan : Mute (laterThan now) := .bind (.perform rfl) fun _ => trivial

theorem mute_nowOr {now : Option Time} : Mute (nowOr now) := by
  cases now with
  | none => exact .perform rfl
  | some t => trivial

theorem said_outcomeFromRequest (h : row.fact.Holds (w.receipt row.id)) :
    (outcomeFromRequest row approval).Said w := Outcome.said_of rfl h

theorem currentOutcome_honest : Honest H i (fun _ => True) (currentOutcome r) fun out => out.Said := by
  refine .bind (honest_request .true) fun req => ?_
  have hread : Honest H i (WasRead r req) (perform (.approvalForRequest r)) fun _ => WasRead r req :=
    honest_keeps (.wasRead req) fun _ _ => trivial
  refine .bind (hread.conseq (fun _ _ h => h.2) (fun _ _ _ h => h) fun _ _ _ h => h) fun approval => ?_
  cases req with
  | none => exact .raise fun _ _ _ => trivial
  | some row =>
    refine .ret fun w _ h => ?_
    obtain ⟨rfl, hholds⟩ := h row rfl
    exact said_outcomeFromRequest hholds

theorem executionFailed_honest {e : Exn} :
    Honest H i (fun _ => True) (executionFailed r tool op corr e) fun out => out.Said := by
  unfold executionFailed
  simp only
  split_ifs
  · exact .bind (honest_ending (s := .failed) ⟨rfl, rfl, rfl, rfl, rfl⟩) fun _ =>
      .bind (honest_audit (.holds _ r) fun _ h => h) fun _ => .ret fun _ _ h => Outcome.said_of rfl h
  · exact .bind (honest_ending (s := .unknown) ⟨rfl, rfl, rfl, rfl, rfl⟩) fun _ =>
      .bind (honest_audit (.holds _ r) fun _ h => h) fun _ => .ret fun _ _ h => Outcome.said_of rfl h

/-- The winner of a claim says that it started, and then what came of it. -/
theorem executeRequest_honest {name : Option String} :
    Honest H i (fun w => (w.receipt r).Running i) (executeRequest r tool op arguments corr name (some toolOp))
      fun out => out.Said := by
  refine .bind (Q := fun req w => (∃ row, req = some row ∧ row.status = .executing) ∧
    Fact.started.Holds (w.receipt r)) ?_ fun req => ?_
  · refine .perform Kept.running.stable (fun _ _ _ _ => trivial) fun w ω hs hreq hw => ?_
    obtain ⟨row, hrow, hstatus⟩ := hw.executing
    exact ⟨⟨row, hrow, hstatus⟩, (Lasting.holds .started r).exec _ w ω hs hreq hw.started⟩
  intro w hs hw
  obtain ⟨⟨row, rfl, hstatus⟩, hstarted⟩ := hw
  simp only [hstatus, ne_eq, not_true_eq_false, if_false]
  have hstart : Honest H i (fun w => Fact.started.Holds (w.receipt r))
      (audit "runtime" "execution_started" "accepted" corr r (names tool op))
      fun _ w => Fact.started.Holds (w.receipt r) := honest_audit (.holds _ r) fun _ h => h
  refine Shows.bind hstart (fun _ => ?_) w hs hstarted
  have hexecute : Honest H i (fun _ => True) (Runtime.execute toolOp arguments r name) fun _ _ => True :=
    Runtime.mute_execute.honest .true
  refine .bind (Shows.attempt (T := fun _ _ => True) (hexecute.conseq (fun _ _ _ => trivial) (fun _ _ _ h => h)
    fun _ _ _ h => h)) fun answer => ?_
  cases answer with
  | error e => exact executionFailed_honest
  | ok result =>
    exact .bind (honest_ending (s := .completed) ⟨rfl, rfl, rfl, rfl, rfl⟩) fun _ =>
      .bind (honest_audit (.holds _ r) fun _ h => h) fun _ => .ret fun _ _ h => Outcome.said_of rfl h

/-! ## Expiry -/

theorem mute_cancelOnSurface {ref : PyStr} : Mute (cancelOnSurface ctx ref) := by
  unfold cancelOnSurface
  split_ifs
  · exact .bind (.perform rfl) fun _ => trivial
  · trivial

theorem expired_of_finished {s : Status} {as : ApprovalStatus} {R : Receipt} (hs : s = .expired)
    (h : R.Finished s as ∨ ∃ as', (as' = .expired ∨ as' = .cancelled) ∧ R.Finished .expired as') :
    (Fact.ended .expired).Holds R := by
  rcases h with hfinished | ⟨as', -, hfinished⟩
  · exact hs ▸ hfinished.ended
  · exact hfinished.ended

theorem expireApproval_honest {ref : PyStr} :
    Honest H i (fun _ => True) (expireApproval ctx r ref tool op corr now) fun _ _ => True := by
  refine .bind honest_finishPending fun changed => ?_
  cases changed with
  | false => exact .ret fun _ _ _ => trivial
  | true =>
    have hcancel : Honest H i (fun w => (Fact.ended .expired).Holds (w.receipt r)) (cancelOnSurface ctx ref)
        fun _ w => (Fact.ended .expired).Holds (w.receipt r) := mute_cancelOnSurface.honest (.holds _ r)
    refine .bind (hcancel.conseq (fun _ _ h => expired_of_finished rfl (h rfl)) (fun _ _ _ h => h)
      fun _ _ _ h => h) fun _ => ?_
    exact .bind (honest_audit (.holds _ r) fun _ h => h) fun _ => .ret fun _ _ _ => trivial

theorem sweepRows_honest (rows : List Db.Worklist) :
    Honest H i (fun _ => True) (sweepRows ctx now rows) fun _ _ => True := by
  induction rows with
  | nil => exact .ret fun _ _ _ => trivial
  | cons row rows ih => exact .bind expireApproval_honest fun _ => .bind ih fun _ => .ret fun _ _ _ => trivial

theorem sweepExpired_honest {now : Option Time} :
    Honest H i (fun _ => True) (sweepExpired ctx now) fun _ _ => True :=
  .bind (mute_nowOr.honest .true) fun _ => .bind (honest_keeps .true fun _ _ => trivial) fun rows => sweepRows_honest rows

/-! ## Submission -/

theorem openApproval_honest {name : String} :
    Honest H i (fun _ => True) (openApproval ctx r name tool op toolOp arguments corr) fun out => out.Said := by
  unfold openApproval
  split_ifs
  · exact .bind (honest_ending (s := .failed) ⟨rfl, rfl, rfl, rfl, rfl⟩) fun _ =>
      .bind (honest_audit (.holds _ r) fun _ h => h) fun _ => .ret fun _ _ h => Outcome.said_of rfl h
  refine .bind (honest_keeps .true fun _ _ => trivial) fun req => ?_
  refine .bind (mute_theRow.honest .true) fun req => ?_
  simp only
  split
  · exact .raise fun _ _ _ => trivial
  refine .bind (honest_keeps .true fun _ _ => trivial) fun installation => ?_
  refine .bind (honest_keeps .true fun _ _ => trivial) fun opened => ?_
  cases opened with
  | error e =>
    exact .bind (honest_ending (s := .failed) ⟨rfl, rfl, rfl, rfl, rfl⟩) fun _ =>
      .bind (honest_audit (.holds _ r) fun _ h => h) fun _ => .ret fun _ _ h => Outcome.said_of rfl h
  | ok ref =>
    refine .bind (honest_keeps .true fun _ _ => trivial) fun now => .bind honest_createApproval fun created => ?_
    cases created with
    | error e => exact .raise fun _ _ _ => trivial
    | ok n =>
      have hpark : Honest H i (fun w => Fact.opened.Holds (w.receipt r))
          (updateRequest r { status := some .pendingApproval }) fun _ w => Fact.opened.Holds (w.receipt r) :=
        honest_keeps (.holds _ r) fun _ _ => trivial
      refine .bind (hpark.conseq (fun _ _ h => h n rfl) (fun _ _ _ h => h) fun _ _ _ h => h) fun _ => ?_
      exact .bind (honest_audit (.holds _ r) fun _ h => h) fun _ => .ret fun _ _ h => Outcome.said_of rfl h.known

/-- A claim that was won is executed; one that was lost is looked up. -/
theorem claimed_honest {currentOp : Option ToolOp} {name : String} {digest : Option Text} :
    Honest H i (fun _ => True) (do
      let claimed : Bool ← perform (.claimReceived r (currentOp.map (·.generation)) (some caller) digest)
      if claimed then executeRequest r tool op arguments corr (some name) currentOp
      else do
        let req ← theRow (← perform (.request r))
        return outcomeFromRequest req none) fun out => out.Said := by
  refine .bind honest_claimReceived fun won => ?_
  cases won with
  | true =>
    intro w hs hw
    obtain ⟨hsome, hrunning⟩ := hw rfl
    cases currentOp with
    | none => cases hsome
    | some toolOp => exact executeRequest_honest w hs hrunning
  | false =>
    refine .bind ((honest_request .true).conseq (fun _ _ _ => trivial) (fun _ _ _ h => h) fun _ _ _ h => h)
      fun req => ?_
    cases req with
    | none => exact .raise fun _ _ _ => trivial
    | some row =>
      refine .ret fun w _ h => ?_
      obtain ⟨rfl, hholds⟩ := h.2 row rfl
      exact said_outcomeFromRequest hholds

theorem invalid_honest {problem : String} :
    Honest H i (fun w => Fact.known.Holds (w.receipt r)) (do
      updateRequest r { status := some .invalid, error := some (some "invalid_envelope"), argumentsJson := some none }
      return ({ status := .invalid, requestId := r, error := some "invalid_envelope", detail := some problem } : Outcome))
      fun out => out.Said :=
  .bind (honest_keeps (o := .updateRequest r _) (.holds .known r) fun _ _ => trivial) fun _ =>
    .ret fun _ _ h => Outcome.said_of rfl h

theorem advanceReserved_honest {kvs : List (PyStr × Json)} {reason : Json} {hasKey : Bool} :
    Honest H i (fun w => Fact.known.Holds (w.receipt req.id))
      (advanceReserved ctx caller tool op toolOp kvs corr reason hasKey req) fun out => out.Said := by
  have hknown : Lasting H i fun w => Fact.known.Holds (w.receipt req.id) := .holds _ _
  refine .bind (honest_audit hknown fun _ h => h) fun _ => ?_
  refine .bind (honest_keeps hknown fun _ _ => trivial) fun policy => ?_
  cases policy.decide tool op with
  | deny =>
    refine .bind ((honest_ending (s := .denied) ⟨rfl, rfl, rfl, rfl, rfl⟩).conseq (fun _ _ _ => trivial)
      (fun _ _ _ h => h) fun _ _ _ h => h) fun _ => ?_
    exact .bind (honest_audit (.holds _ _) fun _ h => h) fun _ => .ret fun _ _ h => Outcome.said_of rfl h
  | review =>
    simp only
    split
    · exact .raise fun _ _ _ => trivial
    · exact invalid_honest
    · exact .bind (honest_audit hknown fun _ h => h) fun _ => openApproval_honest.conseq (fun _ _ _ => trivial)
        (fun _ _ _ h => h) fun _ _ _ h => h
  | allow =>
    simp only
    split
    · exact .raise fun _ _ _ => trivial
    · exact invalid_honest
    · refine .bind (honest_audit hknown fun _ h => h) fun _ => ?_
      refine .bind (honest_keeps hknown fun _ _ => trivial) fun currentOp => ?_
      exact claimed_honest.conseq (fun _ _ _ => trivial) (fun _ _ _ h => h) fun _ _ _ h => h

/-- What the answer of a reservation says of the request it names. -/
def Reservation.Told (answer : Except Exn (Row × Bool × Bool)) (w : World) : Prop :=
  ∀ req created conflict, answer = .ok (req, created, conflict) → req.fact.Holds (w.receipt req.id)

theorem afterReservation_honest {currentOp : Option ToolOp} {kvs : List (PyStr × Json)} {reason key : Json}
    {answer : Except Exn (Row × Bool × Bool)} :
    Honest H i (Reservation.Told answer)
      (afterReservation ctx caller tool op currentOp kvs corr reason key answer) fun out => out.Said := by
  cases answer with
  | error e =>
    cases e <;> first
      | exact .ret fun _ _ _ _ h => by cases h
      | exact .raise fun _ _ _ => trivial
  | ok answer =>
    obtain ⟨req, created, conflict⟩ := answer
    have htold : ∀ w, Reservation.Told (.ok (req, created, conflict)) w → req.fact.Holds (w.receipt req.id) :=
      fun w h => h req created conflict rfl
    cases conflict with
    | true => exact .ret fun w _ h => Outcome.said_of rfl (htold w h).known
    | false =>
      cases created with
      | false =>
        have hlook : Honest H i (fun w => req.fact.Holds (w.receipt req.id)) (perform (.approvalForRequest req.id))
            fun _ w => req.fact.Holds (w.receipt req.id) := honest_keeps (.holds _ _) fun _ _ => trivial
        refine .bind (hlook.conseq (fun w _ h => htold w h) (fun _ _ _ h => h) fun _ _ _ h => h) fun approval => ?_
        exact .ret fun w _ h => Outcome.said_of rfl h
      | true =>
        cases currentOp with
        | none =>
          refine .bind ((honest_ending (s := .notFound) ⟨rfl, rfl, rfl, rfl, rfl⟩).conseq (fun _ _ _ => trivial)
            (fun _ _ _ h => h) fun _ _ _ h => h) fun _ => ?_
          exact .ret fun _ _ h => Outcome.said_of rfl h.known
        | some toolOp =>
          exact advanceReserved_honest.conseq (fun w _ h => (htold w h).known) (fun _ _ _ h => h) fun _ _ _ h => h

theorem submitValid_honest {reason key : Json} :
    Honest H i (fun _ => True) (submitValid ctx caller tool op arguments corr reason key) fun out => out.Said := by
  refine .bind sweepExpired_honest fun _ => ?_
  refine .bind (honest_keeps .true fun _ _ => trivial) fun currentOp => ?_
  split_ifs
  · exact .bind (honest_keeps .true fun _ _ => trivial) fun _ => .ret fun _ _ _ _ h => by cases h
  · split
    · exact .bind honest_reserveAction fun answer => afterReservation_honest
    · exact .bind honest_reserveAction fun answer => afterReservation_honest
    · exact .ret fun _ _ _ _ h => by cases h

theorem submit_honest {reason key : Json} :
    Honest H i (fun _ => True) (submit ctx caller tool op arguments corr reason key) fun out => out.Said := by
  unfold submit
  split
  · exact .ret fun _ _ _ _ h => by cases h
  · exact .bind submitValid_honest fun out => .ret fun _ _ h => h

/-! ## Polling -/

theorem resolveApproved_honest {c : Option Caller} :
    Honest H i (fun _ => True) (resolveApproved ctx req state now c) fun out => out.Said := by
  refine .bind (honest_keeps .true fun _ _ => trivial) fun toolOp => ?_
  refine .bind (mute_laterThan.honest .true) fun claimTime => .bind honest_claimApproval fun won => ?_
  cases won with
  | false => exact currentOutcome_honest.conseq (fun _ _ _ => trivial) (fun _ _ _ h => h) fun _ _ _ h => h
  | true =>
    intro w hs hw
    obtain ⟨hsome, hrunning, happroved⟩ := hw rfl
    cases toolOp with
    | none => cases hsome
    | some toolOp =>
      have hsay : Honest H i (fun w => (w.receipt req.id).Running i ∧ Fact.approved.Holds (w.receipt req.id))
          (audit "approval" "approved" "ok" req.correlationId req.id
            (names req.tool req.op ++ [("approver", (state.approver.map Json.str).getD .null)]))
          fun _ w => (w.receipt req.id).Running i := by
        refine .perform (Discipline.Stable.and Kept.running.stable (Lasting.holds .approved req.id).stable)
          (fun w _ _ hw => hw.2) ?_
        exact fun w ω hs hreq hw => Kept.running.quiet ω rfl hw.1
      refine Shows.bind hsay (fun _ => ?_) w hs ⟨hrunning, happroved⟩
      refine .bind (Q := fun _ w => (w.receipt req.id).Running i) ?_ fun callerName => ?_
      · exact .perform Kept.running.stable (fun _ _ _ _ => trivial) fun w ω _ _ hw => Kept.running.quiet ω rfl hw
      · exact .bind executeRequest_honest fun out => .ret fun _ _ h => h

/-- What the audit event of a finished approval says, by the status it was left in. -/
theorem said_finished {R : Receipt} {s : Status} {as : ApprovalStatus} {state : Option ApprovalRow}
    (hsaid : said "approval" (approvalEvent as) = .ended s) (h : R.Finished s as)
    (hstate : ∀ a, state = some a → a ∈ R.approvals) :
    (said "approval" ((state.map fun a => approvalEvent a.status).getD "")).Holds R := by
  cases state with
  | none => exact h.ended.known
  | some a =>
    show (said "approval" (approvalEvent a.status)).Holds R
    rw [h.2 a (hstate a rfl), hsaid]
    exact h.ended

theorem resolveRejected_honest :
    Honest H i (fun _ => True) (resolveRejected req state now) fun out => out.Said := by
  refine .bind (mute_laterThan.honest .true) fun finishTime => .bind honest_finishPending fun changed => ?_
  cases changed with
  | false => exact currentOutcome_honest.conseq (fun _ _ _ => trivial) (fun _ _ _ h => h) fun _ _ _ h => h
  | true =>
    -- the approval that is looked up is the one the finish closed
    have hlook : Honest H i (fun w => ∃ s as, said "approval" (approvalEvent as) = .ended s ∧
          (w.receipt req.id).Finished s as) (perform (.approvalForRequest req.id))
        fun current w => (said "approval" ((current.map fun a => approvalEvent a.status).getD "")).Holds
          (w.receipt req.id) := by
      refine honest_perform (.exists' fun s => .exists' fun as => .and (.const _) (.finished s as req.id))
        (fun _ _ => trivial) fun w ω hs hreq hw => ?_
      obtain ⟨s, as, hsaid, hfinished⟩ := hw
      rw [Op.quiet_receipt rfl]
      refine said_finished hsaid hfinished fun a ha => ?_
      have hhead : w.db.approvalForRequest req.id = some a := ha
      rw [approvalForRequest_eq] at hhead
      exact List.mem_of_head? hhead
    refine .bind (hlook.conseq (fun w _ h => ?_) (fun _ _ _ h => h) fun _ _ _ h => h) fun current => ?_
    · rcases h rfl with hfinished | ⟨as', has', hfinished⟩
      · exact ⟨_, _, rfl, hfinished⟩
      · rcases has' with rfl | rfl <;> exact ⟨_, _, rfl, hfinished⟩
    have hlast := Lasting.holds (H := H) (i := i)
      (said "approval" ((current.map fun a => approvalEvent a.status).getD "")) req.id
    refine .bind (honest_request hlast) fun req' => ?_
    cases req' with
    | none => exact .raise fun _ _ _ => trivial
    | some row =>
      simp only [theRow, Prog.pure_eq, Prog.ret_bind]
      refine .bind (honest_audit (hlast.and (.wasRead (r := req.id) (some row))) fun _ h => h.1) fun _ => ?_
      refine .ret fun w _ h => ?_
      obtain ⟨hid, hholds⟩ := h.2 row rfl
      rw [← hid] at hholds
      exact said_outcomeFromRequest hholds

theorem resolveEnded_honest {outcome : ApprovalStatus} :
    Honest H i (fun _ => True) (resolveEnded req outcome now) fun out => out.Said := by
  refine .bind (mute_laterThan.honest .true) fun finishTime => .bind honest_finishPending fun changed => ?_
  cases changed with
  | false => exact currentOutcome_honest.conseq (fun _ _ _ => trivial) (fun _ _ _ h => h) fun _ _ _ h => h
  | true =>
    have hsay : Honest H i (fun w => (Fact.ended .expired).Holds (w.receipt req.id))
        (audit "approval" "expired" "expired" req.correlationId req.id (names req.tool req.op))
        fun _ w => (Fact.ended .expired).Holds (w.receipt req.id) := honest_audit (.holds _ _) fun _ h => h
    refine .bind (hsay.conseq (fun _ _ h => expired_of_finished rfl (h rfl)) (fun _ _ _ h => h)
      fun _ _ _ h => h) fun _ => ?_
    exact currentOutcome_honest.conseq (fun _ _ _ => trivial) (fun _ _ _ h => h) fun _ _ _ h => h

theorem resolveExpired_honest {app : ApprovalRow} :
    Honest H i (fun _ => True) (resolveExpired ctx req app now) fun out => out.Said :=
  .bind expireApproval_honest fun _ => currentOutcome_honest

theorem resolveState_honest {c : Option Caller} :
    Honest H i (fun w => Fact.known.Holds (w.receipt req.id)) (resolveState ctx req state now c)
      fun out => out.Said := by
  have hdrop : ∀ {p : Action Outcome}, Honest H i (fun _ => True) p (fun out => out.Said) →
      Honest H i (fun w => Fact.known.Holds (w.receipt req.id)) p fun out => out.Said :=
    fun h => h.conseq (fun _ _ _ => trivial) (fun _ _ _ h => h) fun _ _ _ h => h
  have hknown : Lasting H i fun w => Fact.known.Holds (w.receipt req.id) := .holds _ _
  unfold resolveState
  cases state.outcome with
  | approved => exact .bind (honest_audit hknown fun _ h => h) fun _ => hdrop resolveApproved_honest
  | rejected => exact .bind (honest_audit hknown fun _ h => h) fun _ => hdrop resolveRejected_honest
  | expired => exact hdrop resolveEnded_honest
  | cancelled => exact hdrop resolveEnded_honest
  | pending => exact hdrop currentOutcome_honest

theorem mute_pollSurface {ref : PyStr} : Mute (pollSurface ctx ref) := by
  unfold pollSurface
  split_ifs
  · trivial
  · refine .bind (.perform rfl) fun polled => ?_
    cases polled <;> trivial

theorem resolvePending_honest {app : ApprovalRow} {c : Option Caller} :
    Honest H i (fun w => Fact.known.Holds (w.receipt req.id)) (resolvePending ctx req app now c)
      fun out => out.Said := by
  have hknown : Lasting H i fun w => Fact.known.Holds (w.receipt req.id) := .holds _ _
  have hexpired : ∀ {app now}, Honest H i (fun w => Fact.known.Holds (w.receipt req.id))
      (resolveExpired ctx req app now) fun out => out.Said :=
    resolveExpired_honest.conseq (fun _ _ _ => trivial) (fun _ _ _ h => h) fun _ _ _ h => h
  unfold resolvePending
  split_ifs
  · exact hexpired
  refine .bind (mute_pollSurface.honest hknown) fun state => .bind (mute_laterThan.honest hknown) fun afterPoll => ?_
  refine .bind (honest_request hknown) fun currentReq => ?_
  refine .bind (honest_keeps (hknown.and (.wasRead currentReq)) fun _ _ => trivial) fun currentApproval => ?_
  cases currentReq with
  | none => exact .raise fun _ _ _ => trivial
  | some row =>
    have hread : ∀ {approval w}, WasRead req.id (some row) w → (outcomeFromRequest row approval).Said w := by
      intro approval w h
      obtain ⟨hid, hholds⟩ := h row rfl
      rw [← hid] at hholds
      exact said_outcomeFromRequest hholds
    simp only [theRow, Prog.pure_eq, Prog.ret_bind]
    split_ifs
    · exact .ret fun _ _ h => hread h.2
    · cases currentApproval with
      | none => exact .raise fun _ _ _ => trivial
      | some currentApproval =>
        simp only [theApproval, Prog.pure_eq, Prog.ret_bind]
        split_ifs
        · exact .ret fun _ _ h => hread h.2
        · exact hexpired.conseq (fun _ _ h => h.1) (fun _ _ _ h => h) fun _ _ _ h => h
        · exact resolveState_honest.conseq (fun _ _ h => h.1) (fun _ _ _ h => h) fun _ _ _ h => h

theorem resolveRequest_honest {now : Option Time} {c : Option Caller} :
    Honest H i (fun _ => True) (resolveRequest ctx r now c) fun out => out.Said := by
  refine .bind (mute_nowOr.honest .true) fun now => .bind (honest_request .true) fun req => ?_
  cases req with
  | none => exact .ret fun _ _ _ _ h => by cases h
  | some req =>
    have hlook : Honest H i (WasRead r (some req)) (perform (.approvalForRequest r)) fun _ => WasRead r (some req) :=
      honest_keeps (.wasRead _) fun _ _ => trivial
    refine .bind (hlook.conseq (fun _ _ h => h.2) (fun _ _ _ h => h) fun _ _ _ h => h) fun approval => ?_
    have hread : ∀ {w}, WasRead r (some req) w → req.id = r ∧ req.fact.Holds (w.receipt req.id) := by
      intro w h
      obtain ⟨hid, hholds⟩ := h req rfl
      exact ⟨hid, by rwa [hid]⟩
    split_ifs
    · exact .ret fun _ _ h => said_outcomeFromRequest (hread h).2
    · cases approval with
      | none => exact .ret fun _ _ h => Outcome.said_of rfl ((h req rfl).2.known)
      | some approval =>
        exact resolvePending_honest.conseq (fun _ _ h => (hread h).2.known) (fun _ _ _ h => h) fun _ _ _ h => h

end Lifecycle

/-! ## The operator's programs -/

namespace Operations

variable {name operator : String} {surface : Bool}

theorem mute_requireCaller : Mute (requireCaller name) :=
  .bind (.perform rfl) fun caller => by cases caller <;> trivial

theorem mute_recordAdminEvent {eventType : String} {details : List (String × Json)} :
    Mute (recordAdminEvent operator eventType details) := .bind (.perform rfl) fun _ => .perform rfl

theorem mute_storePolicy {c : Nat} {policy : Policy} : Mute (storePolicy c policy) :=
  .bind (.perform rfl) fun answer => by cases answer <;> trivial

theorem mute_newToken {c : Nat} : Mute (newToken H c) :=
  .bind (.perform rfl) fun _ => .bind (.perform rfl) fun answer => by cases answer <;> trivial

theorem mute_createCaller {allow review deny : List String} : Mute (createCaller H name allow review deny operator) := by
  refine .bind (.perform rfl) fun answer => ?_
  cases answer with
  | error e => trivial
  | ok c =>
    exact .bind mute_newToken fun _ => .bind mute_storePolicy fun _ => .bind mute_recordAdminEvent fun _ => trivial

theorem mute_setPolicy {allow review deny : List String} : Mute (setPolicy name allow review deny operator) :=
  .bind mute_requireCaller fun _ => .bind (.perform rfl) fun _ => .bind mute_storePolicy fun _ => mute_recordAdminEvent

theorem mute_setEnabledTools {enabled : List String} : Mute (setEnabledTools name enabled operator) := by
  refine .bind mute_requireCaller fun _ => .bind (.perform rfl) fun _ => .bind (.perform rfl) fun current => ?_
  cases current.disabledFunctions.isSome with
  | false => exact .bind trivial fun _ => .bind mute_storePolicy fun _ => mute_recordAdminEvent
  | true =>
    exact .bind (.perform rfl) fun _ => .bind trivial fun _ => .bind mute_storePolicy fun _ => mute_recordAdminEvent

theorem mute_issueToken : Mute (issueToken H name operator) :=
  .bind mute_requireCaller fun _ => .bind mute_newToken fun _ => .bind mute_recordAdminEvent fun _ => trivial

theorem mute_rotateToken : Mute (rotateToken H name operator) :=
  .bind mute_requireCaller fun _ => .bind mute_newToken fun _ => .bind (.perform rfl) fun _ =>
    .bind mute_recordAdminEvent fun _ => trivial

theorem cancelRow_honest {reason : String} {row : Db.Worklist} :
    Honest H i (fun _ => True) (cancelRow surface operator reason row) fun _ _ => True := by
  refine .bind honest_finishPending fun changed => ?_
  cases changed with
  | false => exact .ret fun _ _ _ => trivial
  | true =>
    have hlast := Lasting.holds (H := H) (i := i) (.ended .expired) row.requestId
    have hsay : Honest H i (fun w => (Fact.ended .expired).Holds (w.receipt row.requestId))
        (perform (.appendAudit "approval" "cancelled" "cancelled" row.correlationId (some row.requestId)
          [("reason", strJson reason), ("operator", strJson operator), ("tool", strJson row.tool),
            ("op", strJson row.op)])) fun _ w => (Fact.ended .expired).Holds (w.receipt row.requestId) :=
      honest_keeps hlast fun _ h => h
    cases surface with
    | false =>
      exact .bind (hsay.conseq (fun _ _ h => Lifecycle.expired_of_finished rfl (h rfl)) (fun _ _ _ h => h)
        fun _ _ _ h => h) fun _ => .ret fun _ _ _ => trivial
    | true =>
      have hcancel : Honest H i (fun w => (Fact.ended .expired).Holds (w.receipt row.requestId))
          (perform (.surfaceCancel row.surfaceRef)) fun _ w => (Fact.ended .expired).Holds (w.receipt row.requestId) :=
        honest_keeps hlast fun _ _ => trivial
      exact .bind (hcancel.conseq (fun _ _ h => Lifecycle.expired_of_finished rfl (h rfl)) (fun _ _ _ h => h)
        fun _ _ _ h => h) fun _ => .bind hsay fun _ => .ret fun _ _ _ => trivial

theorem cancelRows_honest {reason : String} (rows : List Db.Worklist) :
    Honest H i (fun _ => True) (cancelRows surface operator reason rows) fun _ _ => True := by
  induction rows with
  | nil => exact .ret fun _ _ _ => trivial
  | cons row rows ih => exact .bind cancelRow_honest fun _ => .bind ih fun _ => .ret fun _ _ _ => trivial

theorem cancelPendingApprovals_honest {c : Nat} {reason : String} :
    Honest H i (fun _ => True) (cancelPendingApprovals c surface operator reason) fun _ _ => True :=
  .bind (honest_keeps .true fun _ _ => trivial) fun rows => cancelRows_honest rows

theorem revokeCaller_honest : Honest H i (fun _ => True) (revokeCaller name operator surface) fun _ _ => True :=
  .bind (mute_requireCaller.honest .true) fun _ => .bind (honest_keeps .true fun _ _ => trivial) fun _ =>
    .bind cancelPendingApprovals_honest fun _ => .bind (mute_recordAdminEvent.honest .true) fun _ =>
      .ret fun _ _ _ => trivial

theorem cancelTokenless_honest (callers : List Nat) :
    Honest H i (fun _ => True) (cancelTokenless surface operator callers) fun _ _ => True := by
  induction callers with
  | nil => exact .ret fun _ _ _ => trivial
  | cons c rest ih =>
    refine .bind (honest_keeps .true fun _ _ => trivial) fun active => ?_
    split_ifs
    · exact .bind cancelPendingApprovals_honest fun _ => .bind ih fun _ => .ret fun _ _ _ => trivial
    · exact .bind (.ret fun _ _ h => h) fun _ => .bind ih fun _ => .ret fun _ _ _ => trivial

theorem revokeToken_honest {pre : Text} :
    Honest H i (fun _ => True) (revokeToken pre operator surface) fun _ _ => True := by
  unfold revokeToken
  split_ifs
  · exact .ret fun _ _ _ => trivial
  · refine .bind (honest_keeps .true fun _ _ => trivial) fun callers => ?_
    cases callers with
    | error e => exact .raise fun _ _ _ => trivial
    | ok callers =>
      refine .bind (honest_keeps .true fun _ _ => trivial) fun count => ?_
      cases count with
      | error e => exact .raise fun _ _ _ => trivial
      | ok count =>
        simp only
        split_ifs
        · exact .ret fun _ _ _ => trivial
        · exact .bind (cancelTokenless_honest callers) fun _ => .bind (mute_recordAdminEvent.honest .true) fun _ =>
            .ret fun _ _ _ => trivial

end Operations

namespace CallerSettings

theorem mute_snapshot {name : String} {catalog : Except Exn Catalog} : Mute (snapshot H name catalog) := by
  refine .bind Operations.mute_requireCaller fun caller => ?_
  split_ifs
  · trivial
  · cases catalog with
    | error e => trivial
    | ok catalog => exact .bind (.perform rfl) fun _ => .bind (.perform rfl) fun _ => trivial

theorem mute_apply {name operator : String} {catalog : Except Exn Catalog} {data : Draft} :
    Mute (apply H name catalog data operator) := by
  refine .bind mute_snapshot fun current => ?_
  split_ifs
  · trivial
  · cases edit current.catalog data current.policy with
    | error e => trivial
    | ok after =>
      refine .bind Operations.mute_requireCaller fun caller => .bind (.perform rfl) fun saved => ?_
      cases saved <;> trivial

theorem mute_saveCallerTools {name operator : String} {available selected : List String} :
    Mute (saveCallerTools name available selected operator) :=
  .bind Operations.mute_requireCaller fun _ => .bind (.perform rfl) fun _ => Operations.mute_setEnabledTools

end CallerSettings

/-! ## The gateway -/

namespace Gateway

variable {ctx : Context} {caller : Caller} {corr : Text}

theorem mute_correlation {headers : Headers} : Mute (correlation headers) := by
  unfold correlation
  simp only
  split_ifs
  · trivial
  · exact .perform rfl

theorem mute_authenticate {header : Option Text} : Mute (Identity.authenticate H header) := by
  unfold Identity.authenticate
  split
  · trivial
  · exact .perform rfl

theorem mute_requestNumber {rid : Text} : Mute (requestNumber rid) := by
  unfold requestNumber
  split_ifs
  · trivial
  · simp only
    split_ifs <;> trivial

/-- The terminal event of a request says what its outcome says. -/
theorem auditRequestTerminal_honest {out : Outcome} {tool op : String} :
    Honest H i out.Said (auditRequestTerminal out corr tool op) fun _ _ => True := by
  have hsay : ∀ {eventType word : String} {r : Nat},
      (∀ w, out.Said w → (said "request" eventType).Holds (w.receipt r)) →
      Honest H i out.Said (Lifecycle.audit "request" eventType word corr r (Lifecycle.names tool op)) fun _ _ => True :=
    fun hheld => (honest_audit (.said out) hheld).conseq (fun _ _ h => h) (fun _ _ _ _ => trivial) fun _ _ _ h => h
  unfold auditRequestTerminal
  split_ifs
  · cases hid : out.requestId with
    | none =>
      have hmute : Mute (Lifecycle.audit "request" "receipt_reused" out.status.text corr none
          (Lifecycle.names tool op)) := .perform rfl
      exact (hmute.honest .true).conseq (fun _ _ _ => trivial) (fun _ _ _ h => h) fun _ _ _ h => h
    | some r => exact hsay fun w h => (h r hid).known
  · split
    · rename_i eventType word r hterminal hid
      refine hsay fun w h => ?_
      rw [said_requestTerminal hterminal]
      exact h r hid
    · exact .ret fun _ _ _ => trivial

theorem action_honest {spec : Text} {body : Json} {key : Option PyStr} :
    Honest H i (fun _ => True) (action ctx caller spec body corr key) fun _ _ => True := by
  unfold action
  split
  · exact .ret fun _ _ _ => trivial
  · split
    · exact .bind Lifecycle.submit_honest fun _ => .bind auditRequestTerminal_honest fun _ => .ret fun _ _ _ => trivial
    · exact .ret fun _ _ _ => trivial
  · exact .ret fun _ _ _ => trivial

theorem requestStatus_honest {rid : Text} :
    Honest H i (fun _ => True) (requestStatus ctx caller rid corr) fun _ _ => True := by
  unfold requestStatus
  split_ifs
  · exact .ret fun _ _ _ => trivial
  · refine .bind (mute_requestNumber.honest .true) fun n => .bind (honest_keeps .true fun _ _ => trivial) fun req => ?_
    cases req.filter fun req => req.callerId = caller.id with
    | none => exact .ret fun _ _ _ => trivial
    | some req =>
      refine .bind (honest_keeps .true fun _ _ => trivial) fun allowed => ?_
      split_ifs
      · exact .ret fun _ _ _ => trivial
      all_goals
        refine .bind Lifecycle.resolveRequest_honest fun outcome => ?_
        refine .bind (honest_keeps (.said outcome) fun _ _ => trivial) fun allowed => ?_
        split_ifs
        · exact .ret fun _ _ _ => trivial
      · exact .bind auditRequestTerminal_honest fun _ => .ret fun _ _ _ => trivial
      · exact .ret fun _ _ _ => trivial

theorem limited_honest {rest : Action Response} (hrest : Honest H i (fun _ => True) rest fun _ _ => True) :
    Honest H i (fun _ => True) (do
      let allowed : Bool ← if ctx.rateLimited then perform (.rateAllow caller.id) else pure true
      if !allowed then return refuse 429 corr (error "rate_limited") else rest) fun _ _ => True := by
  have hpassed : ∀ allowed : Bool, Honest H i (fun _ => True)
      (if !allowed then return refuse 429 corr (error "rate_limited") else rest) fun _ _ => True := by
    intro allowed
    cases allowed with
    | false => exact .ret fun _ _ _ => trivial
    | true => exact hrest
  cases ctx.rateLimited with
  | false => exact hpassed true
  | true => exact .bind (honest_keeps .true fun _ _ => trivial) hpassed

theorem route_honest {headers : Headers} {request : Request} :
    Honest H i (fun _ => True) (route H ctx headers request corr) fun _ _ => True := by
  refine .bind (mute_authenticate.honest .true) fun caller => ?_
  cases caller with
  | none => exact .bind (honest_keeps .true fun _ _ => trivial) fun _ => .ret fun _ _ _ => trivial
  | some caller =>
    refine .bind (honest_keeps .true fun _ _ => trivial) fun _ => limited_honest ?_
    cases request with
    | action spec body => exact action_honest
    | status rid => exact requestStatus_honest

theorem handle_honest {headers : Headers} {request : Request} :
    Honest H i (fun _ => True) (handle H ctx headers request) fun _ _ => True :=
  .bind (mute_correlation.honest .true) fun _ => .bind (honest_keeps .true fun _ _ => trivial) fun _ =>
    .bind route_honest fun _ => .bind (honest_keeps .true fun _ _ => trivial) fun _ => .ret fun _ _ _ => trivial

end Gateway

/-! ## The system -/

theorem program_honest (j : Job) : Honest H i (fun _ => True) (program H j) fun _ _ => True := by
  have hdone : ∀ {α : Type} {p : Action α} {Q : α → World → Prop} {f : α → Reply},
      Honest H i (fun _ => True) p Q → Honest H i (fun _ => True) (f <$> p) fun _ _ => True :=
    fun hp => .bind hp fun _ => .ret fun _ _ _ => trivial
  have hmute : ∀ {α : Type} {p : Action α} {f : α → Action Reply}, Mute p → (∀ a, Mute (f a)) →
      Honest H i (fun _ => True) (p >>= f) fun _ _ => True :=
    fun hp hf => (Mute.bind hp hf).honest .true
  cases j with
  | submit => exact hdone Lifecycle.submit_honest
  | resolve => exact hdone Lifecycle.resolveRequest_honest
  | sweep => exact hdone Lifecycle.sweepExpired_honest
  | handle => exact hdone Gateway.handle_honest
  | revokeToken => exact hdone Operations.revokeToken_honest
  | revokeCaller => exact hdone Operations.revokeCaller_honest
  | createCaller => exact hmute Operations.mute_createCaller fun _ => trivial
  | issueToken => exact hmute Operations.mute_issueToken fun _ => trivial
  | rotateToken => exact hmute Operations.mute_rotateToken fun _ => trivial
  | setPolicy => exact hmute Operations.mute_setPolicy fun _ => trivial
  | setEnabledTools => exact hmute Operations.mute_setEnabledTools fun _ => trivial
  | storePolicy => exact hmute Operations.mute_storePolicy fun _ => trivial
  | compareAndSetPolicy => exact hmute (.perform rfl) fun _ => trivial
  | applySettings => exact hmute CallerSettings.mute_apply fun _ => trivial
  | saveCallerTools => exact hmute CallerSettings.mute_saveCallerTools fun _ => trivial
  | prunePayloads => exact hmute (.perform rfl) fun _ => trivial

theorem Reachable.truthful {c : Config} (h : Reachable H c) : c.world.Truthful := by
  obtain ⟨uuid, hrun⟩ := h
  have hinitial : (World.initial uuid).Truthful :=
    ⟨fun _ h => by simp [World.initial] at h, fun _ h => by simp [World.initial] at h⟩
  exact (disciplined H).shown (R := Tells) (I := World.Truthful)
    (fun i j => (program_honest j).conseq (fun _ _ _ => trivial) (fun _ _ _ h => h) fun _ _ _ h => h)
    (fun ω hs hreq h htells => h.exec ω hs hreq htells) (fun e _ h => h.env e)
    (fun f _ h happ => h.offline f happ) (World.Sound.initial uuid) hinitial (fun _ => .initial uuid) hrun

end Toolstack.Broker
