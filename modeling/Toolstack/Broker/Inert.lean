import Toolstack.Interleave.Guarantee
import Toolstack.Broker.Effects

/-! Requests that no run can bring to execution: they have ended, or they lack one of the
bindings that every claim compares. A request that is inert in some database stays so in every
later run of any number of brokers and operators on it. -/

namespace Toolstack.Broker

open Interleave (Guarantee System Prog)

/-- One of the bindings of the request is missing. -/
def Row.Unbound (row : Row) : Prop :=
  row.operationGeneration = none ∨ row.policyBinding = none ∨ row.actionJson = none ∨
    row.requestDigest = none

/-- No claim of the request can be won. -/
def Row.Inert (row : Row) : Prop :=
  row.status.terminal = true ∨ row.Unbound ∧ row.status ≠ .executing

theorem Row.Inert.not_executing {row : Row} (h : row.Inert) : row.status ≠ .executing := by
  rcases h with hterm | ⟨-, hne⟩
  · intro he
    simp [he, Status.terminal] at hterm
  · exact hne

theorem Db.bound_eq_true {H : Hash} {fresh : PyStr} {row : Row} {generation : Text}
    (h : Db.bound H fresh row generation = true) : row.actionJson ≠ none ∧ row.requestDigest ≠ none := by
  unfold bound at h
  split at h
  · rename_i action haction
    refine ⟨by simp [haction], fun hnone => ?_⟩
    simp only at h
    split at h
    · cases h
    · simp [hnone] at h
  · cases h

/-- What every claim compares. -/
theorem Row.Unbound.false {H : Hash} {fresh : PyStr} {row : Row} {generation : Option Text}
    {policy : Text} (h : row.Unbound) (hgeneration : Db.sameGeneration generation row = true)
    (hpolicy : row.policyBinding = some policy)
    (hbound : Db.bound H fresh row (generation.getD []) = true) : False := by
  obtain ⟨haction, hdigest⟩ := Db.bound_eq_true hbound
  rcases h with hnone | hnone | hnone | hnone
  · simp [Db.sameGeneration, hnone] at hgeneration
  · simp [hnone] at hpolicy
  · exact haction hnone
  · exact hdigest hnone

theorem Row.close_inert {now : Time} {s : Status} {e : Option String} {row : Row}
    (hs : s.terminal = true) : (Row.close now s e row).Inert := .inl hs

/-- The requests of `old` are there, and inert. -/
def Db.Inert (old : Nat → Prop) (db : Db) : Prop :=
  ∀ r, old r → ∃ row, db.requests.get? r = some row ∧ row.Inert

namespace Db.Inert
variable {old : Nat → Prop} {db db' : Db}

theorem of_requests (h : db.Inert old) (hreq : db'.requests = db.requests) : db'.Inert old := by
  intro r hr
  rw [hreq]
  exact h r hr

/-- A sweep that leaves every inert row it touches inert. -/
theorem update (h : db.Inert old) {p : Row → Bool} {f : Row → Row} {hf}
    (hreq : db'.requests = db.requests.update p f hf)
    (hkeep : ∀ row, old row.id → p row = true → row.Inert → (f row).Inert) : db'.Inert old := by
  intro r hr
  obtain ⟨row, hrow, hinert⟩ := h r hr
  have hid : row.id = r := Table.get?_key hrow
  refine ⟨if p row then f row else row, by rw [hreq, Table.get?_update, hrow]; rfl, ?_⟩
  split_ifs with hp
  · exact hkeep row (hid ▸ hr) hp hinert
  · exact hinert

theorem sweepStatus (h : db.Inert old) {p : Status → Bool} {s : Status} {e : String} {now : Time}
    (hs : s.terminal = true) : (db.sweepStatus p s e now).Inert old := by
  have hreq : (db.sweepStatus p s e now).requests = db.requests.update (fun r => p r.status)
      (fun r => { Row.close now s (some e) r with resultJson := none }) fun _ => rfl := rfl
  exact h.update hreq fun _ _ _ _ => .inl hs

theorem writePolicy (h : db.Inert old) (now : Time) (c : Nat) (policy : Policy) :
    (db.writePolicy now c policy).Inert old := by
  have hreq : (db.writePolicy now c policy).requests = db.requests.update (Row.waiting c)
      (Row.close now .denied (some "approval_invalidated")) fun _ => rfl := rfl
  exact h.update hreq fun _ _ _ _ => Row.close_inert rfl

theorem prunePayloads (h : db.Inert old) (now : Time) : (db.prunePayloads now).2.Inert old := by
  have hreq : (db.prunePayloads now).2.requests =
      db.requests.update (Db.prunable now) (Row.prune now) fun _ => rfl := rfl
  exact h.update hreq fun row _ hold _ => .inl (Row.prune_status_terminal (Db.prunable_terminal hold))

/-- A change of one request that is not among them, or that ends it. -/
theorem setRequest (h : db.Inert old) {r : Nat} {f : Row → Row} {hf : ∀ r, (f r).id = r.id}
    (hkeep : old r → ∀ row, (f row).status.terminal = true) : (db.setRequest r f hf).Inert old := by
  have hreq : (db.setRequest r f hf).requests = db.requests.update (fun r' => r'.id = r) f hf := rfl
  exact h.update hreq fun row hrow hid _ => .inl (hkeep (of_decide_eq_true hid ▸ hrow) row)

theorem setApprovals (h : db.Inert old) {r : Nat} {p : ApprovalRow → Bool}
    {f : ApprovalRow → ApprovalRow} {hf : ∀ a, (f a).id = a.id} :
    (db.setApprovals r p f hf).Inert old := h.of_requests rfl

theorem setApproval (h : db.Inert old) {id : Nat} {f : ApprovalRow → ApprovalRow}
    {hf : ∀ a, (f a).id = a.id} : (db.setApproval id f hf).Inert old := h.of_requests rfl

end Db.Inert

/-! ## The guarantee -/

variable {H : Hash} {old : Nat → Prop} {i : Nat} {w w' : World} {ω : Oracle} {db : Db}

/-- The calls that could bring a request on without a claim are not about these requests. -/
def Op.Spares (old : Nat → Prop) : Op → Prop
  | .updateRequest r _ | .execute _ _ r _ => ¬old r
  | .http m => ∀ r, m.message.actionFor = some r → ¬old r
  | .finishPending _ status .. => status.terminal = true
  | _ => True

/-- Only other requests are created and claimed. -/
def Op.Answers (old : Nat → Prop) : (o : Op) → o.Ret → Prop
  | .reserveAction .., answer => ∀ row conflict, answer = .ok (row, true, conflict) → ¬old row.id
  | .claimReceived r .., won | .claimApproval r .., won => won = true → ¬old r
  | _, _ => True

/-- The requests are inert in a database, and no call of its log was for one of them. -/
def Spared (old : Nat → Prop) (s : Db × List Call) : Prop :=
  s.1.Inert old ∧ ∀ call ∈ s.2, call.op.Spares old

/-- The database and every snapshot of it. -/
def World.Inert (old : Nat → Prop) (w : World) : Prop :=
  Spared old (w.db, w.log) ∧ ∀ b ∈ w.backups, Spared old b

theorem reserveAction_inert (now : Time) (fresh : PyStr) (caller : Caller) (corr : Text)
    (tool op : String) (arguments reason : Json) (generation : Text) (key : Json) (h : db.Inert old) :
    Op.Answers old (.reserveAction caller corr tool op arguments reason generation key)
        (db.reserveAction H now fresh caller corr tool op arguments reason generation key).1 ∧
      (db.reserveAction H now fresh caller corr tool op arguments reason generation key).2.Inert old := by
  rcases reserveAction_cases H now fresh caller corr tool op arguments reason generation key db with
    ⟨e, hdb⟩ | ⟨k, text, prior, -, -, -, -, -, hdb⟩ | ⟨k, text, bound, -, -, -, -, -, hdb⟩ <;> rw [hdb]
  · exact ⟨fun row conflict he => (by cases he), h⟩
  · exact ⟨fun row conflict he => (by cases he), h⟩
  · have hnew : ¬old db.requests.nextId := fun hold => by
      obtain ⟨row, hrow, -⟩ := h _ hold
      simp [Table.get?_nextId] at hrow
    refine ⟨fun row conflict he => ?_, fun r hr => ?_⟩
    · obtain ⟨rfl, -⟩ := Prod.mk.inj (Except.ok.inj he)
      exact hnew
    · obtain ⟨row, hrow, hinert⟩ := h r hr
      exact ⟨row, by rw [Table.get?_append_of_ne _ _ _ fun he => hnew (he ▸ hr)]; exact hrow, hinert⟩

theorem claimReceived_inert (now : Time) (fresh : PyStr) (r : Nat) (generation : Option Text)
    (caller : Option Caller) (digest : Option Text) (h : db.Inert old) :
    ((db.claimReceived H now fresh r generation caller digest).1 = true → ¬old r) ∧
      (db.claimReceived H now fresh r generation caller digest).2.Inert old := by
  cases hrow : db.request r with
  | none =>
    have hdb : db.claimReceived H now fresh r generation caller digest = (false, db) := by
      simp [Db.claimReceived, hrow]
    rw [hdb]
    exact ⟨fun hwon => absurd hwon Bool.false_ne_true, h⟩
  | some row =>
    rcases claimReceived_cases H now fresh generation caller digest hrow with
      ⟨hvalid, hdb⟩ | ⟨-, hdb⟩ | ⟨-, hdb⟩ <;> rw [hdb]
    · have hnot : ¬old r := fun hold => by
        obtain ⟨row', hrow', hinert⟩ := h r hold
        obtain rfl := Option.some.inj (hrow.symm.trans hrow')
        simp only [Db.receivedValid, Bool.and_eq_true, decide_eq_true_eq] at hvalid
        obtain ⟨⟨⟨⟨⟨⟨hstatus, -⟩, hgeneration⟩, -⟩, hbound⟩, hpolicy⟩, -⟩ := hvalid
        rcases hinert with hterm | ⟨hunbound, -⟩
        · simp [hstatus, Status.terminal] at hterm
        · exact hunbound.false hgeneration hpolicy.symm hbound
      exact ⟨fun _ => hnot, h.setRequest fun hold => absurd hold hnot⟩
    · exact ⟨fun hwon => absurd hwon Bool.false_ne_true, h.setRequest fun _ _ => rfl⟩
    · exact ⟨fun hwon => absurd hwon Bool.false_ne_true, h⟩

theorem claimApproval_inert (fresh : PyStr) (r : Nat) (generation : Option Text)
    (state : SurfaceState) (now : Time) (caller : Option Caller) (h : db.Inert old) :
    ((db.claimApproval H fresh r generation state now caller).1 = true → ¬old r) ∧
      (db.claimApproval H fresh r generation state now caller).2.Inert old := by
  cases hrow : db.request r with
  | none =>
    have hdb : db.claimApproval H fresh r generation state now caller = (false, db) := by
      simp [Db.claimApproval, hrow]
    rw [hdb]
    exact ⟨fun hwon => absurd hwon Bool.false_ne_true, h⟩
  | some row =>
    rcases claimApproval_cases H fresh generation state now caller hrow with
      ⟨app, -, hvalid, hdb⟩ | ⟨hstatus, happ⟩ | ⟨-, hdb⟩
    · have hnot : ¬old r := fun hold => by
        obtain ⟨row', hrow', hinert⟩ := h r hold
        obtain rfl := Option.some.inj (hrow.symm.trans hrow')
        simp only [Db.approvalValid, Bool.and_eq_true, decide_eq_true_eq] at hvalid
        obtain ⟨⟨⟨⟨⟨⟨⟨⟨⟨hstatus, -⟩, -⟩, -⟩, hgeneration⟩, -⟩, -⟩, hbound⟩, hpolicy⟩, -⟩ := hvalid
        rcases hinert with hterm | ⟨hunbound, -⟩
        · simp [hstatus, Status.terminal] at hterm
        · exact hunbound.false hgeneration hpolicy hbound
      rw [hdb]
      exact ⟨fun _ => hnot, (h.setRequest fun hold => absurd hold hnot).setApproval⟩
    · obtain ⟨s, e, as, hs, -, -, hdb⟩ := claimApproval_refused state hrow happ hstatus
      rw [hdb]
      have hterm : s.terminal = true := by rcases hs with rfl | rfl <;> rfl
      exact ⟨fun hwon => absurd hwon Bool.false_ne_true, (h.setRequest fun _ _ => hterm).setApprovals⟩
    · rw [hdb]
      exact ⟨fun hwon => absurd hwon Bool.false_ne_true, h⟩

theorem finishPending_inert (r : Nat) (s : Status) (as : ApprovalStatus) (e : Option String)
    (st : Option SurfaceState) (now : Time) (deadlineOnly : Bool) (hs : s.terminal = true)
    (h : db.Inert old) : (db.finishPending r s as e st now deadlineOnly).2.Inert old := by
  rcases finishPending_eq r s as e st now deadlineOnly db with hdb | ⟨row, a, -, -, -, -, -, hdb⟩ <;>
    rw [hdb]
  · exact h
  · refine (h.setRequest fun _ _ => ?_).setApproval
    rcases finishReason_cases row a now (s, as, e) db with hreason | ⟨hexpired, -⟩
    · simp only [Row.close, hreason, hs]
    · simp only [Row.close, hexpired]
      rfl

/-- A spared request stays inert whatever is called, and no claim of it is won. -/
theorem exec_inert {o : Op} (hw : w.Inert old) (ho : o.Spares old) :
    o.Answers old (w.exec H i o ω).1 ∧ (w.exec H i o ω).2.Inert old := by
  obtain ⟨⟨hdb, hlog⟩, hbackups⟩ := hw
  suffices h : o.Answers old (o.run H ω w).1 ∧ (o.run H ω w).2.Inert old from
    ⟨h.1, ⟨h.2, List.forall_mem_cons.2 ⟨ho, hlog⟩⟩, hbackups⟩
  cases hq : o.quiet with
  | true =>
    have hsame := (Op.quiet_run (H := H) (i := i) (w := w) (ω := ω) hq).1
    refine ⟨?_, hdb.of_requests hsame⟩
    cases o <;> trivial
  | false =>
    cases o with
    | reserveAction => exact reserveAction_inert _ _ _ _ _ _ _ _ _ _ hdb
    | claimReceived => exact claimReceived_inert _ _ _ _ _ _ hdb
    | claimApproval => exact claimApproval_inert _ _ _ _ _ _ hdb
    | finishPending => exact ⟨trivial, finishPending_inert _ _ _ _ _ _ _ ho hdb⟩
    | updateRequest r fields =>
      refine ⟨trivial, ?_⟩
      simp only [Op.run, Db.updateRequest]
      split_ifs
      · exact hdb
      · exact hdb.setRequest fun hold => absurd hold ho
    | createApproval r ref expiresAt digest =>
      refine ⟨trivial, ?_⟩
      simp only [Op.run, Db.createApproval]
      split_ifs
      · exact hdb.of_requests rfl
      · exact hdb
    | setPolicy c policy =>
      refine ⟨trivial, ?_⟩
      simp only [Op.run, Db.setPolicy]
      split_ifs
      · exact hdb.writePolicy _ _ _
      · exact hdb
    | compareAndSetPolicy c before after operator =>
      refine ⟨trivial, ?_⟩
      rcases compareAndSetPolicy_cases ω.now ω.text c before after operator w.db with
        hcas | ⟨-, row, e, -, -, hcas⟩ <;> simp only [Op.run, hcas]
      · exact hdb
      · exact (hdb.writePolicy ω.now c after).of_requests rfl
    | prunePayloads => exact ⟨trivial, hdb.prunePayloads _⟩
    | surfaceOpen | execute | http => exact ⟨trivial, hdb⟩
    | _ => cases hq

/-! ## The programs -/

/-- The program advances only requests it has reserved or claimed. -/
abbrev Sparing {α : Type} (old : Nat → Prop) (p : Action α) : Prop :=
  p.When (Op.Answers old) (Op.Spares old)

/-- A requirement that every world meets is met by one without requests. -/
theorem Op.spares_of_requires {o : Op} (h : ∀ i w, Requires i o w) : o.Spares old := by
  have hnone : ∀ {j r}, ¬((World.initial []).receipt r).Owned j := fun ⟨⟨row, hrow, _⟩, _⟩ => by
    simp [World.receipt, receiptOf, World.initial] at hrow
  cases o with
  | updateRequest r f => exact absurd (h 0 (World.initial [])).1 hnone
  | execute t a r name => exact absurd (h 0 (World.initial [])).1 hnone
  | http m => exact fun r hr => absurd (h 0 (World.initial []) r hr).1 hnone
  | finishPending r s =>
    rcases (h 0 (World.initial [])).1 with rfl | rfl <;> rfl
  | _ => trivial

section Programs
variable {α : Type} {ctx : Context} {caller : Caller} {tool op : String} {r : Nat} {corr : Text}

theorem Free.sparing {p : Action α} (h : Free p) : Sparing old p := by
  induction p with
  | ret a => trivial
  | raise e => trivial
  | call o k ih => exact ⟨Op.spares_of_requires h.1, fun answer _ => ih answer (h.2 answer)⟩

theorem sparing_quiet {p : Action α} (h : Quiet p) : Sparing old p := (Free.of_quiet h).sparing

theorem sparing_perform {o : Op} (h : o.quiet = true) : Sparing old (perform o) :=
  sparing_quiet (.perform h)

namespace Runtime

variable {toolOp : ToolOp} {arguments : Json} {name : Option String}

theorem sparing_http {m : HttpRequest} (hr : ¬old r)
    (hm : m.message.actionFor = none ∨ m.message.actionFor = some r) :
    Sparing old (perform (.http m)) := by
  refine .perform fun r' hr' => ?_
  rcases hm with hnone | hsome
  · simp [hnone] at hr'
  · exact Option.some.inj (hsome.symm.trans hr') ▸ hr

theorem quiet_loadBody (a : HttpAnswer) : Quiet (loadBody a) := by
  rcases loadBody_cases a with ⟨v, -, hload⟩ | ⟨e, -, hload⟩ <;> rw [hload] <;> trivial

theorem quiet_envelope (parsed : Json) : Quiet (envelope parsed) := by
  rcases envelope_cases parsed with hret | ⟨e, -, hraise⟩
  · rw [hret]
    trivial
  · rw [hraise]
    trivial

theorem quiet_mcpReply (m : HttpRequest) (n : Int) (x : Exchange) : Quiet (mcpReply m n x) := by
  rcases mcpReply_cases m n x with ⟨kvs, session, -, hreply⟩ | ⟨e, -, hreply⟩ <;> rw [hreply] <;> trivial

theorem sparing_executeApi (hr : ¬old r) : Sparing old (executeApi toolOp arguments r name) := by
  refine .bind (sparing_quiet quiet_toolSecret) fun secret => .bind (sparing_http hr (.inr rfl))
    fun x => ?_
  cases x with
  | refused | unreachable | raised => trivial
  | answered a =>
    simp only
    split_ifs
    · exact sparing_quiet (quiet_loadBody a)
    · trivial

theorem sparing_executeRest (hr : ¬old r) : Sparing old (executeRest toolOp arguments r name) := by
  refine .bind (sparing_quiet quiet_toolSecret) fun secret => .bind (sparing_http hr (.inr rfl))
    fun x => ?_
  cases x with
  | refused | unreachable | raised => trivial
  | answered a =>
    exact .bind (sparing_quiet (quiet_loadBody a)) fun v => sparing_quiet (quiet_envelope v)

theorem sparing_executeMcp (hr : ¬old r) : Sparing old (executeMcp toolOp arguments r name) := by
  refine .bind (sparing_quiet quiet_toolSecret) fun secret =>
    .bind (sparing_quiet (quiet_mcpRequest rfl)) fun init => ?_
  obtain ⟨initResult, session⟩ := init
  cases initResult with
  | obj kvs =>
    refine .bind (sparing_quiet (quiet_mcpNotify rfl)) fun _ => .bind (.bind (sparing_http hr (.inr rfl))
      fun x => sparing_quiet (quiet_mcpReply _ 2 x)) fun v => ?_
    obtain ⟨v, session'⟩ := v
    cases v <;> trivial
  | _ => trivial

theorem sparing_execute (hr : ¬old r) : Sparing old (execute toolOp arguments r name) := by
  refine .bind (.perform hr) fun _ => .bind ?_ fun v => .bind (sparing_perform rfl) fun late => ?_
  · unfold transport
    cases toolOp.type with
    | api => exact sparing_executeApi hr
    | mcp => exact sparing_executeMcp hr
    | rest => exact sparing_executeRest hr
  · cases late <;> trivial

end Runtime

namespace Lifecycle

variable {req : Row} {now : Time} {c : Option Caller}

theorem sparing_audit {component eventType outcome : String} {rid : Option Nat}
    {details : List (String × Json)} :
    Sparing old (audit component eventType outcome corr rid details) := sparing_quiet quiet_audit

theorem sparing_executionFailed {e : Exn} (hr : ¬old r) :
    Sparing old (executionFailed r tool op corr e) := by
  unfold executionFailed
  simp only
  split_ifs <;> exact .bind (.perform hr) fun _ => .bind sparing_audit fun _ => trivial

theorem sparing_executeRequest {arguments : Json} {name : Option String} {claimedOp : Option ToolOp}
    (hr : ¬old r) : Sparing old (executeRequest r tool op arguments corr name claimedOp) := by
  refine .bind (sparing_perform rfl) fun req => ?_
  cases req with
  | none => trivial
  | some req =>
    cases claimedOp with
    | none => trivial
    | some toolOp =>
      simp only
      split_ifs
      · trivial
      · refine .bind sparing_audit fun _ => .bind (Runtime.sparing_execute hr).attempt fun result => ?_
        cases result with
        | error e => exact sparing_executionFailed hr
        | ok v => exact .bind (.perform hr) fun _ => .bind sparing_audit fun _ => trivial

theorem sparing_openApproval {name : String} {toolOp : ToolOp} {arguments : Json} (hr : ¬old r) :
    Sparing old (openApproval ctx r name tool op toolOp arguments corr) := by
  unfold openApproval
  split_ifs
  · exact .bind (.perform hr) fun _ => .bind sparing_audit fun _ => trivial
  · refine .bind (sparing_perform rfl) fun row => .bind free_theRow.sparing fun req => ?_
    cases ApprovalSummary.summarize arguments toolOp.approvalFields with
    | none => trivial
    | some details =>
      refine .bind (sparing_perform rfl) fun installation => .bind (.perform trivial) fun answer => ?_
      cases answer with
      | error e => exact .bind (.perform hr) fun _ => .bind sparing_audit fun _ => trivial
      | ok ref =>
        refine .bind (sparing_perform rfl) fun time => .bind (.perform trivial) fun created => ?_
        cases created with
        | error e => trivial
        | ok n => exact .bind (.perform hr) fun _ => .bind sparing_audit fun _ => trivial

/-- The envelope check raises, ends the request, or lets the rest of the submit run. -/
theorem sparing_checked {toolOp : ToolOp} {arguments : List (PyStr × Json)} {rest : Action Outcome}
    (hr : ¬old r) (hrest : Sparing old rest) : Sparing old
      (match if toolOp.type = .rest then validateRestArguments ctx.restBodyMax toolOp arguments
          else .ok none with
        | .error e => Interleave.Prog.raise e
        | .ok (some problem) => do
          updateRequest r { status := some .invalid, error := some (some "invalid_envelope")
                            argumentsJson := some none }
          return { status := .invalid, requestId := r, error := some "invalid_envelope"
                   detail := some problem }
        | .ok none => rest) := by
  split
  · trivial
  · exact .bind (.perform hr) fun _ => trivial
  · exact hrest

theorem sparing_advanceReserved {toolOp : ToolOp} {arguments : List (PyStr × Json)} {reason : Json}
    {hasKey : Bool} (hr : ¬old req.id) :
    Sparing old (advanceReserved ctx caller tool op toolOp arguments corr reason hasKey req) := by
  refine .bind sparing_audit fun _ => .bind (sparing_perform rfl) fun policy => ?_
  cases policy.decide tool op with
  | deny => exact .bind (.perform hr) fun _ => .bind sparing_audit fun _ => trivial
  | review => exact sparing_checked hr (.bind sparing_audit fun _ => sparing_openApproval hr)
  | allow =>
    refine sparing_checked hr (.bind sparing_audit fun _ => .bind (sparing_perform rfl)
      fun currentOp => .bind (.perform trivial) fun claimed => ?_)
    cases claimed with
    | true => exact sparing_executeRequest hr
    | false => exact .bind (sparing_perform rfl) fun row => .bind free_theRow.sparing fun _ => trivial

/-- The answer of the reservation decides whose request is advanced. -/
theorem sparing_afterReservation {toolOp : Option ToolOp} {arguments : List (PyStr × Json)}
    {reason key : Json} {answer : Except Exn (Row × Bool × Bool)}
    (hnew : ∀ row conflict, answer = .ok (row, true, conflict) → ¬old row.id) :
    Sparing old (afterReservation ctx caller tool op toolOp arguments corr reason key answer) := by
  cases answer with
  | error e => cases e <;> trivial
  | ok res =>
    obtain ⟨row, created, conflict⟩ := res
    unfold afterReservation
    simp only
    split_ifs with hconflict hcreated
    · trivial
    · exact .bind (sparing_perform rfl) fun _ => trivial
    · obtain rfl : created = true := by simpa using hcreated
      cases toolOp with
      | none => exact .bind (.perform (hnew row conflict rfl)) fun _ => trivial
      | some toolOp => exact sparing_advanceReserved (hnew row conflict rfl)

theorem sparing_submitValid {arguments reason key : Json} :
    Sparing old (submitValid ctx caller tool op arguments corr reason key) := by
  refine .bind (Free.of_sweeps sweeps_sweepExpired).sparing fun _ =>
    .bind (sparing_perform rfl) fun toolOp => ?_
  split_ifs
  · exact .bind sparing_audit fun _ => trivial
  · split
    · exact .perform_bind trivial fun answer hnew => sparing_afterReservation hnew
    · exact .perform_bind trivial fun answer hnew => sparing_afterReservation hnew
    · trivial

theorem sparing_submit {arguments reason key : Json} :
    Sparing old (submit ctx caller tool op arguments corr reason key) := by
  unfold submit
  split
  · trivial
  · exact .bind sparing_submitValid fun _ => trivial

/-! ### Polls -/

theorem sparing_resolveApproved {state : SurfaceState} :
    Sparing old (resolveApproved ctx req state now c) := by
  refine .bind (sparing_perform rfl) fun toolOp => .bind free_laterThan.sparing fun claimTime =>
    .perform_bind trivial fun (claimed : Bool) hwon => ?_
  cases claimed with
  | false => exact free_currentOutcome.sparing
  | true =>
    exact .bind sparing_audit fun _ => .bind (sparing_perform rfl) fun _ =>
      .bind (sparing_executeRequest (hwon rfl)) fun _ => trivial

theorem sparing_resolveState {state : SurfaceState} :
    Sparing old (resolveState ctx req state now c) := by
  unfold resolveState
  cases state.outcome with
  | approved => exact .bind sparing_audit fun _ => sparing_resolveApproved
  | rejected => exact .bind sparing_audit fun _ => free_resolveRejected.sparing
  | expired => exact (free_resolveEnded (by decide)).sparing
  | cancelled => exact (free_resolveEnded (by decide)).sparing
  | pending => exact free_currentOutcome.sparing

theorem quiet_pollSurface {ref : PyStr} : Quiet (pollSurface ctx ref) := by
  unfold pollSurface
  split_ifs
  · trivial
  · exact .bind (.perform rfl) fun polled => by cases polled <;> trivial

theorem sparing_resolvePending {approval : ApprovalRow} :
    Sparing old (resolvePending ctx req approval now c) := by
  unfold resolvePending
  split_ifs
  · exact free_resolveExpired.sparing
  · refine .bind (sparing_quiet quiet_pollSurface) fun state => .bind free_laterThan.sparing
      fun afterPoll => .bind (sparing_perform rfl) fun currentReq => .bind (sparing_perform rfl)
        fun currentApproval => .bind free_theRow.sparing fun currentReq => ?_
    split_ifs
    · trivial
    · refine .bind (by cases currentApproval <;> trivial) fun currentApproval => ?_
      split_ifs
      · trivial
      · exact free_resolveExpired.sparing
      · exact sparing_resolveState

theorem sparing_resolveRequest {now : Option Time} :
    Sparing old (resolveRequest ctx r now c) := by
  refine .bind (sparing_quiet quiet_nowOr) fun now => .bind (sparing_perform rfl) fun req => ?_
  cases req with
  | none => trivial
  | some req =>
    refine .bind (sparing_perform rfl) fun approval => ?_
    split_ifs
    · trivial
    · cases approval with
      | none => trivial
      | some approval => exact sparing_resolvePending

end Lifecycle

namespace Gateway

open Lifecycle (sparing_audit)

theorem sparing_requestStatus {rid : Text} : Sparing old (requestStatus ctx caller rid corr) := by
  unfold requestStatus
  split_ifs
  · trivial
  · refine .bind (sparing_quiet quiet_requestNumber) fun n => .bind (sparing_perform rfl) fun req => ?_
    cases req.filter fun req => req.callerId = caller.id with
    | none => trivial
    | some req =>
      refine .bind (sparing_perform rfl) fun allowed => ?_
      split_ifs with hnone hpending
      · trivial
      all_goals
        refine .bind Lifecycle.sparing_resolveRequest fun outcome => .bind (sparing_perform rfl)
          fun allowed => ?_
        split_ifs
        · trivial
      · exact .bind (sparing_quiet quiet_auditRequestTerminal) fun _ => trivial
      · trivial

theorem sparing_action {spec : Text} {body : Json} {key : Option PyStr} :
    Sparing old (action ctx caller spec body corr key) := by
  unfold action
  split
  · trivial
  · split
    · exact .bind Lifecycle.sparing_submit fun _ =>
        .bind (sparing_quiet quiet_auditRequestTerminal) fun _ => trivial
    · trivial
  · trivial

/-- The rate limiter refuses the request or lets it through. -/
theorem sparing_limited {rest : Action Response} (hrest : Sparing old rest) : Sparing old (do
    let allowed : Bool ← if ctx.rateLimited then perform (.rateAllow caller.id) else pure true
    if !allowed then return refuse 429 corr (error "rate_limited") else rest) := by
  have hpassed : ∀ allowed : Bool, Sparing old
      (if !allowed then return refuse 429 corr (error "rate_limited") else rest) := by
    intro allowed
    cases allowed with
    | false => trivial
    | true => exact hrest
  cases ctx.rateLimited with
  | false => exact hpassed true
  | true => exact .bind (sparing_perform rfl) hpassed

theorem sparing_handle {headers : Headers} {request : Request} :
    Sparing old (handle H ctx headers request) := by
  refine .bind (sparing_quiet quiet_correlation) fun corr => .bind sparing_audit fun _ =>
    .bind ?_ fun _ => .bind sparing_audit fun _ => trivial
  refine .bind (sparing_quiet quiet_authenticate) fun caller => ?_
  cases caller with
  | none => exact .bind sparing_audit fun _ => trivial
  | some caller =>
    refine .bind sparing_audit fun _ => sparing_limited ?_
    cases request with
    | action spec body => exact sparing_action
    | status rid => exact sparing_requestStatus

end Gateway

end Programs

theorem sparing_program (H : Hash) (j : Job) : Sparing old (program H j) := by
  cases j with
  | submit => exact Lifecycle.sparing_submit.map
  | resolve => exact Lifecycle.sparing_resolveRequest.map
  | sweep => exact (Free.of_sweeps Lifecycle.sweeps_sweepExpired).sparing.map
  | handle => exact Gateway.sparing_handle.map
  | createCaller => exact Operations.free_createCaller.sparing.map
  | issueToken => exact Operations.free_issueToken.sparing.map
  | rotateToken => exact Operations.free_rotateToken.sparing.map
  | revokeToken => exact Operations.free_revokeToken.sparing.map
  | revokeCaller => exact Operations.free_revokeCaller.sparing.map
  | setPolicy => exact Operations.free_setPolicy.sparing.bind fun _ => trivial
  | setEnabledTools => exact Operations.free_setEnabledTools.sparing.bind fun _ => trivial
  | storePolicy => exact Operations.free_storePolicy.sparing.bind fun _ => trivial
  | compareAndSetPolicy => exact .map (.perform trivial)
  | applySettings => exact CallerSettings.free_apply.sparing.bind fun _ => trivial
  | saveCallerTools => exact CallerSettings.free_saveCallerTools.sparing.bind fun _ => trivial
  | prunePayloads => exact .map (.perform trivial)

/-! ## Every later run -/

theorem EnvMove.apply_inert (e : EnvMove) (h : w.Inert old) : (e.apply w).Inert old := by
  cases e with
  | reload | edit => exact h
  | backup =>
    refine ⟨h.1, fun b hb => ?_⟩
    rcases List.mem_append.1 hb with hmem | hmem
    · exact h.2 b hmem
    · obtain rfl := List.mem_singleton.1 hmem
      exact h.1

theorem Db.Inert.sanitize {now : Time} {uuid : Text} (h : db.Inert old) :
    (db.sanitize now uuid).Inert old := by
  have hswept : ((db.sweepStatus (fun s => s = .pendingApproval) .expired "restore_cancelled"
      now).sweepStatus Status.unfinished .unknown "restore_unknown" now).Inert old :=
    (h.sweepStatus rfl).sweepStatus rfl
  exact hswept.of_requests rfl

theorem OfflineMove.apply_inert (f : OfflineMove) (h : w.Inert old) (hw : f.apply w = some w') :
    w'.Inert old := by
  cases f with
  | reconcile now =>
    obtain rfl := Option.some.inj hw
    exact ⟨⟨h.1.1.sweepStatus rfl, h.1.2⟩, h.2⟩
  | restore n now uuid =>
    obtain ⟨b, hb, rfl⟩ := Option.map_eq_some_iff.1 hw
    obtain ⟨hinert, hlog⟩ := h.2 b (List.mem_of_getElem? hb)
    exact ⟨⟨hinert.sanitize, hlog⟩, h.2⟩

/-- No claim of the requests in `old` is ever won. -/
def inertness (H : Hash) (old : Nat → Prop) : Guarantee (broker H) where
  answers := Op.Answers old
  permits := Op.Spares old
  inv := World.Inert old
  exec := exec_inert
  env := fun {e _} => e.apply_inert
  offline := fun {f _ _} => f.apply_inert

theorem Spared.executions {s : Db × List Call} {r : Nat} (h : Spared old s) (hr : old r) :
    executions r s.2 = [] := by
  refine List.filterMap_eq_nil_iff.2 fun call hcall => ?_
  have hspares := h.2 call hcall
  split
  · split_ifs with heq
    · exact absurd (heq ▸ hr) hspares
    · rfl
  · rfl

theorem Spared.actionRequests {s : Db × List Call} {r : Nat} (h : Spared old s) (hr : old r) :
    actionRequests r s.2 = [] := by
  refine List.filterMap_eq_nil_iff.2 fun call hcall => ?_
  have hspares := h.2 call hcall
  split
  · split_ifs with heq
    · exact absurd hr (hspares r heq)
    · rfl
  · rfl

/-- In any later run the requests stay inert, and nothing is done for them. -/
theorem World.Inert.steps {ok : Config → Move → Prop} {c : Config} (h : w.Inert old)
    (hrun : (broker H).Steps ok ⟨w, []⟩ c) : c.world.Inert old :=
  (Guarantee.Holds.steps (sparing_program H) (Guarantee.Holds.initial (G := inertness H old) h) hrun).inv

/-- The request is not being executed, and nothing was ever done for it. -/
structure Unexecuted (c : Config) (r : Nat) : Prop where
  status : ∃ row, c.world.db.requests.get? r = some row ∧ row.status ≠ .executing
  executions : executions r c.world.log = []
  actionRequests : actionRequests r c.world.log = []

theorem World.Inert.unexecuted {ok : Config → Move → Prop} {c : Config} (h : w.Inert old)
    (hrun : (broker H).Steps ok ⟨w, []⟩ c) {r : Nat} (hr : old r) : Unexecuted c r := by
  have hspared := (h.steps hrun).1
  obtain ⟨row, hrow, hinert⟩ := hspared.1 r hr
  exact ⟨⟨row, hrow, hinert.not_executing⟩, hspared.executions hr, hspared.actionRequests hr⟩

/-- Nothing was done yet on this database. -/
theorem Db.Inert.world (h : w.db.Inert old) (hlog : w.log = []) (hbackups : w.backups = []) :
    w.Inert old :=
  ⟨⟨h, by simp [hlog]⟩, by simp [hbackups]⟩

end Toolstack.Broker
