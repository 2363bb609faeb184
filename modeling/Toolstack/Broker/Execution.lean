import Toolstack.Broker.Specs

/-! A claimed request is executed: one invocation of the runtime, at most one action message,
and an end that tells what came of it. -/

namespace Toolstack.Broker

open Interleave (Discipline Prog)
open Interleave.Discipline (Triple)

variable {H : Hash} {i r : Nat} {w : World} {b : Bool} {row : Row}

/-! ## Programs without effects -/

theorem Quiet.perform {o : Op} (h : o.quiet = true) : Quiet (perform o) := ⟨h, fun _ => trivial⟩

theorem Quiet.bind {α β : Type} {p : Action α} {f : α → Action β} (hp : Quiet p)
    (hf : ∀ a, Quiet (f a)) : Quiet (p >>= f) := Prog.All.bind hp hf

theorem quiet_audit {component eventType outcome : String} {corr : Text} {rid : Option Nat}
    {details : List (String × Json)} :
    Quiet (Lifecycle.audit component eventType outcome corr rid details) := .perform rfl

namespace Runtime

theorem quiet_toolSecret {tool : String} : Quiet (toolSecret tool) :=
  .bind (.perform rfl) fun secret => by cases secret <;> trivial

theorem loadBody_cases (a : HttpAnswer) :
    (∃ v, a.body = .ok (.ok v) ∧ loadBody a = .ret v) ∨
      ∃ e, e ≠ .notDispatched ∧ loadBody a = .raise e := by
  unfold loadBody
  cases h : a.body with
  | error e => exact .inr ⟨e, e.property, rfl⟩
  | ok body =>
    cases body with
    | ok v => exact .inl ⟨v, rfl, rfl⟩
    | error e =>
      refine .inr ⟨_, ?_, rfl⟩
      split_ifs
      · decide
      · exact e.property

theorem envelope_cases (parsed : Json) :
    envelope parsed = .ret parsed ∨ ∃ e, e ≠ .notDispatched ∧ envelope parsed = .raise e := by
  unfold envelope
  split
  · split_ifs
    · exact .inl rfl
    · split
      · split_ifs <;> exact .inr ⟨_, by decide, rfl⟩
      · exact .inr ⟨_, by decide, rfl⟩
  · exact .inr ⟨_, by decide, rfl⟩

/-- The message that was read, or an exception of the transport. -/
theorem readMessage_cases (a : HttpAnswer) (n : Int) :
    (∃ kvs, (if a.eventStream then (readSse a n).toOption
        else match a.body with
          | .ok (.ok (.obj kvs)) => some kvs
          | _ => none) = some kvs ∧ readMessage a n = .ret kvs) ∨
      ∃ e, e ≠ .notDispatched ∧ readMessage a n = .raise e := by
  unfold readMessage
  split_ifs with hstream
  · cases hsse : readSse a n with
    | ok kvs => exact .inl ⟨kvs, rfl, rfl⟩
    | error e => exact .inr ⟨e, e.property, rfl⟩
  · rcases loadBody_cases a with ⟨v, hbody, hload⟩ | ⟨e, he, hload⟩
    · rw [hload, hbody]
      cases v with
      | obj kvs => exact .inl ⟨kvs, rfl, rfl⟩
      | _ => exact .inr ⟨.runtimeError, by decide, rfl⟩
    · exact .inr ⟨e, he, by rw [hload]; rfl⟩

theorem rpcError_ne (err : Json) : rpcError err ≠ .notDispatched := by
  unfold rpcError
  split
  · decide
  · split_ifs <;> decide

/-! ## Transports -/

/-- The action was sent once, and `v` is what the tool answered. -/
def Answered (i r : Nat) (row : Row) (b : Bool) (t : ToolOp) (a v : Json) (w : World) : Prop :=
  ∃ m x, (w.receipt r).Executing i row (.sent i b t a m x) ∧ resultOf m.message x = some v

/-- The execution raised `e`. -/
def Broken (i r : Nat) (row : Row) (e : Exn) (w : World) : Prop :=
  ∃ st : Stage, (w.receipt r).Executing i row st ∧ (e = .notDispatched → st.delivered = false)

theorem Broken.of_ne {e : Exn} {st : Stage} (h : (w.receipt r).Executing i row st)
    (he : e ≠ .notDispatched) : Broken i r row e w := ⟨st, h, fun heq => absurd heq he⟩

theorem executed_of_quiet {α : Type} {p : Action α} (h : Quiet p) {t : ToolOp} {a : Json} :
    (discipline H).Triple i (fun w => (w.receipt r).Executing i row (.executed i b t a)) p
      (fun _ w => (w.receipt r).Executing i row (.executed i b t a)) (Broken i r row) :=
  (h.triple Kept.executing).conseq (fun _ _ h => h) (fun _ _ _ h => h)
    fun _ _ _ h => ⟨_, h, fun _ => rfl⟩

/-- One action message, sent by the thread that executes the request. -/
theorem triple_send {E : Exn → World → Prop} {t : ToolOp} {a : Json} {m : HttpRequest}
    (hfor : m.message.actionFor = some r) :
    (discipline H).Triple i (fun w => (w.receipt r).Executing i row (.executed i b t a))
      (perform (.http m)) (fun x w => (w.receipt r).Executing i row (.sent i b t a m x)) E := by
  refine .perform Kept.executing.stable (fun w _ hw r' hr' => ?_) fun w ω _ hw => ?_
  · obtain rfl := Option.some.inj (hfor.symm.trans hr')
    exact ⟨hw.owned, ⟨row, hw.present, hw.status⟩, b, t, a, hw.stage⟩
  · have hact : Call.act ⟨i, .http m, ω.exchange⟩ = some (r, .sent m ω.exchange) := by
      simp [Call.act, hfor]
    have hrec := receipt_event (H := H) (w := w) (ω := ω) (o := .http m) rfl hact
    change ((w.exec H i (.http m) ω).2.receipt r).Executing i row (.sent i b t a m ω.exchange)
    rw [hrec]
    exact ⟨⟨hw.owned.1, hw.owned.2⟩, hw.present, hw.status, hw.settled,
      by rw [effects_cons rfl, hw.stage]; rfl⟩

theorem executeApi_spec {t : ToolOp} {a : Json} {name : Option String} :
    (discipline H).Triple i (fun w => (w.receipt r).Executing i row (.executed i b t a))
      (executeApi t a r name) (Answered i r row b t a) (Broken i r row) := by
  refine .bind (executed_of_quiet quiet_toolSecret) fun secret => ?_
  refine .bind (triple_send rfl) fun x => ?_
  cases x with
  | refused => exact .raise fun w _ h => ⟨_, h, fun _ => rfl⟩
  | unreachable d => exact .raise fun w _ h => .of_ne h (by decide)
  | raised d e => exact .raise fun w _ h => .of_ne h e.property
  | answered ans =>
    simp only
    split_ifs with hsucc
    · rcases loadBody_cases ans with ⟨v, hbody, hload⟩ | ⟨e, he, hload⟩
      · rw [hload]
        exact .ret fun w _ h => ⟨_, _, h, by simp [resultOf, hbody]⟩
      · rw [hload]
        exact .raise fun w _ h => .of_ne h he
    · exact .raise fun w _ h => .of_ne h (by decide)

theorem executeRest_spec {t : ToolOp} {a : Json} {name : Option String} :
    (discipline H).Triple i (fun w => (w.receipt r).Executing i row (.executed i b t a))
      (executeRest t a r name) (Answered i r row b t a) (Broken i r row) := by
  refine .bind (executed_of_quiet quiet_toolSecret) fun secret => ?_
  refine .bind (triple_send rfl) fun x => ?_
  cases x with
  | refused => exact .raise fun w _ h => ⟨_, h, fun _ => rfl⟩
  | unreachable d => exact .raise fun w _ h => .of_ne h (by decide)
  | raised d e => exact .raise fun w _ h => .of_ne h e.property
  | answered ans =>
    rcases loadBody_cases ans with ⟨v, hbody, hload⟩ | ⟨e, he, hload⟩
    · simp only [hload, Prog.ret_bind]
      rcases envelope_cases v with henv | ⟨e, he, henv⟩
      · rw [henv]
        exact .ret fun w _ h => ⟨_, _, h, by simp [resultOf, hbody]⟩
      · rw [henv]
        exact .raise fun w _ h => .of_ne h he
    · simp only [hload, Prog.raise_bind]
      exact .raise fun w _ h => .of_ne h he

theorem mcpReply_cases (m : HttpRequest) (n : Int) (x : Exchange) :
    (∃ kvs session, messageOf n x = some kvs ∧
      mcpReply m n x = .ret ((Json.find? kvs (py "result")).getD .null, session)) ∨
      ∃ e, e ≠ .notDispatched ∧ mcpReply m n x = .raise e := by
  cases x with
  | refused => exact .inr ⟨_, by decide, rfl⟩
  | unreachable d => exact .inr ⟨_, by decide, rfl⟩
  | raised d e => exact .inr ⟨_, e.property, rfl⟩
  | answered a =>
    cases hsucc : success a with
    | false => exact .inr ⟨.runtimeError, by decide, by simp [mcpReply, hsucc]⟩
    | true =>
      rcases readMessage_cases a n with ⟨kvs, hmsg, hread⟩ | ⟨e, he, hread⟩
      · simp only [mcpReply, hsucc, hread, Prog.ret_bind, Bool.not_true, Bool.false_eq_true, if_false]
        cases hto : responseTo n kvs with
        | false => exact .inr ⟨.runtimeError, by decide, rfl⟩
        | true =>
          cases herr : Json.find? kvs (py "error") with
          | some err => exact .inr ⟨rpcError err, rpcError_ne err, rfl⟩
          | none => exact .inl ⟨kvs, _, hmsg, rfl⟩
      · exact .inr ⟨e, he, by simp [mcpReply, hsucc, hread]⟩

/-- Both handshake messages are about no request. -/
theorem quiet_mcpRequest {m : HttpRequest} {n : Int} (hfor : m.message.actionFor = none) :
    Quiet (mcpRequest m n) := by
  refine .bind (.perform (by simp [Op.quiet, hfor])) fun x => ?_
  rcases mcpReply_cases m n x with ⟨kvs, session, -, hreply⟩ | ⟨e, -, hreply⟩ <;>
  · rw [hreply]
    trivial

theorem quiet_mcpNotify {m : HttpRequest} (hfor : m.message.actionFor = none) :
    Quiet (mcpNotify m) := by
  refine .bind (.perform (by simp [Op.quiet, hfor])) fun x => ?_
  cases x with
  | refused | unreachable | raised => trivial
  | answered a =>
    simp only
    split_ifs
    · trivial
    · cases a.body <;> trivial

theorem executeMcp_spec {t : ToolOp} {a : Json} {name : Option String} :
    (discipline H).Triple i (fun w => (w.receipt r).Executing i row (.executed i b t a))
      (executeMcp t a r name) (Answered i r row b t a) (Broken i r row) := by
  refine .bind (executed_of_quiet quiet_toolSecret) fun secret => ?_
  refine .bind (executed_of_quiet (quiet_mcpRequest rfl)) fun init => ?_
  obtain ⟨initResult, session⟩ := init
  cases initResult with
  | obj kvs =>
    refine .bind (executed_of_quiet (quiet_mcpNotify rfl)) fun _ => ?_
    refine .bind (Q := fun v w => Answered i r row b t a v.1 w) ?_ fun v => ?_
    · refine .bind (triple_send rfl) fun x => ?_
      rcases mcpReply_cases _ 2 x with ⟨kvs, session, hmsg, hreply⟩ | ⟨e, he, hreply⟩
      · rw [hreply]
        exact .ret fun w _ h => ⟨_, _, h, by simp only [resultOf, hmsg, Option.map_some]⟩
      · rw [hreply]
        exact .raise fun w _ h => .of_ne h he
    · obtain ⟨v, session'⟩ := v
      cases v with
      | null =>
        refine .raise fun w _ h => ?_
        obtain ⟨m, x, hexec, -⟩ := h
        exact .of_ne hexec (by decide)
      | _ => exact .ret fun _ _ h => h
  | _ => exact .raise fun w _ h => .of_ne h (by decide)

theorem transport_spec {t : ToolOp} {a : Json} {name : Option String} :
    (discipline H).Triple i (fun w => (w.receipt r).Executing i row (.executed i b t a))
      (transport t a r name) (Answered i r row b t a) (Broken i r row) := by
  unfold transport
  cases t.type with
  | api => exact executeApi_spec
  | mcp => exact executeMcp_spec
  | rest => exact executeRest_spec

theorem execute_spec {t : ToolOp} {a : Json} {name : Option String} :
    (discipline H).Triple i
      (fun w => (w.receipt r).Claimed i row b (some t) a) (execute t a r name) (Answered i r row b t a) (Broken i r row) := by
  refine .bind (Q := fun _ w => (w.receipt r).Executing i row (.executed i b t a))
    (.perform Kept.claimed.stable (fun w _ hw => ?_) fun w ω _ hw => ?_) fun _ => ?_
  · exact ⟨hw.executing.owned, ⟨row, hw.executing.present, hw.executing.status⟩,
      ⟨b, hw.executing.stage⟩, hw.handed t rfl⟩
  · have hrec := receipt_event (H := H) (i := i) (w := w) (ω := ω) (o := .execute t a r name) rfl rfl
    change ((w.exec H i (.execute t a r name) ω).2.receipt r).Executing i row _
    rw [hrec]
    exact ⟨⟨hw.executing.owned.1, hw.executing.owned.2⟩, hw.executing.present,
      hw.executing.status, hw.executing.settled, by rw [effects_cons rfl, hw.executing.stage]; rfl⟩
  · refine .bind transport_spec fun v => ?_
    have hkept : Kept H i (Answered i r row b t a v) :=
      .exists' fun m => .exists' fun x => Kept.executing.and (.const _)
    refine .bind (triple_quiet hkept rfl) fun late => ?_
    cases late with
    | true =>
      refine .raise fun w _ h => ?_
      obtain ⟨m, x, hexec, -⟩ := h
      exact .of_ne hexec (by decide)
    | false => exact .ret fun _ _ h => h

end Runtime

/-! ## The end of an execution -/

namespace Lifecycle

theorem executionFailed_spec {tool op : String} {corr : Text} {e : Exn} :
    (discipline H).Triple i (Runtime.Broken i r row e) (executionFailed r tool op corr e)
      (fun _ w => (w.receipt r).Advanced) (fun _ _ => False) := by
  have hkept : Kept H i (Runtime.Broken i r row e) :=
    .exists' fun st => Kept.executing.and (.const _)
  unfold executionFailed
  simp only
  split_ifs with he
  · refine .bind (triple_ending (s := .failed) hkept ⟨rfl, rfl, rfl, rfl, rfl⟩ fun w hs hw => ?_)
      fun _ => .bind (triple_quiet Kept.advanced rfl) fun _ => .ret fun _ _ h => h
    obtain ⟨st, hexec, hdel⟩ := hw
    exact hexec.ends hs ⟨rfl, rfl, rfl, rfl, rfl⟩
      (fun row' hst _ => by simp [Stage.Fits, hst, hdel he]) (by simp)
  · refine .bind (triple_ending (s := .unknown) hkept ⟨rfl, rfl, rfl, rfl, rfl⟩ fun w hs hw => ?_)
      fun _ => .bind (triple_quiet Kept.advanced rfl) fun _ => .ret fun _ _ h => h
    obtain ⟨st, hexec, -⟩ := hw
    exact hexec.ends hs ⟨rfl, rfl, rfl, rfl, rfl⟩
      (fun row' hst _ => by simp [Stage.Fits, hst]) (by simp)

/-- The winner of a claim executes the request and brings it to an end. -/
theorem executeRequest_spec {tool op : String} {a : Json} {corr : Text} {name : Option String}
    {claimedOp : Option ToolOp} :
    (discipline H).Triple i (fun w => (w.receipt r).Claimed i row b claimedOp a)
      (executeRequest r tool op a corr name claimedOp)
      (fun _ w => (w.receipt r).Advanced) (fun _ _ => False) := by
  refine .bind (triple_quiet Kept.claimed rfl) fun req => ?_
  have hdone : ∀ out : Outcome, (discipline H).Triple i
      (fun w => (w.receipt r).Claimed i row b claimedOp a) (.ret out : Action Outcome)
      (fun _ w => (w.receipt r).Advanced) (fun _ _ => False) :=
    fun out => .ret fun _ _ h => h.executing.advanced
  cases req with
  | none => exact hdone _
  | some req =>
    cases claimedOp with
    | none => exact hdone _
    | some t =>
      simp only
      split_ifs
      · exact hdone _
      · refine .bind (triple_quiet Kept.claimed rfl) fun _ => ?_
        refine .bind (.attempt Runtime.execute_spec) fun result => ?_
        cases result with
        | error e => exact executionFailed_spec
        | ok v =>
          have hanswered : Kept H i (Runtime.Answered i r row b t a v) :=
            .exists' fun m => .exists' fun x => Kept.executing.and (.const _)
          refine .bind (triple_ending (s := .completed) hanswered ⟨rfl, rfl, rfl, rfl, rfl⟩
            fun w hs hw => ?_) fun _ => .bind (triple_quiet Kept.advanced rfl) fun _ =>
              .ret fun _ _ h => h
          obtain ⟨m, x, hexec, hres⟩ := hw
          refine hexec.ends hs ⟨rfl, rfl, rfl, rfl, rfl⟩ (fun row' hst hjson => ?_) fun _ => rfl
          simp only [Stage.Fits, hst]
          exact ⟨i, b, t, a, m, x, rfl, by simp [hjson], by rw [hres, hjson]; rfl⟩

end Lifecycle

end Toolstack.Broker
