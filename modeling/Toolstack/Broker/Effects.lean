import Toolstack.Broker.Runs

/-! The effects of a request: how often it is executed, by whom, and what its receipt says
about it. -/

namespace Toolstack.Broker

open Interleave (System)

variable {H : Hash} {c c' : Config} {m : Move} {r i : Nat} {row row' : Row} {log : List Call}

/-! ## Effects in the log -/

/-- The threads that invoked the runtime for request `r`, newest first. -/
def executions (r : Nat) (log : List Call) : List Nat :=
  log.filterMap fun
    | ⟨i, .execute _ _ r' _, _⟩ => if r' = r then some i else none
    | _ => none

/-- The action requests for `r` a tool was sent, newest first, and what came of each. -/
def actionRequests (r : Nat) (log : List Call) : List (HttpRequest × Exchange) :=
  log.filterMap fun
    | ⟨_, .http request, exchange⟩ =>
      if request.message.actionFor = some r then some (request, exchange) else none
    | _ => none

/-- The call is a claim of request `r`, and it was won. -/
def Call.wins (r : Nat) : Call → Bool
  | ⟨_, .claimReceived r' _ _ _, won⟩ => won && r' = r
  | ⟨_, .claimApproval r' _ _ _ _, won⟩ => won && r' = r
  | _ => false

namespace Event

def executes (e : Event) : Option Nat :=
  match e.act with
  | .executed _ _ => some e.thread
  | _ => none

def sends (e : Event) : Option (HttpRequest × Exchange) :=
  match e.act with
  | .sent request exchange => some (request, exchange)
  | _ => none

end Event

namespace Call
variable {c : Call} {e : Event}

theorem act_of_about (h : c.about r = some e) : e.thread = c.thread ∧ c.act = some (r, e.act) := by
  unfold about at h
  split at h
  · rename_i r' act hact
    split_ifs at h with hr
    obtain rfl := Option.some.inj h
    exact ⟨rfl, hr ▸ hact⟩
  · cases h

theorem act_executed {toolOp : ToolOp} {arguments : Json}
    (h : c.act = some (r, .executed toolOp arguments)) :
    ∃ i name, c = ⟨i, .execute toolOp arguments r name, ()⟩ := by
  unfold act at h
  split at h <;> simp at h
  obtain ⟨rfl, rfl, rfl⟩ := h
  exact ⟨_, _, rfl⟩

theorem act_sent {request : HttpRequest} {exchange : Exchange}
    (h : c.act = some (r, .sent request exchange)) :
    ∃ i, c = ⟨i, .http request, exchange⟩ ∧ request.message.actionFor = some r := by
  unfold act at h
  split at h <;> simp at h
  obtain ⟨hr, rfl, rfl⟩ := h
  exact ⟨_, rfl, hr⟩

theorem act_claimed {b : Bool} (h : c.act = some (r, .claimed b)) :
    (b = false ∧ ∃ i g caller d, c = ⟨i, .claimReceived r g caller d, true⟩) ∨
      b = true ∧ ∃ i g state now caller, c = ⟨i, .claimApproval r g state now caller, true⟩ := by
  unfold act at h
  split at h <;> simp at h
  · obtain ⟨rfl, rfl⟩ := h
    exact .inl ⟨rfl, _, _, _, _, rfl⟩
  · obtain ⟨rfl, rfl⟩ := h
    exact .inr ⟨rfl, _, _, _, _, _, rfl⟩

theorem wins_of_act {b : Bool} (h : c.act = some (r, .claimed b)) : c.wins r = true := by
  rcases act_claimed h with ⟨-, i, g, caller, d, rfl⟩ | ⟨-, i, g, state, now, caller, rfl⟩ <;>
    simp [wins]

end Call

theorem filterMap_effects {β : Type} {f : Event → Option β} (es : List Event)
    (hf : ∀ e : Event, e.act.isEffect = false → f e = none) :
    (effects es).filterMap f = es.filterMap f := by
  unfold effects
  rw [List.filterMap_filter]
  refine congrArg (List.filterMap · es) (funext fun e => ?_)
  cases he : e.act.isEffect with
  | true => rfl
  | false => exact (hf e he).symm

theorem executions_eq (r : Nat) (log : List Call) :
    executions r log = (effects (eventsOf r log)).filterMap Event.executes := by
  have hnone : ∀ e : Event, e.act.isEffect = false → e.executes = none := by
    rintro ⟨i, act⟩ h
    cases act <;> first | rfl | cases h
  rw [filterMap_effects _ hnone]
  unfold executions eventsOf
  rw [List.filterMap_filterMap]
  refine congrArg (List.filterMap · log) (funext fun call => ?_)
  split
  · rename_i i toolOp arguments r' name a
    simp only [Call.about, Call.act]
    split_ifs <;> rfl
  · rename_i hno
    refine (Option.bind_eq_none_iff.2 fun e he => ?_).symm
    obtain ⟨-, hact⟩ := Call.act_of_about he
    unfold Event.executes
    split
    · rename_i toolOp arguments hexec
      obtain ⟨i, name, rfl⟩ := Call.act_executed (hexec ▸ hact)
      exact absurd rfl (hno i toolOp arguments r name ())
    · rfl

theorem actionRequests_eq (r : Nat) (log : List Call) :
    actionRequests r log = (effects (eventsOf r log)).filterMap Event.sends := by
  have hnone : ∀ e : Event, e.act.isEffect = false → e.sends = none := by
    rintro ⟨i, act⟩ h
    cases act <;> first | rfl | cases h
  rw [filterMap_effects _ hnone]
  unfold actionRequests eventsOf
  rw [List.filterMap_filterMap]
  refine congrArg (List.filterMap · log) (funext fun call => ?_)
  split
  · rename_i i request exchange
    cases hfor : request.message.actionFor with
    | none => simp [Call.about, Call.act, hfor]
    | some r' =>
      simp only [Call.about, Call.act, hfor, Option.map_some, Option.some.injEq]
      split_ifs <;> rfl
  · rename_i hno
    refine (Option.bind_eq_none_iff.2 fun e he => ?_).symm
    obtain ⟨-, hact⟩ := Call.act_of_about he
    unfold Event.sends
    split
    · rename_i request exchange hsent
      obtain ⟨i, rfl, -⟩ := Call.act_sent (hsent ▸ hact)
      exact absurd rfl (hno i request exchange)
    · rfl

/-! ## At most one execution -/

theorem Stage.executes_length (st : Stage) : (st.events.filterMap Event.executes).length ≤ 1 := by
  cases st <;> simp [Stage.events, Event.executes, List.filterMap_cons]

theorem Stage.sends_length (st : Stage) : (st.events.filterMap Event.sends).length ≤ 1 := by
  cases st <;> simp [Stage.events, Event.sends, List.filterMap_cons]

/-- Before an execution there is the claim of the same thread. -/
theorem Stage.claimed_before {st : Stage} {later earlier : List Event} {toolOp : ToolOp}
    {arguments : Json}
    (h : st.events = later ++ ⟨i, .executed toolOp arguments⟩ :: earlier) :
    ∃ b, ⟨i, .claimed b⟩ ∈ earlier := by
  cases st with
  | idle => simp [Stage.events] at h
  | claimed j b =>
    rcases later with _ | ⟨e, later⟩ <;> simp [Stage.events] at h
  | executed j b t a =>
    rcases later with _ | ⟨e, later⟩
    · simp only [Stage.events, List.nil_append, List.cons.injEq, Event.mk.injEq] at h
      obtain ⟨⟨rfl, -⟩, rfl⟩ := h
      exact ⟨b, by simp⟩
    · rcases later with _ | ⟨e, later⟩ <;> simp [Stage.events] at h
  | sent j b t a m x =>
    rcases later with _ | ⟨e, later⟩
    · simp [Stage.events] at h
    · rcases later with _ | ⟨e, later⟩
      · simp only [Stage.events, List.cons_append, List.nil_append, List.cons.injEq,
          Event.mk.injEq] at h
        obtain ⟨-, ⟨rfl, -⟩, rfl⟩ := h
        exact ⟨b, by simp⟩
      · rcases later with _ | ⟨e, later⟩ <;> simp [Stage.events] at h

theorem Receipt.Step.executing_same {R R' : Receipt} (h : Receipt.Step H i R R')
    (hrow : R.row = some row) (hrow' : R'.row = some row') (hexec : row'.status = .executing)
    (hstatus : row.status = .executing ∨ row.status.terminal = true) : row' = row := by
  have hends : ∀ {row₁ row₂}, Ends row₁ row₂ → some row₂ = some row' → row' = row := by
    intro row₁ row₂ ends heq
    obtain rfl := Option.some.inj heq
    have hterm := ends.terminal
    rw [hexec] at hterm
    cases hterm
  have hopen : ∀ {row₁ : Row} {P : Prop}, R.row = some row₁ →
      row₁.status = .received ∨ row₁.status = .pendingApproval → P := by
    intro row₁ P present hopen
    obtain rfl := Option.some.inj (hrow.symm.trans present)
    rcases hstatus with h | h <;> rcases hopen with h' | h' <;> simp [h', Status.terminal] at h
  cases h with
  | stay | card | opening | execute | send => exact Option.some.inj (hrow'.symm.trans hrow)
  | reserve absent => cases hrow.symm.trans absent
  | park now owned present status => exact hopen present (.inl status)
  | claim now owned present status => exact hopen present (.inl status)
  | approve now present status => exact hopen present (.inr status)
  | settle owned present ends => exact hends ends hrow'
  | refuse f present status => exact hopen present (.inr status)
  | prune now f present old =>
    obtain rfl := Option.some.inj hrow'
    have hterm : (Row.prune now _).status.terminal = true :=
      Row.prune_status_terminal (Db.prunable_terminal old)
    rw [hexec] at hterm
    cases hterm

theorem eventsOf_append (r : Nat) (new log : List Call) :
    eventsOf r (new ++ log) = eventsOf r new ++ eventsOf r log := List.filterMap_append

theorem effects_append (es es' : List Event) : effects (es ++ es') = effects es ++ effects es' :=
  List.filter_append ..

namespace Reachable

/-- What the log of a reachable database says about one request. -/
theorem stage (h : Reachable H c) (r : Nat) : ∃ st : Stage,
    effects (eventsOf r c.world.log) = st.events ∧
      ∀ row, c.world.db.request r = some row → st.Fits row := by
  have hsound := h.sound.current.receipts r
  cases hrow : c.world.db.requests.get? r with
  | none =>
    have hevents : eventsOf r c.world.log = [] := (hsound.absent hrow).2
    exact ⟨.idle, by rw [hevents]; rfl, fun row h => by cases hrow.symm.trans h⟩
  | some row =>
    obtain ⟨st, hst, hfits⟩ := (hsound.row hrow).stage
    exact ⟨st, hst, fun row' h => Option.some.inj (hrow.symm.trans h) ▸ hfits⟩

theorem claimed_before (h : Reachable H c) {later earlier : List Call} {toolOp : ToolOp}
    {arguments : Json} {name : Option String}
    (hlog : c.world.log = later ++ ⟨i, .execute toolOp arguments r name, ()⟩ :: earlier) :
    ∃ call ∈ earlier, call.thread = i ∧ call.wins r = true := by
  obtain ⟨st, hst, -⟩ := h.stage r
  have hact : Call.act ⟨i, .execute toolOp arguments r name, ()⟩ =
      some (r, .executed toolOp arguments) := rfl
  rw [hlog, eventsOf_append, eventsOf_cons_self hact, effects_append, effects_cons rfl] at hst
  obtain ⟨b, hb⟩ := Stage.claimed_before hst.symm
  obtain ⟨call, hcall, habout⟩ := List.mem_filterMap.1 (List.mem_filter.1 hb).1
  obtain ⟨hthread, hact⟩ := Call.act_of_about habout
  exact ⟨call, hcall, hthread.symm, Call.wins_of_act hact⟩

/-- A row that is executing or has ended does not come back to execution. -/
theorem executing_same (h : Reachable H c) (hs : (broker H).step c m = some c')
    (hrow : c.world.db.request r = some row) (hrow' : c'.world.db.request r = some row')
    (hexec : row'.status = .executing)
    (hstatus : row.status = .executing ∨ row.status.terminal = true) : row' = row := by
  by_cases hm : SameDatabase c m
  · have hR : (c.world.receipt r).row = some row := hrow
    have hR' : (c'.world.receipt r).row = some row' := hrow'
    cases h.reaches hs hm r with
    | step i step => exact step.executing_same hR hR' hexec hstatus
    | reconciled now receipt =>
      rw [receipt, hR] at hR'
      obtain rfl := Option.some.inj hR'
      unfold Row.reconcile at hexec ⊢
      split_ifs at hexec ⊢
      · cases hexec
      · rfl
  · obtain ⟨b, -, now, uuid, hworld⟩ := restored hs hm
    rw [hworld] at hrow'
    have hterm := Db.sanitize_terminal hrow'
    rw [hexec] at hterm
    cases hterm

/-- A won claim is what brings a request into execution. -/
theorem executing_of_wins {ω : Oracle} {call : Call} (hs : (broker H).step c (.call i ω) = some c')
    (hlog : c'.world.log = call :: c.world.log) (hwins : call.wins r = true) :
    ∃ row row', c.world.db.request r = some row ∧ c'.world.db.request r = some row' ∧
      (row.status = .received ∨ row.status = .pendingApproval) ∧ row'.status = .executing := by
  obtain ⟨j, o, k, -, hworld, -⟩ := System.step_call hs
  rw [hworld] at hlog ⊢
  obtain rfl := (List.cons.inj hlog).1
  have hone : ∀ {row : Row} (now : Time), c.world.db.request r = some row →
      (c.world.db.setRequest r (fun r => { r with status := .executing, updatedAt := now })
        fun _ => rfl).request r = some { row with status := .executing, updatedAt := now } := by
    intro row now hrow
    rw [Db.request, get?_setRequest, if_pos rfl]
    exact congrArg (Option.map _) hrow
  cases o with
  | claimReceived r' g caller d =>
    simp only [Call.wins, Bool.and_eq_true, decide_eq_true_eq] at hwins
    obtain ⟨hwon, rfl⟩ := hwins
    change (c.world.db.claimReceived H ω.now ω.hex r' g caller d).1 = true at hwon
    change ∃ row row', _ ∧ (c.world.db.claimReceived H ω.now ω.hex r' g caller d).2.request r' =
      some row' ∧ _
    cases hrow : c.world.db.request r' with
    | none => simp [Db.claimReceived, hrow] at hwon
    | some row =>
      rcases claimReceived_cases H ω.now ω.hex g caller d hrow with
        ⟨hvalid, hdb⟩ | ⟨-, hdb⟩ | ⟨-, hdb⟩
      · rw [hdb]
        exact ⟨row, _, rfl, hone _ hrow, .inl (receivedValid_status hvalid), rfl⟩
      · simp [hdb] at hwon
      · simp [hdb] at hwon
  | claimApproval r' g state now caller =>
    simp only [Call.wins, Bool.and_eq_true, decide_eq_true_eq] at hwins
    obtain ⟨hwon, rfl⟩ := hwins
    change (c.world.db.claimApproval H ω.hex r' g state now caller).1 = true at hwon
    change ∃ row row', _ ∧ (c.world.db.claimApproval H ω.hex r' g state now caller).2.request r' =
      some row' ∧ _
    cases hrow : c.world.db.request r' with
    | none => simp [Db.claimApproval, hrow] at hwon
    | some row =>
      rcases claimApproval_cases H ω.hex g state now caller hrow with
        ⟨app, -, hvalid, hdb⟩ | ⟨hstatus, happ⟩ | ⟨-, hdb⟩
      · rw [hdb]
        exact ⟨row, _, rfl, hone _ hrow, .inr (approvalValid_status hvalid).1, rfl⟩
      · obtain ⟨s, e, as, -, -, -, hdb⟩ := claimApproval_refused state hrow happ hstatus
        simp [hdb] at hwon
      · simp [hdb] at hwon
  | _ => cases hwins

end Reachable

/-- At most one execution, by the thread that won the claim, and no second claim: however many
brokers share the database. -/
theorem execution_at_most_once (h : Reachable H c) (r : Nat) :
    (executions r c.world.log).length ≤ 1 ∧
    (∀ later i toolOp arguments name earlier,
      c.world.log = later ++ ⟨i, .execute toolOp arguments r name, ()⟩ :: earlier →
      ∃ call ∈ earlier, call.thread = i ∧ call.wins r = true) ∧
    (∀ i ω c' call, (broker H).step c (.call i ω) = some c' → c'.world.log = call :: c.world.log →
      call.wins r = true → ∃ row row', c.world.db.request r = some row ∧
        c'.world.db.request r = some row' ∧
        (row.status = .received ∨ row.status = .pendingApproval) ∧ row'.status = .executing) ∧
    (∀ m c' row row', (broker H).step c m = some c' → c.world.db.request r = some row →
      c'.world.db.request r = some row' → row'.status = .executing →
      row.status = .executing ∨ row.status.terminal = true → row' = row) := by
  refine ⟨?_, fun later i toolOp arguments name earlier hlog => h.claimed_before hlog,
    fun i ω c' call hs hlog hwins => Reachable.executing_of_wins hs hlog hwins,
    fun m c' row row' hs hrow hrow' hexec hstatus => h.executing_same hs hrow hrow' hexec hstatus⟩
  obtain ⟨st, hst, -⟩ := h.stage r
  rw [executions_eq, hst]
  exact st.executes_length

theorem execution_at_most_once_completed : ∃ c, after Sample.hash Sample.completed = some c ∧
    executions 1 c.world.log = [1] ∧ (executions 1 c.world.log).length ≤ 1 := by
  have hrun : (after Sample.hash Sample.completed).map (fun c => executions 1 c.world.log) =
      some [1] := by decide +kernel
  obtain ⟨c, hc, hexec⟩ := Option.map_eq_some_iff.1 hrun
  exact ⟨c, hc, hexec, (execution_at_most_once (.after hc) 1).1⟩

/-! ## What the receipt says -/

theorem delivered_of_resultOf {message : ToolMessage} {x : Exchange} {v : Json}
    (h : resultOf message x = some v) : x.delivered = true := by
  cases x with
  | answered a => rfl
  | _ => cases message <;> cases h

theorem Stage.sends_delivered {st : Stage} (h : st.delivered = false) :
    ∀ e ∈ st.events.filterMap Event.sends, e.2.delivered = false := by
  cases st with
  | sent i b t a m x => simpa [Stage.events, Event.sends, List.filterMap_cons, Stage.delivered] using h
  | _ => simp [Stage.events, Event.sends, List.filterMap_cons]

/-- A receipt tells the truth about the effects of its request. `unknown` promises least: the
request may have reached the tool, but never twice. -/
theorem receipt_truthful (h : Reachable H c) (hrow : c.world.db.request r = some row) :
    (row.status ∈ [.denied, .expired, .failed, .invalid, .notFound] →
      ∀ e ∈ actionRequests r c.world.log, e.2.delivered = false) ∧
    (row.status = .completed → ∃ request exchange result,
      actionRequests r c.world.log = [(request, exchange)] ∧ exchange.delivered = true ∧
      resultOf request.message exchange = some result ∧ row.resultJson = some result) ∧
    (row.status ∈ [.executing, .unknown] → (actionRequests r c.world.log).length ≤ 1) := by
  obtain ⟨st, hst, hfits⟩ := h.stage r
  have hfit : st.Fits row := hfits row hrow
  rw [actionRequests_eq, hst]
  refine ⟨fun hstatus => Stage.sends_delivered ?_, fun hstatus => ?_, fun _ => st.sends_length⟩
  · by_cases hfailed : row.status = .failed
    · simpa [Stage.Fits, hfailed] using hfit
    · have hidle : row.status.unclaimed = true := by
        cases hs : row.status <;> simp_all [Status.unclaimed]
      rw [hfit.idle hidle]
      rfl
  · simp only [Stage.Fits, hstatus] at hfit
    obtain ⟨i, b, t, a, m, x, rfl, hsome, hresult⟩ := hfit
    obtain ⟨result, hjson⟩ := Option.isSome_iff_exists.1 hsome
    rw [hjson] at hresult
    exact ⟨m, x, result, by simp [Stage.events, Event.sends, List.filterMap_cons],
      delivered_of_resultOf hresult, hresult, hjson⟩

theorem receipt_truthful_completed : ∃ c row, after Sample.hash Sample.completed = some c ∧
    c.world.db.request 1 = some row ∧ row.status = .completed ∧
    (actionRequests 1 c.world.log).length = 1 := by
  have hrun : ((after Sample.hash Sample.completed).bind fun c => c.world.db.request 1).map
      Row.status = some .completed := by decide +kernel
  obtain ⟨row, hrow, hstatus⟩ := Option.map_eq_some_iff.1 hrun
  obtain ⟨c, hc, hrow⟩ := Option.bind_eq_some_iff.1 hrow
  obtain ⟨m, x, v, hone, -⟩ := (receipt_truthful (.after hc) hrow).2.1 hstatus
  exact ⟨c, row, hc, hrow, hstatus, by rw [hone]; rfl⟩

end Toolstack.Broker
