import Toolstack.Broker.Effects

/-! Authority to execute: the claim that moves a request into execution, and what it found when it
was made. -/

namespace Toolstack.Broker

open Interleave (System)
open Json (canonical)

variable {H : Hash} {c c' : Config} {m : Move} {r i : Nat} {row row' : Row}

/-! ## The call behind a change -/

namespace Receipt.Step
variable {R R' : Receipt}

/-- A request that was not executing executes once it is claimed. -/
theorem claims (h : Receipt.Step H i R R') (hrow' : R'.row = some row')
    (hexec : row'.status = .executing) (hnot : ∀ row, R.row = some row → row.status ≠ .executing) :
    ∃ b, R'.events = ⟨i, .claimed b⟩ :: R.events := by
  have hends : ∀ {row row₂ : Row}, Ends row row₂ → row₂ ≠ row' := by
    rintro row row₂ ends rfl
    have hterm := ends.terminal
    rw [hexec] at hterm
    cases hterm
  cases h with
  | stay => exact absurd hexec (hnot row' hrow')
  | reserve absent reserved status =>
    obtain rfl := Option.some.inj hrow'
    exact absurd (hexec.symm.trans status) (by decide)
  | card | opening | execute | send => exact absurd hexec (hnot row' hrow')
  | park =>
    obtain rfl := Option.some.inj hrow'
    cases hexec
  | claim => exact ⟨false, rfl⟩
  | approve => exact ⟨true, rfl⟩
  | settle owned present ends => exact absurd (Option.some.inj hrow') (hends ends)
  | refuse f present status ends => exact absurd (Option.some.inj hrow') (hends ends)
  | prune now f present old =>
    obtain rfl := Option.some.inj hrow'
    have hterm : (Row.prune now _).status.terminal = true :=
      Row.prune_status_terminal (Db.prunable_terminal old)
    rw [hexec] at hterm
    cases hterm

/-- A request appears by being reserved. -/
theorem reserves (h : Receipt.Step H i R R') (habsent : R.row = none) (hrow' : R'.row = some row') :
    ∃ res, R'.events = ⟨i, .reserved res⟩ :: R.events := by
  have hpresent : ∀ {row : Row} {P : Prop}, R.row = some row → P := by
    intro row P present
    cases habsent.symm.trans present
  cases h with
  | stay => exact hpresent hrow'
  | reserve => exact ⟨_, rfl⟩
  | card _ _ present | opening _ present | park _ _ present | claim _ _ present | approve _ present
  | execute _ _ _ present | send _ _ _ present | settle _ present | refuse _ present
  | prune _ _ present => exact hpresent present

end Receipt.Step

/-- A step that adds an event to the history of a request is a call about it. -/
theorem about_of_events {o : Op} {ω : Oracle} {w : World} {e : Event}
    (h : ((w.exec H i o ω).2.receipt r).events = e :: (w.receipt r).events) :
    (⟨i, o, (o.run H ω w).1⟩ : Call).about r = some e := by
  have hcons : ((⟨i, o, (o.run H ω w).1⟩ : Call).about r).toList ++ eventsOf r w.log =
      [e] ++ eventsOf r w.log := (eventsOf_cons r _ w.log).symm.trans h
  simpa using List.append_cancel_right hcons

/-- What the operation of a won claim found. -/
inductive Won (H : Hash) (ω : Oracle) (w : World) (row : Row) : Op → Prop
  | received (g : Option Text) (caller : Option Caller) (d : Option Text)
      (valid : Db.receivedValid H ω.hex row g caller d w.db = true) :
      Won H ω w row (.claimReceived row.id g caller d)
  | approval (g : Option Text) (state : SurfaceState) (now : Time) (caller : Option Caller)
      (app : ApprovalRow) (look : w.db.approvalForRequest row.id = some app)
      (valid : Db.approvalValid H ω.hex row app g now caller w.db = true) :
      Won H ω w row (.claimApproval row.id g state now caller)

theorem won_of_claimed {o : Op} {ω : Oracle} {w : World} {b : Bool} {j : Nat}
    (h : (⟨i, o, (o.run H ω w).1⟩ : Call).about r = some ⟨j, .claimed b⟩) :
    ∃ row, w.db.request r = some row ∧ Won H ω w row o := by
  obtain ⟨-, hact⟩ := Call.act_of_about h
  rcases Call.act_claimed hact with ⟨-, j, g, caller, d, heq⟩ | ⟨-, j, g, state, now, caller, heq⟩
  · obtain ⟨-, rfl, hanswer⟩ := Call.mk.inj heq
    have hwon : (w.db.claimReceived H ω.now ω.hex r g caller d).1 = true := eq_of_heq hanswer
    cases hrow : w.db.request r with
    | none => simp [Db.claimReceived, hrow] at hwon
    | some row =>
      obtain rfl : row.id = r := Table.get?_key hrow
      rcases claimReceived_cases H ω.now ω.hex g caller d hrow with
        ⟨hvalid, -⟩ | ⟨-, hdb⟩ | ⟨-, hdb⟩
      · exact ⟨row, rfl, .received g caller d hvalid⟩
      · simp [hdb] at hwon
      · simp [hdb] at hwon
  · obtain ⟨-, rfl, hanswer⟩ := Call.mk.inj heq
    have hwon : (w.db.claimApproval H ω.hex r g state now caller).1 = true := eq_of_heq hanswer
    cases hrow : w.db.request r with
    | none => simp [Db.claimApproval, hrow] at hwon
    | some row =>
      obtain rfl : row.id = r := Table.get?_key hrow
      rcases claimApproval_cases H ω.hex g state now caller hrow with
        ⟨app, hlook, hvalid, -⟩ | ⟨hstatus, happ⟩ | ⟨-, hdb⟩
      · exact ⟨row, rfl, .approval g state now caller app hlook hvalid⟩
      · obtain ⟨s, e, as, -, -, -, hdb⟩ := claimApproval_refused state hrow happ hstatus
        simp [hdb] at hwon
      · simp [hdb] at hwon

/-- Whatever moves a request into execution is a claim of it, and the claim was won. -/
theorem Reachable.won (h : Reachable H c) (hs : (broker H).step c m = some c')
    (hrow' : c'.world.db.request r = some row') (hexec : row'.status = .executing)
    (hnot : ∀ row, c.world.db.request r = some row → row.status ≠ .executing) :
    ∃ i ω o row, m = .call i ω ∧ (∃ j k, c.threads[i]? = some ⟨j, some (.call o k)⟩) ∧
      Requires i o c.world ∧ c.world.db.request r = some row ∧ Won H ω c.world row o := by
  cases h.moved hs with
  | call i o ω move thread requires world =>
    have hstep := (exec_worldStep (ω := ω) h.sound.current requires).receipts r
    rw [world] at hrow'
    obtain ⟨b, hevents⟩ := hstep.claims (show (World.receipt _ r).row = _ from hrow') hexec hnot
    obtain ⟨row, hrow, hwon⟩ := won_of_claimed (about_of_events hevents)
    exact ⟨i, ω, o, row, move, thread, requires, hrow, hwon⟩
  | still db log =>
    rw [db] at hrow'
    exact absurd hexec (hnot row' hrow')
  | offline f move world =>
    cases f with
    | reconcile now =>
      obtain hworld := Option.some.inj world
      rw [← hworld] at hrow'
      have hget : (c.world.db.reconcileOffline now).requests.get? r = some row' := hrow'
      rw [Db.reconcileOffline, Db.get?_sweepStatus] at hget
      obtain ⟨row, hrow, rfl⟩ := Option.map_eq_some_iff.1 hget
      have hne := hnot row hrow
      split_ifs at hexec
      · cases hexec
      · exact absurd hexec hne
    | restore n now uuid =>
      obtain ⟨b, -, hworld⟩ := Option.map_eq_some_iff.1 world
      rw [← hworld] at hrow'
      have hterm := Db.sanitize_terminal hrow'
      rw [hexec] at hterm
      cases hterm

/-! ## The reservation a request goes back to -/

/-- The step from `c₀` to `c₁` reserves request `r`, under the policy that `c₀` stores. -/
structure Reserves (H : Hash) (r : Nat) (res : Reservation) (c₀ c₁ : Config) : Prop where
  absent : c₀.world.db.request r = none
  present : ∃ row, c₁.world.db.request r = some row ∧ row.status = .received ∧
    row.callerId = res.caller.id ∧ row.policyBinding = some (c₀.world.db.policyFor res.caller.id).binding
  recorded : ∃ i, (⟨i, .reserved res⟩ : Event) ∈ (c₁.world.receipt r).events

theorem Db.request_reconcileOffline {db : Db} {now : Time} (habsent : db.request r = none) :
    (db.reconcileOffline now).request r = none := by
  have hget : db.requests.get? r = none := habsent
  rw [Db.request, Db.reconcileOffline, Db.get?_sweepStatus, hget]
  rfl

/-- The call that reserves a request inserts the row its answer shows. -/
theorem reserveAction_inserts {ω : Oracle} {w : World} {caller : Caller} {corr : Text} {tool op : String}
    {arguments reason : Json} {generation : Text} {key : Json} {j : Nat} {res : Reservation}
    (h : (⟨i, .reserveAction caller corr tool op arguments reason generation key,
      ((Op.reserveAction caller corr tool op arguments reason generation key).run H ω w).1⟩ : Call).about r =
        some ⟨j, .reserved res⟩) :
    res.caller = caller ∧ ∃ row, (w.exec H i (.reserveAction caller corr tool op arguments reason generation
      key) ω).2.db.request r = some row ∧ row.status = .received ∧ row.callerId = caller.id ∧
      row.policyBinding = some (w.db.policyFor caller.id).binding := by
  have hrun : (Op.reserveAction caller corr tool op arguments reason generation key).run H ω w =
      w.db.reserveAction H ω.now ω.hex caller corr tool op arguments reason generation key := rfl
  rw [exec_snd]
  rcases reserveAction_cases H ω.now ω.hex caller corr tool op arguments reason generation key w.db with
    ⟨e, hdb⟩ | ⟨k, text, prior, -, -, -, -, -, hdb⟩ | ⟨k, text, bound, -, -, -, -, -, hdb⟩
  · rw [hrun, hdb] at h
    cases h
  · rw [hrun, hdb] at h
    cases h
  · rw [hrun, hdb] at h
    rw [hrun, hdb]
    obtain ⟨-, hact⟩ := Call.act_of_about h
    obtain ⟨hid, hres⟩ := Prod.mk.inj (Option.some.inj hact)
    obtain rfl : w.db.requests.nextId = r := hid
    obtain rfl := Act.reserved.inj hres
    have hget := w.db.requests.get?_append_self (Db.reservedRow ω.now ω.hex caller corr tool op arguments
      reason generation k (w.db.policyFor caller.id) (H.digest bound) (H.digest text))
      (Db.reservedRow_key ω.now ω.hex caller corr tool op arguments reason generation k
        (w.db.policyFor caller.id) (H.digest bound) (H.digest text))
    exact ⟨rfl, _, hget, rfl, rfl, rfl⟩

/-- Within one database a request appears by a reservation. -/
theorem Reachable.reserves (h : Reachable H c) (hs : (broker H).step c m = some c')
    (hm : SameDatabase c m) (habsent : c.world.db.request r = none)
    (hrow' : c'.world.db.request r = some row') : ∃ res, Reserves H r res c c' := by
  cases h.moved hs with
  | call i o ω move thread requires world =>
    have hstep := (exec_worldStep (ω := ω) h.sound.current requires).receipts r
    rw [world] at hrow'
    obtain ⟨res, hevents⟩ := hstep.reserves habsent hrow'
    obtain ⟨-, -, caller, corr, tool, op, arguments, reason, generation, key, rfl⟩ :=
      Call.about_reserved (about_of_events hevents)
    obtain ⟨hcaller, row, hrow, hstatus, hid, hbinding⟩ := reserveAction_inserts (about_of_events hevents)
    refine ⟨res, habsent, ⟨row, by rw [world]; exact hrow, hstatus, by rw [hid, hcaller],
      by rw [hbinding, hcaller]⟩, i, ?_⟩
    rw [world, hevents]
    exact List.mem_cons_self ..
  | still db log =>
    rw [db, habsent] at hrow'
    cases hrow'
  | offline f move world =>
    cases f with
    | reconcile now =>
      have hworld := Option.some.inj world
      rw [← hworld] at hrow'
      cases (Db.request_reconcileOffline habsent).symm.trans hrow'
    | restore n now uuid => exact absurd move (hm n now uuid)

theorem log_of_steps (hrun : (broker H).Steps SameDatabase c c') : c.world.log <:+ c'.world.log := by
  refine hrun.invariant (P := fun c' => c.world.log <:+ c'.world.log) (List.suffix_refl _)
    fun c₁ m c₂ _ hok hs ih => ?_
  cases m with
  | start j =>
    obtain rfl := Option.some.inj hs
    exact ih
  | call i ω =>
    obtain ⟨j, o, k, -, hworld, -⟩ := System.step_call hs
    rw [hworld]
    exact ih.trans (List.suffix_cons _ _)
  | crash i =>
    obtain ⟨-, -, -, -, hworld, -⟩ := System.step_crash hs
    rwa [hworld]
  | env e =>
    obtain rfl := Option.some.inj hs
    exact (e.apply_log c₁.world).symm ▸ ih
  | offline f =>
    cases f with
    | reconcile now =>
      have hworld := Option.some.inj (System.step_offline hs).2.1
      rw [← hworld]
      exact ih
    | restore n now uuid => exact absurd rfl (hok n now uuid)

/-- The reservation that stays in the history is the one the row and every execution go back to. -/
theorem Reachable.handed (h : Reachable H c) {res : Reservation}
    (hmem : (⟨i, .reserved res⟩ : Event) ∈ (c.world.receipt r).events) {j : Nat} {t : ToolOp} {a : Json}
    {name : Option String} (hexec : (⟨j, .execute t a r name, ()⟩ : Call) ∈ c.world.log) :
    Handed res t a := by
  have hsound := h.sound.current.receipts r
  have hevent : (⟨j, .executed t a⟩ : Event) ∈ (c.world.receipt r).events := by
    have hact : (⟨j, .execute t a r name, ()⟩ : Call).act = some (r, .executed t a) := rfl
    exact List.mem_filterMap.2 ⟨_, hexec, (Call.about_some hact).trans (if_pos rfl)⟩
  cases hrow : c.world.db.requests.get? r with
  | none =>
    have hnone : (c.world.receipt r).events = [] := (hsound.absent hrow).2
    rw [hnone] at hmem
    cases hmem
  | some row =>
    obtain ⟨front, i', res', hevents, hfront, -, hhanded⟩ := (hsound.row hrow).reserved
    have hevents' : (c.world.receipt r).events = front ++ [⟨i', .reserved res'⟩] := hevents
    rw [hevents'] at hmem hevent
    have hres : res = res' := by
      rcases List.mem_append.1 hmem with hin | hin
      · have hno := hfront _ hin
        cases hno
      · exact Act.reserved.inj (Event.mk.inj (List.mem_singleton.1 hin)).2
    rcases List.mem_append.1 hevent with hin | hin
    · exact hres ▸ hhanded _ hin t a rfl
    · cases (Event.mk.inj (List.mem_singleton.1 hin)).2

namespace Sample

end Sample

end Toolstack.Broker
