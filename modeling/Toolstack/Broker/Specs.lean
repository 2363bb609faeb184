import Toolstack.Broker.Discipline

/-! What a thread knows before and after each of its own calls, and the assertions it can carry
past the moves of the others. -/

namespace Toolstack.Broker

open Interleave (Discipline Prog)
open Interleave.Discipline (Triple)

variable {H : Hash} {i r : Nat} {w : World} {ω : Oracle} {α : Type}

/-! ## Assertions that last -/

/-- `P` outlives the moves of the other threads and the quiet calls of thread `i`. -/
structure Kept (H : Hash) (i : Nat) (P : World → Prop) : Prop where
  stable : (discipline H).Stable i P
  quiet : ∀ {o : Op} {w : World} (ω : Oracle), o.quiet = true → P w → P (w.exec H i o ω).2

namespace Kept
variable {P P' : World → Prop}

theorem and (h : Kept H i P) (h' : Kept H i P') : Kept H i fun w => P w ∧ P' w :=
  ⟨Discipline.Stable.and h.stable h'.stable, fun ω hq hw => ⟨h.quiet ω hq hw.1, h'.quiet ω hq hw.2⟩⟩

theorem const (p : Prop) : Kept H i fun _ => p := ⟨Discipline.Stable.const p, fun _ _ hp => hp⟩

theorem or (h : Kept H i P) (h' : Kept H i P') : Kept H i fun w => P w ∨ P' w :=
  ⟨fun hi hi' hr hw => hw.imp (h.stable hi hi' hr) (h'.stable hi hi' hr),
    fun ω hq hw => hw.imp (h.quiet ω hq) (h'.quiet ω hq)⟩

theorem exists' {β : Type} {P : β → World → Prop} (h : ∀ b, Kept H i (P b)) :
    Kept H i fun w => ∃ b, P b w :=
  ⟨fun hi hi' hr ⟨b, hb⟩ => ⟨b, (h b).stable hi hi' hr hb⟩,
    fun ω hq ⟨b, hb⟩ => ⟨b, (h b).quiet ω hq hb⟩⟩

/-- What a thread knows of a request it holds. -/
theorem owned {Φ : Receipt → Prop} (hown : ∀ R, Φ R → R.Owned i) :
    Kept H i fun w => Φ (w.receipt r) where
  stable _ _ hr hw := by
    beta_reduce
    rwa [Others.owned hr (hown _ hw)]
  quiet _ hq hw := by rwa [Op.quiet_receipt hq]

/-- What a thread knows of a request it does not hold. -/
theorem later {Φ : Receipt → Prop} (hlater : ∀ {R R'}, R.Later R' → Φ R → Φ R') :
    Kept H i fun w => Φ (w.receipt r) where
  stable _ _ hr hw := hlater (Others.later hr r) hw
  quiet _ hq hw := by rwa [Op.quiet_receipt hq]

theorem logged (c : Call) : Kept H i fun w => c ∈ w.log where
  stable _ _ hr hw := by
    obtain ⟨new, hlog, -⟩ := Others.log hr
    rw [hlog]
    exact List.mem_append_right _ hw
  quiet _ _ hw := List.mem_cons_of_mem _ hw

end Kept

/-- The rule of one call. -/
theorem triple_perform {P : World → Prop} {E : Exn → World → Prop} {o : Op} {Q : o.Ret → World → Prop}
    (hP : Kept H i P) (hreq : ∀ w, w.Sound H → P w → Requires i o w)
    (hpost : ∀ w ω, w.Sound H → P w → Q (o.run H ω w).1 (w.exec H i o ω).2) :
    (discipline H).Triple i P (perform o) Q E :=
  .perform hP.stable hreq hpost

theorem Kept.recorded (e : Event) : Kept H i fun w => e ∈ (w.receipt r).events where
  stable _ _ hr hw := by
    obtain ⟨new, hlog, -⟩ := Others.log hr
    simp only [World.receipt, receiptOf, eventsOf, hlog, List.filterMap_append]
    exact List.mem_append_right _ hw
  quiet _ hq hw := by rwa [Op.quiet_receipt hq]

theorem triple_quiet {P : World → Prop} {E : Exn → World → Prop} {o : Op} (hP : Kept H i P)
    (hq : o.quiet = true) : (discipline H).Triple i P (perform o) (fun _ => P) E :=
  .perform_keep hP.stable (fun _ _ _ => Op.quiet_requires hq) fun _ ω _ hw => hP.quiet ω hq hw

/-- A call that reads: what its answer shows is known from then on. -/
theorem triple_read {P : World → Prop} {E : Exn → World → Prop} {o : Op} {A : o.Ret → Prop}
    (hP : Kept H i P) (hq : o.quiet = true)
    (hA : ∀ w ω, w.Sound H → P w → A (o.run H ω w).1) :
    (discipline H).Triple i P (perform o) (fun a w => A a ∧ P w) E :=
  .perform hP.stable (fun _ _ _ => Op.quiet_requires hq)
    fun w ω hs hw => ⟨hA w ω hs hw, hP.quiet ω hq hw⟩

/-- All calls of a program are quiet. -/
def Quiet (p : Action α) : Prop := p.All fun o => o.quiet = true

theorem Quiet.triple {P : World → Prop} {p : Action α} (h : Quiet p) (hP : Kept H i P) :
    (discipline H).Triple i P p (fun _ => P) (fun _ => P) :=
  .of_all_keep hP.stable (h.mono fun _ hq _ _ hw =>
    ⟨Op.quiet_requires hq, fun ω => hP.quiet ω hq hw⟩)

/-! ## Facts for good -/

/-- `P` outlives whatever anybody does. -/
structure Lasting (H : Hash) (i : Nat) (P : World → Prop) : Prop where
  stable : (discipline H).Stable i P
  exec : ∀ o w ω, w.Sound H → Requires i o w → P w → P (w.exec H i o ω).2

namespace Lasting
variable {P : World → Prop}

theorem later {Φ : Receipt → Prop} (hlater : ∀ {R R'}, R.Later R' → Φ R → Φ R') :
    Lasting H i fun w => Φ (w.receipt r) where
  stable _ _ hr hw := hlater (Others.later hr r) hw
  exec _ _ _ hs hreq hw := hlater ((exec_worldStep hs.current hreq).receipts r).later hw

theorem logged (c : Call) : Lasting H i fun w => c ∈ w.log where
  stable := (Kept.logged c).stable
  exec _ _ _ _ _ hw := List.mem_cons_of_mem _ hw

theorem recorded (e : Event) : Lasting H i fun w => e ∈ (w.receipt r).events where
  stable := (Kept.recorded e).stable
  exec o w ω _ _ hw := by
    simp only [World.receipt, receiptOf, exec_snd, eventsOf_cons]
    exact List.mem_append_right _ hw

theorem triple {α : Type} {p : Action α} {Q : World → Prop} {S : α → World → Prop}
    (h : Lasting H i P) {E : Exn → World → Prop} (ht : (discipline H).Triple i Q p S E) :
    (discipline H).Triple i (fun w => Q w ∧ P w) p (fun a w => S a w ∧ P w)
      (fun e w => E e w ∧ P w) :=
  ht.and_stable h.stable h.exec

end Lasting

/-! ## What is known of one request -/

/-- The request got past its reservation. -/
def Receipt.Advanced (R : Receipt) : Prop := ∃ row, R.row = some row ∧ row.status ≠ .received

theorem Receipt.Advanced.later {R R' : Receipt} (h : R.Later R') (hR : R.Advanced) :
    R'.Advanced := by
  obtain ⟨row, hrow, hstatus⟩ := hR
  obtain ⟨row', hrow', hp⟩ := h.row row hrow
  refine ⟨row', hrow', fun hrec => hstatus ?_⟩
  have hrank : row.status.rank ≤ 0 := by simpa [hrec, Status.rank] using hp.rank
  revert hrank
  cases row.status <;> simp [Status.rank]

theorem Kept.advanced : Kept H i fun w => (w.receipt r).Advanced := .later Receipt.Advanced.later

/-- The thread holds a request that has not been claimed. -/
structure Receipt.Received (i : Nat) (row : Row) (R : Receipt) : Prop where
  owned : R.Owned i
  present : R.row = some row
  status : row.status = .received

/-- No approval has been created for it yet. -/
structure Receipt.Opening (i : Nat) (row : Row) (R : Receipt) : Prop where
  received : R.Received i row
  empty : R.approvals = []

/-- The thread has just reserved it. -/
structure Receipt.New (i : Nat) (res : Reservation) (row : Row) (R : Receipt) : Prop where
  opening : R.Opening i row
  events : R.events = [⟨i, .reserved res⟩]

theorem Receipt.New.untouched {res : Reservation} {row : Row} {R : Receipt} (h : R.New i res row) :
    R.Untouched :=
  ⟨h.opening.empty, by simp [h.events, Act.isReserved]⟩

/-- The thread has won the claim and is executing the request. -/
structure Receipt.Executing (i : Nat) (row : Row) (st : Stage) (R : Receipt) : Prop where
  owned : R.Owned i
  present : R.row = some row
  status : row.status = .executing
  settled : ∀ a ∈ R.approvals, a.status ≠ .pending
  stage : effects R.events = st.events

/-- Nothing has been executed yet, and what may be handed to the runtime is what was reserved. -/
structure Receipt.Claimed (i : Nat) (row : Row) (b : Bool) (toolOp : Option ToolOp)
    (arguments : Json) (R : Receipt) : Prop where
  executing : R.Executing i row (.claimed i b)
  handed : ∀ t, toolOp = some t → ∀ j res, ⟨j, .reserved res⟩ ∈ R.events → Handed res t arguments

theorem Kept.opening {row : Row} : Kept H i fun w => (w.receipt r).Opening i row :=
  .owned fun _ h => h.received.owned

theorem Kept.received {row : Row} : Kept H i fun w => (w.receipt r).Received i row :=
  .owned fun _ h => h.owned

theorem Kept.new {res : Reservation} {row : Row} : Kept H i fun w => (w.receipt r).New i res row :=
  .owned fun _ h => h.opening.received.owned

theorem Kept.executing {row : Row} {st : Stage} :
    Kept H i fun w => (w.receipt r).Executing i row st :=
  .owned fun _ h => h.owned

theorem Kept.claimed {row : Row} {b : Bool} {t : Option ToolOp} {a : Json} :
    Kept H i fun w => (w.receipt r).Claimed i row b t a :=
  .owned fun _ h => h.executing.owned

theorem Receipt.Executing.advanced {R : Receipt} {row : Row} {st : Stage}
    (h : R.Executing i row st) : R.Advanced :=
  ⟨row, h.present, by simp [h.status]⟩

/-! ## Ending a request -/

/-- The update ends the request in status `s` and leaves what it is bound to alone. -/
structure RequestFields.Ending (f : RequestFields) (s : Status) : Prop where
  status : f.status = some s
  terminal : s.terminal = true
  generation : f.operationGeneration = none
  binding : f.policyBinding = none
  digest : f.requestDigest = none

namespace RequestFields.Ending
variable {f : RequestFields} {s : Status} {now : Time} {row : Row}

theorem cleared (h : f.Ending s) :
    f.cleared = { f with actionJson := some none, argumentsJson := some none } := by
  simp [RequestFields.cleared, h.status, h.terminal]

theorem result_status (h : f.Ending s) : (f.result now row).status = s := by
  simp [RequestFields.result, h.cleared, RequestFields.apply, h.status]

theorem result_json (h : f.Ending s) :
    (f.result now row).resultJson = f.resultJson.getD row.resultJson := by
  simp [RequestFields.result, h.cleared, RequestFields.apply]

theorem ends (h : f.Ending s) : Ends row (f.result now row) where
  frozen := by
    simp [RequestFields.result, h.cleared, RequestFields.apply, Row.frozen, h.generation, h.binding,
      h.digest]
  terminal := h.result_status ▸ h.terminal
  cleared := by simp [RequestFields.result, h.cleared, RequestFields.apply]

end RequestFields.Ending

theorem triple_ending {P : World → Prop} {E : Exn → World → Prop} {f : RequestFields} {s : Status}
    (hP : Kept H i P) (hf : f.Ending s)
    (hreq : ∀ w, w.Sound H → P w → UpdateAllowed i (w.receipt r) f) :
    (discipline H).Triple i P (perform (.updateRequest r f))
      (fun _ w => (w.receipt r).Advanced) E := by
  refine triple_perform hP hreq fun w ω hsound hw => ?_
  obtain ⟨-, row, hrow, -⟩ := hreq w hsound hw
  have hdb : w.db.updateRequest ω.now r f =
      w.db.setRequest r (f.cleared.apply ω.now) fun _ => rfl := by
    simp [Db.updateRequest, hf.cleared, RequestFields.isEmpty]
  have hrun := receipt_setRequest (H := H) (i := i) (o := .updateRequest r f)
    (congrArg (Prod.mk ()) hdb) r
  rw [if_pos rfl, hrow] at hrun
  have hstatus : (f.result ω.now row).status ≠ .received := by
    rw [hf.result_status]
    rintro rfl
    cases hf.terminal
  exact ⟨_, congrArg Receipt.row hrun, hstatus⟩

/-- A request that was just reserved may end in any status no effect precedes. -/
theorem Receipt.Opening.ends {row : Row} (h : (w.receipt r).Opening i row) (hs : w.Sound H)
    {f : RequestFields} {s : Status} (hf : f.Ending s) (hidle : s.unclaimed = true ∨ s = .failed)
    (hresult : f.resultJson = none) : UpdateAllowed i (w.receipt r) f := by
  have hrow := (hs.current.receipts r).row h.received.present
  have hnone : row.resultJson = none := by
    by_contra hsome
    have hdone := hrow.result (Option.isSome_iff_ne_none.2 hsome)
    simp [h.received.status] at hdone
  refine ⟨h.received.owned, row, h.received.present, .inr ⟨by simp [h.empty], .idle,
    hrow.idle (by simp [h.received.status, Status.unclaimed]), fun now => ⟨hf.ends, ?_, ?_⟩⟩⟩
  · rcases hidle with hun | rfl
    · exact Stage.fits_idle (hf.result_status ▸ hun)
    · simp [Stage.Fits, hf.result_status, Stage.delivered]
  · simp [hf.result_json, hresult, hnone]

/-- A request that is being executed may end as its history has it. -/
theorem Receipt.Executing.ends {row : Row} {st : Stage} (h : (w.receipt r).Executing i row st)
    (hs : w.Sound H) {f : RequestFields} {s : Status} (hf : f.Ending s)
    (hfits : ∀ row' : Row, row'.status = s → row'.resultJson = f.resultJson.getD none →
      st.Fits row') (hresult : f.resultJson.isSome → s = .completed) :
    UpdateAllowed i (w.receipt r) f := by
  have hrow := (hs.current.receipts r).row h.present
  have hnone : row.resultJson = none := by
    by_contra hsome
    have hdone := hrow.result (Option.isSome_iff_ne_none.2 hsome)
    simp [h.status] at hdone
  refine ⟨h.owned, row, h.present, .inr ⟨h.settled, st, h.stage, fun now => ⟨hf.ends, ?_, ?_⟩⟩⟩
  · exact hfits _ hf.result_status (by rw [hf.result_json, hnone])
  · rw [hf.result_status, hf.result_json, hnone]
    cases hres : f.resultJson with
    | none => simp
    | some v => exact fun _ => hresult (by rw [hres]; rfl)

end Toolstack.Broker
