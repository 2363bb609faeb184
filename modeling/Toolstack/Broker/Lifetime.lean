import Toolstack.Broker.Receipt

/-! The life of one request: everything any call of any thread can do to its receipt. What
holds of a request through every run is read off these steps. -/

namespace Toolstack.Broker

open Json (canonical normal)

/-! ## What never changes -/

/-- The columns no transaction writes after the insertion. -/
def Row.frozen (r : Row) : Row :=
  { r with status := .received, argumentsJson := none, resultJson := none, error := none,
           updatedAt := 0, actionJson := none, prunedAt := none }

def ApprovalRow.frozen (a : ApprovalRow) : ApprovalRow :=
  { a with status := .pending, approver := none, note := none, decidedAt := none }

namespace Status

/-- A status is only ever followed by one of the same or a higher rank. -/
def rank : Status → Nat
  | received => 0
  | pendingApproval => 1
  | executing | running => 2
  | _ => 3

theorem rank_terminal {s : Status} : s.terminal = true ↔ s.rank = 3 := by
  cases s <;> decide

theorem rank_le (s : Status) : s.rank ≤ 3 := by cases s <;> decide

theorem not_terminal_of_held {s : Status} (h : s.held = true) : s.terminal = false := by
  cases s <;> first | rfl | cases h

end Status

structure Row.Precedes (r r' : Row) : Prop where
  frozen : r'.frozen = r.frozen
  rank : r.status.rank ≤ r'.status.rank
  pending : r'.status.terminal = false →
    r'.argumentsJson = r.argumentsJson ∧ r'.actionJson = r.actionJson

theorem Row.Precedes.refl (r : Row) : r.Precedes r := ⟨rfl, le_rfl, fun _ => ⟨rfl, rfl⟩⟩

theorem Row.Precedes.terminal {r r' : Row} (h : r.Precedes r') (ht : r.status.terminal = true) :
    r'.status.terminal = true := by
  have hrank := h.rank
  rw [Status.rank_terminal] at ht ⊢
  have hle := r'.status.rank_le
  omega

theorem Row.Precedes.trans {r₁ r₂ r₃ : Row} (h : r₁.Precedes r₂) (h' : r₂.Precedes r₃) :
    r₁.Precedes r₃ where
  frozen := h'.frozen.trans h.frozen
  rank := h.rank.trans h'.rank
  pending ht := by
    have ht₂ : r₂.status.terminal = false := by
      cases hc : r₂.status.terminal with
      | false => rfl
      | true => exact absurd (h'.terminal hc) (by simp [ht])
    exact ⟨(h'.pending ht).1.trans (h.pending ht₂).1, (h'.pending ht).2.trans (h.pending ht₂).2⟩

/-- What a thread that does not hold the request may still count on. -/
structure Receipt.Later (R R' : Receipt) : Prop where
  row : ∀ r, R.row = some r → ∃ r', R'.row = some r' ∧ r.Precedes r'
  approvals : R.approvals.map ApprovalRow.frozen <+: R'.approvals.map ApprovalRow.frozen

theorem Receipt.Later.refl (R : Receipt) : R.Later R :=
  ⟨fun r h => ⟨r, h, .refl r⟩, List.prefix_rfl⟩

theorem Receipt.Later.trans {R₁ R₂ R₃ : Receipt} (h : R₁.Later R₂) (h' : R₂.Later R₃) :
    R₁.Later R₃ where
  row r hr := by
    obtain ⟨r₂, hr₂, hp⟩ := h.row r hr
    obtain ⟨r₃, hr₃, hp'⟩ := h'.row r₂ hr₂
    exact ⟨r₃, hr₃, hp.trans hp'⟩
  approvals := h.approvals.trans h'.approvals

/-! ## Steps -/

/-- A pending approval is closed, any other keeps its status. -/
structure Closes (a a' : ApprovalRow) : Prop where
  frozen : a'.frozen = a.frozen
  status : a'.status = a.status ∨ a.status = .pending ∧ a'.status ≠ .approved
  closed : a'.status ≠ .pending

/-- The row ends, with the columns a terminal status leaves. -/
structure Ends (row row' : Row) : Prop where
  frozen : row'.frozen = row.frozen
  terminal : row'.status.terminal = true
  cleared : row'.argumentsJson = none ∧ row'.actionJson = none

theorem Ends.precedes {row row' : Row} (h : Ends row row') : row.Precedes row' where
  frozen := h.frozen
  rank := by
    rw [Status.rank_terminal.1 h.terminal]
    exact row.status.rank_le
  pending ht := by simp [h.terminal] at ht

theorem Row.close_ends {now : Time} {s : Status} {e : Option String} {row : Row}
    (hs : s.terminal = true) : Ends row (row.close now s e) :=
  ⟨rfl, hs, rfl, rfl⟩

/-- Nothing has come of the request since it was reserved. -/
structure Receipt.Untouched (R : Receipt) : Prop where
  approvals : R.approvals = []
  events : ∀ e ∈ R.events, e.act.isReserved = true

theorem Receipt.Untouched.settled {R : Receipt} (h : R.Untouched) :
    ∀ a ∈ R.approvals, a.status ≠ .pending := by
  simp [h.approvals]

/-- What one call of thread `i` can do to a receipt. -/
inductive Receipt.Step (H : Hash) (i : Nat) : Receipt → Receipt → Prop
  | stay (R : Receipt) : Step H i R R
  | reserve {R : Receipt} {row : Row} {res : Reservation} (absent : R.row = none)
      (reserved : Reserved H res row) (status : row.status = .received)
      (result : row.resultJson = none) :
      Step H i R { R with row := some row, events := ⟨i, .reserved res⟩ :: R.events }
  | card {R : Receipt} {row : Row} (card : Card) (owned : R.Owned i) (present : R.row = some row)
      (status : row.status = .received) :
      Step H i R { R with events := ⟨i, .carded card⟩ :: R.events }
  | opening {R : Receipt} {row : Row} {a : ApprovalRow} (owned : R.Owned i)
      (present : R.row = some row) (status : row.status = .received) (empty : R.approvals = [])
      (pending : a.status = .pending) :
      Step H i R { R with approvals := [a], events := ⟨i, .opened⟩ :: R.events }
  | park {R : Receipt} {row : Row} (now : Time) (owned : R.Owned i) (present : R.row = some row)
      (status : row.status = .received) :
      Step H i R { R with row := some { row with status := .pendingApproval, updatedAt := now } }
  | claim {R : Receipt} {row : Row} (now : Time) (owned : R.Owned i) (present : R.row = some row)
      (status : row.status = .received) (untouched : R.Untouched) :
      Step H i R { R with row := some { row with status := .executing, updatedAt := now },
                          events := ⟨i, .claimed false⟩ :: R.events }
  | approve {R : Receipt} {row : Row} {a a' : ApprovalRow} (now : Time) (present : R.row = some row)
      (status : row.status = .pendingApproval) (single : R.approvals = [a])
      (pending : a.status = .pending) (frozen : a'.frozen = a.frozen)
      (approved : a'.status = .approved) :
      Step H i R { row := some { row with status := .executing, updatedAt := now },
                   approvals := [a'], events := ⟨i, .claimed true⟩ :: R.events }
  | execute {R : Receipt} {row : Row} {b : Bool} (toolOp : ToolOp) (arguments : Json)
      (owned : R.Owned i) (present : R.row = some row) (status : row.status = .executing)
      (stage : effects R.events = (Stage.claimed i b).events)
      (handed : ∀ j res, ⟨j, .reserved res⟩ ∈ R.events → Handed res toolOp arguments) :
      Step H i R { R with events := ⟨i, .executed toolOp arguments⟩ :: R.events }
  | send {R : Receipt} {row : Row} {b : Bool} {toolOp : ToolOp} {arguments : Json}
      (request : HttpRequest) (exchange : Exchange)
      (owned : R.Owned i) (present : R.row = some row) (status : row.status = .executing)
      (stage : effects R.events = (Stage.executed i b toolOp arguments).events) :
      Step H i R { R with events := ⟨i, .sent request exchange⟩ :: R.events }
  | settle {R : Receipt} {row row' : Row} {st : Stage} (owned : R.Owned i)
      (present : R.row = some row) (ends : Ends row row')
      (settled : ∀ a ∈ R.approvals, a.status ≠ .pending)
      (stage : effects R.events = st.events) (fits : st.Fits row')
      (result : row'.resultJson.isSome → row'.status = .completed) :
      Step H i R { R with row := some row' }
  | refuse {R : Receipt} {row row' : Row} (f : ApprovalRow → ApprovalRow) (present : R.row = some row)
      (status : row.status = .pendingApproval) (ends : Ends row row')
      (result : row'.resultJson = row.resultJson)
      (refused : row'.status = .denied ∨ row'.status = .expired)
      (closes : ∀ a ∈ R.approvals, Closes a (f a)) :
      Step H i R { R with row := some row', approvals := R.approvals.map f }
  | prune {R : Receipt} {row : Row} (now : Time) (f : ApprovalRow → ApprovalRow)
      (present : R.row = some row) (old : Db.prunable now row)
      (kept : ∀ a ∈ R.approvals, (f a).frozen = a.frozen ∧ (f a).status = a.status) :
      Step H i R { R with row := some (row.prune now), approvals := R.approvals.map f }

theorem Db.prunable_terminal {now : Time} {row : Row} (h : Db.prunable now row) :
    row.status.terminal = true := by
  simp only [Db.prunable, Bool.and_eq_true] at h
  exact h.2

theorem Row.prune_status_terminal {now : Time} {row : Row} (h : row.status.terminal = true) :
    (row.prune now).status.terminal = true := by
  simp only [Row.prune]
  split_ifs
  · rfl
  · exact h

namespace Receipt.Step
variable {H : Hash} {i j : Nat} {R R' : Receipt}

/-- Nobody but its holder touches a request that is held. -/
theorem frame (h : Step H i R R') (hj : R.Owned j) (hne : i ≠ j) : R' = R := by
  have hnot : ¬R.Owned i := fun hi => hne (hi.unique hj)
  obtain ⟨⟨row, hrow, hheld⟩, -⟩ := hj
  have hstatus : ∀ {row'}, R.row = some row' → row'.status.held = true := fun h => by
    obtain rfl := Option.some.inj (hrow.symm.trans h)
    exact hheld
  cases h with
  | stay => rfl
  | reserve absent => cases hrow.symm.trans absent
  | card _ owned | opening owned | park _ owned | claim _ owned | execute _ _ owned
  | send _ _ owned | settle owned => exact absurd owned hnot
  | approve _ present status => simpa [status, Status.held] using hstatus present
  | refuse _ present status => simpa [status, Status.held] using hstatus present
  | prune _ _ present old =>
    simpa [Status.not_terminal_of_held (hstatus present)] using Db.prunable_terminal old

theorem later (h : Step H i R R') : R.Later R' := by
  have hrow : ∀ {row row' : Row} {as : List ApprovalRow} {es : List Event}, R.row = some row →
      row.Precedes row' → R.approvals.map ApprovalRow.frozen <+: as.map ApprovalRow.frozen →
      R.Later ⟨some row', as, es⟩ := fun hr hp ha =>
    ⟨fun r h => ⟨_, rfl, by rwa [← Option.some.inj (hr.symm.trans h)]⟩, ha⟩
  have hmap : ∀ {f : ApprovalRow → ApprovalRow}, (∀ a ∈ R.approvals, (f a).frozen = a.frozen) →
      R.approvals.map ApprovalRow.frozen <+: (R.approvals.map f).map ApprovalRow.frozen := by
    intro f hf
    have heq : (R.approvals.map f).map ApprovalRow.frozen = R.approvals.map ApprovalRow.frozen := by
      rw [List.map_map]
      exact List.map_congr_left hf
    exact heq.symm ▸ List.prefix_rfl
  cases h with
  | stay => exact .refl R
  | reserve absent =>
    exact ⟨fun r h => by simp [absent] at h, List.prefix_rfl⟩
  | card _ _ present => exact ⟨fun r h => ⟨r, h, .refl r⟩, List.prefix_rfl⟩
  | opening _ _ _ empty =>
    exact ⟨fun r h => ⟨r, h, .refl r⟩, by simp [empty]⟩
  | park now _ present status =>
    exact hrow present ⟨rfl, by simp [status, Status.rank], fun _ => ⟨rfl, rfl⟩⟩ List.prefix_rfl
  | claim now _ present status =>
    exact hrow present ⟨rfl, by simp [status, Status.rank], fun _ => ⟨rfl, rfl⟩⟩ List.prefix_rfl
  | approve now present status single _ frozen =>
    exact hrow present ⟨rfl, by simp [status, Status.rank], fun _ => ⟨rfl, rfl⟩⟩
      (by simp [single, frozen])
  | execute | send => exact ⟨fun r h => ⟨r, h, .refl r⟩, List.prefix_rfl⟩
  | settle _ present ends =>
    exact hrow present (ends.precedes) List.prefix_rfl
  | refuse f present _ ends _ _ closes =>
    exact hrow present ends.precedes (hmap fun a ha => (closes a ha).frozen)
  | prune now f present old kept =>
    have hterm := Db.prunable_terminal old
    refine hrow present ⟨rfl, ?_, fun hn => ?_⟩ (hmap fun a ha => (kept a ha).1)
    · rw [Status.rank_terminal.1 hterm, Status.rank_terminal.1 (Row.prune_status_terminal hterm)]
    · simp [Row.prune_status_terminal hterm] at hn

end Receipt.Step

/-! ## Every step keeps a receipt sound -/

theorem effects_cons_of_not {e : Event} {es : List Event} (h : e.act.isEffect = false) :
    effects (e :: es) = effects es := by
  simp [effects, h]

theorem effects_cons {e : Event} {es : List Event} (h : e.act.isEffect = true) :
    effects (e :: es) = e :: effects es := by
  simp [effects, h]

theorem Stage.events_injective {st st' : Stage} (h : st.events = st'.events) : st = st' := by
  cases st <;> cases st' <;> simp_all [Stage.events]

/-- Statuses that no claim has preceded. -/
def Status.unclaimed : Status → Bool
  | received | pendingApproval | denied | expired | notFound | invalid => true
  | _ => false

theorem Stage.fits_idle {row : Row} (h : row.status.unclaimed = true) : Stage.idle.Fits row := by
  unfold Stage.Fits
  split <;> simp_all [Status.unclaimed]

theorem Stage.Fits.idle {st : Stage} {row : Row} (hf : st.Fits row)
    (h : row.status.unclaimed = true) : st = .idle := by
  unfold Stage.Fits at hf
  split at hf <;> simp_all [Status.unclaimed]

theorem Reserved.of_frozen {H : Hash} {res : Reservation} {row row' : Row} (h : Reserved H res row)
    (hf : row'.frozen = row.frozen)
    (harg : row'.status.terminal = false → row.status.terminal = false ∧
      row'.argumentsJson = row.argumentsJson) : Reserved H res row' where
  callerId := (congrArg Row.callerId hf).trans h.callerId
  tool := (congrArg Row.tool hf).trans h.tool
  op := (congrArg Row.op hf).trans h.op
  generation := (congrArg Row.operationGeneration hf).trans h.generation
  key := by rw [h.key, show row.idempotencyKey = _ from (congrArg Row.idempotencyKey hf).symm]; rfl
  payload := by
    obtain ⟨text, ht, hd⟩ := h.payload
    exact ⟨text, ht, (congrArg Row.payloadDigest hf).trans hd⟩
  bound := by
    obtain ⟨fresh, text, ht, hd⟩ := h.bound
    exact ⟨fresh, text, ht, (congrArg Row.requestDigest hf).trans hd⟩
  arguments ht := by
    obtain ⟨ht', heq⟩ := harg ht
    exact heq.trans (h.arguments ht')

namespace RowSound
variable {H : Hash} {row row' : Row} {R : Receipt} {e : Event}

theorem stage_eq (h : RowSound H row R) {st : Stage} (hst : effects R.events = st.events) :
    st.Fits row := by
  obtain ⟨st', hst', hfits⟩ := h.stage
  exact Stage.events_injective (hst'.symm.trans hst) ▸ hfits

theorem idle (h : RowSound H row R) (hs : row.status.unclaimed = true) : effects R.events = [] := by
  obtain ⟨st, hst, hfits⟩ := h.stage
  rw [hst, hfits.idle hs]
  rfl

/-- One more event that is not a reservation. -/
theorem reserved_cons (h : RowSound H row R) (he : e.act.isReserved = false)
    (hrow : ∀ res, Reserved H res row → Reserved H res row')
    (hhand : ∀ j res t a, ⟨j, .reserved res⟩ ∈ R.events → e.act = .executed t a → Handed res t a) :
    ∃ front i res, e :: R.events = front ++ [⟨i, .reserved res⟩] ∧
      (∀ e ∈ front, e.act.isReserved = false) ∧ Reserved H res row' ∧
      ∀ e ∈ front, ∀ t a, e.act = .executed t a → Handed res t a := by
  obtain ⟨front, i, res, hev, hfront, hres, hhanded⟩ := h.reserved
  refine ⟨e :: front, i, res, by rw [hev, List.cons_append], ?_, hrow res hres, ?_⟩
  · intro e' he'
    rcases List.mem_cons.1 he' with rfl | hmem
    · exact he
    · exact hfront e' hmem
  · intro e' he' t a hact
    rcases List.mem_cons.1 he' with rfl | hmem
    · exact hhand i res t a (by rw [hev]; simp) hact
    · exact hhanded e' hmem t a hact

theorem reserved_same (h : RowSound H row R)
    (hrow : ∀ res, Reserved H res row → Reserved H res row') :
    ∃ front i res, R.events = front ++ [⟨i, .reserved res⟩] ∧
      (∀ e ∈ front, e.act.isReserved = false) ∧ Reserved H res row' ∧
      ∀ e ∈ front, ∀ t a, e.act = .executed t a → Handed res t a := by
  obtain ⟨front, i, res, hev, hfront, hres, hhanded⟩ := h.reserved
  exact ⟨front, i, res, hev, hfront, hrow res hres, hhanded⟩

theorem approved_mono (h : RowSound H row R) {as : List ApprovalRow} {es : List Event}
    (has : ∀ a' ∈ as, a'.status = .approved → ∃ a ∈ R.approvals, a.status = .approved)
    (hes : ∀ e ∈ R.events, e ∈ es) :
    ∀ a ∈ as, a.status = .approved → ∃ e ∈ es, e.act = .claimed true := by
  intro a' ha' hs
  obtain ⟨a, ha, hs'⟩ := has a' ha' hs
  obtain ⟨e, he, hact⟩ := h.approved a ha hs'
  exact ⟨e, hes e he, hact⟩

/-- An event that is no effect, in a request whose row stays. -/
theorem cons_note (h : RowSound H row R) (he : e.act.isEffect = false)
    (hr : e.act.isReserved = false) :
    RowSound H row ⟨R.row, R.approvals, e :: R.events⟩ where
  reserved := h.reserved_cons hr (fun _ hres => hres) fun _ _ t a _ hact => by
    rw [hact] at he
    cases he
  cleared := h.cleared
  result := h.result
  current := h.current
  single := h.single
  stage := by
    obtain ⟨st, hst, hfits⟩ := h.stage
    exact ⟨st, by rw [effects_cons_of_not he, hst], hfits⟩
  approved := h.approved_mono (fun a ha hs => ⟨a, ha, hs⟩) fun e' he' => List.mem_cons_of_mem _ he'

/-- The request ends while its history stays as it is. -/
theorem ends {row' : Row} {as : List ApprovalRow} (h : RowSound H row R) (hends : Ends row row')
    (hlen : as.length = R.approvals.length)
    (has : ∀ a' ∈ as, a'.status = .approved → ∃ a ∈ R.approvals, a.status = .approved)
    (hresult : row'.resultJson.isSome → row'.status = .completed)
    (hstage : ∃ st : Stage, effects R.events = st.events ∧ st.Fits row') :
    RowSound H row' ⟨some row', as, R.events⟩ where
  reserved := h.reserved_same fun res hres =>
    hres.of_frozen hends.frozen fun ht => by simp [hends.terminal] at ht
  cleared _ := hends.cleared
  result := hresult
  current hc := by simpa [hc, Status.terminal] using hends.terminal
  single := hlen ▸ h.single
  stage := hstage
  approved := h.approved_mono has fun _ he => he

end RowSound

theorem Receipt.Sound.row {H : Hash} {R : Receipt} {row : Row} (h : R.Sound H)
    (hr : R.row = some row) : RowSound H row R := by
  simpa [Receipt.Sound, hr] using h

theorem Receipt.Sound.absent {H : Hash} {R : Receipt} (h : R.Sound H) (hr : R.row = none) :
    R.approvals = [] ∧ R.events = [] := by
  simpa [Receipt.Sound, hr] using h

theorem Receipt.Sound.of_row {H : Hash} {row : Row} {as : List ApprovalRow} {es : List Event}
    (h : RowSound H row ⟨some row, as, es⟩) : Receipt.Sound H ⟨some row, as, es⟩ := h

/-- The invariant of one request, step by step. -/
theorem Receipt.Step.sound {H : Hash} {i : Nat} {R R' : Receipt} (h : Receipt.Step H i R R')
    (hs : R.Sound H) : R'.Sound H := by
  cases h with
  | stay => exact hs
  | reserve absent reserved status result =>
    obtain ⟨happ, hev⟩ := hs.absent absent
    refine Receipt.Sound.of_row
      { reserved := ⟨[], i, _, by rw [hev]; rfl, by simp, reserved, by simp⟩
        cleared := fun ht => by simp [status, Status.terminal] at ht
        result := fun hr => by simp [result] at hr
        current := by simp [status]
        single := by simp [happ]
        stage := ⟨.idle, by rw [hev]; rfl, Stage.fits_idle (by simp [status, Status.unclaimed])⟩
        approved := by simp [happ] }
  | @card row card owned present status =>
    have hrow := (hs.row present).cons_note (e := ⟨i, .carded card⟩) rfl rfl
    simpa [Receipt.Sound, present] using hrow
  | @opening row a owned present status empty pending =>
    have hrow := (hs.row present).cons_note (e := ⟨i, .opened⟩) rfl rfl
    have hsound : RowSound H row ⟨R.row, [a], ⟨i, .opened⟩ :: R.events⟩ :=
      { hrow with
        single := le_rfl
        approved := fun b hb hst => by
          obtain rfl := List.mem_singleton.1 hb
          simp [pending] at hst }
    simpa [Receipt.Sound, present] using hsound
  | @park row now owned present status =>
    have hrow := hs.row present
    exact Receipt.Sound.of_row
      { reserved := hrow.reserved_same fun res hres =>
          hres.of_frozen rfl fun _ => ⟨by simp [status, Status.terminal], rfl⟩
        cleared := fun ht => by simp [Status.terminal] at ht
        result := fun hr => by simpa [status] using hrow.result hr
        current := by simp
        single := hrow.single
        stage := ⟨.idle, hrow.idle (by simp [status, Status.unclaimed]), Stage.fits_idle rfl⟩
        approved := hrow.approved }
  | @claim row now owned present status untouched =>
    have hrow := hs.row present
    exact Receipt.Sound.of_row
      { reserved := hrow.reserved_cons rfl
          (fun res hres => hres.of_frozen rfl fun _ => ⟨by simp [status, Status.terminal], rfl⟩)
          fun _ _ _ _ _ hact => by cases hact
        cleared := fun ht => by simp [Status.terminal] at ht
        result := fun hr => by simpa [status] using hrow.result hr
        current := by simp
        single := hrow.single
        stage := ⟨.claimed i false, by
          rw [effects_cons rfl, hrow.idle (by simp [status, Status.unclaimed])]
          rfl, by simp [Stage.Fits]⟩
        approved := hrow.approved_mono (fun a ha hst => ⟨a, ha, hst⟩)
          fun e he => List.mem_cons_of_mem _ he }
  | @approve row a a' now present status single pending frozen approved =>
    have hrow := hs.row present
    exact Receipt.Sound.of_row
      { reserved := hrow.reserved_cons rfl
          (fun res hres => hres.of_frozen rfl fun _ => ⟨by simp [status, Status.terminal], rfl⟩)
          fun _ _ _ _ _ hact => by cases hact
        cleared := fun ht => by simp [Status.terminal] at ht
        result := fun hr => by simpa [status] using hrow.result hr
        current := by simp
        single := le_rfl
        stage := ⟨.claimed i true, by
          rw [effects_cons rfl, hrow.idle (by simp [status, Status.unclaimed])]
          rfl, by simp [Stage.Fits]⟩
        approved := fun _ _ _ => ⟨_, List.mem_cons_self .., rfl⟩ }
  | @execute row b toolOp arguments owned present status stage handed =>
    have hrow := hs.row present
    have hsound : RowSound H row ⟨R.row, R.approvals, ⟨i, .executed toolOp arguments⟩ :: R.events⟩ :=
      { reserved := hrow.reserved_cons rfl (fun _ hres => hres) fun j res t a hmem hact => by
          obtain ⟨rfl, rfl⟩ := Act.executed.inj hact
          exact handed j res hmem
        cleared := hrow.cleared
        result := hrow.result
        current := hrow.current
        single := hrow.single
        stage := ⟨.executed i b toolOp arguments, by rw [effects_cons rfl, stage]; rfl,
          by simp [Stage.Fits, status]⟩
        approved := hrow.approved_mono (fun a ha hst => ⟨a, ha, hst⟩)
          fun e he => List.mem_cons_of_mem _ he }
    simpa [Receipt.Sound, present] using hsound
  | @send row b toolOp arguments request exchange owned present status stage =>
    have hrow := hs.row present
    have hsound : RowSound H row ⟨R.row, R.approvals, ⟨i, .sent request exchange⟩ :: R.events⟩ :=
      { reserved := hrow.reserved_cons rfl (fun _ hres => hres) fun _ _ _ _ _ hact => by cases hact
        cleared := hrow.cleared
        result := hrow.result
        current := hrow.current
        single := hrow.single
        stage := ⟨.sent i b toolOp arguments request exchange,
          by rw [effects_cons rfl, stage]; rfl, by simp [Stage.Fits, status]⟩
        approved := hrow.approved_mono (fun a ha hst => ⟨a, ha, hst⟩)
          fun e he => List.mem_cons_of_mem _ he }
    simpa [Receipt.Sound, present] using hsound
  | settle owned present ends settled stage fits result =>
    exact Receipt.Sound.of_row
      ((hs.row present).ends ends rfl (fun a ha hst => ⟨a, ha, hst⟩) result ⟨_, stage, fits⟩)
  | @refuse row row' f present status ends result refused closes =>
    have hrow := hs.row present
    have hunclaimed : row'.status.unclaimed = true := by
      rcases refused with h | h <;> simp [h, Status.unclaimed]
    refine Receipt.Sound.of_row (hrow.ends ends (by simp) ?_ ?_
      ⟨.idle, hrow.idle (by simp [status, Status.unclaimed]), Stage.fits_idle hunclaimed⟩)
    · intro a' ha' hst
      obtain ⟨a, ha, rfl⟩ := List.mem_map.1 ha'
      rcases (closes a ha).status with heq | ⟨-, hne⟩
      · exact ⟨a, ha, heq ▸ hst⟩
      · exact absurd hst hne
    · intro hr
      rw [result] at hr
      simpa [status] using hrow.result hr
  | @prune row now f present old kept =>
    have hrow := hs.row present
    have hterm := Db.prunable_terminal old
    refine Receipt.Sound.of_row (hrow.ends
      ⟨rfl, Row.prune_status_terminal hterm, rfl, rfl⟩ (by simp) ?_ (by simp [Row.prune]) ?_)
    · intro a' ha' hst
      obtain ⟨a, ha, rfl⟩ := List.mem_map.1 ha'
      exact ⟨a, ha, (kept a ha).2 ▸ hst⟩
    · obtain ⟨st, hst, hfits⟩ := hrow.stage
      refine ⟨st, hst, ?_⟩
      by_cases hc : row.status = .completed
      · simp only [Stage.Fits, hc] at hfits
        obtain ⟨j, b, t, a, m, x, rfl, -, -⟩ := hfits
        simp [Stage.Fits, Row.prune, hc]
      · revert hfits
        simp only [Stage.Fits, Row.prune, if_neg hc]
        split <;> simp_all

end Toolstack.Broker
