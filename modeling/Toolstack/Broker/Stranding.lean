import Toolstack.Broker.Revocation

/-! Stranded reservations: a submit that has reserved a request brings it out of `received`, unless the
envelope check of a REST call raises on the way. -/

namespace Toolstack.Broker

open Interleave (Discipline Prog System)
open Interleave.Discipline (Triple)

variable {H : Hash} {i r : Nat} {w : World} {c c' : Config} {m : Move} {α β : Type}

/-! ## What a thread was told first -/

/-- The earliest of the calls in question; the log is newest first. -/
def firstAnswer (f : Call → Option β) (log : List Call) : Option β := (log.filterMap f).getLast?

/-- The lookups of thread `i`. -/
def Call.lookedUp (i : Nat) : Call → Option (Option ToolOp)
  | ⟨j, .lookup .., t⟩ => if j = i then some t else none
  | _ => none

/-- The policies thread `i` read. -/
def Call.policyRead (i : Nat) : Call → Option Policy
  | ⟨j, .policyFor _, p⟩ => if j = i then some p else none
  | _ => none

/-- The call looks an operation up, or reads a policy. -/
def Op.asks : Op → Bool
  | lookup .. | policyFor _ => true
  | _ => false

def Told (f : Call → Option β) (b : β) (w : World) : Prop := firstAnswer f w.log = some b

def Untold (f : Call → Option β) (w : World) : Prop := firstAnswer f w.log = none

theorem firstAnswer_eq_none {f : Call → Option β} {log : List Call} :
    firstAnswer f log = none ↔ ∀ c ∈ log, f c = none := by
  rw [firstAnswer, List.getLast?_eq_none_iff, List.filterMap_eq_nil_iff]

theorem Told.unique {f : Call → Option β} {b b' : β} (h : Told f b w) (h' : Told f b' w) : b = b' :=
  Option.some.inj (h.symm.trans h')

/-- The calls in question are those of thread `i`. -/
def Own (i : Nat) (f : Call → Option β) : Prop := ∀ c, c.thread ≠ i → f c = none

theorem own_lookedUp : Own i (Call.lookedUp i) := by
  intro c hc
  unfold Call.lookedUp
  split
  · exact if_neg hc
  · rfl

theorem own_policyRead : Own i (Call.policyRead i) := by
  intro c hc
  unfold Call.policyRead
  split
  · exact if_neg hc
  · rfl

theorem Untold.stable {f : Call → Option β} (hf : Own i f) : (discipline H).Stable i (Untold f) := by
  intro w w' _ _ hothers hw
  obtain ⟨new, hlog, hnew⟩ := Others.log hothers
  refine firstAnswer_eq_none.2 fun c hc => ?_
  rw [hlog] at hc
  rcases List.mem_append.1 hc with hmem | hmem
  · exact hf c (hnew c hmem)
  · exact firstAnswer_eq_none.1 hw c hmem

theorem Untold.exec {f : Call → Option β} {o : Op} {ω : Oracle} (h : Untold f w)
    (ho : f ⟨i, o, (o.run H ω w).1⟩ = none) : Untold f (w.exec H i o ω).2 := by
  refine firstAnswer_eq_none.2 fun c hc => ?_
  rcases List.mem_cons.1 hc with rfl | hmem
  · exact ho
  · exact firstAnswer_eq_none.1 h c hmem

namespace Lifecycle

/-- A REST call with a text body that cannot be encoded, whose other fields pass their checks. -/
structure Unencodable (t : ToolOp) (arguments : List (PyStr × Json)) : Prop where
  rest : t.type = .rest
  kind : t.bodyKind = .text
  maps : stringMap "variables" arguments = none ∧ stringMap "headers" arguments = none
  body : ∃ s, Json.find? arguments (py "body") = some (.str s) ∧ s.any CodePoint.isSurrogate = true

/-- Thread `i` submits a call that cannot be encoded, under a policy that does not deny it. -/
def Strands (i : Nat) (tool op : String) (arguments : Json) (w : World) : Prop :=
  ∃ t p kvs, Told (Call.lookedUp i) (some t) w ∧ Told (Call.policyRead i) p w ∧
    p.decide tool op ≠ .deny ∧ arguments = .obj kvs ∧ Unencodable t kvs

variable {ctx : Context} {caller : Caller} {tool op : String} {toolOp : ToolOp} {corr : Text}
  {arguments : List (PyStr × Json)} {reason key : Json} {hasKey : Bool} {req row : Row} {res : Reservation}

/-- The request got on, unless the submit strands it. -/
def Judged (i r : Nat) (tool op : String) (arguments : Json) (w : World) : Prop :=
  (w.receipt r).Advanced ↔ ¬ Strands i tool op arguments w

/-- The thread reserved nothing, or it got what it reserved on unless it strands it. -/
def Decided (i : Nat) (tool op : String) (arguments : Json) (w : World) : Prop :=
  Idle i w ∨ ∃ r res, ⟨i, .reserved res⟩ ∈ (w.receipt r).events ∧ Judged i r tool op arguments w

/-- What a sweep calls, and asks nothing. -/
def Mute (p : Action α) : Prop := p.All fun o => o.sweeps = true ∧ o.asks = false

/-- Before a submit asks for its operation it has asked nothing. -/
structure Silent (i : Nat) (w : World) : Prop where
  idle : Idle i w
  lookup : Untold (Call.lookedUp i) w
  policy : Untold (Call.policyRead i) w

theorem Silent.stable : (discipline H).Stable i (Silent i) := fun hs hs' hothers hw =>
  ⟨Kept.idle.stable hs hs' hothers hw.idle, Untold.stable own_lookedUp hs hs' hothers hw.lookup,
    Untold.stable own_policyRead hs hs' hothers hw.policy⟩

end Lifecycle

/-! ## Every run -/

namespace Sample

abbrev BrokerThread := Interleave.Thread Op Op.Ret Exn Reply Job

def raises : BrokerThread → Bool
  | ⟨_, some (.raise _)⟩ => true
  | _ => false

/-- The thread reserved the request. -/
def reserves (i : Nat) (e : Event) : Bool := e.thread = i && e.act.isReserved

theorem of_reserves {es : List Event} (h : es.any (reserves i) = true) :
    ∃ res, (⟨i, .reserved res⟩ : Event) ∈ es := by
  obtain ⟨⟨j, act⟩, hmem, he⟩ := List.any_eq_true.1 h
  rw [reserves, Bool.and_eq_true, decide_eq_true_eq] at he
  obtain ⟨rfl, hact⟩ := he
  cases act with
  | reserved res => exact ⟨res, hmem⟩
  | _ => cases hact

/-- The operation the thread looked up first is not a REST operation. -/
def plain (i : Nat) (log : List Call) : Bool :=
  (firstAnswer (Call.lookedUp i) log).all fun t => t.all (·.type ≠ .rest)

end Sample

end Toolstack.Broker
