import Mathlib.Data.List.Infix
import Mathlib.Tactic.Common

/-! The byte budget of one execution: `bounds.chunks` over the bodies that a tool sends, in whatever
pieces they arrive. -/

namespace Toolstack.Broker.Bounds

abbrev Bytes := List UInt8

/-- One turn of `chunks`: the clock has reached the deadline, or the transport raises, or it can hand
on at most `size + 1` bytes. -/
inductive Turn
  | late
  | broken
  | arrives (size : Nat)

/-- How a consumer leaves a body: it stops asking, or `chunks` ends. -/
inductive Ending
  | abandoned
  | complete
  | exceeded
  | timedOut
  | broken
deriving DecidableEq, Repr

structure Reading where
  chunks : List Bytes
  ending : Ending
  remaining : Int

/-- What was handed on. -/
def Reading.yielded (r : Reading) : Bytes := r.chunks.flatten

/-- `LimitExceeded`, `TimeoutError` or an error of the transport. -/
def Reading.raised (r : Reading) : Bool :=
  r.ending = .exceeded || r.ending = .timedOut || r.ending = .broken

/-- `response.read1(n)`: at least one byte where there is one and `n` allows it. -/
def read1 (n : Int) (size : Nat) (body : Bytes) : Bytes :=
  if n < 0 then body.take (size + 1) else body.take (min n.toNat (size + 1))

/-- `chunks`, for a consumer that asks as often as there are turns. -/
def chunks : List Turn → Int → Bytes → Reading
  | [], remaining, _ => ⟨[], .abandoned, remaining⟩
  | .late :: _, remaining, _ => ⟨[], .timedOut, remaining⟩
  | .broken :: _, remaining, _ => ⟨[], .broken, remaining⟩
  | .arrives size :: turns, remaining, body =>
    let chunk := read1 (min 4096 (remaining + 1)) size body
    if chunk = [] then ⟨[], .complete, remaining⟩
    else if remaining - chunk.length < 0 then ⟨[], .exceeded, remaining - chunk.length⟩
    else
      let rest := chunks turns (remaining - chunk.length) (body.drop chunk.length)
      { rest with chunks := chunk :: rest.chunks }

/-- The bodies that one execution reads against its budget. What is raised ends the execution. -/
def operation : Int → List (Bytes × List Turn) → List Reading
  | _, [] => []
  | remaining, (body, turns) :: rest =>
    let reading := chunks turns remaining body
    if reading.raised then [reading] else reading :: operation reading.remaining rest

/-! ## One body -/

section
variable {remaining : Int} {size : Nat} {body : Bytes}

theorem read1_prefix (n : Int) : read1 n size body <+: body := by
  rw [read1]
  split_ifs
  · exact List.take_prefix ..
  · exact List.take_prefix ..

/-- With a budget left, nothing arrives only where nothing is left. -/
theorem read1_eq_nil (h : 0 ≤ remaining) :
    read1 (min 4096 (remaining + 1)) size body = [] ↔ body = [] := by
  have hpos : ¬ min 4096 (remaining + 1) < 0 := by omega
  rw [read1, if_neg hpos, List.take_eq_nil_iff]
  constructor
  · rintro (hzero | hnil)
    · omega
    · exact hnil
  · exact .inr

/-- What is known of a body read with `remaining` bytes of the budget left. -/
structure Spec (turns : List Turn) (remaining : Int) (body : Bytes) (r : Reading) : Prop where
  isPrefix : r.yielded <+: body
  bounded : (r.yielded.length : Int) ≤ remaining
  kept : r.raised = false → r.remaining = remaining - r.yielded.length
  whole : r.ending = .complete → r.yielded = body
  exceeded : r.ending = .exceeded → remaining < body.length
  inTime : (∀ turn ∈ turns, ∃ size, turn = .arrives size) → r.ending ≠ .timedOut ∧ r.ending ≠ .broken
  finished : body.length < turns.length → r.ending ≠ .abandoned

theorem chunks_spec (turns : List Turn) (h : 0 ≤ remaining) :
    Spec turns remaining body (chunks turns remaining body) := by
  induction turns generalizing remaining body with
  | nil => exact ⟨List.nil_prefix, h, by simp [chunks, Reading.yielded], nofun, nofun, fun _ => ⟨nofun, nofun⟩, nofun⟩
  | cons turn turns ih =>
    cases turn with
    | late =>
      refine ⟨List.nil_prefix, h, nofun, nofun, nofun, fun harrives => ?_, fun _ => nofun⟩
      obtain ⟨size, hsize⟩ := harrives _ (List.mem_cons_self ..)
      cases hsize
    | broken =>
      refine ⟨List.nil_prefix, h, nofun, nofun, nofun, fun harrives => ?_, fun _ => nofun⟩
      obtain ⟨size, hsize⟩ := harrives _ (List.mem_cons_self ..)
      cases hsize
    | arrives size =>
      rw [chunks]
      generalize hchunk : read1 (min 4096 (remaining + 1)) size body = chunk
      obtain ⟨left, rfl⟩ : chunk <+: body := hchunk ▸ read1_prefix _
      split_ifs with hnil hover
      · have hbody := (read1_eq_nil h).1 (hchunk.trans hnil)
        rw [hbody]
        exact ⟨List.nil_prefix, h, by simp [Reading.yielded], fun _ => rfl, nofun, fun _ => ⟨nofun, nofun⟩,
          fun _ => nofun⟩
      · refine ⟨List.nil_prefix, h, nofun, nofun, fun _ => ?_, fun _ => ⟨nofun, nofun⟩, fun _ => nofun⟩
        simp only [List.length_append]
        omega
      · rw [List.drop_left]
        have hlen : 0 < chunk.length := List.length_pos_iff.2 hnil
        have hrest := @ih (remaining - chunk.length) left (by omega)
        constructor
        case isPrefix => exact List.prefix_append_right_inj _ |>.2 hrest.isPrefix
        case bounded =>
          have hbound := hrest.bounded
          simp only [Reading.yielded, List.flatten_cons, List.length_append] at hbound ⊢
          omega
        case kept =>
          intro hraised
          have hkept := hrest.kept hraised
          simp only [Reading.yielded, List.flatten_cons, List.length_append] at hkept ⊢
          omega
        case whole => exact fun hend => congrArg (chunk ++ ·) (hrest.whole hend)
        case exceeded =>
          intro hend
          have hlt := hrest.exceeded hend
          rw [List.length_append]
          omega
        case inTime => exact fun harrives => hrest.inTime fun turn hmem => harrives turn (List.mem_cons_of_mem _ hmem)
        case finished =>
          intro hlt
          rw [List.length_append, List.length_cons] at hlt
          exact hrest.finished (by omega)

/-- Read to its end in time, a body comes whole or is refused. -/
theorem Spec.ends {turns : List Turn} {r : Reading} (h : Spec turns remaining body r)
    (harrives : ∀ turn ∈ turns, ∃ n, turn = .arrives n) (hread : r.ending ≠ .abandoned) :
    r.ending = .complete ∨ r.ending = .exceeded := by
  obtain ⟨htimedOut, hbroken⟩ := h.inTime harrives
  cases hend : r.ending with
  | complete => exact .inl rfl
  | exceeded => exact .inr rfl
  | abandoned => exact absurd hend hread
  | timedOut => exact absurd hend htimedOut
  | broken => exact absurd hend hbroken

theorem chunks_whole {size : Nat} {turns : List Turn} (hfits : body.length ≤ size)
    (henough : body.length < turns.length) (harrives : ∀ turn ∈ turns, ∃ n, turn = .arrives n) :
    (chunks turns size body).ending = .complete ∧ (chunks turns size body).yielded = body := by
  have hspec := @chunks_spec _ body turns (Int.natCast_nonneg size)
  rcases hspec.ends harrives (hspec.finished henough) with hend | hend
  · exact ⟨hend, hspec.whole hend⟩
  · have hover := hspec.exceeded hend
    omega

end

/-! ## One execution -/

end Toolstack.Broker.Bounds
