import Toolstack.Interleave.Program

/-! A program run alone: its calls are answered one after the other, and what it called is
kept in order. -/

namespace Toolstack.Interleave

variable {Op : Type} {Ret : Op → Type} {ε α β World : Type}

/-- A call and its answer. -/
abbrev Answered (Op : Type) (Ret : Op → Type) := (o : Op) × Ret o

/-- What came of a program: its value or exception, the world, and its calls in order. -/
structure Ran (Op : Type) (Ret : Op → Type) (ε α World : Type) where
  result : Except ε α
  world : World
  calls : List (Answered Op Ret)

namespace Prog

variable (exec : (o : Op) → World → Ret o × World)

def run : Prog Op Ret ε α → World → Ran Op Ret ε α World
  | ret a, w => ⟨.ok a, w, []⟩
  | raise e, w => ⟨.error e, w, []⟩
  | call o k, w =>
    let rest := (k (exec o w).1).run (exec o w).2
    { rest with calls := ⟨o, (exec o w).1⟩ :: rest.calls }

variable {exec}

@[simp] theorem run_ret (a : α) (w : World) : (ret a : Prog Op Ret ε α).run exec w = ⟨.ok a, w, []⟩ :=
  rfl

@[simp] theorem run_raise (e : ε) (w : World) :
    (raise e : Prog Op Ret ε α).run exec w = ⟨.error e, w, []⟩ := rfl

@[simp] theorem run_perform_bind (o : Op) (f : Ret o → Prog Op Ret ε α) (w : World) :
    (perform o >>= f).run exec w =
      { (f (exec o w).1).run exec (exec o w).2 with
        calls := ⟨o, (exec o w).1⟩ :: ((f (exec o w).1).run exec (exec o w).2).calls } := rfl

theorem run_bind (m : Prog Op Ret ε α) (f : α → Prog Op Ret ε β) (w : World) :
    (m >>= f).run exec w = match (m.run exec w).result with
      | .ok a =>
        { (f a).run exec (m.run exec w).world with
          calls := (m.run exec w).calls ++ ((f a).run exec (m.run exec w).world).calls }
      | .error e => ⟨.error e, (m.run exec w).world, (m.run exec w).calls⟩ := by
  induction m generalizing w with
  | ret a => rfl
  | raise e => rfl
  | call o k ih =>
    rw [call_bind, run, ih, run]
    split <;> simp_all

theorem run_bind_ok {m : Prog Op Ret ε α} {f : α → Prog Op Ret ε β} {w : World} {b : β} :
    ((m >>= f).run exec w).result = .ok b ↔ ∃ a, (m.run exec w).result = .ok a ∧
      ((f a).run exec (m.run exec w).world).result = .ok b := by
  rw [run_bind]
  cases h : (m.run exec w).result with
  | ok a => simp
  | error e => simp

/-- What holds of every call a program can make holds of those it made. -/
theorem All.calls {p : Op → Prop} {m : Prog Op Ret ε α} (h : m.All p) (w : World) :
    ∀ c ∈ (m.run exec w).calls, p c.1 := by
  induction m generalizing w with
  | ret a | raise e => simp [run]
  | call o k ih =>
    intro c hc
    rcases List.mem_cons.1 hc with rfl | hmem
    · exact h.1
    · exact ih _ (h.2 _) _ c hmem

/-- Two worlds that answer every call a program can make alike give the same result. -/
theorem All.result_congr {p : Op → Prop} {R : World → World → Prop} {m : Prog Op Ret ε α} (h : m.All p)
    (hR : ∀ o w w', p o → R w w' → (exec o w).1 = (exec o w').1 ∧ R (exec o w).2 (exec o w').2)
    {w w' : World} (hw : R w w') : (m.run exec w).result = (m.run exec w').result := by
  induction m generalizing w w' with
  | ret a | raise e => rfl
  | call o k ih =>
    obtain ⟨hanswer, hnext⟩ := hR o w w' h.1 hw
    rw [run, run, hanswer]
    exact ih _ (h.2 _) hnext

/-- What every call keeps, the run keeps. -/
theorem All.world {p : Op → Prop} {I : World → Prop} {m : Prog Op Ret ε α} (h : m.All p)
    (hI : ∀ o w, p o → I w → I (exec o w).2) {w : World} (hw : I w) : I (m.run exec w).world := by
  induction m generalizing w with
  | ret a | raise e => exact hw
  | call o k ih => exact ih _ (h.2 _) (hI o w h.1 hw)

end Prog

end Toolstack.Interleave
