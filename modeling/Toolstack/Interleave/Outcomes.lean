import Toolstack.Interleave.Sequential

/-! What a program can make of a world when it runs alone: a stream of oracles resolves its calls,
and worlds count up to an equivalence that every call respects. -/

namespace Toolstack.Interleave

variable {Op : Type} {Ret : Op → Type} {ε α β World Oracle : Type}

/-- One call, resolved by the next oracle. -/
def answering (exec : (o : Op) → Oracle → World → Ret o × World) (o : Op) (s : World × (Nat → Oracle)) :
    Ret o × (World × (Nat → Oracle)) :=
  ((exec o (s.2 0) s.1).1, (exec o (s.2 0) s.1).2, fun n => s.2 (n + 1))

/-- One oracle before the others. -/
def prepend (ω : Oracle) (rest : Nat → Oracle) : Nat → Oracle
  | 0 => ω
  | n + 1 => rest n

/-- Worlds that count as the same answer every call alike. -/
structure Respects (exec : (o : Op) → Oracle → World → Ret o × World) (R : World → World → Prop) : Prop where
  equivalence : Equivalence R
  step : ∀ o ω w w', R w w' → (exec o ω w).1 = (exec o ω w').1 ∧ R (exec o ω w).2 (exec o ω w').2

/-- A call that leaves the world what it counts as. -/
def Silent (exec : (o : Op) → Oracle → World → Ret o × World) (R : World → World → Prop) (o : Op) : Prop :=
  ∀ ω w, R (exec o ω w).2 w

namespace Prog

/-- The program can end in a world that counts as `w'`. -/
def Leaves (exec : (o : Op) → Oracle → World → Ret o × World) (R : World → World → Prop)
    (m : Prog Op Ret ε α) (w w' : World) : Prop :=
  ∃ ω : Nat → Oracle, R (m.run (answering exec) (w, ω)).world.1 w'

variable {exec : (o : Op) → Oracle → World → Ret o × World} {R : World → World → Prop}
  {m : Prog Op Ret ε α} {w w' w₁ w₂ : World}

theorem run_respects (h : Respects exec R) (m : Prog Op Ret ε α) (ω : Nat → Oracle) (hw : R w w') :
    (m.run (answering exec) (w, ω)).result = (m.run (answering exec) (w', ω)).result ∧
      R (m.run (answering exec) (w, ω)).world.1 (m.run (answering exec) (w', ω)).world.1 := by
  induction m generalizing w w' ω with
  | ret a => exact ⟨rfl, hw⟩
  | raise e => exact ⟨rfl, hw⟩
  | call o k ih =>
    obtain ⟨hanswer, hnext⟩ := h.step o (ω 0) w w' hw
    simp only [run, answering, hanswer]
    exact ih _ _ hnext

theorem leaves_congr (h : Respects exec R) (hw : R w₁ w₂) : m.Leaves exec R w₁ w' ↔ m.Leaves exec R w₂ w' := by
  constructor
  · rintro ⟨ω, hω⟩
    exact ⟨ω, h.equivalence.trans (h.equivalence.symm (run_respects h m ω hw).2) hω⟩
  · rintro ⟨ω, hω⟩
    exact ⟨ω, h.equivalence.trans (run_respects h m ω hw).2 hω⟩

theorem leaves_ret [Nonempty Oracle] {a : α} :
    (ret a : Prog Op Ret ε α).Leaves exec R w w' ↔ R w w' :=
  ⟨fun ⟨_, h⟩ => h, fun h => ⟨fun _ => Classical.ofNonempty, h⟩⟩

theorem leaves_raise [Nonempty Oracle] {e : ε} :
    (raise e : Prog Op Ret ε α).Leaves exec R w w' ↔ R w w' :=
  ⟨fun ⟨_, h⟩ => h, fun h => ⟨fun _ => Classical.ofNonempty, h⟩⟩

theorem leaves_call {o : Op} {k : Ret o → Prog Op Ret ε α} :
    (call o k).Leaves exec R w w' ↔ ∃ ω, (k (exec o ω w).1).Leaves exec R (exec o ω w).2 w' := by
  constructor
  · rintro ⟨ω, h⟩
    exact ⟨ω 0, fun n => ω (n + 1), h⟩
  · rintro ⟨ω, rest, h⟩
    exact ⟨prepend ω rest, h⟩

/-- A silent call is forgotten, but for its answer. -/
theorem leaves_silent (h : Respects exec R) {o : Op} (ho : Silent exec R o) {k : Ret o → Prog Op Ret ε α} :
    (call o k).Leaves exec R w w' ↔ ∃ ω, (k (exec o ω w).1).Leaves exec R w w' :=
  leaves_call.trans (exists_congr fun ω => leaves_congr h (ho ω w))

/-- What only makes silent calls afterwards is forgotten. -/
theorem leaves_bind_silent [Nonempty Oracle] (h : Respects exec R) {f : α → Prog Op Ret ε β}
    (hf : ∀ a, (f a).All (Silent exec R)) : (m >>= f).Leaves exec R w w' ↔ m.Leaves exec R w w' := by
  have hsilent : ∀ {p : Prog Op Ret ε β} {w}, p.All (Silent exec R) → (p.Leaves exec R w w' ↔ R w w') := by
    intro p
    induction p with
    | ret b => exact fun _ => leaves_ret
    | raise e => exact fun _ => leaves_raise
    | call o k ih =>
      intro w hall
      rw [leaves_silent h hall.1]
      exact ⟨fun ⟨ω, hω⟩ => (ih _ (hall.2 _)).1 hω,
        fun hw => ⟨Classical.ofNonempty, (ih _ (hall.2 _)).2 hw⟩⟩
  induction m generalizing w with
  | ret a => exact (hsilent (hf a)).trans leaves_ret.symm
  | raise e => exact leaves_raise.trans leaves_raise.symm
  | call o k ih =>
    rw [call_bind, leaves_call, leaves_call]
    exact exists_congr fun ω => ih _

theorem leaves_bind_congr {f : α → Prog Op Ret ε β} {γ : Type} {g : α → Prog Op Ret ε γ} [Nonempty Oracle]
    (hfg : ∀ a w, (f a).Leaves exec R w w' ↔ (g a).Leaves exec R w w') :
    (m >>= f).Leaves exec R w w' ↔ (m >>= g).Leaves exec R w w' := by
  induction m generalizing w with
  | ret a => exact hfg a w
  | raise e => exact leaves_raise.trans leaves_raise.symm
  | call o k ih =>
    rw [call_bind, call_bind, leaves_call, leaves_call]
    exact exists_congr fun ω => ih _

theorem leaves_attempt [Nonempty Oracle] : m.attempt.Leaves exec R w w' ↔ m.Leaves exec R w w' := by
  induction m generalizing w with
  | ret a => exact leaves_ret.trans leaves_ret.symm
  | raise e => exact leaves_ret.trans leaves_raise.symm
  | call o k ih =>
    rw [attempt, leaves_call, leaves_call]
    exact exists_congr fun ω => ih _

end Prog

end Toolstack.Interleave
