import Mathlib.Data.List.Forall2
import Toolstack.Interleave.Sequential

/-! Two programs that take the same path, and two runs of them: what comes of the one is like what comes
of the other. The calls, answers and exceptions that are alike are the reader's to say. -/

namespace Toolstack.Interleave

/-- Which calls, answers and exceptions of two kinds of program are alike. -/
structure Likeness (Op : Type) (Ret : Op → Type) (ε Op' : Type) (Ret' : Op' → Type) (ε' : Type) where
  call : Op → Op' → Prop
  answer : (o : Op) → (o' : Op') → Ret o → Ret' o' → Prop
  exn : ε → ε' → Prop

namespace Prog

variable {Op Op' : Type} {Ret : Op → Type} {Ret' : Op' → Type} {ε ε' α α' β β' World World' : Type}
  {L : Likeness Op Ret ε Op' Ret' ε'}

/-- The programs return alike, raise alike, or make calls that are alike and go on alike. -/
def Related (L : Likeness Op Ret ε Op' Ret' ε') (R : α → α' → Prop) : Prog Op Ret ε α → Prog Op' Ret' ε' α' → Prop
  | ret a, ret a' => R a a'
  | raise e, raise e' => L.exn e e'
  | call o k, call o' k' => L.call o o' ∧ ∀ r r', L.answer o o' r r' → (k r).Related L R (k' r')
  | _, _ => False

/-- Results that are alike. -/
def Results (L : Likeness Op Ret ε Op' Ret' ε') (R : α → α' → Prop) : Except ε α → Except ε' α' → Prop
  | .ok a, .ok a' => R a a'
  | .error e, .error e' => L.exn e e'
  | _, _ => False

variable {R : α → α' → Prop} {S : β → β' → Prop} {m : Prog Op Ret ε α} {m' : Prog Op' Ret' ε' α'}

theorem Related.bind {f : α → Prog Op Ret ε β} {f' : α' → Prog Op' Ret' ε' β'} (hm : m.Related L R m')
    (hf : ∀ a a', R a a' → (f a).Related L S (f' a')) : (m >>= f).Related L S (m' >>= f') := by
  induction m generalizing m' with
  | ret a =>
    cases m' with
    | ret a' => exact hf a a' hm
    | raise e' => cases hm
    | call o' k' => cases hm
  | raise e =>
    cases m' with
    | ret a' => cases hm
    | raise e' => exact hm
    | call o' k' => cases hm
  | call o k ih =>
    cases m' with
    | ret a' => cases hm
    | raise e' => cases hm
    | call o' k' => exact ⟨hm.1, fun r r' hr => ih r (hm.2 r r' hr)⟩

theorem Related.attempt (hm : m.Related L R m') : m.attempt.Related L (Results L R) m'.attempt := by
  induction m generalizing m' with
  | ret a =>
    cases m' with
    | ret a' => exact hm
    | raise e' => cases hm
    | call o' k' => cases hm
  | raise e =>
    cases m' with
    | ret a' => cases hm
    | raise e' => exact hm
    | call o' k' => cases hm
  | call o k ih =>
    cases m' with
    | ret a' => cases hm
    | raise e' => cases hm
    | call o' k' => exact ⟨hm.1, fun r r' hr => ih r (hm.2 r r' hr)⟩

theorem Related.perform {o : Op} {o' : Op'} (h : L.call o o') :
    (perform o : Prog Op Ret ε (Ret o)).Related L (L.answer o o') (perform o' : Prog Op' Ret' ε' (Ret' o')) :=
  ⟨h, fun _ _ hr => hr⟩

/-- A call, and what is done with its answer. -/
theorem Related.call (o : Op) (o' : Op') {f : Ret o → Prog Op Ret ε β} {f' : Ret' o' → Prog Op' Ret' ε' β'}
    (h : L.call o o') (hf : ∀ r r', L.answer o o' r r' → (f r).Related L S (f' r')) :
    (Prog.perform o >>= f).Related L S (Prog.perform o' >>= f') := .bind (.perform h) hf

/-- Worlds that are alike answer calls that are alike alike. -/
theorem Related.run {exec : (o : Op) → World → Ret o × World} {exec' : (o : Op') → World' → Ret' o × World'}
    {W : World → World' → Prop}
    (hexec : ∀ o o' w w', L.call o o' → W w w' →
      L.answer o o' (exec o w).1 (exec' o' w').1 ∧ W (exec o w).2 (exec' o' w').2)
    (hm : m.Related L R m') {w : World} {w' : World'} (hw : W w w') :
    Results L R (m.run exec w).result (m'.run exec' w').result ∧ W (m.run exec w).world (m'.run exec' w').world ∧
      List.Forall₂ (fun c c' => L.call c.1 c'.1 ∧ L.answer c.1 c'.1 c.2 c'.2) (m.run exec w).calls (m'.run exec' w').calls := by
  induction m generalizing m' w w' with
  | ret a =>
    cases m' with
    | ret a' => exact ⟨hm, hw, .nil⟩
    | raise e' => cases hm
    | call o' k' => cases hm
  | raise e =>
    cases m' with
    | ret a' => cases hm
    | raise e' => exact ⟨hm, hw, .nil⟩
    | call o' k' => cases hm
  | call o k ih =>
    cases m' with
    | ret a' => cases hm
    | raise e' => cases hm
    | call o' k' =>
      obtain ⟨hanswer, hnext⟩ := hexec o o' w w' hm.1 hw
      obtain ⟨hresult, hworld, hcalls⟩ := ih _ (hm.2 _ _ hanswer) hnext
      exact ⟨hresult, hworld, .cons ⟨hm.1, hanswer⟩ hcalls⟩

end Prog

end Toolstack.Interleave
