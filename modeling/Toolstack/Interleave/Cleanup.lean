import Toolstack.Interleave.Sequential

/-! Programs that run alone and may fail at any call: `try … finally`, what is known where such a
program returns and where it raises, and programs that stop at their first failure. -/

namespace Toolstack.Interleave.Prog

variable {Op : Type} {Ret : Op → Type} {ε α β World : Type}

/-- `try: m finally: fin`. An exception of `fin` takes the place of whatever `m` did. -/
def tryFinally (m : Prog Op Ret ε α) (fin : Prog Op Ret ε Unit) : Prog Op Ret ε α := do
  let result ← m.attempt
  fin
  match result with
  | .ok a => return a
  | .error e => raise e

theorem tryFinally_call (o : Op) (k : Ret o → Prog Op Ret ε α) (fin : Prog Op Ret ε Unit) :
    (call o k).tryFinally fin = call o fun r => (k r).tryFinally fin := rfl

theorem All.tryFinally {p : Op → Prop} {m : Prog Op Ret ε α} {fin : Prog Op Ret ε Unit}
    (hm : m.All p) (hfin : fin.All p) : (m.tryFinally fin).All p :=
  hm.attempt.bind fun result => hfin.bind fun _ => by cases result <;> trivial

/-! ## Outcomes -/

/-- From worlds in `P`, the program returns into `Q` or raises into `E`. -/
def Sat (exec : (o : Op) → World → Ret o × World) (P : World → Prop) (m : Prog Op Ret ε α)
    (Q : α → World → Prop) (E : ε → World → Prop) : Prop :=
  ∀ w, P w → match (m.run exec w).result with
    | .ok a => Q a (m.run exec w).world
    | .error e => E e (m.run exec w).world

section Sat
variable {exec : (o : Op) → World → Ret o × World} {P P' : World → Prop} {Q Q' : α → World → Prop}
  {R : β → World → Prop} {E E' : ε → World → Prop} {m : Prog Op Ret ε α}

theorem Sat.returned (h : Sat exec P m Q E) {w : World} (hw : P w) {a : α}
    (ha : (m.run exec w).result = .ok a) : Q a (m.run exec w).world := by
  have hm := h w hw
  simp only [ha] at hm
  exact hm

theorem Sat.raised (h : Sat exec P m Q E) {w : World} (hw : P w) {e : ε}
    (he : (m.run exec w).result = .error e) : E e (m.run exec w).world := by
  have hm := h w hw
  simp only [he] at hm
  exact hm

/-- What is known whether or not the program raises. -/
theorem Sat.always {I : World → Prop} (h : Sat exec P m (fun _ => I) fun _ => I) {w : World} (hw : P w) :
    I (m.run exec w).world := by
  cases hresult : (m.run exec w).result with
  | ok a => exact h.returned hw hresult
  | error e => exact h.raised hw hresult

theorem Sat.ret {a : α} (h : ∀ w, P w → Q a w) : Sat exec P (ret a) Q E := h

theorem Sat.raise {e : ε} (h : ∀ w, P w → E e w) : Sat exec P (raise e) Q E := h

theorem Sat.exists {γ : Type} {P : γ → World → Prop} (h : ∀ x, Sat exec (P x) m Q E) :
    Sat exec (fun w => ∃ x, P x w) m Q E := fun w ⟨x, hw⟩ => h x w hw

theorem Sat.or (h : Sat exec P m Q E) (h' : Sat exec P' m Q E) : Sat exec (fun w => P w ∨ P' w) m Q E :=
  fun w hw => hw.elim (h w) (h' w)

theorem Sat.conseq (h : Sat exec P m Q E) (hP : ∀ w, P' w → P w) (hQ : ∀ a w, Q a w → Q' a w)
    (hE : ∀ e w, E e w → E' e w) : Sat exec P' m Q' E' := by
  intro w hw
  have hm := h w (hP w hw)
  cases hresult : (m.run exec w).result with
  | ok a =>
    simp only [hresult] at hm ⊢
    exact hQ a _ hm
  | error e =>
    simp only [hresult] at hm ⊢
    exact hE e _ hm

theorem Sat.bind {f : α → Prog Op Ret ε β} (hm : Sat exec P m Q E)
    (hf : ∀ a, Sat exec (Q a) (f a) R E) : Sat exec P (m >>= f) R E := by
  intro w hw
  have hfirst := hm w hw
  rw [run_bind]
  cases hresult : (m.run exec w).result with
  | ok a =>
    simp only [hresult] at hfirst ⊢
    exact hf a _ hfirst
  | error e =>
    simp only [hresult] at hfirst ⊢
    exact hfirst

theorem run_attempt (m : Prog Op Ret ε α) (w : World) :
    m.attempt.run exec w = ⟨.ok (m.run exec w).result, (m.run exec w).world, (m.run exec w).calls⟩ := by
  induction m generalizing w with
  | ret a => rfl
  | raise e => rfl
  | call o k ih => simp only [attempt, run, ih]

theorem Sat.attempt (h : Sat exec P m Q E) :
    Sat exec P m.attempt (fun result w => match result with
      | .ok a => Q a w
      | .error e => E e w) E' := by
  intro w hw
  rw [run_attempt]
  exact h w hw

/-- What the cleanup keeps is known at the end, whether or not the cleanup itself succeeds. -/
theorem Sat.tryFinally {fin : Prog Op Ret ε Unit} {p : Op → Prop} (h : Sat exec P m Q E)
    (hfin : fin.All p) (hQ : ∀ a o w, p o → Q a w → Q a (exec o w).2)
    (hE : ∀ e o w, p o → E e w → E e (exec o w).2) :
    Sat exec P (m.tryFinally fin) Q fun _ w => (∃ e, E e w) ∨ ∃ a, Q a w := by
  refine .bind h.attempt fun result => ?_
  intro w hw
  have hkept : match result with
      | .ok a => Q a (fin.run exec w).world
      | .error e => E e (fin.run exec w).world := by
    cases result with
    | ok a => exact hfin.world (I := Q a) (fun o w ho => hQ a o w ho) hw
    | error e => exact hfin.world (I := E e) (fun o w ho => hE e o w ho) hw
  rw [run_bind]
  cases hdone : (fin.run exec w).result with
  | error e =>
    cases result with
    | ok a => exact .inr ⟨a, hkept⟩
    | error e => exact .inl ⟨e, hkept⟩
  | ok u =>
    cases result with
    | ok a => exact hkept
    | error e => exact .inl ⟨e, hkept⟩

theorem Sat.perform {o : Op} {P : World → Prop} {Q : Ret o → World → Prop}
    (h : ∀ w, P w → Q (exec o w).1 (exec o w).2) : Sat exec P (perform o : Prog Op Ret ε (Ret o)) Q E := h

/-- What every call keeps is known at the end. -/
theorem Sat.of_all {p : Op → Prop} (hm : m.All p) (hI : ∀ o w, p o → P w → P (exec o w).2) :
    Sat exec P m (fun _ => P) fun _ => P := by
  intro w hw
  have hkept := hm.world hI hw
  cases (m.run exec w).result <;> exact hkept

/-- The program never raises. -/
def Returns : Prog Op Ret ε α → Prop
  | .ret _ => True
  | .raise _ => False
  | .call _ k => ∀ r, (k r).Returns

theorem Returns.bind {f : α → Prog Op Ret ε β} (hm : m.Returns) (hf : ∀ a, (f a).Returns) :
    (m >>= f).Returns := by
  induction m with
  | ret a => exact hf a
  | raise e => cases hm
  | call o k ih => exact fun r => ih r (hm r)

theorem Returns.run (hm : m.Returns) (w : World) : ∃ a, (m.run exec w).result = .ok a := by
  induction m generalizing w with
  | ret a => exact ⟨a, rfl⟩
  | raise e => cases hm
  | call o k ih => exact ih _ (hm _) _

theorem Sat.of_returns (h : Sat exec P m Q E) (hm : m.Returns) : Sat exec P m Q E' := by
  intro w hw
  obtain ⟨a, ha⟩ : ∃ a, (m.run exec w).result = .ok a := hm.run w
  rw [ha]
  exact h.returned hw ha

end Sat

/-! ## Stopping at the first failure -/

/-- The program makes calls of `cleanup` only, and raises. -/
def Failing (cleanup : Op → Prop) : Prog Op Ret ε α → Prop
  | ret _ => False
  | raise _ => True
  | call o k => cleanup o ∧ ∀ r, (k r).Failing cleanup

/-- Once a call has failed, the program cleans up and raises. -/
def FailStop (failed : (o : Op) → Ret o → Prop) (cleanup : Op → Prop) : Prog Op Ret ε α → Prop
  | ret _ => True
  | raise _ => True
  | call o k => ∀ r, (failed o r → (k r).Failing cleanup) ∧ (k r).FailStop failed cleanup

section FailStop
variable {failed : (o : Op) → Ret o → Prop} {cleanup : Op → Prop} {m : Prog Op Ret ε α}
  {fin : Prog Op Ret ε Unit}

theorem Failing.bind {f : α → Prog Op Ret ε β} (hm : m.Failing cleanup) : (m >>= f).Failing cleanup := by
  induction m with
  | ret a => cases hm
  | raise e => trivial
  | call o k ih => exact ⟨hm.1, fun r => ih r (hm.2 r)⟩

theorem Failing.of_all (hfin : fin.All cleanup) {f : Unit → Prog Op Ret ε α}
    (hf : ∀ u, (f u).Failing cleanup) : (fin >>= f).Failing cleanup := by
  induction fin with
  | ret a => exact hf a
  | raise e => trivial
  | call o k ih => exact ⟨hfin.1, fun r => ih r (hfin.2 r)⟩

theorem Failing.tryFinally (hm : m.Failing cleanup) (hfin : fin.All cleanup) :
    (m.tryFinally fin).Failing cleanup := by
  induction m with
  | ret a => cases hm
  | raise e => exact .of_all hfin fun _ => trivial
  | call o k ih => exact ⟨hm.1, fun r => ih r (hm.2 r)⟩

theorem FailStop.bind {f : α → Prog Op Ret ε β} (hm : m.FailStop failed cleanup)
    (hf : ∀ a, (f a).FailStop failed cleanup) : (m >>= f).FailStop failed cleanup := by
  induction m with
  | ret a => exact hf a
  | raise e => trivial
  | call o k ih => exact fun r => ⟨fun hr => ((hm r).1 hr).bind, ih r (hm r).2⟩

theorem FailStop.tryFinally (hm : m.FailStop failed cleanup) (hfin : fin.FailStop failed cleanup)
    (hall : fin.All cleanup) : (m.tryFinally fin).FailStop failed cleanup := by
  induction m with
  | ret a => exact hfin.bind fun _ => trivial
  | raise e => exact hfin.bind fun _ => trivial
  | call o k ih => exact fun r => ⟨fun hr => ((hm r).1 hr).tryFinally hall, ih r (hm r).2⟩

variable {exec : (o : Op) → World → Ret o × World}

theorem Failing.run (hm : m.Failing cleanup) (w : World) :
    (∃ e, (m.run exec w).result = .error e) ∧ ∀ c ∈ (m.run exec w).calls, cleanup c.1 := by
  induction m generalizing w with
  | ret a => cases hm
  | raise e => exact ⟨⟨e, rfl⟩, by simp⟩
  | call o k ih =>
    obtain ⟨herror, hcalls⟩ := ih _ (hm.2 _) (exec o w).2
    exact ⟨herror, List.forall_mem_cons.2 ⟨hm.1, hcalls⟩⟩

/-- Where a call of a run failed, the run raises, and what follows the call is cleanup. -/
theorem FailStop.run (hm : m.FailStop failed cleanup) {w : World} {pre post : List (Answered Op Ret)}
    {c : Answered Op Ret} (hcalls : (m.run exec w).calls = pre ++ c :: post)
    (hfailed : failed c.1 c.2) :
    (∃ e, (m.run exec w).result = .error e) ∧ ∀ c ∈ post, cleanup c.1 := by
  induction m generalizing w pre with
  | ret a => simp at hcalls
  | raise e => simp at hcalls
  | call o k ih =>
    rw [Prog.run] at hcalls ⊢
    obtain ⟨hfail, hrest⟩ := hm (exec o w).1
    cases pre with
    | nil =>
      obtain ⟨rfl, rfl⟩ := List.cons.inj hcalls
      exact (hfail hfailed).run (exec o w).2
    | cons c' pre => exact ih _ hrest (List.cons.inj hcalls).2

/-- What all the calls of a run keep, it keeps. -/
theorem run_keeps {I : World → Prop} {good : Answered Op Ret → Prop}
    (hI : ∀ o w, I w → good ⟨o, (exec o w).1⟩ → I (exec o w).2) {w : World} (hw : I w)
    (hgood : ∀ c ∈ (m.run exec w).calls, good c) : I (m.run exec w).world := by
  induction m generalizing w with
  | ret a => exact hw
  | raise e => exact hw
  | call o k ih =>
    rw [Prog.run] at hgood ⊢
    obtain ⟨hfirst, hrest⟩ := List.forall_mem_cons.1 hgood
    exact ih _ (hI o w hw hfirst) hrest

end FailStop

end Toolstack.Interleave.Prog
