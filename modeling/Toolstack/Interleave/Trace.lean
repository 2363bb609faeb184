import Toolstack.Interleave.Cleanup

/-! What a program that runs alone can leave behind: how it ends together with every call it made,
whatever the answers were. -/

namespace Toolstack.Interleave

variable {Op : Type} {Ret : Op → Type} {ε α β ι World : Type}

namespace Prog

/-- On any answers, how the program ends and what it called meet `Q`. -/
def Trace : Prog Op Ret ε α → (Except ε α → List (Answered Op Ret) → Prop) → Prop
  | ret a, Q => Q (.ok a) []
  | raise e, Q => Q (.error e) []
  | call o k, Q => ∀ r, (k r).Trace fun result calls => Q result (⟨o, r⟩ :: calls)

section Trace
variable {Q Q' : Except ε α → List (Answered Op Ret) → Prop} {m : Prog Op Ret ε α}

@[simp] theorem trace_ret {a : α} : (ret a : Prog Op Ret ε α).Trace Q ↔ Q (.ok a) [] := Iff.rfl

@[simp] theorem trace_raise {e : ε} : (raise e : Prog Op Ret ε α).Trace Q ↔ Q (.error e) [] := Iff.rfl

@[simp] theorem trace_perform_bind {o : Op} {f : Ret o → Prog Op Ret ε α} :
    (perform o >>= f).Trace Q ↔ ∀ r, (f r).Trace fun result calls => Q result (⟨o, r⟩ :: calls) :=
  Iff.rfl

theorem Trace.run (h : m.Trace Q) (exec : (o : Op) → World → Ret o × World) (w : World) :
    Q (m.run exec w).result (m.run exec w).calls := by
  induction m generalizing Q w with
  | ret a => exact h
  | raise e => exact h
  | call o k ih => exact ih _ (h (exec o w).1) (exec o w).2

theorem Trace.mono (h : m.Trace Q) (hle : ∀ result calls, Q result calls → Q' result calls) :
    m.Trace Q' := by
  induction m generalizing Q Q' with
  | ret a => exact hle _ _ h
  | raise e => exact hle _ _ h
  | call o k ih =>
    intro r
    apply ih r (h r)
    intro result calls hcalls
    exact hle _ _ hcalls

/-- The calls of the second program come after those of the first. -/
theorem Trace.bind {f : α → Prog Op Ret ε β} {R : Except ε β → List (Answered Op Ret) → Prop}
    (h : m.Trace Q) (hraise : ∀ e calls, Q (.error e) calls → R (.error e) calls)
    (hret : ∀ a calls, Q (.ok a) calls → (f a).Trace fun result after => R result (calls ++ after)) :
    (m >>= f).Trace R := by
  induction m generalizing Q R with
  | ret a => exact hret a [] h
  | raise e => exact hraise e [] h
  | call o k ih =>
    intro r
    apply ih r (h r)
    · intro e calls hcalls
      exact hraise e _ hcalls
    · intro a calls hcalls
      exact hret a _ hcalls

end Trace

/-! ## One program after another -/

/-- Runs of the programs of a list, each in the world that the one before it left, whatever came
of that one. -/
def runEach (exec : (o : Op) → World → Ret o × World) (f : ι → Prog Op Ret ε α) :
    List ι → World → List (ι × Ran Op Ret ε α World)
  | [], _ => []
  | i :: is, w => (i, (f i).run exec w) :: runEach exec f is ((f i).run exec w).world

section RunEach
variable {exec : (o : Op) → World → Ret o × World} {f : ι → Prog Op Ret ε α}

theorem runEach_fst (is : List ι) (w : World) : (runEach exec f is w).map Prod.fst = is := by
  induction is generalizing w with
  | nil => rfl
  | cons i is ih => exact congrArg (i :: ·) (ih _)

theorem exists_of_mem_runEach {is : List ι} {w : World} {i : ι} {ran : Ran Op Ret ε α World}
    (h : (i, ran) ∈ runEach exec f is w) : i ∈ is ∧ ∃ w', ran = (f i).run exec w' := by
  induction is generalizing w with
  | nil => cases h
  | cons j is ih =>
    rcases List.mem_cons.1 h with heq | htail
    · obtain ⟨rfl, rfl⟩ := Prod.mk.inj heq
      exact ⟨List.mem_cons_self .., w, rfl⟩
    · obtain ⟨hmem, hran⟩ := ih htail
      exact ⟨List.mem_cons_of_mem _ hmem, hran⟩

end RunEach

end Prog

end Toolstack.Interleave
