import Toolstack.Interleave.Trace

/-! A program over some calls, run as part of one over others. -/

namespace Toolstack.Interleave.Prog

variable {Op Op' : Type} {Ret : Op → Type} {Ret' : Op' → Type} {ε ε' α : Type}

/-- `handler` makes each call of the program; its exception is handed over as a value. -/
def handle (handler : (o : Op) → Prog Op' Ret' ε' (Ret o)) : Prog Op Ret ε α → Prog Op' Ret' ε' (Except ε α)
  | ret a => ret (.ok a)
  | raise e => ret (.error e)
  | call o k => handler o >>= fun r => (k r).handle handler

section Trace
variable {Q : Except ε α → List (Answered Op Ret) → Prop} {m : Prog Op Ret ε α}

theorem Trace.always (m : Prog Op Ret ε α) : m.Trace fun _ _ => True := by
  induction m with
  | ret a | raise e => trivial
  | call o k ih => exact fun r => ih r

/-- What every call of a program is, is known of the calls it made. -/
theorem All.trace {p : Op → Prop} (hm : m.All p) (h : m.Trace Q) :
    m.Trace fun result calls => (∀ c ∈ calls, p c.1) ∧ Q result calls := by
  induction m generalizing Q with
  | ret a | raise e => exact ⟨fun c hc => absurd hc List.not_mem_nil, h⟩
  | call o k ih =>
    intro r
    refine (ih r (hm.2 r) (h r)).mono fun result calls hcalls => ⟨?_, hcalls.2⟩
    exact List.forall_mem_cons.2 ⟨hm.1, hcalls.1⟩

/-- What every run of a program meets is met on any answers. -/
theorem Trace.of_run [∀ o, Nonempty (Ret o)]
    (h : ∀ (World : Type) (exec : (o : Op) → World → Ret o × World) (w : World),
      Q (m.run exec w).result (m.run exec w).calls) : m.Trace Q := by
  classical
  induction m generalizing Q with
  | ret a => exact h Unit (fun _ w => (Classical.choice inferInstance, w)) ()
  | raise e => exact h Unit (fun _ w => (Classical.choice inferInstance, w)) ()
  | call o k ih =>
    intro r
    refine ih r fun World exec w => ?_
    -- a world that has not been asked yet answers `r`, and then goes on as `exec`
    let first (o' : Op) : Option World → Ret o' × Option World
      | none => (if ho : o = o' then ho ▸ r else (exec o' w).1, some w)
      | some w => ((exec o' w).1, some (exec o' w).2)
    have hlater : ∀ (n : Prog Op Ret ε α) (w : World), (n.run first (some w)).result = (n.run exec w).result ∧
        (n.run first (some w)).calls = (n.run exec w).calls := by
      intro n
      induction n with
      | ret a | raise e => exact fun _ => ⟨rfl, rfl⟩
      | call o' k' ih' =>
        intro w
        obtain ⟨hresult, hcalls⟩ := ih' (exec o' w).1 (exec o' w).2
        exact ⟨hresult, congrArg (_ :: ·) hcalls⟩
    have hrun := h (Option World) first none
    have hanswer : first o none = (r, some w) := by
      simp only [first, dite_true]
    rw [Prog.run, hanswer] at hrun
    obtain ⟨hresult, hcalls⟩ := hlater (k r) w
    simp only [hresult, hcalls] at hrun
    exact hrun

end Trace

section Handle
variable {handler : (o : Op) → Prog Op' Ret' ε' (Ret o)}

theorem All.handle {p : Op → Prop} {q : Op' → Prop} {m : Prog Op Ret ε α} (hm : m.All p)
    (h : ∀ o, p o → (handler o).All q) : (m.handle handler).All q := by
  induction m with
  | ret a | raise e => trivial
  | call o k ih => exact (h o hm.1).bind fun r => ih r (hm.2 r)

/-- A handler that answers each call by calls in the relation `T` runs the program as it is. -/
theorem Trace.handle {Q : Except ε α → List (Answered Op Ret) → Prop}
    {T : List (Answered Op Ret) → List (Answered Op' Ret') → Prop} {m : Prog Op Ret ε α} (hm : m.Trace Q)
    (hnil : T [] [])
    (hcall : ∀ o, (handler o).Trace fun answer made => ∃ r, answer = .ok r ∧
      ∀ calls after, T calls after → T (⟨o, r⟩ :: calls) (made ++ after)) :
    (m.handle handler).Trace fun result made => ∃ r calls, result = .ok r ∧ Q r calls ∧ T calls made := by
  induction m generalizing Q with
  | ret a => exact ⟨.ok a, [], rfl, hm, hnil⟩
  | raise e => exact ⟨.error e, [], rfl, hm, hnil⟩
  | call o k ih =>
    refine (hcall o).bind ?_ ?_
    · rintro e made ⟨r, hr, -⟩
      cases hr
    · rintro r made ⟨r', hr, hmade⟩
      obtain rfl := Except.ok.inj hr
      refine (ih r (hm r)).mono ?_
      rintro result after ⟨r', calls, hresult, hq, hafter⟩
      exact ⟨r', ⟨o, r⟩ :: calls, hresult, hq, hmade calls after hafter⟩

end Handle

end Toolstack.Interleave.Prog
