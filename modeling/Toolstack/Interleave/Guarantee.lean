import Toolstack.Interleave.Sequential

/-! Invariants that rest on what programs may call. A guarantee names the calls that are
permitted, what their answers are then like, and an invariant of the world they all keep. A
program that only makes permitted calls, as long as it is answered so, needs no more argument. -/

namespace Toolstack.Interleave

variable {Op : Type} {Ret : Op → Type} {ε α β : Type}

namespace Prog

/-- Every call the program makes is permitted, on answers that are as `answers` says. -/
def When (answers : (o : Op) → Ret o → Prop) (permits : Op → Prop) : Prog Op Ret ε α → Prop
  | ret _ => True
  | raise _ => True
  | call o k => permits o ∧ ∀ r, answers o r → (k r).When answers permits

section When
variable {answers : (o : Op) → Ret o → Prop} {permits : Op → Prop} {m : Prog Op Ret ε α}

theorem When.bind {f : α → Prog Op Ret ε β} (hm : m.When answers permits)
    (hf : ∀ a, (f a).When answers permits) : (m >>= f).When answers permits := by
  induction m with
  | ret a => exact hf a
  | raise e => trivial
  | call o k ih => exact ⟨hm.1, fun r hr => ih r (hm.2 r hr)⟩

theorem When.map {f : α → β} (hm : m.When answers permits) : (f <$> m).When answers permits :=
  hm.bind fun _ => trivial

theorem When.attempt (hm : m.When answers permits) : m.attempt.When answers permits := by
  induction m with
  | ret a => trivial
  | raise e => trivial
  | call o k ih => exact ⟨hm.1, fun r hr => ih r (hm.2 r hr)⟩

theorem When.perform {o : Op} (ho : permits o) :
    (Prog.perform o : Prog Op Ret ε (Ret o)).When answers permits :=
  ⟨ho, fun _ _ => trivial⟩

/-- One call, and what follows on its answer. -/
theorem When.perform_bind {o : Op} {f : Ret o → Prog Op Ret ε β} (ho : permits o)
    (hf : ∀ r, answers o r → (f r).When answers permits) :
    (Prog.perform o >>= f).When answers permits :=
  ⟨ho, hf⟩

/-- What permitted calls keep, as long as they are answered so, a run keeps. -/
theorem When.run {World : Type} {exec : (o : Op) → World → Ret o × World} {I : World → Prop}
    {good : Answered Op Ret → Prop} (hm : m.When answers permits)
    (hexec : ∀ o w, I w → permits o → good ⟨o, (exec o w).1⟩ →
      answers o (exec o w).1 ∧ I (exec o w).2)
    {w : World} (hw : I w) (hgood : ∀ c ∈ (m.run exec w).calls, good c) : I (m.run exec w).world := by
  induction m generalizing w with
  | ret a => exact hw
  | raise e => exact hw
  | call o k ih =>
    rw [Prog.run] at hgood ⊢
    obtain ⟨hfirst, hrest⟩ := List.forall_mem_cons.1 hgood
    obtain ⟨hanswer, hnext⟩ := hexec o w hw hm.1 hfirst
    exact ih _ (hm.2 _ hanswer) hnext hrest

end When
end Prog

variable {Job World Oracle Env Offline : Type}

structure Guarantee (S : System Op Ret ε α Job World Oracle Env Offline) where
  answers : (o : Op) → Ret o → Prop
  permits : Op → Prop
  inv : World → Prop
  exec : ∀ {i o ω w}, inv w → permits o → answers o (S.exec i o ω w).1 ∧ inv (S.exec i o ω w).2
  env : ∀ {e w}, inv w → inv (S.env e w)
  offline : ∀ {f w w'}, inv w → S.offline f w = some w' → inv w'

namespace Guarantee
variable {S : System Op Ret ε α Job World Oracle Env Offline} (G : Guarantee S)

/-- The invariant, and what is left of every thread. -/
structure Holds (c : Config Op Ret ε α Job World) : Prop where
  inv : G.inv c.world
  running : ∀ (i : Nat) (j : Job) (p : Prog Op Ret ε α), c.threads[i]? = some ⟨j, some p⟩ →
    p.When G.answers G.permits

variable {G} {c c' : Config Op Ret ε α Job World}

theorem Holds.step (hprog : ∀ j, (S.program j).When G.answers G.permits) (h : G.Holds c)
    {m : Move Job Oracle Env Offline} (hs : S.step c m = some c') : G.Holds c' := by
  cases m with
  | start j =>
    obtain rfl := Option.some.inj hs
    refine ⟨h.inv, fun i j' p ht => ?_⟩
    rw [List.getElem?_append] at ht
    split_ifs at ht with hlt
    · exact h.running i j' p ht
    · rw [List.getElem?_singleton] at ht
      split_ifs at ht
      obtain ⟨rfl, hp⟩ := Thread.mk.inj (Option.some.inj ht)
      exact Option.some.inj hp ▸ hprog j
  | call i ω =>
    obtain ⟨j, o, k, ht, hw, hth⟩ := System.step_call hs
    obtain ⟨hpermits, hrest⟩ := h.running i j _ ht
    obtain ⟨hanswer, hinv⟩ := G.exec (i := i) (ω := ω) h.inv hpermits
    refine ⟨hw ▸ hinv, fun i' j' p ht' => ?_⟩
    rw [hth, List.getElem?_set] at ht'
    split_ifs at ht' with heq
    · obtain ⟨rfl, hp⟩ := Thread.mk.inj (Option.some.inj ht')
      exact Option.some.inj hp ▸ hrest _ hanswer
    · exact h.running i' j' p ht'
  | crash i =>
    obtain ⟨j, o, k, -, hw, hth⟩ := System.step_crash hs
    refine ⟨hw ▸ h.inv, fun i' j' p ht' => ?_⟩
    rw [hth, List.getElem?_set] at ht'
    split_ifs at ht'
    · cases ht'
    · exact h.running i' j' p ht'
  | env e =>
    obtain rfl := Option.some.inj hs
    exact ⟨G.env h.inv, h.running⟩
  | offline f =>
    obtain ⟨-, hw, hth⟩ := System.step_offline hs
    exact ⟨G.offline h.inv hw, fun i j p ht => h.running i j p (hth ▸ ht)⟩

/-- The run rule. -/
theorem Holds.steps {ok : Config Op Ret ε α Job World → Move Job Oracle Env Offline → Prop}
    (hprog : ∀ j, (S.program j).When G.answers G.permits) (h : G.Holds c) (hrun : S.Steps ok c c') :
    G.Holds c' :=
  hrun.invariant (P := G.Holds) h fun _ _ _ _ _ hs hc => hc.step hprog hs

theorem Holds.initial {w : World} (h : G.inv w) : G.Holds (⟨w, []⟩ : Config Op Ret ε α Job World) :=
  ⟨h, fun _ _ _ ht => by simp at ht⟩

end Guarantee

end Toolstack.Interleave
