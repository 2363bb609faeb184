import Toolstack.Interleave.Program

/-! Rely–guarantee reasoning for interleaved programs. A discipline says what every call must
be given (`requires`), what it keeps (`inv`), and what a thread may count on while others move
(`rely`). A program that meets the requirements of its own calls, whatever the others do in
between, keeps the discipline in every run. -/

namespace Toolstack.Interleave
variable {Op : Type} {Ret : Op → Type} {ε α β Job World Oracle Env Offline : Type}

/-- `fresh i w`: thread number `i` has not acted in `w`. -/
structure Discipline (S : System Op Ret ε α Job World Oracle Env Offline) where
  inv : World → Prop
  rely : Nat → World → World → Prop
  requires : Nat → Op → World → Prop
  fresh : Nat → World → Prop
  rely_refl : ∀ i w, rely i w w
  rely_trans : ∀ {i w₁ w₂ w₃}, rely i w₁ w₂ → rely i w₂ w₃ → rely i w₁ w₃
  fresh_rely : ∀ {i w w'}, fresh i w → rely i w w' → fresh i w'
  exec_inv : ∀ {i o w} ω, inv w → requires i o w → inv (S.exec i o ω w).2
  exec_rely : ∀ {i j o w} ω, inv w → requires i o w → i ≠ j → rely j w (S.exec i o ω w).2
  env_inv : ∀ {w} e, inv w → inv (S.env e w)
  env_rely : ∀ {w} e j, inv w → rely j w (S.env e w)
  offline_inv : ∀ {w w'} f, inv w → S.offline f w = some w' → inv w'
  offline_fresh : ∀ {i w w'} f, fresh i w → S.offline f w = some w' → fresh i w'

namespace Discipline
variable {S : System Op Ret ε α Job World Oracle Env Offline} (D : Discipline S)

/-- What holds of thread `i` running `p` from `w`: every call finds its requirement, under any
interference the discipline allows, and the program ends in `Q` or raises into `E`. -/
def wp (i : Nat) : Prog Op Ret ε β → (β → World → Prop) → (ε → World → Prop) → World → Prop
  | .ret a, Q, _, w => Q a w
  | .raise e, _, E, w => E e w
  | .call o k, Q, E, w => ∀ w', D.rely i w w' → D.inv w' → D.requires i o w' ∧
      ∀ ω, wp i (k (S.exec i o ω w').1) Q E (S.exec i o ω w').2

/-- `P` survives whatever the other threads may do. -/
def Stable (i : Nat) (P : World → Prop) : Prop :=
  ∀ {w w'}, D.inv w → D.inv w' → D.rely i w w' → P w → P w'

def Triple (i : Nat) (P : World → Prop) (p : Prog Op Ret ε β) (Q : β → World → Prop)
    (E : ε → World → Prop) : Prop :=
  ∀ w, D.inv w → P w → D.wp i p Q E w

variable {D} {i : Nat} {P P' : World → Prop} {E E' : ε → World → Prop}

theorem Stable.and (h : D.Stable i P) (h' : D.Stable i P') :
    D.Stable i fun w => P w ∧ P' w :=
  fun hi hi' hr hw => ⟨h hi hi' hr hw.1, h' hi hi' hr hw.2⟩

theorem Stable.const (p : Prop) : D.Stable i fun _ => p := fun _ _ _ h => h

theorem wp_mono {p : Prog Op Ret ε β} {Q Q' : β → World → Prop}
    (hQ : ∀ a w, D.inv w → Q a w → Q' a w) (hE : ∀ e w, D.inv w → E e w → E' e w)
    {w : World} (hinv : D.inv w) (h : D.wp i p Q E w) : D.wp i p Q' E' w := by
  induction p generalizing w with
  | ret a => exact hQ a w hinv h
  | raise e => exact hE e w hinv h
  | call o k ih =>
    intro w' hr hi'
    obtain ⟨hreq, hk⟩ := h w' hr hi'
    exact ⟨hreq, fun ω => ih _ (D.exec_inv ω hi' hreq) (hk ω)⟩

theorem wp_bind {p : Prog Op Ret ε β} {γ : Type} {f : β → Prog Op Ret ε γ}
    {Q : γ → World → Prop} {w : World} :
    D.wp i (p >>= f) Q E w ↔ D.wp i p (fun a w => D.wp i (f a) Q E w) E w := by
  induction p generalizing w with
  | ret a => exact Iff.rfl
  | raise e => exact Iff.rfl
  | call o k ih =>
    simp only [Prog.call_bind, wp, ih]

theorem wp_attempt {p : Prog Op Ret ε β} {Q : Except ε β → World → Prop} {w : World} :
    D.wp i p.attempt Q E w ↔ D.wp i p (fun a => Q (.ok a)) (fun e => Q (.error e)) w := by
  induction p generalizing w with
  | ret a => exact Iff.rfl
  | raise e => exact Iff.rfl
  | call o k ih => simp only [Prog.attempt, wp, ih]

/-- The condition of a running thread outlives the moves of the others. -/
theorem wp_call_rely {o : Op} {k : Ret o → Prog Op Ret ε β} {Q : β → World → Prop}
    {w w' : World} (h : D.wp i (.call o k) Q E w) (hr : D.rely i w w') :
    D.wp i (.call o k) Q E w' :=
  fun w'' hr' hi' => h w'' (D.rely_trans hr hr') hi'

theorem wp_and {p : Prog Op Ret ε β} {Q Q' : β → World → Prop} {w : World} (h : D.wp i p Q E w)
    (h' : D.wp i p Q' E' w) : D.wp i p (fun a w => Q a w ∧ Q' a w) (fun e w => E e w ∧ E' e w) w := by
  induction p generalizing w with
  | ret a => exact ⟨h, h'⟩
  | raise e => exact ⟨h, h'⟩
  | call o k ih =>
    intro w' hr hi'
    obtain ⟨hreq, hk⟩ := h w' hr hi'
    obtain ⟨-, hk'⟩ := h' w' hr hi'
    exact ⟨hreq, fun ω => ih _ (hk ω) (hk' ω)⟩

/-- Left alone, a thread comes to its end, and whatever its own calls keep holds there. -/
theorem wp_alone [Nonempty Oracle] {p : Prog Op Ret ε β} {Q : β → World → Prop} {w : World}
    (h : D.wp i p Q E w) (hinv : D.inv w) (hP : P w) (hkeep : ∀ {o w ω}, P w → P (S.exec i o ω w).2) :
    ∃ w', P w' ∧ ((∃ a, Q a w') ∨ ∃ e, E e w') := by
  induction p generalizing w with
  | ret a => exact ⟨w, hP, .inl ⟨a, h⟩⟩
  | raise e => exact ⟨w, hP, .inr ⟨e, h⟩⟩
  | call o k ih =>
    obtain ⟨ω⟩ := ‹Nonempty Oracle›
    obtain ⟨hreq, hk⟩ := h w (D.rely_refl i w) hinv
    exact ih _ (hk ω) (D.exec_inv ω hinv hreq) (hkeep hP)

/-! ## Rules -/

namespace Triple
variable {p : Prog Op Ret ε β} {Q Q' : β → World → Prop}

theorem ret {a : β} (h : ∀ w, D.inv w → P w → Q a w) : D.Triple i P (.ret a) Q E := h

theorem raise {e : ε} (h : ∀ w, D.inv w → P w → E e w) :
    D.Triple i P (.raise e : Prog Op Ret ε β) Q E := h

theorem conseq (h : D.Triple i P p Q E) (hP : ∀ w, D.inv w → P' w → P w)
    (hQ : ∀ a w, D.inv w → Q a w → Q' a w) (hE : ∀ e w, D.inv w → E e w → E' e w) :
    D.Triple i P' p Q' E' :=
  fun w hi hp => wp_mono hQ hE hi (h w hi (hP w hi hp))

theorem bind {γ : Type} {f : β → Prog Op Ret ε γ} {R : γ → World → Prop}
    (h : D.Triple i P p Q E) (hf : ∀ a, D.Triple i (Q a) (f a) R E) :
    D.Triple i P (p >>= f) R E :=
  fun w hi hp => wp_bind.2 (wp_mono (fun a w hi hq => hf a w hi hq) (fun _ _ _ h => h) hi
    (h w hi hp))

theorem and {Q' : β → World → Prop} (h : D.Triple i P p Q E) (h' : D.Triple i P p Q' E') :
    D.Triple i P p (fun a w => Q a w ∧ Q' a w) (fun e w => E e w ∧ E' e w) :=
  fun w hi hp => wp_and (h w hi hp) (h' w hi hp)

/-- The exception becomes an answer, and its postcondition goes with it. -/
theorem attempt {R : ε → World → Prop} (h : D.Triple i P p Q R) :
    D.Triple i P p.attempt (fun x w => match x with
      | .ok a => Q a w
      | .error e => R e w) E :=
  fun w hi hp => wp_attempt.2 (h w hi hp)

theorem perform {o : Op} {Q : Ret o → World → Prop} (hP : D.Stable i P)
    (hreq : ∀ w, D.inv w → P w → D.requires i o w)
    (hpost : ∀ w ω, D.inv w → P w → Q (S.exec i o ω w).1 (S.exec i o ω w).2) :
    D.Triple i P (Prog.perform o) Q E := by
  intro w hi hp w' hr hi'
  have hp' : P w' := hP hi hi' hr hp
  exact ⟨hreq w' hi' hp', fun ω => hpost w' ω hi' hp'⟩

/-- A call after which the assertion holds again. -/
theorem perform_keep {o : Op} (hP : D.Stable i P)
    (hreq : ∀ w, D.inv w → P w → D.requires i o w)
    (hkeep : ∀ w ω, D.inv w → P w → P (S.exec i o ω w).2) :
    D.Triple i P (Prog.perform o) (fun _ => P) E :=
  perform hP hreq hkeep

/-- Programs whose calls require nothing need no argument of their own. -/
theorem of_all (h : p.All fun o => ∀ w, D.inv w → D.requires i o w) :
    D.Triple i P p (fun _ _ => True) (fun _ _ => True) := by
  intro w _ hP
  clear hP
  induction p generalizing w with
  | ret a => trivial
  | raise e => trivial
  | call o k ih =>
    exact fun w' _ hi' => ⟨h.1 w' hi', fun ω => ih _ (h.2 _) _ (D.exec_inv ω hi' (h.1 w' hi'))⟩

/-- A program all of whose calls keep a stable assertion keeps it. -/
theorem of_all_keep (hP : D.Stable i P)
    (h : p.All fun o => ∀ w, D.inv w → P w →
      D.requires i o w ∧ ∀ ω, P (S.exec i o ω w).2) :
    D.Triple i P p (fun _ => P) (fun _ => P) := by
  intro w hi hp
  induction p generalizing w with
  | ret a => exact hp
  | raise e => exact hp
  | call o k ih =>
    intro w' hr hi'
    have hp' : P w' := hP hi hi' hr hp
    obtain ⟨hreq, hkeep⟩ := h.1 w' hi' hp'
    exact ⟨hreq, fun ω => ih _ (h.2 _) _ (D.exec_inv ω hi' hreq) (hkeep ω)⟩

/-- A stable assertion that no call of the thread undoes may be added on both sides. -/
theorem and_stable {F : World → Prop} (h : D.Triple i P p Q E) (hF : D.Stable i F)
    (hexec : ∀ o w ω, D.inv w → D.requires i o w → F w → F (S.exec i o ω w).2) :
    D.Triple i (fun w => P w ∧ F w) p (fun a w => Q a w ∧ F w) (fun e w => E e w ∧ F w) := by
  intro w hi hpf
  obtain ⟨hp, hf⟩ := hpf
  have hwp := h w hi hp
  clear h hp
  induction p generalizing w with
  | ret a => exact ⟨hwp, hf⟩
  | raise e => exact ⟨hwp, hf⟩
  | call o k ih =>
    intro w' hr hi'
    obtain ⟨hreq, hk⟩ := hwp w' hr hi'
    exact ⟨hreq, fun ω => ih _ _ (D.exec_inv ω hi' hreq)
      (hexec o w' ω hi' hreq (hF hi hi' hr hf)) (hk ω)⟩

end Triple

/-! ## Runs -/

/-- The discipline as an invariant of configurations. -/
structure Covered (D : Discipline S) (c : Config Op Ret ε α Job World) : Prop where
  inv : D.inv c.world
  fresh : ∀ i, c.threads.length ≤ i → D.fresh i c.world
  running : ∀ i j o k, c.threads[i]? = some ⟨j, some (.call o k)⟩ →
    D.wp i (.call o k) (fun _ _ => True) (fun _ _ => True) c.world

/-- Every job meets the requirements of its calls when its thread is fresh. -/
def Disciplined (D : Discipline S) : Prop :=
  ∀ i j, D.Triple i (D.fresh i) (S.program j) (fun _ _ => True) (fun _ _ => True)

variable {c c₁ c₂ : Config Op Ret ε α Job World}
variable {ok : Config Op Ret ε α Job World → Move Job Oracle Env Offline → Prop}

theorem Covered.requires (h : D.Covered c) {j o k}
    (ht : c.threads[i]? = some ⟨j, some (.call o k)⟩) : D.requires i o c.world :=
  ((h.running i j o k ht) _ (D.rely_refl i _) h.inv).1

/-- Whatever moves, every other thread sees a step it relies on. -/
theorem Covered.step_rely (h : D.Covered c) {m} (hs : S.step c m = some c₁)
    (hoff : ∀ f, m ≠ .offline f) (hcall : ∀ ω, m ≠ .call i ω) : D.rely i c.world c₁.world := by
  cases m with
  | start j =>
    obtain rfl := Option.some.inj hs
    exact D.rely_refl _ _
  | call i' ω =>
    obtain ⟨j, o, k, ht, hw, -⟩ := System.step_call hs
    rw [hw]
    exact D.exec_rely ω h.inv (h.requires ht) fun he => hcall ω (he ▸ rfl)
  | crash i' =>
    obtain ⟨j, o, k, -, hw, -⟩ := System.step_crash hs
    rw [hw]
    exact D.rely_refl _ _
  | env e =>
    obtain rfl := Option.some.inj hs
    exact D.env_rely e _ h.inv
  | offline f => exact absurd rfl (hoff f)

theorem Covered.step (hD : D.Disciplined) (h : D.Covered c) {m}
    (hs : S.step c m = some c₁) : D.Covered c₁ := by
  cases m with
  | start j =>
    obtain rfl := Option.some.inj hs
    refine ⟨h.inv, fun i hi => h.fresh i (by simp at hi; omega), fun i j' o k ht => ?_⟩
    rw [List.getElem?_append] at ht
    split_ifs at ht with hlt
    · exact h.running i j' o k ht
    · have hi : i = c.threads.length := by
        have hlen := (List.getElem?_eq_some_iff.1 ht).1
        simp at hlen
        omega
      obtain ⟨rfl, hp⟩ : j = j' ∧ S.program j = .call o k := by simpa [hi] using ht
      have hwp := hD i j c.world h.inv (h.fresh i (by omega))
      rwa [hp] at hwp
  | call i' ω =>
    obtain ⟨j, o, k, ht, hw, hth⟩ := System.step_call hs
    have hreq := h.requires ht
    refine ⟨hw ▸ D.exec_inv ω h.inv hreq, fun i hi => ?_, fun i j' o' k' ht' => ?_⟩
    · rw [hth, List.length_set] at hi
      have hlt := (List.getElem?_eq_some_iff.1 ht).1
      exact hw ▸ D.fresh_rely (h.fresh i hi) (D.exec_rely ω h.inv hreq (by omega))
    · rw [hth, List.getElem?_set] at ht'
      split_ifs at ht' with heq hlt
      · obtain ⟨rfl, hp⟩ := Thread.mk.inj (Option.some.inj ht')
        have hwp := ((h.running i' j o k ht) _ (D.rely_refl i' _) h.inv).2 ω
        rw [hw, ← heq, ← Option.some.inj hp]
        exact hwp
      · exact hw ▸ wp_call_rely (h.running i j' o' k' ht') (D.exec_rely ω h.inv hreq heq)
  | crash i' =>
    obtain ⟨j, o, k, -, hw, hth⟩ := System.step_crash hs
    refine ⟨hw ▸ h.inv, fun i hi => hw ▸ h.fresh i (by simpa [hth] using hi),
      fun i j' o' k' ht' => ?_⟩
    rw [hth, List.getElem?_set] at ht'
    split_ifs at ht' with heq hlt
    · cases ht'
    · exact hw ▸ h.running i j' o' k' ht'
  | env e =>
    obtain rfl := Option.some.inj hs
    exact ⟨D.env_inv e h.inv, fun i hi => D.fresh_rely (h.fresh i hi) (D.env_rely e i h.inv),
      fun i j o k ht => wp_call_rely (h.running i j o k ht) (D.env_rely e i h.inv)⟩
  | offline f =>
    obtain ⟨hstop, hw, hth⟩ := System.step_offline hs
    refine ⟨D.offline_inv f h.inv hw,
      fun i hi => D.offline_fresh f (h.fresh i (by simpa [hth] using hi)) hw,
      fun i j o k ht => ?_⟩
    rw [hth] at ht
    exact absurd (hstop _ (List.mem_of_getElem? ht)) (by simp [Thread.stopped])

/-- The run rule: from a world that satisfies the invariant and in which no thread has acted,
a disciplined system stays covered. -/
theorem Covered.steps (hD : D.Disciplined) (h : D.Covered c) (hrun : S.Steps ok c c₁) :
    D.Covered c₁ :=
  hrun.invariant h fun _ _ _ _ _ hs hc => hc.step hD hs

theorem Covered.initial {w : World} (hinv : D.inv w) (hfresh : ∀ i, D.fresh i w) :
    D.Covered (⟨w, []⟩ : Config Op Ret ε α Job World) :=
  ⟨hinv, fun i _ => hfresh i, fun i j o k ht => by simp at ht⟩

theorem Disciplined.reachable (hD : D.Disciplined) {w : World} (hinv : D.inv w)
    (hfresh : ∀ i, D.fresh i w) (h : S.Reachable w c) : D.Covered c :=
  (Covered.initial hinv hfresh).steps hD h

/-- How far thread `i` got in a run from `c` to `c₁`: it is still running and its condition
holds, or it was killed, or it ended in some configuration `c'` of the run, where its
postcondition held. -/
inductive Progress (D : Discipline S)
    (ok : Config Op Ret ε α Job World → Move Job Oracle Env Offline → Prop) (i : Nat) (j : Job)
    (Q : α → World → Prop) (E : ε → World → Prop) (c c₁ : Config Op Ret ε α Job World) : Prop
  | running (o : Op) (k : Ret o → Prog Op Ret ε α)
      (thread : c₁.threads[i]? = some ⟨j, some (.call o k)⟩)
      (cond : D.wp i (.call o k) Q E c₁.world)
  | killed (thread : c₁.threads[i]? = some ⟨j, none⟩)
  | returned (a : α) (c' : Config Op Ret ε α Job World) (before : S.Steps ok c c')
      (after : S.Steps ok c' c₁) (thread : c'.threads[i]? = some ⟨j, some (.ret a)⟩)
      (post : Q a c'.world)
  | raised (e : ε) (c' : Config Op Ret ε α Job World) (before : S.Steps ok c c')
      (after : S.Steps ok c' c₁) (thread : c'.threads[i]? = some ⟨j, some (.raise e)⟩)
      (post : E e c'.world)

theorem Progress.of_wp {j : Job} {p : Prog Op Ret ε α} {Q : α → World → Prop}
    (hrun : S.Steps ok c c₁) (ht : c₁.threads[i]? = some ⟨j, some p⟩)
    (hwp : D.wp i p Q E c₁.world) : D.Progress ok i j Q E c c₁ := by
  cases p with
  | ret a => exact .returned a c₁ hrun .refl ht hwp
  | raise e => exact .raised e c₁ hrun .refl ht hwp
  | call o k => exact .running o k ht hwp

/-- A thread that is not the one that moves keeps its program, unless it is killed. -/
theorem thread_of_step {m} (hs : S.step c m = some c₁) {t : Thread Op Ret ε α Job}
    (ht : c.threads[i]? = some t) (hcall : ∀ ω, m ≠ .call i ω) :
    c₁.threads[i]? = some t ∨ t.stopped = false ∧ c₁.threads[i]? = some ⟨t.job, none⟩ := by
  have hlt := (List.getElem?_eq_some_iff.1 ht).1
  cases m with
  | start j =>
    obtain rfl := Option.some.inj hs
    exact .inl (by rw [List.getElem?_append_left hlt, ht])
  | call i' ω =>
    obtain ⟨j, o, k, -, -, hth⟩ := System.step_call hs
    have hne : i' ≠ i := fun he => hcall ω (he ▸ rfl)
    exact .inl (by rw [hth, List.getElem?_set_ne hne, ht])
  | crash i' =>
    obtain ⟨j, o, k, ht', -, hth⟩ := System.step_crash hs
    rcases eq_or_ne i' i with rfl | hne
    · obtain rfl := Option.some.inj (ht.symm.trans ht')
      exact .inr ⟨rfl, by rw [hth, List.getElem?_set_self hlt]⟩
    · exact .inl (by rw [hth, List.getElem?_set_ne hne, ht])
  | env e =>
    obtain rfl := Option.some.inj hs
    exact .inl ht
  | offline f =>
    obtain ⟨-, -, hth⟩ := System.step_offline hs
    exact .inl (hth ▸ ht)

/-- A thread that has stopped stays as it is. -/
theorem stopped_of_step {m} (hs : S.step c m = some c₁) {t : Thread Op Ret ε α Job}
    (ht : c.threads[i]? = some t) (hstop : t.stopped = true) : c₁.threads[i]? = some t := by
  have hcall : ∀ ω, m ≠ .call i ω := by
    rintro ω rfl
    obtain ⟨j, o, k, ht', -, -⟩ := System.step_call hs
    obtain rfl := Option.some.inj (ht.symm.trans ht')
    cases hstop
  rcases thread_of_step hs ht hcall with hsame | ⟨hrun, -⟩
  · exact hsame
  · simp [hstop] at hrun

theorem stopped_of_steps (hrun : S.Steps ok c c₁) {t : Thread Op Ret ε α Job}
    (ht : c.threads[i]? = some t) (hstop : t.stopped = true) : c₁.threads[i]? = some t :=
  hrun.invariant ht fun _ _ _ _ _ hs ht => stopped_of_step hs ht hstop

/-- The condition of a running thread holds of what is left of it after a step. -/
theorem Covered.wp_step {j : Job} {Q : α → World → Prop} {m} (h : D.Covered c₁)
    (hs : S.step c₁ m = some c₂) {o : Op} {k : Ret o → Prog Op Ret ε α}
    (ht : c₁.threads[i]? = some ⟨j, some (.call o k)⟩) (hwp : D.wp i (.call o k) Q E c₁.world)
    {p : Prog Op Ret ε α} (ht' : c₂.threads[i]? = some ⟨j, some p⟩) : D.wp i p Q E c₂.world := by
  by_cases hcall : ∃ ω, m = .call i ω
  · obtain ⟨ω, rfl⟩ := hcall
    obtain ⟨j', o', k', hthread, hw, hth⟩ := System.step_call hs
    obtain ⟨rfl, hp⟩ := Thread.mk.inj (Option.some.inj (ht.symm.trans hthread))
    obtain ⟨rfl, hk⟩ := Prog.call.inj (Option.some.inj hp)
    obtain rfl := eq_of_heq hk
    have hlt := (List.getElem?_eq_some_iff.1 ht).1
    rw [hth, List.getElem?_set_self hlt] at ht'
    obtain ⟨-, hp'⟩ := Thread.mk.inj (Option.some.inj ht')
    have hnext := (hwp _ (D.rely_refl i _) h.inv).2 ω
    rw [hw, ← Option.some.inj hp']
    exact hnext
  · have hcall : ∀ ω, m ≠ .call i ω := fun ω he => hcall ⟨ω, he⟩
    rcases thread_of_step hs ht hcall with hsame | ⟨-, hkilled⟩
    · obtain ⟨-, hp⟩ := Thread.mk.inj (Option.some.inj (hsame.symm.trans ht'))
      obtain rfl := Option.some.inj hp
      have hoff : ∀ f, m ≠ .offline f := by
        rintro f rfl
        exact absurd ((System.step_offline hs).1 _ (List.mem_of_getElem? ht))
          (by simp [Thread.stopped])
      exact wp_call_rely hwp (h.step_rely hs hoff hcall)
    · cases (Thread.mk.inj (Option.some.inj (hkilled.symm.trans ht'))).2

/-- One step further, whichever thread moves. -/
theorem Progress.tail {j : Job} {Q : α → World → Prop} {m} (h : D.Progress ok i j Q E c c₁)
    (hc₁ : D.Covered c₁) (hrun : S.Steps ok c c₁) (hok : ok c₁ m) (hs : S.step c₁ m = some c₂) :
    D.Progress ok i j Q E c c₂ := by
  have hrun' : S.Steps ok c c₂ := hrun.tail hok hs
  cases h with
  | running o k thread cond =>
    obtain ⟨⟨j', prog⟩, ht', hjob⟩ := System.step_keepsJobs hs i _ thread
    obtain rfl : j' = j := hjob
    cases prog with
    | none => exact .killed ht'
    | some p => exact .of_wp hrun' ht' (hc₁.wp_step hs thread cond ht')
  | killed thread => exact .killed (stopped_of_step hs thread rfl)
  | returned a c' before after thread post =>
    exact .returned a c' before (after.tail hok hs) thread post
  | raised e c' before after thread post =>
    exact .raised e c' before (after.tail hok hs) thread post

/-- A thread that a step adds is at the start of its job. -/
theorem Covered.started {m} (h : D.Covered c₁) {Q : Nat → Job → α → World → Prop}
    {E : Nat → Job → ε → World → Prop}
    (hpost : ∀ i j, D.Triple i (D.fresh i) (S.program j) (Q i j) (E i j)) (hs : S.step c₁ m = some c₂)
    (hbefore : c₁.threads[i]? = none) {t : Thread Op Ret ε α Job} (ht : c₂.threads[i]? = some t) :
    t.prog = some (S.program t.job) ∧ D.wp i (S.program t.job) (Q i t.job) (E i t.job) c₂.world := by
  have hlen : c₁.threads.length ≤ i := List.getElem?_eq_none_iff.1 hbefore
  cases m with
  | start j =>
    obtain rfl := Option.some.inj hs
    have hlast : i = c₁.threads.length := by
      have hlt := (List.getElem?_eq_some_iff.1 ht).1
      simp at hlt
      omega
    subst hlast
    obtain rfl : ⟨j, some (S.program j)⟩ = t := by simpa using ht
    exact ⟨rfl, hpost _ j _ h.inv (h.fresh _ hlen)⟩
  | call i' ω =>
    obtain ⟨j, o, k, -, -, hth⟩ := System.step_call hs
    rw [hth, List.getElem?_eq_none (by simpa using hlen)] at ht
    cases ht
  | crash i' =>
    obtain ⟨j, o, k, -, -, hth⟩ := System.step_crash hs
    rw [hth, List.getElem?_eq_none (by simpa using hlen)] at ht
    cases ht
  | env e =>
    obtain rfl := Option.some.inj hs
    rw [hbefore] at ht
    cases ht
  | offline f =>
    rw [(System.step_offline hs).2.2, hbefore] at ht
    cases ht

/-- Every thread that a run starts is on the way to the postcondition of its job. -/
theorem Covered.progress (hD : D.Disciplined) (h : D.Covered c)
    {Q : Nat → Job → α → World → Prop} {E : Nat → Job → ε → World → Prop}
    (hpost : ∀ i j, D.Triple i (D.fresh i) (S.program j) (Q i j) (E i j)) (hrun : S.Steps ok c c₁)
    {i : Nat} (hi : c.threads.length ≤ i) {t : Thread Op Ret ε α Job}
    (ht : c₁.threads[i]? = some t) : D.Progress ok i t.job (Q i t.job) (E i t.job) c c₁ := by
  induction hrun generalizing t with
  | refl => exact absurd (List.getElem?_eq_some_iff.1 ht).1 (Nat.not_lt.2 hi)
  | @tail c₁ c₂ m hrun hok hs ih =>
    have hc₁ : D.Covered c₁ := h.steps hD hrun
    cases hbefore : c₁.threads[i]? with
    | some t₁ =>
      obtain ⟨t', ht', hjob⟩ := System.step_keepsJobs hs i t₁ hbefore
      obtain rfl := Option.some.inj (ht.symm.trans ht')
      rw [hjob]
      exact (ih hbefore).tail hc₁ hrun hok hs
    | none =>
      obtain ⟨hprog, hwp⟩ := hc₁.started hpost hs hbefore ht
      refine .of_wp (hrun.tail hok hs) (ht.trans ?_) hwp
      rw [← hprog]

/-- The step that brings a thread to its end, or anywhere else, leaves it in the condition of what is
left of it. -/
theorem Covered.wp_of_step (hD : D.Disciplined) (h : D.Covered c)
    {Q : Nat → Job → α → World → Prop} {E : Nat → Job → ε → World → Prop}
    (hpost : ∀ i j, D.Triple i (D.fresh i) (S.program j) (Q i j) (E i j)) (hrun : S.Steps ok c c₁)
    {i : Nat} (hi : c.threads.length ≤ i) {m} (hs : S.step c₁ m = some c₂)
    (hrunning : ∀ t, c₁.threads[i]? = some t → t.stopped = false) {j : Job} {p : Prog Op Ret ε α}
    (ht : c₂.threads[i]? = some ⟨j, some p⟩) : D.wp i p (Q i j) (E i j) c₂.world := by
  have hc₁ : D.Covered c₁ := h.steps hD hrun
  cases hbefore : c₁.threads[i]? with
  | none =>
    obtain ⟨hprog, hwp⟩ := hc₁.started hpost hs hbefore ht
    have hp : p = S.program j := Option.some.inj hprog
    exact hp.symm ▸ hwp
  | some t =>
    have hjob : t.job = j := by
      obtain ⟨t', ht', hjob⟩ := System.step_keepsJobs hs i t hbefore
      obtain rfl := Option.some.inj (ht.symm.trans ht')
      exact hjob.symm
    subst hjob
    have hlive : ∀ {t'}, c₁.threads[i]? = some t' → t'.stopped = true → D.wp i p (Q i t.job) (E i t.job) c₂.world :=
      fun ht' hstop => absurd (hrunning _ ht') (by simp [hstop])
    cases h.progress hD hpost hrun hi hbefore with
    | running o k thread cond => exact hc₁.wp_step hs thread cond ht
    | killed thread => exact hlive thread rfl
    | returned a c' before after thread post => exact hlive (stopped_of_steps after thread rfl) rfl
    | raised e c' before after thread post => exact hlive (stopped_of_steps after thread rfl) rfl

/-- From the condition of a thread anywhere in a run to that of what is left of it after a later step,
as long as it was running until then. -/
theorem Covered.wp_run (hD : D.Disciplined) (h : D.Covered c) {j : Job} {p : Prog Op Ret ε α}
    {Q : α → World → Prop} (ht : c.threads[i]? = some ⟨j, some p⟩) (hwp : D.wp i p Q E c.world)
    (hrun : S.Steps ok c c₁) {o : Op} {k : Ret o → Prog Op Ret ε α}
    (ht₁ : c₁.threads[i]? = some ⟨j, some (.call o k)⟩) {m} (hs : S.step c₁ m = some c₂)
    {p' : Prog Op Ret ε α} (ht₂ : c₂.threads[i]? = some ⟨j, some p'⟩) : D.wp i p' Q E c₂.world := by
  have hprogress : D.Progress ok i j Q E c c₁ :=
    hrun.invariant (P := D.Progress ok i j Q E c) (.of_wp .refl ht hwp) fun _ _ _ hrun hok hs hc =>
      hc.tail (h.steps hD hrun) hrun hok hs
  have hstopped : ∀ {t : Thread Op Ret ε α Job}, c₁.threads[i]? = some t → t.stopped = false := by
    intro t ht
    obtain rfl := Option.some.inj (ht₁.symm.trans ht)
    rfl
  cases hprogress with
  | running o' k' thread cond => exact (h.steps hD hrun).wp_step hs thread cond ht₂
  | killed thread => exact absurd (hstopped thread) nofun
  | returned a c' before after thread post => exact absurd (hstopped (stopped_of_steps after thread rfl)) nofun
  | raised e c' before after thread post => exact absurd (hstopped (stopped_of_steps after thread rfl)) nofun

end Discipline

end Toolstack.Interleave
