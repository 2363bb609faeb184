import Toolstack.Interleave.Rely

/-! A disciplined system may be asked for more. What is to be shown of its calls beside their requirements
is shown with the requirements given, and what every call so shown keeps is then an invariant. -/

namespace Toolstack.Interleave
variable {Op : Type} {Ret : Op → Type} {ε α β Job World Oracle Env Offline : Type}

namespace Discipline
variable {S : System Op Ret ε α Job World Oracle Env Offline} (D : Discipline S) (R : Nat → Op → World → Prop)

/-- As `wp`, with the requirement of each call given and `R` to be shown of it. -/
def shows (i : Nat) : Prog Op Ret ε β → (β → World → Prop) → (ε → World → Prop) → World → Prop
  | .ret a, Q, _, w => Q a w
  | .raise e, _, E, w => E e w
  | .call o k, Q, E, w => ∀ w', D.rely i w w' → D.inv w' → D.requires i o w' → R i o w' ∧
      ∀ ω, shows i (k (S.exec i o ω w').1) Q E (S.exec i o ω w').2

def Shows (i : Nat) (P : World → Prop) (p : Prog Op Ret ε β) (Q : β → World → Prop)
    (E : ε → World → Prop) : Prop :=
  ∀ w, D.inv w → P w → D.shows R i p Q E w

variable {D R} {i : Nat} {P P' : World → Prop} {E E' : ε → World → Prop}

theorem shows_mono {p : Prog Op Ret ε β} {Q Q' : β → World → Prop}
    (hQ : ∀ a w, D.inv w → Q a w → Q' a w) (hE : ∀ e w, D.inv w → E e w → E' e w)
    {w : World} (hinv : D.inv w) (h : D.shows R i p Q E w) : D.shows R i p Q' E' w := by
  induction p generalizing w with
  | ret a => exact hQ a w hinv h
  | raise e => exact hE e w hinv h
  | call o k ih =>
    intro w' hr hi' hreq
    obtain ⟨hshown, hk⟩ := h w' hr hi' hreq
    exact ⟨hshown, fun ω => ih _ (D.exec_inv ω hi' hreq) (hk ω)⟩

theorem shows_bind {p : Prog Op Ret ε β} {γ : Type} {f : β → Prog Op Ret ε γ} {Q : γ → World → Prop}
    {w : World} :
    D.shows R i (p >>= f) Q E w ↔ D.shows R i p (fun a w => D.shows R i (f a) Q E w) E w := by
  induction p generalizing w with
  | ret a => exact Iff.rfl
  | raise e => exact Iff.rfl
  | call o k ih => simp only [Prog.call_bind, shows, ih]

theorem shows_attempt {p : Prog Op Ret ε β} {Q : Except ε β → World → Prop} {w : World} :
    D.shows R i p.attempt Q E w ↔ D.shows R i p (fun a => Q (.ok a)) (fun e => Q (.error e)) w := by
  induction p generalizing w with
  | ret a => exact Iff.rfl
  | raise e => exact Iff.rfl
  | call o k ih => simp only [Prog.attempt, shows, ih]

/-- The postcondition of a program whose exception is an answer. -/
def ended (Q : β → World → Prop) (T : ε → World → Prop) : Except ε β → World → Prop
  | .ok a, w => Q a w
  | .error e, w => T e w

/-! ## Rules -/

namespace Shows
variable {p : Prog Op Ret ε β} {Q Q' : β → World → Prop}

theorem ret {a : β} (h : ∀ w, D.inv w → P w → Q a w) : D.Shows R i P (.ret a) Q E := h

theorem raise {e : ε} (h : ∀ w, D.inv w → P w → E e w) :
    D.Shows R i P (.raise e : Prog Op Ret ε β) Q E := h

theorem conseq (h : D.Shows R i P p Q E) (hP : ∀ w, D.inv w → P' w → P w)
    (hQ : ∀ a w, D.inv w → Q a w → Q' a w) (hE : ∀ e w, D.inv w → E e w → E' e w) : D.Shows R i P' p Q' E' :=
  fun w hi hp => shows_mono hQ hE hi (h w hi (hP w hi hp))

theorem bind {γ : Type} {f : β → Prog Op Ret ε γ} {T : γ → World → Prop} (h : D.Shows R i P p Q E)
    (hf : ∀ a, D.Shows R i (Q a) (f a) T E) : D.Shows R i P (p >>= f) T E :=
  fun w hi hp => shows_bind.2 (shows_mono (fun a w hi hq => hf a w hi hq) (fun _ _ _ h => h) hi (h w hi hp))

theorem attempt {T : ε → World → Prop} (h : D.Shows R i P p Q T) :
    D.Shows R i P p.attempt (ended Q T) E :=
  fun w hi hp => shows_attempt.2 (h w hi hp)

theorem perform {o : Op} {Q : Ret o → World → Prop} (hP : D.Stable i P)
    (hshown : ∀ w, D.inv w → D.requires i o w → P w → R i o w)
    (hpost : ∀ w ω, D.inv w → D.requires i o w → P w → Q (S.exec i o ω w).1 (S.exec i o ω w).2) :
    D.Shows R i P (Prog.perform o) Q E := by
  intro w hi hp w' hr hi' hreq
  have hp' : P w' := hP hi hi' hr hp
  exact ⟨hshown w' hi' hreq hp', fun ω => hpost w' ω hi' hreq hp'⟩

/-- A program of whose calls nothing is asked keeps what outlives them. -/
theorem of_all_keep (hP : D.Stable i P)
    (h : p.All fun o => ∀ w, D.inv w → D.requires i o w → P w → R i o w ∧ ∀ ω, P (S.exec i o ω w).2) :
    D.Shows R i P p (fun _ => P) (fun _ => P) := by
  intro w hi hp
  induction p generalizing w with
  | ret a => exact hp
  | raise e => exact hp
  | call o k ih =>
    intro w' hr hi' hreq
    have hp' : P w' := hP hi hi' hr hp
    obtain ⟨hshown, hkeep⟩ := h.1 w' hi' hreq hp'
    exact ⟨hshown, fun ω => ih _ (h.2 _) _ (D.exec_inv ω hi' hreq) (hkeep ω)⟩

end Shows

/-! ## The supplemented discipline -/

section Supplement
variable {I : World → Prop}
  (hexec : ∀ {i o w} ω, D.inv w → D.requires i o w → I w → R i o w → I (S.exec i o ω w).2)
  (henv : ∀ {w} e, D.inv w → I w → I (S.env e w))
  (hoffline : ∀ {w w'} f, D.inv w → I w → S.offline f w = some w' → I w')

/-- The discipline that also asks for `R` and keeps `I`. -/
def supplement : Discipline S where
  inv w := D.inv w ∧ I w
  rely := D.rely
  requires i o w := D.requires i o w ∧ R i o w
  fresh := D.fresh
  rely_refl := D.rely_refl
  rely_trans := D.rely_trans
  fresh_rely := D.fresh_rely
  exec_inv ω hi hreq := ⟨D.exec_inv ω hi.1 hreq.1, hexec ω hi.1 hreq.1 hi.2 hreq.2⟩
  exec_rely ω hi hreq := D.exec_rely ω hi.1 hreq.1
  env_inv e hi := ⟨D.env_inv e hi.1, henv e hi.1 hi.2⟩
  env_rely e j hi := D.env_rely e j hi.1
  offline_inv f hi h := ⟨D.offline_inv f hi.1 h, hoffline f hi.1 hi.2 h⟩
  offline_fresh f := D.offline_fresh f

/-- What meets the requirements and shows the rest keeps the supplemented discipline. -/
theorem wp_supplement {p : Prog Op Ret ε β} {Q Q' : β → World → Prop} {w : World} (h : D.wp i p Q E w)
    (h' : D.shows R i p Q' E' w) :
    (supplement (R := R) hexec henv hoffline).wp i p Q E w := by
  induction p generalizing w with
  | ret a => exact h
  | raise e => exact h
  | call o k ih =>
    intro w' hr hi'
    obtain ⟨hreq, hk⟩ := h w' hr hi'.1
    obtain ⟨hshown, hk'⟩ := h' w' hr hi'.1 hreq
    exact ⟨⟨hreq, hshown⟩, fun ω => ih _ (hk ω) (hk' ω)⟩

/-- The rule for runs: what the calls of every job are shown to keep holds in every reachable world. -/
theorem Disciplined.shown (hD : D.Disciplined) {Q : Job → α → World → Prop} {T : Job → ε → World → Prop}
    (hS : ∀ i j, D.Shows R i (D.fresh i) (S.program j) (Q j) (T j))
    (hexec : ∀ {i o w} ω, D.inv w → D.requires i o w → I w → R i o w → I (S.exec i o ω w).2)
    (henv : ∀ {w} e, D.inv w → I w → I (S.env e w))
    (hoffline : ∀ {w w'} f, D.inv w → I w → S.offline f w = some w' → I w')
    {w : World} (hinv : D.inv w) (hI : I w) (hfresh : ∀ i, D.fresh i w)
    {c : Config Op Ret ε α Job World} (h : S.Reachable w c) : I c.world := by
  have hdisciplined : (supplement (R := R) hexec henv hoffline).Disciplined := by
    intro i j w hi hf
    exact wp_supplement hexec henv hoffline (hD i j w hi.1 hf) (hS i j w hi.1 hf)
  exact (hdisciplined.reachable ⟨hinv, hI⟩ hfresh h).inv.2

end Supplement

end Discipline

end Toolstack.Interleave
