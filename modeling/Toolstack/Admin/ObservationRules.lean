import Toolstack.Admin.CatalogObservation

/-! What every call of a broker and of an observation keeps: an observation id belongs to one receipt and
to at most one process, and is never shown again once it is gone. -/

namespace Toolstack.Admin.CatalogObservation

open Interleave Prog
open Broker Broker.Catalog

variable {str : PyStr → PyStr} {room : Nat} {H : Hash} {netlocOk : PyStr → Bool} {loads : Text → Option PyDict}
  {i j : Nat} {w w' w'' : Site}

/-! ## The invariant -/

section
variable (str : PyStr → PyStr) (room : Nat) (H : Hash)

/-- The receipt shows the catalog that the process holds. -/
def Certifies (r : Receipt) (p : Process) : Prop :=
  ∃ root toolDirs, observationFingerprint str room H root toolDirs p.registry = some r.fingerprint

/-- An observation id belongs to one receipt and to at most one process, whose catalog the receipt shows. -/
structure Site.Sound (w : Site) : Prop where
  written_drawn : ∀ r ∈ w.written, r.observationId < w.drawn.length
  announced_drawn : ∀ x ∈ w.announced, x < w.drawn.length
  unique : ∀ r ∈ w.written, ∀ r' ∈ w.written, r.observationId = r'.observationId → r = r'
  stored : ∀ db r, w.receipt db = some r → r ∈ w.written
  shown : ∀ b p x, w.process b = some p → p.observation = some x →
    x ∈ w.announced ∧ ∃ r ∈ w.written, r.observationId = x ∧ Certifies str room H r p
  single : ∀ b b' p p' x, w.process b = some p → w.process b' = some p' → p.observation = some x →
    p'.observation = some x → b = b'
  named : ∀ b p, w.process b = some p → Named p.registry

/-- What a call must be given. -/
def Requires (i : Nat) : Op → Site → Prop
  | .listen _ registry, w => Named registry ∧ w.busy i = none
  | .serving b, w | .handled b, w | .exit b, w => w.busy b = some i
  | .setRegistry b registry, w =>
    w.busy b = some i ∧ Named registry ∧ ∀ p, w.process b = some p → p.observation = none
  | .setObservation b observation, w => w.busy b = some i ∧ ∀ x, observation = some x →
    w.drawn[x]? = some i ∧ x ∉ w.announced ∧
      ∀ p, w.process b = some p → ∃ r ∈ w.written, r.observationId = x ∧ Certifies str room H r p
  | .setCatalogReceipt _ receipt, w => ∀ r, receipt = some r →
    w.drawn[r.observationId]? = some i ∧ ∀ r' ∈ w.written, r'.observationId ≠ r.observationId
  | _, _ => True

end

/-! ## What may happen in any time -/

/-- What any moves leave true: an id that has been shown is shown on only by a process that has not changed
since. -/
structure Later (w w' : Site) : Prop where
  drawn : w.drawn <+: w'.drawn
  announced : w.announced ⊆ w'.announced
  written : w.written ⊆ w'.written
  edits : w.edits ≤ w'.edits
  disk : w'.edits = w.edits → w'.disk = w.disk
  kept : ∀ b p x, w'.process b = some p → p.observation = some x → x ∈ w.announced → w.process b = some p

/-- What the moves of others leave to thread `i`. -/
structure Spared (i : Nat) (w w' : Site) : Prop where
  busy : ∀ b, w.busy b = some i → w'.busy b = some i ∧ (w'.process b = w.process b ∨ w'.process b = none)
  announced : ∀ x, w.drawn[x]? = some i → x ∈ w'.announced → x ∈ w.announced
  written : ∀ r ∈ w'.written, w.drawn[r.observationId]? = some i → r ∈ w.written
  unstarted : w.process i = none → w.busy i = none → w'.process i = none ∧ w'.busy i = none

namespace Later

theorem refl (w : Site) : Later w w :=
  ⟨List.prefix_refl _, List.Subset.refl _, List.Subset.refl _, le_rfl, fun _ => rfl, fun _ _ _ h _ _ => h⟩

theorem trans (h : Later w w') (h' : Later w' w'') : Later w w'' where
  drawn := h.drawn.trans h'.drawn
  announced := List.Subset.trans h.announced h'.announced
  written := List.Subset.trans h.written h'.written
  edits := h.edits.trans h'.edits
  disk := by
    intro heq
    have hmid : w'.edits = w.edits := le_antisymm (heq ▸ h'.edits) h.edits
    rw [h'.disk (heq.trans hmid.symm), h.disk hmid]
  kept := by
    intro b p x hp hx hmem
    exact h.kept b p x (h'.kept b p x hp hx (h.announced hmem)) hx hmem

theorem drawn_get (h : Later w w') {x t : Nat} (hx : w.drawn[x]? = some t) : w'.drawn[x]? = some t := by
  obtain ⟨more, hmore⟩ := h.drawn
  rw [← hmore, List.getElem?_append_left (List.getElem?_eq_some_iff.1 hx).1, hx]

end Later

namespace Spared

theorem refl (i : Nat) (w : Site) : Spared i w w :=
  ⟨fun _ h => ⟨h, .inl rfl⟩, fun _ _ h => h, fun _ h _ => h, fun h h' => ⟨h, h'⟩⟩

theorem trans (hl : Later w w') (h : Spared i w w') (h' : Spared i w' w'') : Spared i w w'' where
  busy := by
    intro b hb
    obtain ⟨hb', hp⟩ := h.busy b hb
    obtain ⟨hb'', hp'⟩ := h'.busy b hb'
    refine ⟨hb'', ?_⟩
    rcases hp' with hsame | hgone
    · exact hp.imp hsame.trans hsame.trans
    · exact .inr hgone
  announced := fun x hx hmem => h.announced x hx (h'.announced x (hl.drawn_get hx) hmem)
  written := fun r hr hx => h.written r (h'.written r hr (hl.drawn_get hx)) hx
  unstarted := by
    intro hp hb
    obtain ⟨hp', hb'⟩ := h.unstarted hp hb
    exact h'.unstarted hp' hb'

end Spared

/-! ## One call -/

section
variable {b : Nat}

/-- A step that changes none but one process, which shows nothing afterwards, keeps what is sound. -/
theorem Site.Sound.hide (h : w.Sound str room H) {process : Nat → Option Process} {busy : Nat → Option Nat}
    (hothers : ∀ b', b' ≠ b → process b' = w.process b')
    (hsilent : ∀ p, process b = some p → p.observation = none ∧ Named p.registry) :
    ({ w with process, busy } : Site).Sound str room H where
  written_drawn := h.written_drawn
  announced_drawn := h.announced_drawn
  unique := h.unique
  stored := h.stored
  shown := by
    intro b' p x hp hx
    rcases eq_or_ne b' b with rfl | hne
    · rw [(hsilent p hp).1] at hx
      cases hx
    · exact h.shown b' p x ((hothers b' hne).symm.trans hp) hx
  single := by
    intro b₁ b₂ p₁ p₂ x hp₁ hp₂ hx₁ hx₂
    rcases eq_or_ne b₁ b with rfl | hne₁
    · rw [(hsilent p₁ hp₁).1] at hx₁
      cases hx₁
    rcases eq_or_ne b₂ b with rfl | hne₂
    · rw [(hsilent p₂ hp₂).1] at hx₂
      cases hx₂
    exact h.single b₁ b₂ p₁ p₂ x ((hothers b₁ hne₁).symm.trans hp₁) ((hothers b₂ hne₂).symm.trans hp₂) hx₁ hx₂
  named := by
    intro b' p hp
    rcases eq_or_ne b' b with rfl | hne
    · exact (hsilent p hp).2
    · exact h.named b' p ((hothers b' hne).symm.trans hp)

theorem Later.hide {process : Nat → Option Process} {busy : Nat → Option Nat}
    (hothers : ∀ b', b' ≠ b → process b' = w.process b')
    (hsilent : ∀ p, process b = some p → p.observation = none) :
    Later w { w with process, busy } where
  drawn := List.prefix_refl _
  announced := List.Subset.refl _
  written := List.Subset.refl _
  edits := le_rfl
  disk := fun _ => rfl
  kept := by
    intro b' p x hp hx _
    rcases eq_or_ne b' b with rfl | hne
    · rw [hsilent p hp] at hx
      cases hx
    · exact (hothers b' hne).symm.trans hp

/-- A step on a process that is not the thread's. -/
theorem Spared.other {process : Nat → Option Process} {busy : Nat → Option Nat}
    (hothers : ∀ b', b' ≠ b → process b' = w.process b' ∧ busy b' = w.busy b') (hbusy : w.busy b ≠ some j)
    (hj : w.process j = none → w.busy j = none → process j = none ∧ busy j = none) :
    Spared j w { w with process, busy } where
  busy := by
    intro b' hb'
    have hne : b' ≠ b := fun heq => hbusy (heq ▸ hb')
    obtain ⟨hp, hb⟩ := hothers b' hne
    exact ⟨hb.trans hb', .inl hp⟩
  announced := fun _ _ h => h
  written := fun _ h _ => h
  unstarted := hj

/-- Who handles signals says nothing about what is shown. -/
theorem Site.Sound.rebusy (h : w.Sound str room H) (busy : Nat → Option Nat) :
    ({ w with busy } : Site).Sound str room H :=
  ⟨h.written_drawn, h.announced_drawn, h.unique, h.stored, h.shown, h.single, h.named⟩

theorem Later.rebusy (busy : Nat → Option Nat) : Later w { w with busy } :=
  ⟨List.prefix_refl _, List.Subset.refl _, List.Subset.refl _, le_rfl, fun _ => rfl, fun _ _ _ h _ _ => h⟩

/-- An id is shown by a process for whose catalog its receipt was written. -/
theorem Site.Sound.show (h : w.Sound str room H) {x : Nat} (hdrawn : x < w.drawn.length) (hnew : x ∉ w.announced)
    (hwritten : ∀ p, w.process b = some p → ∃ r ∈ w.written, r.observationId = x ∧ Certifies str room H r p) :
    ({ w.setProcess b (fun p => { p with observation := some x }) with announced := x :: w.announced } : Site).Sound
      str room H := by
  have hnone : ∀ b' p, w.process b' = some p → p.observation ≠ some x :=
    fun b' p hp hx => hnew (h.shown b' p x hp hx).1
  have hother : ∀ {b' p y}, b' ≠ b →
      update w.process b ((w.process b).map fun p => { p with observation := some x }) b' = some p →
      p.observation = some y → w.process b' = some p ∧ y ≠ x := by
    intro b' p y hne hp hy
    rw [update_of_ne _ _ hne] at hp
    exact ⟨hp, fun heq => hnone b' p hp (heq ▸ hy)⟩
  have hown : ∀ {p y}, update w.process b ((w.process b).map fun p => { p with observation := some x }) b = some p →
      p.observation = some y → y = x ∧ ∃ q, w.process b = some q ∧ q.registry = p.registry := by
    intro p y hp hy
    rw [update_same] at hp
    obtain ⟨q, hq, rfl⟩ := Option.map_eq_some_iff.1 hp
    exact ⟨(Option.some.inj hy).symm, q, hq, rfl⟩
  refine ⟨h.written_drawn, ?_, h.unique, h.stored, ?_, ?_, ?_⟩
  · intro y hy
    rcases List.mem_cons.1 hy with rfl | hold
    · exact hdrawn
    · exact h.announced_drawn y hold
  · intro b' p y hp hy
    rcases eq_or_ne b' b with rfl | hne
    · obtain ⟨rfl, q, hq, hregistry⟩ := hown hp hy
      obtain ⟨r, hr, hid, hcert⟩ := hwritten q hq
      exact ⟨List.mem_cons_self .., r, hr, hid, by simpa only [Certifies, hregistry] using hcert⟩
    · obtain ⟨hp', -⟩ := hother hne hp hy
      obtain ⟨hmem, hcert⟩ := h.shown b' p y hp' hy
      exact ⟨List.mem_cons_of_mem _ hmem, hcert⟩
  · intro b₁ b₂ p₁ p₂ y hp₁ hp₂ hy₁ hy₂
    rcases eq_or_ne b₁ b with rfl | hne₁ <;> rcases eq_or_ne b₂ b₁ with rfl | hne₂
    · rfl
    · exact absurd (hown hp₁ hy₁).1 (hother hne₂ hp₂ hy₂).2
    · rfl
    · rcases eq_or_ne b₂ b with rfl | hne
      · exact absurd (hown hp₂ hy₂).1 (hother hne₁ hp₁ hy₁).2
      · exact h.single b₁ b₂ p₁ p₂ y (hother hne₁ hp₁ hy₁).1 (hother hne hp₂ hy₂).1 hy₁ hy₂
  · intro b' p hp
    rcases eq_or_ne b' b with rfl | hne
    · have hp' := hp
      simp only [Site.setProcess, update_same] at hp'
      obtain ⟨q, hq, rfl⟩ := Option.map_eq_some_iff.1 hp'
      exact h.named b' q hq
    · exact h.named b' p (by simpa only [Site.setProcess, update_of_ne _ _ hne] using hp)

theorem Later.show {x : Nat} (hnew : x ∉ w.announced) :
    Later w { w.setProcess b (fun p => { p with observation := some x }) with announced := x :: w.announced } where
  drawn := List.prefix_refl _
  announced := List.subset_cons_self x w.announced
  written := List.Subset.refl _
  edits := le_rfl
  disk := fun _ => rfl
  kept := by
    intro b' p y hp hy hmem
    rcases eq_or_ne b' b with rfl | hne
    · simp only [Site.setProcess, update_same] at hp
      obtain ⟨q, -, rfl⟩ := Option.map_eq_some_iff.1 hp
      exact absurd (Option.some.inj hy ▸ hmem) hnew
    · simpa only [Site.setProcess, update_of_ne _ _ hne] using hp

theorem Spared.show {x : Nat} (hdrawn : w.drawn[x]? = some i) (hbusy : w.busy b = some i) (hij : i ≠ j) :
    Spared j w { w.setProcess b (fun p => { p with observation := some x }) with announced := x :: w.announced } where
  busy := by
    intro b' hb'
    have hne : b' ≠ b := by
      rintro rfl
      exact hij (Option.some.inj (hbusy.symm.trans hb'))
    exact ⟨hb', .inl (update_of_ne _ _ hne)⟩
  announced := by
    intro y hy hmem
    rcases List.mem_cons.1 hmem with rfl | hold
    · exact absurd (Option.some.inj (hdrawn.symm.trans hy)) hij
    · exact hold
  written := fun _ h _ => h
  unstarted := by
    intro hp hb
    have hne : j ≠ b := by
      rintro rfl
      rw [hbusy] at hb
      cases hb
    exact ⟨(update_of_ne _ _ hne).trans hp, hb⟩

/-- A receipt under an id that none had before. -/
theorem Site.Sound.write (h : w.Sound str room H) {r : Receipt} (hdrawn : r.observationId < w.drawn.length)
    (hnew : ∀ r' ∈ w.written, r'.observationId ≠ r.observationId) (db : PyStr) :
    ({ w with receipt := fun d => if d = db then some r else w.receipt d, written := r :: w.written } : Site).Sound
      str room H where
  written_drawn := List.forall_mem_cons.2 ⟨hdrawn, h.written_drawn⟩
  announced_drawn := h.announced_drawn
  unique := by
    intro r₁ h₁ r₂ h₂ heq
    rcases List.mem_cons.1 h₁ with rfl | hold₁ <;> rcases List.mem_cons.1 h₂ with rfl | hold₂
    · rfl
    · exact absurd heq.symm (hnew r₂ hold₂)
    · exact absurd heq (hnew r₁ hold₁)
    · exact h.unique r₁ hold₁ r₂ hold₂ heq
  stored := by
    intro d r' hr'
    simp only at hr'
    split_ifs at hr'
    · exact Option.some.inj hr' ▸ List.mem_cons_self ..
    · exact List.mem_cons_of_mem _ (h.stored d r' hr')
  shown := by
    intro b p x hp hx
    obtain ⟨hmem, r', hr', hid, hcert⟩ := h.shown b p x hp hx
    exact ⟨hmem, r', List.mem_cons_of_mem _ hr', hid, hcert⟩
  single := h.single
  named := h.named

/-- A store put back to a receipt that some store held, or to none. -/
theorem Site.Sound.restore (h : w.Sound str room H) (db : PyStr) {receipt : Option Receipt}
    (hold : ∀ r, receipt = some r → r ∈ w.written) :
    ({ w with receipt := fun d => if d = db then receipt else w.receipt d } : Site).Sound str room H where
  written_drawn := h.written_drawn
  announced_drawn := h.announced_drawn
  unique := h.unique
  stored := by
    intro d r hr
    simp only at hr
    split_ifs at hr
    · exact hold r hr
    · exact h.stored d r hr
  shown := h.shown
  single := h.single
  named := h.named

end

/-! ## Every call -/

/-- What a call of thread `i` does to the site, for the thread and for the others. -/
structure Moved (str : PyStr → PyStr) (room : Nat) (H : Hash) (i : Nat) (w w' : Site) : Prop where
  sound : w'.Sound str room H
  later : Later w w'
  spared : ∀ j, i ≠ j → Spared j w w'

theorem Moved.refl (h : w.Sound str room H) : Moved str room H i w w :=
  ⟨h, .refl w, fun j _ => .refl j w⟩

section
variable {b : Nat} (h : w.Sound str room H)
include h

theorem moved_listen (config : RunConfig) {registry : Entries} (hnamed : Named registry)
    (hbusy : w.busy i = none) :
    Moved str room H i w { w with
      process := update w.process i (some { config, registry })
      busy := update w.busy i (some i) } := by
  have hsilent : ∀ p, update w.process i (some { config, registry }) i = some p →
      p.observation = none ∧ Named p.registry := by
    intro p hp
    rw [update_same] at hp
    obtain rfl := Option.some.inj hp
    exact ⟨rfl, hnamed⟩
  refine ⟨h.hide (fun b' hne => update_of_ne _ _ hne) hsilent, ?_, fun j hij => ?_⟩
  · exact .hide (fun b' hne => update_of_ne _ _ hne) fun p hp => (hsilent p hp).1
  · refine .other (fun b' hne => ⟨update_of_ne _ _ hne, update_of_ne _ _ hne⟩) (by rw [hbusy]; exact nofun) ?_
    intro hp hb
    exact ⟨(update_of_ne _ _ hij.symm).trans hp, (update_of_ne _ _ hij.symm).trans hb⟩

theorem moved_free (hbusy : w.busy b = some i) :
    Moved str room H i w { w with busy := update w.busy b none } := by
  refine ⟨h.rebusy _, .rebusy _, fun j hij => ?_⟩
  refine .other (fun b' hne => ⟨rfl, update_of_ne _ _ hne⟩) (fun hb => hij (Option.some.inj (hbusy.symm.trans hb))) ?_
  intro hp hb
  refine ⟨hp, ?_⟩
  rcases eq_or_ne j b with rfl | hne
  · exact update_same _ _ _
  · exact (update_of_ne _ _ hne).trans hb

theorem moved_sighup (hup : (w.process b).isSome = true) (hbusy : w.busy b = none) :
    Moved str room H i w { w with busy := update w.busy b (some i) } := by
  refine ⟨h.rebusy _, .rebusy _, fun j _ => ?_⟩
  refine .other (fun b' hne => ⟨rfl, update_of_ne _ _ hne⟩) (by rw [hbusy]; exact nofun) ?_
  intro hp hb
  have hne : j ≠ b := by
    rintro rfl
    rw [hp] at hup
    cases hup
  exact ⟨hp, (update_of_ne _ _ hne).trans hb⟩

/-- Whoever lets a process go, no thread counts on its being there. -/
theorem moved_exit : Moved str room H i w { w with process := update w.process b none } := by
  have hgone : ∀ p, update w.process b none b ≠ some p := by
    intro p hp
    rw [update_same] at hp
    cases hp
  refine ⟨h.hide (fun b' hne => update_of_ne _ _ hne) fun p hp => absurd hp (hgone p),
    .hide (fun b' hne => update_of_ne _ _ hne) fun p hp => absurd hp (hgone p), fun j _ => ?_⟩
  have hleft : ∀ b', update w.process b none b' = w.process b' ∨ update w.process b none b' = none := by
    intro b'
    rcases eq_or_ne b' b with rfl | hne
    · exact .inr (update_same _ _ _)
    · exact .inl (update_of_ne _ _ hne)
  refine ⟨fun b' hb' => ⟨hb', hleft b'⟩, fun _ _ hx => hx, fun _ hr _ => hr, fun hp hb => ⟨?_, hb⟩⟩
  exact (hleft j).elim (·.trans hp) id

/-- The thread that handles a process's signals changes it, and it shows nothing afterwards. -/
theorem moved_hide {f : Process → Process} (hbusy : w.busy b = some i)
    (hsilent : ∀ p, w.process b = some p → (f p).observation = none ∧ Named (f p).registry) :
    Moved str room H i w (w.setProcess b f) := by
  have hsilent' : ∀ p, update w.process b ((w.process b).map f) b = some p →
      p.observation = none ∧ Named p.registry := by
    intro p hp
    rw [update_same] at hp
    obtain ⟨q, hq, rfl⟩ := Option.map_eq_some_iff.1 hp
    exact hsilent q hq
  refine ⟨h.hide (fun b' hne => update_of_ne _ _ hne) hsilent', ?_, fun j hij => ?_⟩
  · exact .hide (fun b' hne => update_of_ne _ _ hne) fun p hp => (hsilent' p hp).1
  · refine .other (b := b) (fun b' hne => ⟨update_of_ne _ _ hne, rfl⟩)
      (fun hb => hij (Option.some.inj (hbusy.symm.trans hb))) ?_
    intro hp hb
    have hne : j ≠ b := by
      rintro rfl
      rw [hbusy] at hb
      cases hb
    exact ⟨(update_of_ne _ _ hne).trans hp, hb⟩

theorem moved_show {x : Nat} (hbusy : w.busy b = some i) (hdrawn : w.drawn[x]? = some i) (hnew : x ∉ w.announced)
    (hwritten : ∀ p, w.process b = some p → ∃ r ∈ w.written, r.observationId = x ∧ Certifies str room H r p) :
    Moved str room H i w
      { w.setProcess b (fun p => { p with observation := some x }) with announced := x :: w.announced } :=
  ⟨h.show (List.getElem?_eq_some_iff.1 hdrawn).1 hnew hwritten, .show hnew, fun _ hij => .show hdrawn hbusy hij⟩

theorem moved_write {receipt : Option Receipt} (hreq : ∀ r, receipt = some r →
    w.drawn[r.observationId]? = some i ∧ ∀ r' ∈ w.written, r'.observationId ≠ r.observationId) :
    Moved str room H i w (w.writeReceipt b receipt) := by
  rw [Site.writeReceipt]
  cases w.process b with
  | none => exact .refl h
  | some p =>
    cases receipt with
    | none =>
      have hnone : ∀ r, (none : Option Receipt) = some r → r ∈ w.written := fun _ hr => nomatch hr
      exact ⟨h.restore _ hnone, ⟨List.prefix_refl _, List.Subset.refl _, List.Subset.refl _, le_rfl, fun _ => rfl,
        fun _ _ _ hp _ _ => hp⟩, fun j _ => ⟨fun _ hb => ⟨hb, .inl rfl⟩, fun _ _ hx => hx, fun _ hr _ => hr,
        fun hp hb => ⟨hp, hb⟩⟩⟩
    | some r =>
      obtain ⟨hdrawn, hnew⟩ := hreq r rfl
      refine ⟨h.write (List.getElem?_eq_some_iff.1 hdrawn).1 hnew _, ⟨List.prefix_refl _, List.Subset.refl _,
        List.subset_cons_self r w.written, le_rfl, fun _ => rfl, fun _ _ _ hp _ _ => hp⟩, fun j hij => ?_⟩
      refine ⟨fun _ hb => ⟨hb, .inl rfl⟩, fun _ _ hx => hx, fun r' hr' hx => ?_, fun hp hb => ⟨hp, hb⟩⟩
      rcases List.mem_cons.1 hr' with rfl | hold
      · exact absurd (Option.some.inj (hdrawn.symm.trans hx)) hij
      · exact hold

theorem moved_draw : Moved str room H i w { w with drawn := w.drawn ++ [i] } := by
  have hlt : ∀ {n : Nat}, n < w.drawn.length → n < (w.drawn ++ [i]).length := by
    intro n hn
    rw [List.length_append]
    exact Nat.lt_add_right _ hn
  exact ⟨⟨fun r hr => hlt (h.written_drawn r hr), fun x hx => hlt (h.announced_drawn x hx), h.unique, h.stored,
    h.shown, h.single, h.named⟩,
    ⟨List.prefix_append _ _, List.Subset.refl _, List.Subset.refl _, le_rfl, fun _ => rfl, fun _ _ _ hp _ _ => hp⟩,
    fun j _ => ⟨fun _ hb => ⟨hb, .inl rfl⟩, fun _ _ hx => hx, fun _ hr _ => hr, fun hp hb => ⟨hp, hb⟩⟩⟩

theorem moved_exec {o : Op} (ω : Oracle) (hreq : Requires str room H i o w) :
    Moved str room H i w (exec false i o ω w).2 := by
  cases o with
  | glob | exists' | readBytes | resolve | context | health | catalogReceipt => exact .refl h
  | listen config registry =>
    simp only [exec]
    split_ifs
    · exact .refl h
    · exact moved_listen h config hreq.1 hreq.2
  | serving b | handled b => exact moved_free h hreq
  | exit b => exact moved_exit h
  | sighup b =>
    by_cases hfree : (w.process b).isSome ∧ (false = true ∨ w.busy b = none)
    · have hexec : exec false i (.sighup b) ω w = (true, { w with busy := update w.busy b (some i) }) := if_pos hfree
      exact hexec ▸ moved_sighup h hfree.1 (hfree.2.resolve_left Bool.false_ne_true)
    · have hexec : exec false i (.sighup b) ω w = (false, w) := if_neg hfree
      exact hexec ▸ .refl h
  | setRegistry b registry =>
    obtain ⟨hbusy, hnamed, hnone⟩ := hreq
    exact moved_hide h hbusy fun p hp => ⟨hnone p hp, hnamed⟩
  | setObservation b observation =>
    obtain ⟨hbusy, hshow⟩ := hreq
    cases observation with
    | none => exact moved_hide h hbusy fun p hp => ⟨rfl, h.named b p hp⟩
    | some x =>
      obtain ⟨hdrawn, hnew, hwritten⟩ := hshow x rfl
      exact moved_show h hbusy hdrawn hnew hwritten
  | setCatalogReceipt b receipt => exact moved_write h hreq
  | uuid4 => exact moved_draw h

theorem moved_env (e : Env) : Moved str room H i w (e.apply w) := by
  cases e with
  | edit disk =>
    exact ⟨⟨h.written_drawn, h.announced_drawn, h.unique, h.stored, h.shown, h.single, h.named⟩,
      ⟨List.prefix_refl _, List.Subset.refl _, List.Subset.refl _, Nat.le_succ _,
        fun heq => absurd heq (Nat.succ_ne_self _), fun _ _ _ hp _ _ => hp⟩,
      fun j _ => ⟨fun _ hb => ⟨hb, .inl rfl⟩, fun _ _ hx => hx, fun _ hr _ => hr, fun hp hb => ⟨hp, hb⟩⟩⟩
  | restore db n =>
    exact ⟨h.restore db fun r hr => List.mem_of_getElem? hr,
      ⟨List.prefix_refl _, List.Subset.refl _, List.Subset.refl _, le_rfl, fun _ => rfl, fun _ _ _ hp _ _ => hp⟩,
      fun j _ => ⟨fun _ hb => ⟨hb, .inl rfl⟩, fun _ _ hx => hx, fun _ hr _ => hr, fun hp hb => ⟨hp, hb⟩⟩⟩
  | exit b => exact moved_exit h

end

/-! ## The discipline -/

/-- Thread `i` has started no process. -/
def Unstarted (i : Nat) (w : Site) : Prop := w.process i = none ∧ w.busy i = none

def discipline (str : PyStr → PyStr) (room : Nat) (H : Hash) (netlocOk : PyStr → Bool)
    (loads : Text → Option PyDict) : Discipline (system str room H netlocOk loads false) where
  inv := Site.Sound str room H
  rely i w w' := Later w w' ∧ Spared i w w'
  requires := Requires str room H
  fresh := Unstarted
  rely_refl i w := ⟨.refl w, .refl i w⟩
  rely_trans h h' := ⟨h.1.trans h'.1, .trans h.1 h.2 h'.2⟩
  fresh_rely h h' := h'.2.unstarted h.1 h.2
  exec_inv ω h hreq := (moved_exec h ω hreq).sound
  exec_rely ω h hreq hij := ⟨(moved_exec h ω hreq).later, (moved_exec h ω hreq).spared _ hij⟩
  env_inv e h := (moved_env (i := 0) h e).sound
  env_rely e j h := ⟨(moved_env (i := j) h e).later, (moved_env (i := j + 1) h e).spared j (Nat.succ_ne_self j)⟩
  offline_inv f := nomatch f
  offline_fresh f := nomatch f

end Toolstack.Admin.CatalogObservation
