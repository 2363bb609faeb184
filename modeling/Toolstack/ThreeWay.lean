import Mathlib.Data.List.Basic

/-! Three-way merges, key by key: what was changed since a common base is kept, the rest is taken from
the latest. -/

namespace Toolstack.ThreeWay

section
variable {β : Type} [DecidableEq β]

/-- The draft's value where the key is merged and the draft moved it from the base. -/
def pick (merged : Prop) [Decidable merged] (base draft latest : β) : β :=
  if merged ∧ base ≠ draft then draft else latest

theorem pick_of_not {merged : Prop} [Decidable merged] (h : ¬merged) (base draft latest : β) :
    pick merged base draft latest = latest := if_neg fun hm => h hm.1

theorem pick_of {merged : Prop} [Decidable merged] (h : merged) (base draft latest : β) :
    pick merged base draft latest = if base ≠ draft then draft else latest := by
  rw [pick]
  simp only [h, true_and]

theorem pick_congr {merged merged' : Prop} [Decidable merged] [Decidable merged'] (h : merged ↔ merged')
    (base draft latest : β) : pick merged base draft latest = pick merged' base draft latest := by
  unfold pick
  simp only [h]

/-- A run of merge steps, each over the keys that it covers, merges the keys that some step covers. -/
theorem read_foldl {σ ι κ : Type} (read : σ → κ → β) (covers : ι → κ → Prop) [∀ i k, Decidable (covers i k)]
    (base draft : σ) (Inv : σ → Prop) {step : σ → ι → σ} {is : List ι} (hinv : ∀ i ∈ is, ∀ s, Inv s → Inv (step s i))
    (hstep : ∀ i ∈ is, ∀ s, Inv s → ∀ k,
      read (step s i) k = pick (covers i k) (read base k) (read draft k) (read s k)) {s : σ} (hs : Inv s) (k : κ) :
    Inv (is.foldl step s) ∧
      read (is.foldl step s) k = pick (∃ i ∈ is, covers i k) (read base k) (read draft k) (read s k) := by
  induction is generalizing s with
  | nil => exact ⟨hs, (pick_of_not (fun ⟨i, hi, _⟩ => List.not_mem_nil hi) ..).symm⟩
  | cons i is ih =>
    have hfirst := hstep i List.mem_cons_self s hs k
    obtain ⟨hkept, hrest⟩ := ih (fun j hj => hinv j (List.mem_cons_of_mem _ hj))
      (fun j hj => hstep j (List.mem_cons_of_mem _ hj)) (hinv i List.mem_cons_self s hs)
    refine ⟨hkept, ?_⟩
    rw [List.foldl_cons, hrest, hfirst]
    simp only [pick, List.exists_mem_cons_iff]
    by_cases hmoved : read base k ≠ read draft k
    · by_cases hi : covers i k
      · simp [hmoved, hi]
      · simp [hi]
    · simp [hmoved]

end

/-- Two switches are merged apart, one that lets through and one that blocks: what neither side lets
through passes exactly where each side opens one of the two that the base had closed. -/
theorem opens_iff (baseOn baseOff draftOn draftOff latestOn latestOff : Bool) :
    (pick True baseOn draftOn latestOn && !pick True baseOff draftOff latestOff) = true ∧
        ¬(latestOn && !latestOff) = true ∧ ¬(draftOn && !draftOff) = true ↔
      baseOn = false ∧ baseOff = true ∧
        ((draftOn = false ∧ draftOff = false ∧ latestOn = true ∧ latestOff = true) ∨
          (draftOn = true ∧ draftOff = true ∧ latestOn = false ∧ latestOff = false)) := by
  rw [pick_of trivial, pick_of trivial]
  cases baseOn <;> cases baseOff <;> grind

/-- A key that only the latest has keeps its own block, and passes where the draft opens the first. -/
theorem surfaces_iff (merged : Prop) [Decidable merged] (baseOn draftOn latestOn latestOff : Bool) :
    (pick merged baseOn draftOn latestOn && !latestOff) = true ∧ ¬(latestOn && !latestOff) = true ↔
      merged ∧ baseOn = false ∧ draftOn = true ∧ latestOn = false ∧ latestOff = false := by
  by_cases h : merged
  · rw [pick_of h]
    cases baseOn <;> grind
  · rw [pick_of_not h]
    simp [h]

end Toolstack.ThreeWay
