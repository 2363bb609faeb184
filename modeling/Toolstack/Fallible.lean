import Mathlib.Data.List.Forall2

/-! Computations in `Except` that succeed: what their parts did. -/

namespace Toolstack.Fallible

variable {ε α β : Type}

theorem pure_ok {a b : α} : (pure a : Except ε α) = .ok b ↔ a = b :=
  ⟨Except.ok.inj, fun h => h ▸ rfl⟩

theorem throw_ok {e : ε} {b : β} : (throw e : Except ε β) = .ok b ↔ False := by
  refine ⟨fun h => ?_, False.elim⟩
  cases h

theorem bind_ok {x : Except ε α} {f : α → Except ε β} {b : β} :
    (x >>= f) = .ok b ↔ ∃ a, x = .ok a ∧ f a = .ok b := by
  cases x with
  | error e =>
    constructor
    · intro h
      cases h
    · rintro ⟨a, ha, -⟩
      cases ha
  | ok a =>
    constructor
    · exact fun h => ⟨a, rfl, h⟩
    · rintro ⟨a', ha, h⟩
      obtain rfl := Except.ok.inj ha
      exact h

/-- `if c: raise …` before the rest. -/
theorem guard_ok {c : Prop} [Decidable c] {e : ε} {f : PUnit → Except ε β} {b : β} :
    (if c then throw e >>= f else f .unit) = .ok b ↔ ¬c ∧ f .unit = .ok b := by
  split_ifs with hc
  · constructor
    · intro h
      cases h
    · exact fun h => absurd hc h.1
  · exact ⟨fun h => ⟨hc, h⟩, fun h => h.2⟩

/-- The loop rule. -/
theorem foldlM_ok {P : β → Prop} {f : β → α → Except ε β} {xs : List α} {b b' : β} (hb : P b)
    (hstep : ∀ b x b', x ∈ xs → P b → f b x = .ok b' → P b') (h : xs.foldlM f b = .ok b') : P b' := by
  induction xs generalizing b with
  | nil => exact Except.ok.inj h ▸ hb
  | cons x xs ih =>
    rw [List.foldlM_cons] at h
    obtain ⟨b₁, hx, hrest⟩ := bind_ok.1 h
    exact ih (hstep b x b₁ (List.mem_cons_self ..) hb hx)
      (fun b y b' hy => hstep b y b' (List.mem_cons_of_mem _ hy)) hrest

/-- A loop that adds one element for each item. -/
theorem foldlM_append {R : α → β → Prop} {f : List β → α → Except ε (List β)} {xs : List α}
    {acc out : List β} (hstep : ∀ acc x acc', f acc x = .ok acc' → ∃ y, acc' = acc ++ [y] ∧ R x y)
    (h : xs.foldlM f acc = .ok out) : ∃ ys, out = acc ++ ys ∧ List.Forall₂ R xs ys := by
  induction xs generalizing acc with
  | nil =>
    obtain rfl := Except.ok.inj h
    exact ⟨[], (List.append_nil acc).symm, .nil⟩
  | cons x xs ih =>
    rw [List.foldlM_cons] at h
    obtain ⟨acc', hx, hrest⟩ := bind_ok.1 h
    obtain ⟨y, rfl, hy⟩ := hstep acc x acc' hx
    obtain ⟨ys, rfl, hys⟩ := ih hrest
    exact ⟨y :: ys, by rw [List.append_assoc, List.singleton_append], .cons hy hys⟩

/-- The index of an item is of no matter. -/
theorem forall₂_zipIdx {R : α → β → Prop} {xs : List α} {ys : List β}
    (h : List.Forall₂ (fun x => R x.1) xs.zipIdx ys) : List.Forall₂ R xs ys := by
  have hmap := List.forall₂_map_left_iff.2 h
  rwa [List.zipIdx_map_fst] at hmap

theorem exists_of_mem_right {R : α → β → Prop} {xs : List α} {ys : List β} (h : List.Forall₂ R xs ys)
    {y : β} (hy : y ∈ ys) : ∃ x ∈ xs, R x y := by
  induction h with
  | nil => cases hy
  | cons hxy _ ih =>
    rcases List.mem_cons.1 hy with rfl | hrest
    · exact ⟨_, List.mem_cons_self .., hxy⟩
    · obtain ⟨x, hx, hR⟩ := ih hrest
      exact ⟨x, List.mem_cons_of_mem _ hx, hR⟩

theorem exists_of_mem_left {R : α → β → Prop} {xs : List α} {ys : List β} (h : List.Forall₂ R xs ys)
    {x : α} (hx : x ∈ xs) : ∃ y ∈ ys, R x y :=
  exists_of_mem_right (R := fun y x => R x y) (List.Forall₂.flip h) hx

theorem mapM_ok {R : α → β → Prop} {f : α → Except ε β} {xs : List α} {ys : List β}
    (hf : ∀ x y, f x = .ok y → R x y) (h : xs.mapM f = .ok ys) : List.Forall₂ R xs ys := by
  induction xs generalizing ys with
  | nil =>
    obtain rfl := Except.ok.inj h
    exact .nil
  | cons x xs ih =>
    rw [List.mapM_cons] at h
    simp only [bind_ok, pure_ok] at h
    obtain ⟨y, hy, ys, hys, rfl⟩ := h
    exact .cons (hf x y hy) (ih hys)

/-- What an interrupted traversal raises was raised at one of its elements. -/
theorem mapM_error {f : α → Except ε β} {xs : List α} {e : ε} (h : xs.mapM f = .error e) : ∃ x ∈ xs, f x = .error e := by
  induction xs with
  | nil => cases h
  | cons x xs ih =>
    rw [List.mapM_cons] at h
    cases hx : f x with
    | error e' =>
      rw [hx] at h
      cases h
      exact ⟨x, List.mem_cons_self .., hx⟩
    | ok y =>
      rw [hx] at h
      cases hxs : xs.mapM f with
      | error e' =>
        change (xs.mapM f >>= fun ys => pure (y :: ys)) = .error e at h
        rw [hxs] at h
        cases h
        obtain ⟨x', hmem, hx'⟩ := ih hxs
        exact ⟨x', List.mem_cons_of_mem _ hmem, hx'⟩
      | ok ys =>
        change (xs.mapM f >>= fun ys => pure (y :: ys)) = .error e at h
        rw [hxs] at h
        cases h

theorem mapM_some {f : α → Option β} {xs : List α} {ys : List β} :
    xs.mapM f = some ys ↔ List.Forall₂ (fun x y => f x = some y) xs ys := by
  induction xs generalizing ys with
  | nil =>
    rw [List.mapM_nil, List.forall₂_nil_left_iff]
    exact ⟨fun h => (Option.some.inj h).symm, fun h => congrArg some h.symm⟩
  | cons x xs ih =>
    rw [List.mapM_cons, List.forall₂_cons_left_iff]
    constructor
    · intro h
      obtain ⟨y, hy, h⟩ := Option.bind_eq_some_iff.1 h
      obtain ⟨rest, hrest, h⟩ := Option.bind_eq_some_iff.1 h
      exact ⟨y, rest, hy, ih.1 hrest, (Option.some.inj h).symm⟩
    · rintro ⟨y, rest, hy, hrest, rfl⟩
      rw [hy, ih.2 hrest]
      rfl

theorem exists_mapM_some {f : α → Option β} {xs : List α} :
    (∃ ys, xs.mapM f = some ys) ↔ ∀ x ∈ xs, ∃ y, f x = some y := by
  simp only [mapM_some]
  constructor
  · rintro ⟨ys, h⟩ x hx
    obtain ⟨y, -, hy⟩ := exists_of_mem_left h hx
    exact ⟨y, hy⟩
  · intro h
    induction xs with
    | nil => exact ⟨[], .nil⟩
    | cons x xs ih =>
      obtain ⟨y, hy⟩ := h x List.mem_cons_self
      obtain ⟨ys, hys⟩ := ih fun x hx => h x (List.mem_cons_of_mem _ hx)
      exact ⟨y :: ys, .cons hy hys⟩

/-- Two related lists split at the same place. -/
theorem forall₂_split {R : α → β → Prop} {xs : List α} {pre post : List β} {y : β}
    (h : List.Forall₂ R xs (pre ++ y :: post)) : ∃ xpre x xpost, xs = xpre ++ x :: xpost ∧
      List.Forall₂ R xpre pre ∧ R x y ∧ List.Forall₂ R xpost post := by
  induction pre generalizing xs with
  | nil =>
    cases h with
    | cons hxy hrest => exact ⟨[], _, _, rfl, .nil, hxy, hrest⟩
  | cons z pre ih =>
    cases h with
    | @cons x _ xs _ hxz hrest =>
      obtain ⟨xpre, x', xpost, rfl, hpre, hxy, hpost⟩ := ih hrest
      exact ⟨x :: xpre, x', xpost, rfl, .cons hxz hpre, hxy, hpost⟩

theorem exists_mapM {f : α → Except ε β} {xs : List α} (h : ∀ x ∈ xs, ∃ y, f x = .ok y) :
    ∃ ys, xs.mapM f = .ok ys := by
  induction xs with
  | nil => exact ⟨[], rfl⟩
  | cons x xs ih =>
    obtain ⟨y, hy⟩ := h x (List.mem_cons_self ..)
    obtain ⟨ys, hys⟩ := ih fun x' hx' => h x' (List.mem_cons_of_mem _ hx')
    rw [List.mapM_cons]
    exact ⟨y :: ys, bind_ok.2 ⟨y, hy, bind_ok.2 ⟨ys, hys, rfl⟩⟩⟩

theorem forM_ok {f : α → Except ε Unit} {xs : List α} (h : ∀ x ∈ xs, f x = .ok ()) :
    xs.forM f = .ok () := by
  induction xs with
  | nil => rfl
  | cons x xs ih =>
    show (f x >>= fun _ => xs.forM f) = .ok ()
    exact bind_ok.2 ⟨(), h x (List.mem_cons_self ..), ih fun x' hx' => h x' (List.mem_cons_of_mem _ hx')⟩

/-! ## Errors -/

/-- Every error of the computation meets `P`. -/
def Fails (P : ε → Prop) (x : Except ε α) : Prop := ∀ e, x = .error e → P e

section Fails
variable {P : ε → Prop}

theorem Fails.ok (a : α) : Fails P (.ok a : Except ε α) := fun e h => by cases h

theorem Fails.error {e : ε} (h : P e) : Fails P (.error e : Except ε α) := by
  intro e' he
  obtain rfl := Except.error.inj he
  exact h

theorem Fails.bind {x : Except ε α} {f : α → Except ε β} (hx : Fails P x) (hf : ∀ a, Fails P (f a)) :
    Fails P (x >>= f) := by
  intro e he
  cases x with
  | error e' =>
    obtain rfl := Except.error.inj he
    exact hx e' rfl
  | ok a => exact hf a e he

theorem Fails.foldlM {f : β → α → Except ε β} {xs : List α} (h : ∀ b, ∀ x ∈ xs, Fails P (f b x)) (b : β) :
    Fails P (xs.foldlM f b) := by
  induction xs generalizing b with
  | nil => exact .ok b
  | cons x xs ih =>
    rw [List.foldlM_cons]
    exact .bind (h b x (List.mem_cons_self ..)) fun b => ih (fun b y hy => h b y (List.mem_cons_of_mem _ hy)) b

end Fails

end Toolstack.Fallible
