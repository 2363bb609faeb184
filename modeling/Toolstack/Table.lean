import Mathlib.Data.List.Nodup

/-! Tables with a primary key, as a relational store keeps them. Key uniqueness is a
field of the structure, so every operation below has to preserve it. -/

namespace Toolstack

/-- Rows of type `ρ` carry a primary key of type `κ`. -/
class Keyed (ρ : Type) (κ : outParam Type) where
  key : ρ → κ

open Keyed

@[ext] structure Table (ρ : Type) {κ : Type} [Keyed ρ κ] where
  rows : List ρ
  nodup : (rows.map key).Nodup

namespace Table
variable {ρ κ : Type} [Keyed ρ κ]

def empty : Table ρ := ⟨[], List.nodup_nil⟩

/-- `UPDATE … SET f WHERE p` for a change of columns that leaves the key alone. -/
def update (t : Table ρ) (p : ρ → Bool) (f : ρ → ρ) (hf : ∀ r, key (f r) = key r) : Table ρ where
  rows := t.rows.map fun r => if p r then f r else r
  nodup := by
    have hkey : (key ∘ fun r => if p r then f r else r) = (key : ρ → κ) := by
      funext r
      by_cases h : p r <;> simp [h, hf]
    simpa only [List.map_map, hkey] using t.nodup

theorem update_eq_self (t : Table ρ) {p : ρ → Bool} (f : ρ → ρ) (hf)
    (h : ∀ r ∈ t.rows, p r = false) : t.update p f hf = t := by
  have hid : t.rows.map (fun r => if p r then f r else r) = t.rows.map id :=
    List.map_congr_left fun r hr => by rw [h r hr]; rfl
  rw [List.map_id] at hid
  exact Table.ext hid

theorem find?_update (t : Table ρ) (p q : ρ → Bool) (f : ρ → ρ) (hf) (hq : ∀ r, q (f r) = q r) :
    (t.update p f hf).rows.find? q = (t.rows.find? q).map fun r => if p r then f r else r := by
  have hpre : ∀ r, q (if p r then f r else r) = q r := fun r => by
    by_cases h : p r <;> simp [h, hq]
  simp only [update, List.find?_map, Function.comp_def, hpre]

/-- The same rows in another shape. -/
def map {σ : Type} [Keyed σ κ] (t : Table ρ) (f : ρ → σ) (hf : ∀ r, key (f r) = key r) : Table σ where
  rows := t.rows.map f
  nodup := by
    have hkey : (key ∘ f : ρ → κ) = key := funext hf
    simpa only [List.map_map, hkey] using t.nodup

/-- `INSERT` of a row whose key is not present yet. -/
def insert (t : Table ρ) (r : ρ) (h : ∀ r' ∈ t.rows, key r' ≠ key r) : Table ρ where
  rows := t.rows ++ [r]
  nodup := by
    rw [List.map_append, List.nodup_append]
    refine ⟨t.nodup, by simp, ?_⟩
    rintro _ hk _ hr
    obtain ⟨r', hr', rfl⟩ := List.mem_map.1 hk
    rw [List.map_singleton, List.mem_singleton] at hr
    exact hr ▸ h r' hr'

theorem map_update {σ : Type} [Keyed σ κ] (t : Table ρ) {p : ρ → Bool} {f : ρ → ρ}
    (hf : ∀ r, key (f r) = key r) {g : ρ → σ} (hg : ∀ r, key (g r) = key r) {p' : σ → Bool}
    {f' : σ → σ} (hf' : ∀ r, key (f' r) = key r) (hp : ∀ r, p' (g r) = p r)
    (h : ∀ r, g (f r) = f' (g r)) :
    (t.update p f hf).map g hg = (t.map g hg).update p' f' hf' := by
  refine Table.ext ?_
  simp only [update, map, List.map_map]
  refine List.map_congr_left fun r _ => ?_
  simp only [Function.comp_apply, hp]
  split_ifs
  · exact h r
  · rfl

section Lookup
variable [DecidableEq κ]

def get? (t : Table ρ) (k : κ) : Option ρ := t.rows.find? fun r => decide (key r = k)

theorem get?_key {t : Table ρ} {k : κ} {r : ρ} (h : t.get? k = some r) : key r = k := by
  simpa using List.find?_some h

theorem mem_of_get? {t : Table ρ} {k : κ} {r : ρ} (h : t.get? k = some r) : r ∈ t.rows :=
  List.mem_of_find?_eq_some h

theorem get?_of_mem {t : Table ρ} {r : ρ} (h : r ∈ t.rows) : t.get? (key r) = some r := by
  cases hf : t.get? (key r) with
  | some r' =>
    have hmem : r' ∈ t.rows := mem_of_get? hf
    have hkey : key r' = key r := get?_key hf
    rw [List.inj_on_of_nodup_map t.nodup hmem h hkey]
  | none =>
    have hne : ∀ r' ∈ t.rows, key r' ≠ key r := by simpa [get?] using hf
    exact absurd rfl (hne r h)

theorem get?_eq_some_iff {t : Table ρ} {k : κ} {r : ρ} :
    t.get? k = some r ↔ r ∈ t.rows ∧ key r = k :=
  ⟨fun h => ⟨mem_of_get? h, get?_key h⟩, fun ⟨h, hk⟩ => hk ▸ get?_of_mem h⟩

theorem get?_eq_none_iff {t : Table ρ} {k : κ} : t.get? k = none ↔ ∀ r ∈ t.rows, key r ≠ k := by
  simp [get?]

@[simp] theorem get?_empty (k : κ) : (empty : Table ρ).get? k = none := rfl

@[simp] theorem get?_update (t : Table ρ) (p : ρ → Bool) (f : ρ → ρ) (hf) (k : κ) :
    (t.update p f hf).get? k = (t.get? k).map fun r => if p r then f r else r := by
  have hkey : ∀ r, key (if p r then f r else r) = key r := fun r => by
    by_cases h : p r <;> simp [h, hf]
  simp only [get?, update, List.find?_map, Function.comp_def, hkey]

theorem get?_map {σ : Type} [Keyed σ κ] (t : Table ρ) (f : ρ → σ) (hf : ∀ r, key (f r) = key r)
    (k : κ) : (t.map f hf).get? k = (t.get? k).map f := by
  simp only [get?, map, List.find?_map, Function.comp_def, hf]

theorem get?_insert (t : Table ρ) (r : ρ) (h) (k : κ) :
    (t.insert r h).get? k = if key r = k then some r else t.get? k := by
  simp only [get?, insert, List.find?_append]
  split_ifs with hk
  · have hnone : t.rows.find? (fun r' => decide (key r' = k)) = none := by
      simpa [hk] using h
    simp [hnone, hk]
  · simp [hk]

theorem get?_insert_self (t : Table ρ) (r : ρ) (h) : (t.insert r h).get? (key r) = some r := by
  rw [get?_insert, if_pos rfl]

end Lookup

/-- `SELECT … WHERE p`, in insertion order. -/
def select (t : Table ρ) (p : ρ → Bool) : List ρ := t.rows.filter p

theorem mem_select {t : Table ρ} {p : ρ → Bool} {r : ρ} : r ∈ t.select p ↔ r ∈ t.rows ∧ p r := by
  simp [select]

theorem select_update (t : Table ρ) (p q : ρ → Bool) (f : ρ → ρ) (hf)
    (hq : ∀ r, q (f r) = q r) :
    (t.update p f hf).select q = (t.select q).map fun r => if p r then f r else r := by
  have hpre : ∀ r, q (if p r then f r else r) = q r := fun r => by
    by_cases h : p r <;> simp [h, hq]
  simp only [select, update, List.filter_map, Function.comp_def, hpre]

theorem select_insert (t : Table ρ) (r : ρ) (h) (p : ρ → Bool) :
    (t.insert r h).select p = t.select p ++ if p r then [r] else [] := by
  by_cases hp : p r <;> simp [select, insert, List.filter_append, hp]

section RowId
variable {ρ : Type} [Keyed ρ Nat]

/-- The row id an `INTEGER PRIMARY KEY` column takes for a row inserted without one. -/
def nextId (t : Table ρ) : Nat := (t.rows.map key).foldr max 0 + 1

theorem key_lt_nextId {t : Table ρ} {r : ρ} (h : r ∈ t.rows) : key r < t.nextId := by
  have hle : ∀ (l : List Nat) (k : Nat), k ∈ l → k ≤ l.foldr max 0 := by
    intro l k hk
    induction l with
    | nil => cases hk
    | cons a l ih =>
      rcases List.mem_cons.1 hk with rfl | hmem
      · exact Nat.le_max_left _ _
      · exact Nat.le_trans (ih hmem) (Nat.le_max_right _ _)
  exact Nat.lt_succ_of_le (hle _ _ (List.mem_map_of_mem h))

theorem get?_nextId (t : Table ρ) : t.get? t.nextId = none :=
  get?_eq_none_iff.2 fun _ hr => Nat.ne_of_lt (key_lt_nextId hr)

/-- `INSERT` that lets the database choose the row id. -/
def append (t : Table ρ) (mk : Nat → ρ) (hmk : ∀ n, key (mk n) = n) : Table ρ :=
  t.insert (mk t.nextId) fun r hr => by rw [hmk]; exact Nat.ne_of_lt (key_lt_nextId hr)

@[simp] theorem get?_append_self (t : Table ρ) (mk : Nat → ρ) (hmk) :
    (t.append mk hmk).get? t.nextId = some (mk t.nextId) := by
  rw [append, get?_insert, if_pos (hmk _)]

theorem get?_append_of_ne (t : Table ρ) (mk : Nat → ρ) (hmk) {k : Nat} (h : k ≠ t.nextId) :
    (t.append mk hmk).get? k = t.get? k := by
  rw [append, get?_insert, if_neg]
  rw [hmk]
  exact h.symm

end RowId

end Table

end Toolstack
