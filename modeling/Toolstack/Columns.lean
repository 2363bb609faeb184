import Toolstack.Table

/-! Tables that are given columns while they hold rows. A row has cells for the columns its table
has and for no others, so nothing can be read of a column before it is added. -/

namespace Toolstack

open Keyed

/-- A row with the columns of `β` and those in `columns`, whose cells may be `NULL`. -/
structure Wide (β : Type) {C : Type} (V : C → Type) (columns : List C) where
  base : β
  cell : ∀ c, c ∈ columns → Option (V c)

variable {β κ C : Type} {V : C → Type} {columns columns' columns'' : List C}

instance [Keyed β κ] : Keyed (Wide β V columns) κ := ⟨fun row => key row.base⟩

namespace Wide
variable [DecidableEq C]

/-- The cell of a column, `NULL` where the table has none. -/
def read (row : Wide β V columns) (c : C) : Option (V c) :=
  if h : c ∈ columns then row.cell c h else none

/-- The row in a table with the columns `columns'`: what it has is kept, and what is added is
`NULL`. -/
def widen (row : Wide β V columns) : Wide β V columns' := ⟨row.base, fun c _ => row.read c⟩

def setBase (f : β → β) (row : Wide β V columns) : Wide β V columns := { row with base := f row.base }

/-- `SET c = NULL`, for a column the table may have. -/
def clear (c : C) (row : Wide β V columns) : Wide β V columns :=
  { row with cell := fun c' h => if c' = c then none else row.cell c' h }

theorem read_of_mem {row : Wide β V columns} {c : C} (h : c ∈ columns) : row.read c = row.cell c h :=
  dif_pos h

theorem read_of_not_mem {row : Wide β V columns} {c : C} (h : c ∉ columns) : row.read c = none :=
  dif_neg h

theorem read_widen {row : Wide β V columns} {c : C} (h : c ∈ columns') :
    (row.widen : Wide β V columns').read c = row.read c := read_of_mem h

@[simp] theorem widen_self (row : Wide β V columns) : row.widen = row := by
  cases row with
  | mk base cell =>
    simp only [widen, mk.injEq, true_and]
    funext c h
    exact read_of_mem h

theorem widen_widen (row : Wide β V columns) (h : ∀ c ∈ columns, c ∈ columns') :
    (row.widen : Wide β V columns').widen = (row.widen : Wide β V columns'') := by
  simp only [widen, mk.injEq, true_and]
  funext c _
  by_cases hc : c ∈ columns'
  · exact read_of_mem hc
  · exact (read_of_not_mem hc).trans (read_of_not_mem fun hmem => hc (h c hmem)).symm

@[simp] theorem read_setBase (f : β → β) (row : Wide β V columns) (c : C) :
    (row.setBase f).read c = row.read c := rfl

theorem read_clear (row : Wide β V columns) (c c' : C) :
    (row.clear c).read c' = if c' = c then none else row.read c' := by
  by_cases hc : c' ∈ columns
  · rw [read_of_mem hc, read_of_mem hc]
    rfl
  · rw [read_of_not_mem hc, read_of_not_mem hc, ite_self]

end Wide

/-- A table and the columns it has got beside those of `β`. -/
structure WideTable (β : Type) {κ : Type} [Keyed β κ] {C : Type} (V : C → Type) where
  columns : List C
  table : Table (Wide β V columns)

namespace WideTable
variable [Keyed β κ]

def empty : WideTable β V := ⟨[], .empty⟩

def rows (t : WideTable β V) : List (Wide β V t.columns) := t.table.rows

def update (t : WideTable β V) (p : β → Bool)
    (f : Wide β V t.columns → Wide β V t.columns) (hf : ∀ row, key (f row) = key row) :
    WideTable β V :=
  ⟨t.columns, t.table.update (fun row => p row.base) f hf⟩

/-- An update seen through `g`, which reads a row of any columns. -/
theorem map_update {σ : Type} [Keyed σ κ] (t : Option (WideTable β V)) {p : β → Bool}
    (f : ∀ columns, Wide β V columns → Wide β V columns)
    (hf : ∀ columns (row : Wide β V columns), key (f columns row) = key row)
    (g : ∀ columns, Wide β V columns → σ)
    (hg : ∀ columns (row : Wide β V columns), key (g columns row) = key row)
    (p' : σ → Bool) (f' : σ → σ) (hf' : ∀ r, key (f' r) = key r)
    (hp : ∀ columns (row : Wide β V columns), p' (g columns row) = p row.base)
    (h : ∀ columns (row : Wide β V columns), g columns (f columns row) = f' (g columns row)) :
    ((t.map fun t : WideTable β V => t.update p (f t.columns) (hf t.columns)).getD .empty).table.map
        (g _) (hg _) =
      ((t.getD .empty).table.map (g _) (hg _)).update p' f' hf' := by
  cases t with
  | none => rfl
  | some t => exact Table.map_update t.table (hf _) (hg _) hf' (hp _) (h _)

variable [DecidableEq C]

/-- `ALTER TABLE … ADD COLUMN c`, unless the table has it. -/
def addMissing (c : C) (t : WideTable β V) : WideTable β V :=
  if c ∈ t.columns then t
  else ⟨t.columns ++ [c], t.table.map Wide.widen fun _ => rfl⟩

/-- The table has the same rows with the same cells, and `NULL` in the columns it has got since. -/
structure Grown (t t' : WideTable β V) : Prop where
  columns : ∀ c ∈ t.columns, c ∈ t'.columns
  rows : t'.rows = t.rows.map Wide.widen

variable {t t' t'' : WideTable β V}

theorem Grown.refl (t : WideTable β V) : Grown t t := by
  refine ⟨fun _ h => h, ?_⟩
  rw [funext (f := Wide.widen) Wide.widen_self, List.map_id']

theorem Grown.trans (h : Grown t t') (h' : Grown t' t'') : Grown t t'' := by
  refine ⟨fun c hc => h'.columns c (h.columns c hc), ?_⟩
  rw [h'.rows, h.rows, List.map_map]
  exact List.map_congr_left fun row _ => row.widen_widen h.columns

theorem grown_addMissing (c : C) (t : WideTable β V) : Grown t (t.addMissing c) := by
  unfold addMissing
  split_ifs with hc
  · exact .refl t
  · exact ⟨fun _ h => List.mem_append_left _ h, rfl⟩

theorem mem_addMissing (c : C) (t : WideTable β V) : c ∈ (t.addMissing c).columns := by
  unfold addMissing
  split_ifs with hc
  · exact hc
  · exact List.mem_append_right _ (List.mem_singleton_self c)

/-- The columns of `cs`, in order. -/
def addAll (cs : List C) (t : WideTable β V) : WideTable β V := cs.foldl (fun t c => t.addMissing c) t

theorem grown_addAll (cs : List C) (t : WideTable β V) : Grown t (t.addAll cs) := by
  induction cs generalizing t with
  | nil => exact .refl t
  | cons c cs ih => exact (grown_addMissing c t).trans (ih (t.addMissing c))

theorem mem_addAll {c : C} {cs : List C} (h : c ∈ cs) (t : WideTable β V) : c ∈ (t.addAll cs).columns := by
  induction cs generalizing t with
  | nil => cases h
  | cons d cs ih =>
    rcases List.mem_cons.1 h with rfl | hmem
    · exact (grown_addAll cs _).columns c (mem_addMissing c t)
    · exact ih hmem (t.addMissing d)

theorem addAll_eq_self {cs : List C} (h : ∀ c ∈ cs, c ∈ t.columns) : t.addAll cs = t := by
  induction cs with
  | nil => rfl
  | cons c cs ih =>
    have hc : t.addMissing c = t := if_pos (h c (List.mem_cons_self ..))
    exact (congrArg (addAll cs) hc).trans (ih fun d hd => h d (List.mem_cons_of_mem c hd))

/-- What a query sees of every row is the same in the grown table. -/
theorem Grown.map_rows {γ : Type} {f : Wide β V t.columns → γ} {f' : Wide β V t'.columns → γ}
    (h : Grown t t') (hf : ∀ row, f' row.widen = f row) : t'.rows.map f' = t.rows.map f := by
  rw [h.rows, List.map_map]
  exact List.map_congr_left fun row _ => hf row

end WideTable

end Toolstack
