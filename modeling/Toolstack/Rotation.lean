import Mathlib.Logic.Function.Basic

/-! Files in numbered slots, the newest in slot zero, that are moved up one slot at a time. Read from
the highest slot down, they keep what they hold in order as long as each moves to a vacant slot. -/

namespace Toolstack.Rotation

variable {α : Type}

abbrev Slots (α : Type) := Nat → Option (List α)

/-- What the slots below `n` hold, the highest first. -/
def history (files : Slots α) : Nat → List α
  | 0 => []
  | n + 1 => (files n).getD [] ++ history files n

/-- Slot `i` is moved up. -/
def move (files : Slots α) (i : Nat) : Slots α := Function.update (Function.update files (i + 1) (files i)) i none

theorem move_of_ne {files : Slots α} {i j : Nat} (hsource : j ≠ i) (htarget : j ≠ i + 1) : move files i j = files j := by
  rw [move, Function.update_of_ne hsource, Function.update_of_ne htarget]

theorem move_source (files : Slots α) (i : Nat) : move files i i = none := Function.update_self ..

theorem move_target (files : Slots α) (i : Nat) : move files i (i + 1) = files i := by
  rw [move, Function.update_of_ne (Nat.succ_ne_self i), Function.update_self]

/-- Every file after a move was one before it. -/
theorem move_eq_some {files : Slots α} {i j : Nat} {file : List α} (h : move files i j = some file) :
    ∃ k, files k = some file := by
  by_cases hsource : j = i
  · rw [hsource, move_source] at h
    cases h
  · by_cases htarget : j = i + 1
    · rw [htarget, move_target] at h
      exact ⟨i, h⟩
    · rw [move_of_ne hsource htarget] at h
      exact ⟨j, h⟩

theorem history_congr {files files' : Slots α} {n : Nat} (h : ∀ i < n, files i = files' i) :
    history files n = history files' n := by
  induction n with
  | zero => rfl
  | succ n ih => rw [history, history, h n (Nat.lt_succ_self n), ih fun i hi => h i (Nat.lt_succ_of_lt hi)]

/-- What was in the target is gone, and nothing else. -/
theorem history_move_last (files : Slots α) (i : Nat) :
    history files (i + 2) = (files (i + 1)).getD [] ++ history (move files i) (i + 2) := by
  have hbelow : history (move files i) i = history files i :=
    history_congr fun j hj => move_of_ne (by omega) (by omega)
  rw [history, history, history, history, move_target, move_source, hbelow]
  rfl

/-- A move to a vacant slot. -/
theorem history_move {files : Slots α} {i n : Nat} (hn : i + 2 ≤ n) (hvacant : files (i + 1) = none) :
    history (move files i) n = history files n := by
  obtain ⟨k, rfl⟩ := Nat.exists_eq_add_of_le hn
  induction k with
  | zero =>
    rw [Nat.add_zero, history_move_last files i, hvacant]
    rfl
  | succ k ih =>
    have hhigh : move files i (i + 2 + k) = files (i + 2 + k) := move_of_ne (by omega) (by omega)
    rw [← Nat.add_assoc, history, history, hhigh, ih (Nat.le_add_right _ _)]

theorem history_append (files : Slots α) (n : Nat) (tail : List α) :
    history (Function.update files 0 (some ((files 0).getD [] ++ tail))) (n + 1) = history files (n + 1) ++ tail := by
  induction n with
  | zero =>
    rw [history, history, history, history, Function.update_self]
    simp
  | succ n ih =>
    rw [history, ih, history.eq_def files (n + 1 + 1), Function.update_of_ne (Nat.succ_ne_zero n), List.append_assoc]

end Toolstack.Rotation
