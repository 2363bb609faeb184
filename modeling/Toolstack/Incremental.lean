import Mathlib.Data.List.Infix
import Mathlib.Tactic.Common

/-! Readers that are fed in chunks: records end at a separator, a reader takes one record after the
other and may finish early, and what is left of a chunk waits for the next one. -/

namespace Toolstack.Incremental

variable {α σ ρ : Type} [DecidableEq α]

/-- What comes before the first separator, and what follows it. -/
def cut (sep : α) : List α → Option (List α × List α)
  | [] => none
  | x :: xs => if x = sep then some ([], xs) else (cut sep xs).map fun halves => (x :: halves.1, halves.2)

section
variable {sep : α} {xs record rest : List α}

theorem cut_eq_some : cut sep xs = some (record, rest) ↔ xs = record ++ sep :: rest ∧ sep ∉ record := by
  induction xs generalizing record with
  | nil => simp [cut]
  | cons x xs ih =>
    rw [cut]
    split_ifs with hx
    · subst hx
      constructor
      · intro h
        obtain ⟨rfl, rfl⟩ := Prod.mk.inj (Option.some.inj h)
        exact ⟨rfl, List.not_mem_nil⟩
      · rintro ⟨h, hnot⟩
        cases record with
        | nil => simpa using h
        | cons y record =>
          obtain ⟨rfl, -⟩ := List.cons.inj h
          exact absurd (List.mem_cons_self ..) hnot
    · rw [Option.map_eq_some_iff]
      constructor
      · rintro ⟨⟨r, s⟩, hcut, heq⟩
        obtain ⟨rfl, rfl⟩ := Prod.mk.inj heq
        obtain ⟨rfl, hnot⟩ := ih.1 hcut
        exact ⟨rfl, by simp [hnot, Ne.symm hx]⟩
      · rintro ⟨h, hnot⟩
        cases record with
        | nil => exact absurd (List.cons.inj h).1 hx
        | cons y record =>
          obtain ⟨rfl, rfl⟩ := List.cons.inj h
          exact ⟨(record, rest), ih.2 ⟨rfl, fun hmem => hnot (List.mem_cons_of_mem _ hmem)⟩, rfl⟩

theorem cut_eq_none : cut sep xs = none ↔ sep ∉ xs := by
  constructor
  · intro h hmem
    obtain ⟨record, rest, rfl, hnot⟩ := List.eq_append_cons_of_mem hmem
    rw [cut_eq_some.2 ⟨rfl, hnot⟩] at h
    cases h
  · intro hnot
    cases h : cut sep xs with
    | none => rfl
    | some halves =>
      obtain ⟨heq, -⟩ := cut_eq_some.1 h
      exact absurd (by simp [heq]) hnot

/-- What arrives later does not change a record that is complete. -/
theorem cut_append (h : cut sep xs = some (record, rest)) (ys : List α) :
    cut sep (xs ++ ys) = some (record, rest ++ ys) := by
  obtain ⟨rfl, hnot⟩ := cut_eq_some.1 h
  exact cut_eq_some.2 ⟨by rw [List.append_assoc, List.cons_append], hnot⟩

theorem cut_length (h : cut sep xs = some (record, rest)) : rest.length < xs.length := by
  obtain ⟨rfl, -⟩ := cut_eq_some.1 h
  rw [List.length_append, List.length_cons]
  omega

theorem splitOn_of_cut (h : cut sep xs = some (record, rest)) :
    xs.splitOn sep = record :: rest.splitOn sep := by
  obtain ⟨rfl, hnot⟩ := cut_eq_some.1 h
  rw [List.splitOn_append_cons_of_beq _ _ (beq_self_eq_true sep), List.splitOn_eq_singleton hnot]
  rfl

end

/-! ## Reading records -/

/-- After a record: a new state, or the reader is done. -/
inductive Progress (σ ρ : Type)
  | more (s : σ)
  | done (r : ρ)

namespace Progress
variable {τ : Type}

def andThen : Progress σ ρ → (σ → Progress τ ρ) → Progress τ ρ
  | more s, f => f s
  | done r, _ => done r

/-- Done where there is a result. -/
def settle (s : σ) : Option ρ → Progress σ ρ
  | some r => done r
  | none => more s

theorem andThen_assoc {υ : Type} (p : Progress σ ρ) (f : σ → Progress τ ρ) (g : τ → Progress υ ρ) :
    (p.andThen f).andThen g = p.andThen fun s => (f s).andThen g := by
  cases p with
  | more s => rfl
  | done r => rfl

end Progress

variable (sep : α) (step : σ → List α → Progress σ ρ)

/-- Takes the complete records of what is pending; the rest stays pending. -/
def drain (s : σ) (pending : List α) : Progress (σ × List α) ρ :=
  match _h : cut sep pending with
  | none => .more (s, pending)
  | some (record, rest) => (step s record).andThen fun s => drain s rest
termination_by pending.length
decreasing_by exact cut_length _h

/-- Feeds the chunks one after the other. -/
def feed : List (List α) → σ × List α → Progress (σ × List α) ρ
  | [], state => .more state
  | chunk :: chunks, (s, pending) => (drain sep step s (pending ++ chunk)).andThen (feed chunks)

/-- The records of a list, taken one after the other. -/
def scan : List (List α) → σ → Progress σ ρ
  | [], s => .more s
  | record :: records, s => (step s record).andThen (scan records)

/-- The complete records, each closed by a separator. -/
def records (xs : List α) : List (List α) := (xs.splitOn sep).dropLast

section
variable {sep step} {s : σ} {pending record rest : List α}

theorem drain_none (h : cut sep pending = none) : drain sep step s pending = .more (s, pending) := by
  rw [drain]
  split
  · rfl
  · rename_i hsome
    rw [h] at hsome
    cases hsome

theorem drain_some (h : cut sep pending = some (record, rest)) :
    drain sep step s pending = (step s record).andThen fun s => drain sep step s rest := by
  rw [drain]
  split
  · rename_i hnone
    rw [h] at hnone
    cases hnone
  · rename_i hsome
    rw [h] at hsome
    obtain ⟨rfl, rfl⟩ := Prod.mk.inj (Option.some.inj hsome)
    rfl

/-- Draining in two goes is draining at once. -/
theorem drain_append (s : σ) (pending later : List α) : drain sep step s (pending ++ later) =
    (drain sep step s pending).andThen fun state => drain sep step state.1 (state.2 ++ later) := by
  induction hn : pending.length using Nat.strongRecOn generalizing s pending with
  | _ n ih =>
    cases hcut : cut sep pending with
    | none =>
      rw [drain_none hcut]
      rfl
    | some halves =>
      obtain ⟨record, rest⟩ := halves
      rw [drain_some hcut, drain_some (cut_append hcut later), Progress.andThen_assoc]
      congr 1
      funext s'
      exact ih rest.length (hn ▸ cut_length hcut) s' rest rfl

/-- What stays pending holds no complete record. -/
theorem cut_of_drain {s' : σ} (h : drain sep step s pending = .more (s', rest)) : cut sep rest = none := by
  induction hn : pending.length using Nat.strongRecOn generalizing s pending with
  | _ n ih =>
    cases hcut : cut sep pending with
    | none =>
      rw [drain_none hcut] at h
      cases h
      exact hcut
    | some halves =>
      rw [drain_some hcut] at h
      cases hstep : step s halves.1 with
      | done r =>
        rw [hstep] at h
        cases h
      | more t =>
        rw [hstep] at h
        exact ih halves.2.length (hn ▸ cut_length hcut) h rfl

/-- However a list is divided into chunks, it is read as it is read at once. -/
theorem feed_eq_drain (chunks : List (List α)) (s : σ) {pending : List α} (h : cut sep pending = none) :
    feed sep step chunks (s, pending) = drain sep step s (pending ++ chunks.flatten) := by
  induction chunks generalizing s pending with
  | nil =>
    rw [List.flatten_nil, List.append_nil, drain_none h]
    rfl
  | cons chunk chunks ih =>
    rw [feed, List.flatten_cons, ← List.append_assoc, drain_append s (pending ++ chunk)]
    cases hdrain : drain sep step s (pending ++ chunk) with
    | done r => rfl
    | more state => exact ih state.1 (cut_of_drain hdrain)

theorem records_none (h : cut sep pending = none) : records sep pending = [] := by
  rw [records, List.splitOn_eq_singleton (cut_eq_none.1 h)]
  rfl

theorem records_some (h : cut sep pending = some (record, rest)) :
    records sep pending = record :: records sep rest := by
  obtain ⟨first, others, hsplit⟩ := List.exists_cons_of_ne_nil (List.splitOn_ne_nil sep rest)
  rw [records, splitOn_of_cut h, hsplit, List.dropLast_cons_cons, records, hsplit]

theorem mem_records {xs : List α} (h : record ∈ records sep xs) :
    ∃ before after, xs = before ++ record ++ sep :: after ∧ sep ∉ record := by
  induction hn : xs.length using Nat.strongRecOn generalizing xs with
  | _ n ih =>
    cases hcut : cut sep xs with
    | none =>
      rw [records_none hcut] at h
      cases h
    | some halves =>
      obtain ⟨heq, hnot⟩ := cut_eq_some.1 hcut
      rw [records_some hcut] at h
      rcases List.mem_cons.1 h with rfl | hmem
      · exact ⟨[], halves.2, heq, hnot⟩
      · obtain ⟨before, after, hrest, hnot'⟩ := ih halves.2.length (hn ▸ cut_length hcut) hmem rfl
        refine ⟨halves.1 ++ sep :: before, after, ?_, hnot'⟩
        rw [heq, hrest]
        simp

omit [DecidableEq α] in
theorem scan_append (s : σ) (xs ys : List (List α)) :
    scan step (xs ++ ys) s = (scan step xs s).andThen (scan step ys) := by
  induction xs generalizing s with
  | nil => rfl
  | cons x xs ih =>
    rw [List.cons_append, scan, scan, Progress.andThen_assoc]
    exact congrArg _ (funext ih)

/-- Draining takes the records in their order. -/
theorem drain_eq_scan (s : σ) (pending : List α) : drain sep step s pending =
    (scan step (records sep pending) s).andThen fun s => .more (s, (pending.splitOn sep).getLastD []) := by
  induction hn : pending.length using Nat.strongRecOn generalizing s pending with
  | _ n ih =>
    cases hcut : cut sep pending with
    | none =>
      rw [drain_none hcut, records_none hcut, List.splitOn_eq_singleton (cut_eq_none.1 hcut)]
      rfl
    | some halves =>
      obtain ⟨record, rest⟩ := halves
      have hlast : (pending.splitOn sep).getLastD [] = (rest.splitOn sep).getLastD [] := by
        obtain ⟨first, others, hsplit⟩ := List.exists_cons_of_ne_nil (List.splitOn_ne_nil sep rest)
        rw [splitOn_of_cut hcut, hsplit]
        rfl
      rw [drain_some hcut, records_some hcut, hlast, scan, Progress.andThen_assoc]
      congr 1
      funext s'
      exact ih rest.length (hn ▸ cut_length hcut) s' rest rfl

end

end Toolstack.Incremental
