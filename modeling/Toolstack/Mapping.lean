import Mathlib.Data.List.Nodup

/-! Python dicts over any keys, in insertion order, and what a dict comprehension makes of items
whose keys may meet. -/

namespace Toolstack

abbrev Mapping (κ α : Type) := List (κ × α)

namespace Mapping
variable {κ α : Type} [DecidableEq κ]

def get (d : Mapping κ α) (k : κ) : Option α := (d.find? fun kv => kv.1 = k).map Prod.snd

/-- `d[k] = v`: an existing key keeps its place. -/
def set (d : Mapping κ α) (k : κ) (v : α) : Mapping κ α :=
  if d.any fun kv => kv.1 = k then d.map fun kv => if kv.1 = k then (k, v) else kv
  else d ++ [(k, v)]

/-- `del d[k]`. -/
def del (d : Mapping κ α) (k : κ) : Mapping κ α := d.filter fun kv => kv.1 ≠ k

/-- `d.setdefault(k, v)`, as far as it changes `d`. -/
def setDefault (d : Mapping κ α) (k : κ) (v : α) : Mapping κ α :=
  if (Mapping.get d k).isSome then d else Mapping.set d k v

/-- `{key(x): x for x in xs}`. -/
def collect (key : α → κ) (xs : List α) : Mapping κ α :=
  xs.foldl (fun d x => Mapping.set d (key x) x) []

theorem get_set (d : Mapping κ α) (k : κ) (v : α) (k' : κ) :
    Mapping.get (Mapping.set d k v) k' = if k' = k then some v else Mapping.get d k' := by
  unfold get set
  by_cases hany : d.any (fun kv => kv.1 = k) = true
  · have hkeys : (fun kv : κ × α => decide (kv.1 = k')) ∘
        (fun kv => if kv.1 = k then (k, v) else kv) = fun kv => decide (kv.1 = k') := by
      funext kv
      by_cases h : kv.1 = k <;> simp [h]
    rw [if_pos hany, List.find?_map, hkeys]
    cases hfind : d.find? fun kv => decide (kv.1 = k') with
    | none =>
      have hne : k' ≠ k := by
        rintro rfl
        obtain ⟨kv, hmem, hkv⟩ := List.any_eq_true.1 hany
        exact List.find?_eq_none.1 hfind kv hmem hkv
      rw [if_neg hne]
      rfl
    | some kv =>
      have hkv : kv.1 = k' := by simpa using List.find?_some hfind
      by_cases h : k' = k
      · simp [hkv, h]
      · simp [hkv, h]
  · have hnone : d.find? (fun kv => decide (kv.1 = k)) = none := by
      rw [List.find?_eq_none]
      intro kv hmem hkv
      exact hany (List.any_eq_true.2 ⟨kv, hmem, hkv⟩)
    rw [if_neg hany, List.find?_append]
    by_cases h : k' = k
    · simp [h, hnone]
    · have hlast : [(k, v)].find? (fun kv => decide (kv.1 = k')) = none := by
        simp [Ne.symm h]
      rw [hlast, Option.or_none, if_neg h]

theorem get_del (d : Mapping κ α) (k k' : κ) :
    Mapping.get (Mapping.del d k) k' = if k' = k then none else Mapping.get d k' := by
  unfold Mapping.get Mapping.del
  rw [List.find?_filter]
  by_cases hk : k' = k
  · rw [if_pos hk, Option.map_eq_none_iff, List.find?_eq_none]
    intro kv _
    simp [hk]
  · rw [if_neg hk]
    congr 2
    funext kv
    by_cases hkv : kv.1 = k'
    · simp [hkv, hk]
    · simp [hkv]

theorem get_setDefault (d : Mapping κ α) (k : κ) (v : α) (k' : κ) :
    Mapping.get (Mapping.setDefault d k v) k' = if k' = k then some ((Mapping.get d k).getD v) else Mapping.get d k' := by
  unfold Mapping.setDefault
  by_cases hk : k' = k
  · subst hk
    rw [if_pos rfl]
    cases hget : Mapping.get d k' with
    | none => simp [get_set]
    | some x => simp [hget]
  · rw [if_neg hk]
    split_ifs
    · rfl
    · rw [get_set, if_neg hk]

theorem length_set_le (d : Mapping κ α) (k : κ) (v : α) :
    (Mapping.set d k v).length ≤ d.length + 1 := by
  unfold Mapping.set
  split_ifs
  · rw [List.length_map]
    exact Nat.le_succ _
  · exact Nat.le_of_eq List.length_append

theorem mem_set {d : Mapping κ α} {k : κ} {v : α} {kv : κ × α}
    (h : kv ∈ Mapping.set d k v) : kv = (k, v) ∨ kv ∈ d := by
  unfold Mapping.set at h
  split_ifs at h
  · obtain ⟨old, hold, rfl⟩ := List.mem_map.1 h
    split_ifs
    · exact .inl rfl
    · exact .inr hold
  · exact (List.mem_append.1 h).symm.imp_left List.mem_singleton.1

theorem mem_of_get {d : Mapping κ α} {k : κ} {v : α} (h : Mapping.get d k = some v) :
    (k, v) ∈ d := by
  obtain ⟨kv, hkv, rfl⟩ := Option.map_eq_some_iff.1 h
  have hkey : kv.1 = k := by simpa using List.find?_some hkv
  rw [← hkey]
  exact List.mem_of_find?_eq_some hkv

/-- An entry that the filter keeps is found after it. -/
theorem get_filter {d : Mapping κ α} {p : κ × α → Bool} {k : κ} {v : α}
    (h : Mapping.get d k = some v) (hp : p (k, v) = true) : Mapping.get (d.filter p) k = some v := by
  obtain ⟨kv, hkv, rfl⟩ := Option.map_eq_some_iff.1 h
  have hkey : kv.1 = k := by simpa using List.find?_some hkv
  obtain ⟨-, pre, post, rfl, hpre⟩ := List.find?_eq_some_iff_append.1 hkv
  have hnone : (pre.filter p).find? (fun kv => decide (kv.1 = k)) = none := by
    rw [List.find?_eq_none]
    intro x hx
    simpa using hpre x (List.mem_of_mem_filter hx)
  have hkept : p kv = true := by
    rw [← hkey] at hp
    exact hp
  have hhead : (kv :: post.filter p).find? (fun kv => decide (kv.1 = k)) = some kv := by simp [hkey]
  rw [Mapping.get, List.filter_append, List.find?_append, hnone, Option.none_or, List.filter_cons_of_pos hkept, hhead]
  rfl

theorem nodup_set {d : Mapping κ α} (h : (d.map Prod.fst).Nodup) (k : κ) (v : α) :
    ((Mapping.set d k v).map Prod.fst).Nodup := by
  unfold Mapping.set
  split_ifs with hany
  · have hkeys : (d.map fun kv => if kv.1 = k then (k, v) else kv).map Prod.fst = d.map Prod.fst := by
      rw [List.map_map]
      apply List.map_congr_left
      intro kv _
      simp only [Function.comp_apply]
      split_ifs with hk
      · exact hk.symm
      · rfl
    rwa [hkeys]
  · rw [List.map_append, List.nodup_append]
    refine ⟨h, by simp, ?_⟩
    intro k₁ hk₁ k₂ hk₂ heq
    obtain ⟨kv, hkv, rfl⟩ := List.mem_map.1 hk₁
    rw [List.map_singleton, List.mem_singleton] at hk₂
    exact hany (List.any_eq_true.2 ⟨kv, hkv, decide_eq_true (heq.trans hk₂)⟩)

theorem nodup_collect (key : α → κ) (xs : List α) : ((collect key xs).map Prod.fst).Nodup := by
  have hfold : ∀ d : Mapping κ α, (d.map Prod.fst).Nodup →
      ((xs.foldl (fun d x => Mapping.set d (key x) x) d).map Prod.fst).Nodup := by
    induction xs with
    | nil => exact fun d hd => hd
    | cons x xs ih => exact fun d hd => ih _ (nodup_set hd _ _)
  exact hfold [] List.nodup_nil

theorem get_iff_mem {d : Mapping κ α} (h : (d.map Prod.fst).Nodup) {k : κ} {v : α} :
    Mapping.get d k = some v ↔ (k, v) ∈ d := by
  refine ⟨mem_of_get, fun hmem => ?_⟩
  have hsome : (d.find? fun kv => kv.1 = k).isSome = true :=
    List.find?_isSome.2 ⟨_, hmem, decide_eq_true rfl⟩
  obtain ⟨kv, hkv⟩ := Option.isSome_iff_exists.1 hsome
  have hkey : kv.1 = k := by simpa using List.find?_some hkv
  have hsame : kv = (k, v) := List.inj_on_of_nodup_map h (List.mem_of_find?_eq_some hkv) hmem hkey
  rw [Mapping.get, hkv, hsame]
  rfl

/-- The last item of a key takes it. -/
theorem get_collect (key : α → κ) (xs : List α) (k : κ) :
    Mapping.get (collect key xs) k = xs.reverse.find? fun x => key x = k := by
  have hfold : ∀ d : Mapping κ α, Mapping.get (xs.foldl (fun d x => Mapping.set d (key x) x) d) k =
      (xs.reverse.find? fun x => key x = k).or (Mapping.get d k) := by
    induction xs with
    | nil => exact fun d => rfl
    | cons x xs ih =>
      intro d
      rw [List.foldl_cons, ih, get_set, List.reverse_cons, List.find?_append]
      by_cases hk : key x = k
      · simp [hk]
      · simp [hk, Ne.symm hk]
  exact (hfold []).trans Option.or_none

theorem get_collect_cons (key : α → κ) (x : α) (xs : List α) (k : κ) :
    Mapping.get (collect key (x :: xs)) k =
      (Mapping.get (collect key xs) k).or (if key x = k then some x else none) := by
  rw [get_collect, get_collect, List.reverse_cons, List.find?_append]
  by_cases hk : key x = k
  · simp [hk]
  · simp [hk]

theorem get_collect_mem {key : α → κ} {xs : List α} {k : κ} {x : α}
    (h : Mapping.get (collect key xs) k = some x) : x ∈ xs ∧ key x = k := by
  rw [get_collect] at h
  exact ⟨List.mem_reverse.1 (List.mem_of_find?_eq_some h), by simpa using List.find?_some h⟩

theorem get_collect_eq_some {key : α → κ} {xs : List α} {k : κ} {x : α} :
    Mapping.get (collect key xs) k = some x ↔
      key x = k ∧ ∃ pre post, xs = pre ++ x :: post ∧ ∀ y ∈ post, key y ≠ k := by
  rw [get_collect, List.find?_eq_some_iff_append]
  constructor
  · rintro ⟨hkey, post, pre, heq, hpost⟩
    refine ⟨by simpa using hkey, pre.reverse, post.reverse, ?_, fun y hy => ?_⟩
    · rw [← List.reverse_reverse xs, heq, List.reverse_append, List.reverse_cons, List.append_assoc]
      rfl
    · simpa using hpost y (List.mem_reverse.1 hy)
  · rintro ⟨hkey, pre, post, rfl, hpost⟩
    refine ⟨by simpa using hkey, post.reverse, pre.reverse, by simp, fun y hy => ?_⟩
    simpa using hpost y (List.mem_reverse.1 hy)

theorem get_collect_eq_none {key : α → κ} {xs : List α} {k : κ} :
    Mapping.get (collect key xs) k = none ↔ ∀ x ∈ xs, key x ≠ k := by
  rw [get_collect, List.find?_eq_none]
  simp

/-- Each item of interest is found under its key exactly when no later item has the same key. -/
theorem forall_get_collect_iff {key : α → κ} {p : α → Prop} {xs : List α} (hxs : xs.Nodup) :
    (∀ x ∈ xs, p x → Mapping.get (collect key xs) (key x) = some x) ↔
      xs.Pairwise fun x y => p x → key x ≠ key y := by
  induction xs with
  | nil => simp
  | cons a xs ih =>
    obtain ⟨ha, hnodup⟩ := List.nodup_cons.1 hxs
    have hhead : Mapping.get (collect key (a :: xs)) (key a) = some a ↔ ∀ y ∈ xs, key a ≠ key y := by
      rw [get_collect_cons, if_pos rfl]
      cases hget : Mapping.get (collect key xs) (key a) with
      | none => exact ⟨fun _ y hy => Ne.symm (get_collect_eq_none.1 hget y hy), fun _ => rfl⟩
      | some y =>
        obtain ⟨hy, hkey⟩ := get_collect_mem hget
        refine ⟨fun he => absurd (Option.some.inj he ▸ hy) ha, fun hne => absurd hkey.symm (hne y hy)⟩
    have htail : ∀ x ∈ xs, Mapping.get (collect key (a :: xs)) (key x) = some x ↔
        Mapping.get (collect key xs) (key x) = some x := by
      intro x hx
      rw [get_collect_cons]
      cases hget : Mapping.get (collect key xs) (key x) with
      | none => exact absurd rfl (get_collect_eq_none.1 hget x hx)
      | some y => rfl
    rw [List.forall_mem_cons, List.pairwise_cons, hhead, ← ih hnodup]
    refine and_congr ⟨fun h y hy hp => h hp y hy, fun h hp y hy => h y hy hp⟩ ?_
    exact forall₂_congr fun x hx => by rw [htail x hx]

end Mapping

end Toolstack
