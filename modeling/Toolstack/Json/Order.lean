import Toolstack.Json.Value

/-! Values up to the order of object members. A value in normal form has the members of every object
in key order; two values whose objects have distinct names are the same up to order when they have
the same normal form. -/

namespace Toolstack.Json

mutual
/-- The names of every object are distinct, as in a Python `dict`. -/
def Proper : Json → Prop
  | arr xs => ProperAll xs
  | obj kvs => (kvs.map Prod.fst).Nodup ∧ ProperMembers kvs
  | _ => True

def ProperAll : List Json → Prop
  | [] => True
  | x :: xs => Proper x ∧ ProperAll xs

def ProperMembers : List (PyStr × Json) → Prop
  | [] => True
  | (_, v) :: kvs => Proper v ∧ ProperMembers kvs
end

theorem properAll_iff (xs : List Json) : ProperAll xs ↔ ∀ x ∈ xs, Proper x := by
  induction xs with
  | nil => simp [ProperAll]
  | cons x xs ih => rw [ProperAll, ih, List.forall_mem_cons]

theorem properMembers_iff (kvs : List (PyStr × Json)) : ProperMembers kvs ↔ ∀ kv ∈ kvs, Proper kv.2 := by
  induction kvs with
  | nil => simp [ProperMembers]
  | cons kv kvs ih => rw [ProperMembers, ih, List.forall_mem_cons]

theorem proper_arr {xs : List Json} : Proper (arr xs) ↔ ∀ x ∈ xs, Proper x := by
  rw [Proper, properAll_iff]

theorem proper_obj {kvs : List (PyStr × Json)} :
    Proper (obj kvs) ↔ (kvs.map Prod.fst).Nodup ∧ ∀ kv ∈ kvs, Proper kv.2 := by
  rw [Proper, properMembers_iff]

/-! ## Normal forms -/

/-- A member in normal form. -/
def normalMember (kv : PyStr × Json) : PyStr × Json := (kv.1, normal kv.2)

theorem normalAll_eq (xs : List Json) : normalAll xs = xs.map normal := by
  induction xs with
  | nil => rfl
  | cons x xs ih => rw [normalAll, ih, List.map_cons]

theorem normalMembers_eq (kvs : List (PyStr × Json)) : normalMembers kvs = kvs.map normalMember := by
  induction kvs with
  | nil => rfl
  | cons kv kvs ih =>
    rw [normalMembers, ih, List.map_cons]
    rfl

theorem normal_arr (xs : List Json) : normal (arr xs) = arr (xs.map normal) := by
  rw [normal, normalAll_eq]

theorem normal_obj (kvs : List (PyStr × Json)) : normal (obj kvs) = obj (sortMembers (kvs.map normalMember)) := by
  rw [normal, normalMembers_eq]

theorem map_fst_normalMember (kvs : List (PyStr × Json)) :
    (kvs.map normalMember).map Prod.fst = kvs.map Prod.fst := by
  rw [List.map_map]
  rfl

theorem sortMembers_perm {β : Type} (kvs : List (PyStr × β)) : (sortMembers kvs).Perm kvs :=
  List.perm_insertionSort _ kvs

/-- Members with distinct names are sorted in one way. -/
theorem sortMembers_eq_of_perm {β : Type} {kvs kvs' : List (PyStr × β)} (hperm : kvs.Perm kvs')
    (hnodup : (kvs.map Prod.fst).Nodup) : sortMembers kvs = sortMembers kvs' := by
  have htotal : Std.Total fun a b : PyStr × β => a.1 ≤ b.1 := ⟨fun a b => le_total a.1 b.1⟩
  have htrans : IsTrans (PyStr × β) fun a b => a.1 ≤ b.1 := ⟨fun _ _ _ => le_trans⟩
  refine List.Perm.eq_of_pairwise (fun a b ha hb hab hba => ?_) (List.pairwise_insertionSort _ kvs)
    (List.pairwise_insertionSort _ kvs') ((sortMembers_perm kvs).trans (hperm.trans (sortMembers_perm kvs').symm))
  have ha' : a ∈ kvs := (sortMembers_perm kvs).mem_iff.1 ha
  have hb' : b ∈ kvs := hperm.mem_iff.2 ((sortMembers_perm kvs').mem_iff.1 hb)
  exact List.inj_on_of_nodup_map hnodup ha' hb' (le_antisymm hab hba)

/-- Objects of the same members in another order have the same normal form. -/
theorem normal_obj_perm {kvs kvs' : List (PyStr × Json)} (hnodup : (kvs.map Prod.fst).Nodup)
    (hperm : (kvs.map normalMember).Perm (kvs'.map normalMember)) : normal (obj kvs) = normal (obj kvs') := by
  rw [normal_obj, normal_obj, sortMembers_eq_of_perm hperm]
  rwa [map_fst_normalMember]

theorem perm_of_normal_obj {kvs kvs' : List (PyStr × Json)} (h : normal (obj kvs) = normal (obj kvs')) :
    (kvs.map normalMember).Perm (kvs'.map normalMember) := by
  rw [normal_obj, normal_obj] at h
  have hsorted := Json.obj.inj h
  exact (sortMembers_perm _).symm.trans (hsorted ▸ sortMembers_perm _)

theorem normal_arr_inj {xs ys : List Json} (h : normal (arr xs) = normal (arr ys)) : xs.map normal = ys.map normal := by
  rw [normal_arr, normal_arr] at h
  exact Json.arr.inj h

/-- Values of the same normal form are of the same kind. -/
theorem normal_kind {v w : Json} (h : normal v = normal w) :
    (∃ kvs kvs', v = obj kvs ∧ w = obj kvs') ∨ (∃ xs ys, v = arr xs ∧ w = arr ys) ∨ v = w := by
  cases v with
  | obj kvs =>
    cases w with
    | obj kvs' => exact .inl ⟨kvs, kvs', rfl, rfl⟩
    | _ =>
      rw [normal_obj] at h
      cases h
  | arr xs =>
    cases w with
    | arr ys => exact .inr (.inl ⟨xs, ys, rfl, rfl⟩)
    | _ =>
      rw [normal_arr] at h
      cases h
  | _ =>
    cases w with
    | obj kvs =>
      rw [normal_obj] at h
      cases h
    | arr xs =>
      rw [normal_arr] at h
      cases h
    | _ => exact .inr (.inr h)

/-! ## Lookups -/

theorem find?_of_mem {kvs : List (PyStr × Json)} (hnodup : (kvs.map Prod.fst).Nodup) {k : PyStr} {v : Json}
    (h : (k, v) ∈ kvs) : find? kvs k = some v := by
  induction kvs with
  | nil => cases h
  | cons kv kvs ih =>
    obtain ⟨hnew, hrest⟩ := List.nodup_cons.1 hnodup
    rcases List.mem_cons.1 h with rfl | h
    · simp [find?]
    · have hne : kv.1 ≠ k := by
        rintro rfl
        exact hnew (List.mem_map.2 ⟨_, h, rfl⟩)
      have hskip : find? (kv :: kvs) k = find? kvs k := by simp [find?, hne]
      rw [hskip, ih hrest h]

theorem mem_of_find? {kvs : List (PyStr × Json)} {k : PyStr} {v : Json} (h : find? kvs k = some v) : (k, v) ∈ kvs := by
  obtain ⟨kv, hkv, rfl⟩ := Option.map_eq_some_iff.1 h
  have hkey : kv.1 = k := by simpa using List.find?_some hkv
  rw [← hkey]
  exact List.mem_of_find?_eq_some hkv

/-- The other value has a member of the same name and normal form. -/
theorem exists_member {kvs kvs' : List (PyStr × Json)} (h : normal (obj kvs) = normal (obj kvs')) {k : PyStr}
    {v : Json} (hmem : (k, v) ∈ kvs) : ∃ w, (k, w) ∈ kvs' ∧ normal v = normal w := by
  have hnormal := (perm_of_normal_obj h).mem_iff.1 (List.mem_map_of_mem (f := normalMember) hmem)
  obtain ⟨⟨k', w⟩, hw, heq⟩ := List.mem_map.1 hnormal
  obtain ⟨rfl, hvalue⟩ := Prod.mk.inj heq
  exact ⟨w, hw, hvalue.symm⟩

/-- Objects with distinct names and members of the same normal forms have the same normal form. -/
theorem normal_obj_of_members {kvs kvs' : List (PyStr × Json)} (hnodup : (kvs.map Prod.fst).Nodup)
    (hnodup' : (kvs'.map Prod.fst).Nodup) (h : ∀ k v, (k, v) ∈ kvs → ∃ w, (k, w) ∈ kvs' ∧ normal v = normal w)
    (h' : ∀ k w, (k, w) ∈ kvs' → ∃ v, (k, v) ∈ kvs ∧ normal v = normal w) :
    normal (obj kvs) = normal (obj kvs') := by
  refine normal_obj_perm hnodup ?_
  have hmaps : ∀ l : List (PyStr × Json), (l.map Prod.fst).Nodup → (l.map normalMember).Nodup := by
    intro l hl
    have hkeys : ((l.map normalMember).map Prod.fst).Nodup := by rwa [map_fst_normalMember]
    exact hkeys.of_map
  rw [List.perm_ext_iff_of_nodup (hmaps kvs hnodup) (hmaps kvs' hnodup')]
  rintro ⟨k, n⟩
  constructor
  · intro hmem
    obtain ⟨⟨k', v⟩, hv, heq⟩ := List.mem_map.1 hmem
    obtain ⟨rfl, rfl⟩ := Prod.mk.inj heq
    obtain ⟨w, hw, hnormal⟩ := h k' v hv
    exact List.mem_map.2 ⟨(k', w), hw, Prod.ext rfl hnormal.symm⟩
  · intro hmem
    obtain ⟨⟨k', w⟩, hw, heq⟩ := List.mem_map.1 hmem
    obtain ⟨rfl, rfl⟩ := Prod.mk.inj heq
    obtain ⟨v, hv, hnormal⟩ := h' k' w hw
    exact List.mem_map.2 ⟨(k', v), hv, Prod.ext rfl hnormal⟩

end Toolstack.Json
