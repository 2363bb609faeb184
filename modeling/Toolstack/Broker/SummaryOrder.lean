import Toolstack.Broker.SummaryDisclosure
import Toolstack.Json.Order

/-! How far an approval summary depends on the order of object members. The canonical text of an
action does not; the masked values do where an object has more members than the summary opens. -/

namespace Toolstack.Broker.ApprovalSummary

open Json

/-! ## Writing members one after another -/

theorem mem_setItem {kvs : List (PyStr × Json)} {k k' : PyStr} {v v' : Json} :
    (k', v') ∈ setItem kvs k v ↔ (k' = k ∧ v' = v) ∨ (k' ≠ k ∧ (k', v') ∈ kvs) := by
  unfold setItem
  split_ifs with hpresent
  · obtain ⟨⟨k₀, v₀⟩, hmem, hkey⟩ := List.any_eq_true.1 hpresent
    obtain rfl : k₀ = k := of_decide_eq_true hkey
    constructor
    · intro h
      obtain ⟨⟨k₁, v₁⟩, hold, heq⟩ := List.mem_map.1 h
      split_ifs at heq with hk
      · obtain ⟨rfl, rfl⟩ := Prod.mk.inj heq
        exact .inl ⟨rfl, rfl⟩
      · obtain ⟨rfl, rfl⟩ := Prod.mk.inj heq
        exact .inr ⟨hk, hold⟩
    · rintro (⟨rfl, rfl⟩ | ⟨hne, hold⟩)
      · exact List.mem_map.2 ⟨_, hmem, if_pos rfl⟩
      · exact List.mem_map.2 ⟨_, hold, if_neg hne⟩
  · have habsent : ∀ w, (k, w) ∉ kvs := fun w hw =>
      hpresent (List.any_eq_true.2 ⟨_, hw, decide_eq_true rfl⟩)
    rw [List.mem_append, List.mem_singleton]
    constructor
    · rintro (hold | heq)
      · refine .inr ⟨?_, hold⟩
        rintro rfl
        exact habsent v' hold
      · exact .inl (Prod.mk.inj heq)
    · rintro (⟨rfl, rfl⟩ | ⟨-, hold⟩)
      · exact .inr rfl
      · exact .inl hold

theorem nodup_setItem {kvs : List (PyStr × Json)} (hnodup : (kvs.map Prod.fst).Nodup) (k : PyStr) (v : Json) :
    ((setItem kvs k v).map Prod.fst).Nodup := by
  unfold setItem
  split_ifs with hpresent
  · have hkeys : (kvs.map fun kv => if kv.1 = k then (k, v) else kv).map Prod.fst = kvs.map Prod.fst := by
      rw [List.map_map]
      refine List.map_congr_left fun kv _ => ?_
      show (if kv.1 = k then (k, v) else kv).1 = kv.1
      split_ifs with hk
      · exact hk.symm
      · rfl
    rwa [hkeys]
  · rw [List.map_append]
    refine List.nodup_append.2 ⟨hnodup, List.nodup_singleton _, ?_⟩
    intro k₁ h₁ k₂ h₂ heq
    obtain ⟨kv, hkv, rfl⟩ := List.mem_map.1 h₁
    have hk : kv.1 = k := heq.trans (List.mem_singleton.1 h₂)
    exact hpresent (List.any_eq_true.2 ⟨kv, hkv, decide_eq_true hk⟩)

/-- Members of one name have one value. -/
def Consistent (kvs : List (PyStr × Json)) : Prop := ∀ kv ∈ kvs, ∀ kv' ∈ kvs, kv.1 = kv'.1 → kv.2 = kv'.2

def setItems (kvs : List (PyStr × Json)) : List (PyStr × Json) :=
  kvs.foldl (fun result kv => setItem result kv.1 kv.2) []

theorem setItems_concat (kvs : List (PyStr × Json)) (kv : PyStr × Json) :
    setItems (kvs ++ [kv]) = setItem (setItems kvs) kv.1 kv.2 := by
  rw [setItems, List.foldl_append]
  rfl

theorem nodup_setItems (kvs : List (PyStr × Json)) : ((setItems kvs).map Prod.fst).Nodup := by
  induction kvs using List.reverseRecOn with
  | nil => exact List.nodup_nil
  | append_singleton kvs kv ih =>
    rw [setItems_concat]
    exact nodup_setItem ih kv.1 kv.2

/-- Where no name is written with two values, the order of writing does not matter. -/
theorem mem_setItems {kvs : List (PyStr × Json)} (hconsistent : Consistent kvs) (k : PyStr) (v : Json) :
    (k, v) ∈ setItems kvs ↔ (k, v) ∈ kvs := by
  induction kvs using List.reverseRecOn with
  | nil => exact Iff.rfl
  | append_singleton kvs kv ih =>
    have hinit : Consistent kvs := fun a ha b hb =>
      hconsistent a (List.mem_append_left _ ha) b (List.mem_append_left _ hb)
    rw [setItems_concat, mem_setItem, ih hinit, List.mem_append, List.mem_singleton]
    constructor
    · rintro (⟨rfl, rfl⟩ | ⟨-, hold⟩)
      · exact .inr rfl
      · exact .inl hold
    · rintro (hold | heq)
      · by_cases hk : k = kv.1
        · exact .inl ⟨hk, hconsistent (k, v) (List.mem_append_left _ hold) kv
            (List.mem_append_right _ (List.mem_singleton_self _)) hk⟩
        · exact .inr ⟨hk, hold⟩
      · exact .inl (Prod.mk.inj heq)

/-! ## Objects that are masked alike in any order -/

def longLabel : PyStr := py "[OMITTED: long field name]"

/-- The member a member of an object is shown as. -/
def shownMember (left : Nat) (kv : PyStr × Json) : PyStr × Json :=
  if kv.1.length > 64 then (longLabel, masked)
  else (kv.1, if sensitive kv.1 then masked else mask left kv.2)

theorem foldl_maskMember (left : Nat) (kvs : List (PyStr × Json)) :
    kvs.foldl (maskMember left) [] = setItems (kvs.map (shownMember left)) := by
  rw [setItems, List.foldl_map]
  congr 1
  funext result kv
  unfold maskMember shownMember
  split_ifs <;> rfl

/-- Every object that masking opens in the first value shows the names it shows in the second, and
no name too long to be shown stands beside a member named like the label it is given. -/
def Steady : (left : Nat) → Json → Json → Prop
  | left + 1, .obj kvs, .obj kvs' =>
    ((kvs.take 16).map Prod.fst).Perm ((kvs'.take 16).map Prod.fst) ∧
      ((∃ kv ∈ kvs.take 16, kv.1.length > 64) → ∀ kv ∈ kvs.take 16, kv.1 ≠ longLabel) ∧
      ∀ kv ∈ kvs.take 16, ∀ kv' ∈ kvs'.take 16, kv.1 = kv'.1 → ¬kv.1.length > 64 → sensitive kv.1 = false →
        Steady left kv.2 kv'.2
  | left + 1, .arr xs, .arr ys => ∀ i < 16, ∀ x y, xs[i]? = some x → ys[i]? = some y → Steady left x y
  | _, _, _ => True

theorem take_nodup {kvs : List (PyStr × Json)} (hnodup : (kvs.map Prod.fst).Nodup) (n : Nat) :
    ((kvs.take n).map Prod.fst).Nodup := by
  rw [List.map_take]
  exact hnodup.sublist (List.take_sublist _ _)

theorem shownMember_long {left : Nat} {kv : PyStr × Json} (h : kv.1.length > 64) :
    shownMember left kv = (longLabel, masked) := if_pos h

theorem shownMember_short {left : Nat} {kv : PyStr × Json} (h : ¬kv.1.length > 64) :
    shownMember left kv = (kv.1, if sensitive kv.1 then masked else mask left kv.2) := if_neg h

theorem consistent_shown {left : Nat} {kvs : List (PyStr × Json)} (hnodup : (kvs.map Prod.fst).Nodup)
    (hlabel : (∃ kv ∈ kvs, kv.1.length > 64) → ∀ kv ∈ kvs, kv.1 ≠ longLabel) :
    Consistent (kvs.map (shownMember left)) := by
  intro a ha b hb hname
  obtain ⟨kv, hkv, rfl⟩ := List.mem_map.1 ha
  obtain ⟨kv', hkv', rfl⟩ := List.mem_map.1 hb
  by_cases hlong : kv.1.length > 64 <;> by_cases hlong' : kv'.1.length > 64
  · rw [shownMember_long hlong, shownMember_long hlong']
  · rw [shownMember_long hlong, shownMember_short hlong'] at hname
    exact absurd hname.symm (hlabel ⟨kv, hkv, hlong⟩ kv' hkv')
  · rw [shownMember_short hlong, shownMember_long hlong'] at hname
    exact absurd hname (hlabel ⟨kv', hkv', hlong'⟩ kv hkv)
  · rw [shownMember_short hlong, shownMember_short hlong'] at hname
    obtain rfl : kv = kv' := List.inj_on_of_nodup_map hnodup hkv hkv' hname
    rfl

/-- What a mask shows of two members of one name is the same up to order when the values are. -/
theorem shownMember_alike {left : Nat} {kv kv' : PyStr × Json} (hname : kv.1 = kv'.1)
    (h : ¬kv.1.length > 64 → sensitive kv.1 = false → normal (mask left kv.2) = normal (mask left kv'.2)) :
    (shownMember left kv).1 = (shownMember left kv').1 ∧
      normal (shownMember left kv).2 = normal (shownMember left kv').2 := by
  unfold shownMember
  rw [← hname]
  split_ifs with hlong hsensitive
  · exact ⟨rfl, rfl⟩
  · exact ⟨rfl, rfl⟩
  · exact ⟨rfl, h hlong (Bool.eq_false_iff.2 hsensitive)⟩

theorem setItem_alike {kvs kvs' : List (PyStr × Json)} (hnodup : (kvs.map Prod.fst).Nodup)
    (hnodup' : (kvs'.map Prod.fst).Nodup) (h : normal (.obj kvs) = normal (.obj kvs')) (k : PyStr) (v : Json) :
    normal (.obj (setItem kvs k v)) = normal (.obj (setItem kvs' k v)) := by
  refine normal_obj_of_members (nodup_setItem hnodup k v) (nodup_setItem hnodup' k v) ?_ ?_
  · intro k₁ v₁ hmem
    rcases mem_setItem.1 hmem with ⟨rfl, rfl⟩ | ⟨hne, hold⟩
    · exact ⟨v₁, mem_setItem.2 (.inl ⟨rfl, rfl⟩), rfl⟩
    · obtain ⟨w, hw, hnormal⟩ := exists_member h hold
      exact ⟨w, mem_setItem.2 (.inr ⟨hne, hw⟩), hnormal⟩
  · intro k₁ v₁ hmem
    rcases mem_setItem.1 hmem with ⟨rfl, rfl⟩ | ⟨hne, hold⟩
    · exact ⟨v₁, mem_setItem.2 (.inl ⟨rfl, rfl⟩), rfl⟩
    · obtain ⟨w, hw, hnormal⟩ := exists_member h.symm hold
      exact ⟨w, mem_setItem.2 (.inr ⟨hne, hw⟩), hnormal.symm⟩

/-- Members paired by name in both directions are masked to the same object up to order. -/
theorem setItems_alike {left : Nat} {kvs kvs' : List (PyStr × Json)}
    (hconsistent : Consistent (kvs.map (shownMember left))) (hconsistent' : Consistent (kvs'.map (shownMember left)))
    (hnames : (kvs.map Prod.fst).Perm (kvs'.map Prod.fst))
    (h : ∀ kv ∈ kvs, ∀ kv' ∈ kvs', kv.1 = kv'.1 → (shownMember left kv).1 = (shownMember left kv').1 ∧
      normal (shownMember left kv).2 = normal (shownMember left kv').2) :
    normal (.obj (setItems (kvs.map (shownMember left)))) = normal (.obj (setItems (kvs'.map (shownMember left)))) := by
  refine normal_obj_of_members (nodup_setItems _) (nodup_setItems _) ?_ ?_
  · intro k v hmem
    obtain ⟨kv, hkv, heq⟩ := List.mem_map.1 ((mem_setItems hconsistent k v).1 hmem)
    obtain ⟨kv', hkv', hname⟩ := List.mem_map.1 (hnames.mem_iff.1 (List.mem_map.2 ⟨kv, hkv, rfl⟩))
    obtain ⟨hsame, halike⟩ := h kv hkv kv' hkv' hname.symm
    rw [heq] at hsame halike
    refine ⟨(shownMember left kv').2, (mem_setItems hconsistent' _ _).2 ?_, halike⟩
    exact List.mem_map.2 ⟨kv', hkv', Prod.ext hsame.symm rfl⟩
  · intro k w hmem
    obtain ⟨kv', hkv', heq⟩ := List.mem_map.1 ((mem_setItems hconsistent' k w).1 hmem)
    obtain ⟨kv, hkv, hname⟩ := List.mem_map.1 (hnames.mem_iff.2 (List.mem_map.2 ⟨kv', hkv', rfl⟩))
    obtain ⟨hsame, halike⟩ := h kv hkv kv' hkv' hname
    rw [heq] at hsame halike
    refine ⟨(shownMember left kv).2, (mem_setItems hconsistent _ _).2 ?_, halike⟩
    exact List.mem_map.2 ⟨kv, hkv, Prod.ext hsame rfl⟩

theorem member_alike {kvs kvs' : List (PyStr × Json)} (hnodup' : (kvs'.map Prod.fst).Nodup)
    (h : normal (.obj kvs) = normal (.obj kvs')) {kv kv' : PyStr × Json} (hkv : kv ∈ kvs) (hkv' : kv' ∈ kvs')
    (hname : kv.1 = kv'.1) : normal kv.2 = normal kv'.2 := by
  obtain ⟨w, hw, hnormal⟩ := exists_member h hkv
  have hsame : (kv.1, w) = kv' := List.inj_on_of_nodup_map hnodup' hw hkv' hname
  rw [hnormal, ← hsame]

/-- Values that are the same up to order, and steady, are masked to the same value up to order. -/
theorem normal_mask (left : Nat) : ∀ {v w : Json}, Proper v → Proper w → normal v = normal w →
    Steady left v w → normal (mask left v) = normal (mask left w) := by
  induction left with
  | zero =>
    intro v w _ _ h _
    rcases normal_kind h with ⟨kvs, kvs', rfl, rfl⟩ | ⟨xs, ys, rfl, rfl⟩ | rfl <;> rfl
  | succ left ih =>
    intro v w hv hw h hsteady
    rcases normal_kind h with ⟨kvs, kvs', rfl, rfl⟩ | ⟨xs, ys, rfl, rfl⟩ | rfl
    · obtain ⟨hnodup, hproper⟩ := proper_obj.1 hv
      obtain ⟨hnodup', hproper'⟩ := proper_obj.1 hw
      obtain ⟨hnames, hlabel, hmembers⟩ := hsteady
      have hlabel' : (∃ kv ∈ kvs'.take 16, kv.1.length > 64) → ∀ kv ∈ kvs'.take 16, kv.1 ≠ longLabel := by
        have hmem : ∀ name, name ∈ (kvs'.take 16).map Prod.fst → ∃ kv ∈ kvs.take 16, kv.1 = name :=
          fun name hname => List.mem_map.1 (hnames.mem_iff.2 hname)
        rintro ⟨kv', hkv', hlong⟩ kv₁ hkv₁ heq
        obtain ⟨kv, hkv, hname⟩ := hmem kv'.1 (List.mem_map.2 ⟨kv', hkv', rfl⟩)
        obtain ⟨kv₂, hkv₂, hname₂⟩ := hmem kv₁.1 (List.mem_map.2 ⟨kv₁, hkv₁, rfl⟩)
        exact hlabel ⟨kv, hkv, hname ▸ hlong⟩ kv₂ hkv₂ (hname₂.trans heq)
      have hshown : normal (.obj (setItems ((kvs.take 16).map (shownMember left)))) =
          normal (.obj (setItems ((kvs'.take 16).map (shownMember left)))) := by
        refine setItems_alike (consistent_shown (take_nodup hnodup 16) hlabel)
          (consistent_shown (take_nodup hnodup' 16) hlabel') hnames fun kv hkv kv' hkv' hname => ?_
        have hold := List.mem_of_mem_take hkv
        have hold' := List.mem_of_mem_take hkv'
        exact shownMember_alike hname fun hlong hsensitive => ih (hproper kv hold) (hproper' kv' hold')
          (member_alike hnodup' h hold hold' hname) (hmembers kv hkv kv' hkv' hname hlong hsensitive)
      have hlength : kvs.length = kvs'.length := by
        have := (perm_of_normal_obj h).length_eq
        rwa [List.length_map, List.length_map] at this
      rw [mask_obj, mask_obj, foldl_maskMember, foldl_maskMember, hlength]
      split_ifs
      · exact setItem_alike (nodup_setItems _) (nodup_setItems _) hshown _ _
      · exact hshown
    · have hproper := proper_arr.1 hv
      have hproper' := proper_arr.1 hw
      have hitems := normal_arr_inj h
      have hlength : xs.length = ys.length := by
        have := congrArg List.length hitems
        rwa [List.length_map, List.length_map] at this
      have hshown : ((xs.take 16).map (mask left)).map normal = ((ys.take 16).map (mask left)).map normal := by
        refine List.ext_getElem (by simp [hlength]) fun i hi hi' => ?_
        simp only [List.length_map, List.length_take] at hi hi'
        simp only [List.getElem_map, List.getElem_take]
        refine ih (hproper _ (List.getElem_mem _)) (hproper' _ (List.getElem_mem _)) ?_
          (hsteady i (by omega) _ _ (List.getElem?_eq_getElem _) (List.getElem?_eq_getElem _))
        have hitem := congrArg (fun l => l[i]?) hitems
        simpa [List.getElem?_eq_getElem (show i < xs.length by omega),
          List.getElem?_eq_getElem (show i < ys.length by omega)] using hitem
      rw [mask_arr, mask_arr, normal_arr, normal_arr, List.map_append, List.map_append, hshown, hlength]
    · rfl

/-! ## Pointers -/

theorem select_proper {path : List PyStr} {a v : Json} (ha : Proper a) (h : select a path = some v) :
    Proper v := by
  induction path generalizing a with
  | nil =>
    obtain rfl : a = v := by cases a <;> simpa [select] using h
    exact ha
  | cons part path ih =>
    cases a with
    | arr xs =>
      simp only [select, Option.bind_eq_bind, Option.bind_eq_some_iff] at h
      obtain ⟨n, -, x, hx, hselect⟩ := h
      exact ih (proper_arr.1 ha x (List.mem_of_getElem? hx)) hselect
    | obj kvs =>
      simp only [select, Option.bind_eq_bind, Option.bind_eq_some_iff] at h
      obtain ⟨x, hx, hselect⟩ := h
      exact ih ((proper_obj.1 ha).2 _ (mem_of_find? hx)) hselect
    | _ => simp [select] at h

/-- A pointer that finds a value finds the same one, up to order, in arguments that are the same. -/
theorem select_alike {path : List PyStr} {a b v : Json} (hb : Proper b) (h : normal a = normal b)
    (hv : select a path = some v) : ∃ w, select b path = some w ∧ normal v = normal w := by
  induction path generalizing a b with
  | nil =>
    obtain rfl : a = v := by cases a <;> simpa [select] using hv
    exact ⟨b, by cases b <;> rfl, h⟩
  | cons part path ih =>
    rcases normal_kind h with ⟨kvs, kvs', rfl, rfl⟩ | ⟨xs, ys, rfl, rfl⟩ | rfl
    · simp only [select, Option.bind_eq_bind, Option.bind_eq_some_iff] at hv ⊢
      obtain ⟨x, hx, hselect⟩ := hv
      obtain ⟨hnodup, hproper⟩ := proper_obj.1 hb
      obtain ⟨y, hy, hnormal⟩ := exists_member h (mem_of_find? hx)
      obtain ⟨w, hw, halike⟩ := ih (hproper _ hy) hnormal hselect
      exact ⟨w, ⟨y, find?_of_mem hnodup hy, hw⟩, halike⟩
    · simp only [select, Option.bind_eq_bind, Option.bind_eq_some_iff] at hv ⊢
      obtain ⟨n, hn, x, hx, hselect⟩ := hv
      have hitem : (ys.map normal)[n]? = some (normal x) := by
        rw [← normal_arr_inj h, List.getElem?_map, hx]
        rfl
      rw [List.getElem?_map] at hitem
      obtain ⟨y, hy, hnormal⟩ := Option.map_eq_some_iff.1 hitem
      obtain ⟨w, hw, halike⟩ := ih (proper_arr.1 hb _ (List.mem_of_getElem? hy)) hnormal.symm hselect
      exact ⟨w, ⟨n, hn, y, hy, hw⟩, halike⟩
    · exact ⟨v, hv, rfl⟩

/-- What the pointer selects in the two is masked alike, unless the pointer itself masks it. -/
def SteadyAt (a b : Json) (pointer : PyStr) : Prop :=
  (parts pointer).any sensitive = false →
    ∀ v w, select a (parts pointer) = some v → select b (parts pointer) = some w → Steady 4 v w

theorem safeValue_alike {a b : Json} (ha : Proper a) (hb : Proper b) (h : normal a = normal b) {pointer : PyStr}
    (hsteady : SteadyAt a b pointer) : normal (safeValue a pointer) = normal (safeValue b pointer) := by
  unfold safeValue
  cases hv : select a (parts pointer) with
  | some v =>
    obtain ⟨w, hw, halike⟩ := select_alike hb h hv
    rw [hw]
    show normal (if _ then masked else mask 4 v) = normal (if _ then masked else mask 4 w)
    split_ifs with hsensitive
    · rfl
    · exact normal_mask 4 (select_proper ha hv) (select_proper hb hw) halike
        (hsteady (Bool.eq_false_iff.2 hsensitive) v w hv hw)
  | none =>
    cases hw : select b (parts pointer) with
    | some w =>
      obtain ⟨v, hv', -⟩ := select_alike ha h.symm hw
      rw [hv] at hv'
      cases hv'
    | none => rfl

/-! ## The summary -/

theorem canonical_congr {v w : Json} (h : normal v = normal w) : canonical v = canonical w := by
  rw [← canonical_normal v, h, canonical_normal]

theorem normal_entry {pointer : PyStr} {v w : Json} (h : normal v = normal w) :
    normal (entry pointer v) = normal (entry pointer w) := by
  have hmembers : [(py "field", Json.str pointer), (py "value", v)].map normalMember =
      [(py "field", Json.str pointer), (py "value", w)].map normalMember := by
    simp only [List.map_cons, normalMember, h]
  rw [entry, entry, normal_obj, normal_obj, hmembers]

theorem normal_concat {entries entries' : List Json} (hentries : entries.map normal = entries'.map normal)
    {v w : Json} (h : normal v = normal w) : (entries ++ [v]).map normal = (entries' ++ [w]).map normal := by
  rw [List.map_append, List.map_append, hentries, List.map_singleton, List.map_singleton, h]

theorem canonical_entries {entries entries' : List Json} (h : entries.map normal = entries'.map normal) :
    canonical (.arr entries) = canonical (.arr entries') :=
  canonical_congr (by rw [normal_arr, normal_arr, h])

/-- The two loops have collected the same entries up to order and left out equally many. -/
def Alike (acc acc' : List Json × Nat) : Prop := acc.1.map normal = acc'.1.map normal ∧ acc.2 = acc'.2

theorem addField_alike {a b : Json} {pointer : PyStr} (h : normal (safeValue a pointer) = normal (safeValue b pointer))
    {acc acc' : List Json × Nat} (hacc : Alike acc acc') :
    Option.Rel Alike (addField a acc pointer) (addField b acc' pointer) := by
  obtain ⟨hentries, hcount⟩ := hacc
  have hentry : normal (entry pointer (safeValue a pointer)) = normal (entry pointer (safeValue b pointer)) :=
    normal_entry h
  -- The rest of the turn, for whatever entry is kept.
  have hrest : ∀ {e e' : Json} (large : Bool), normal e = normal e' → Option.Rel Alike
      (do return (if (← canonical (.arr (acc.1 ++ [e]))).length ≤ 3600 then acc.1 ++ [e] else acc.1,
        if large then acc.2 + 1 else acc.2))
      (do return (if (← canonical (.arr (acc'.1 ++ [e']))).length ≤ 3600 then acc'.1 ++ [e'] else acc'.1,
        if large then acc'.2 + 1 else acc'.2)) := by
    intro e e' large he
    have happend := normal_concat hentries he
    rw [canonical_entries happend, hcount]
    cases canonical (.arr (acc'.1 ++ [e'])) with
    | none => exact .none
    | some text =>
      refine .some ⟨?_, rfl⟩
      show (if text.length ≤ 3600 then acc.1 ++ [e] else acc.1).map normal =
        (if text.length ≤ 3600 then acc'.1 ++ [e'] else acc'.1).map normal
      split_ifs
      · exact happend
      · exact hentries
  have hshown := canonical_congr hentry
  have hall := canonical_entries (normal_concat hentries hentry)
  simp only [addField, hshown, hall, Option.bind_eq_bind]
  cases canonical (entry pointer (safeValue b pointer)) with
  | none => exact .none
  | some shown =>
    cases canonical (.arr (acc'.1 ++ [entry pointer (safeValue b pointer)])) with
    | none => exact .none
    | some all =>
      simp only [Option.bind_some]
      refine hrest _ ?_
      split_ifs
      · rfl
      · exact hentry

theorem addFields_alike {a b : Json} {fields : List PyStr}
    (h : ∀ pointer ∈ fields, normal (safeValue a pointer) = normal (safeValue b pointer)) :
    ∀ {acc acc' : List Json × Nat}, Alike acc acc' →
      Option.Rel Alike (fields.foldlM (addField a) acc) (fields.foldlM (addField b) acc') := by
  induction fields with
  | nil => exact fun hacc => .some hacc
  | cons pointer fields ih =>
    intro acc acc' hacc
    rw [List.foldlM_cons, List.foldlM_cons]
    have hturn := addField_alike (h pointer (List.mem_cons_self ..)) hacc
    cases haccs : addField a acc pointer with
    | none =>
      rw [haccs] at hturn
      cases haccs' : addField b acc' pointer with
      | none => exact .none
      | some => rw [haccs'] at hturn; cases hturn
    | some acc₁ =>
      rw [haccs] at hturn
      cases haccs' : addField b acc' pointer with
      | none => rw [haccs'] at hturn; cases hturn
      | some acc₂ =>
        rw [haccs'] at hturn
        cases hturn with
        | some hacc₁ => exact ih (fun p hp => h p (List.mem_cons_of_mem _ hp)) hacc₁

/-- Arguments that are the same JSON value have the same summary, where every object the summary
opens shows the same members in both. -/
theorem summarize_order {a b : Json} {fields : List PyStr} (ha : Proper a) (hb : Proper b)
    (h : normal a = normal b) (hsteady : ∀ pointer ∈ fields, SteadyAt a b pointer) :
    summarize a fields = summarize b fields := by
  have hloop := addFields_alike (fun pointer hp => safeValue_alike ha hb h (hsteady pointer hp))
    (show Alike ([], 0) ([], 0) from ⟨rfl, rfl⟩)
  unfold summarize
  cases hacc : fields.foldlM (addField a) ([], 0) with
  | none =>
    rw [hacc] at hloop
    cases hacc' : fields.foldlM (addField b) ([], 0) with
    | none => rfl
    | some => rw [hacc'] at hloop; cases hloop
  | some acc =>
    rw [hacc] at hloop
    cases hacc' : fields.foldlM (addField b) ([], 0) with
    | none => rw [hacc'] at hloop; cases hloop
    | some acc' =>
      rw [hacc'] at hloop
      cases hloop with
      | some halike =>
        obtain ⟨hentries, hcount⟩ := halike
        show canonical _ = canonical _
        refine canonical_congr ?_
        simp only [normal_obj, List.map_cons, normalMember, normal_arr, hentries, hcount]

/-! ## A wide object -/

def wideMembers : List (PyStr × Json) :=
  (List.range 17).map fun i => (py ("f" ++ toString (i + 10)), .int i)

def wide (kvs : List (PyStr × Json)) : Json := .obj [(py "o", .obj kvs)]

theorem wide_proper {kvs : List (PyStr × Json)} (hnodup : (kvs.map Prod.fst).Nodup)
    (h : ∀ kv ∈ kvs, kv ∈ wideMembers) : Proper (wide kvs) := by
  have hkvs : Proper (.obj kvs) := proper_obj.2 ⟨hnodup, fun kv hkv => by
    obtain ⟨i, -, rfl⟩ := List.mem_map.1 (h kv hkv)
    simp [Proper]⟩
  exact proper_obj.2 ⟨List.nodup_singleton _, fun kv hkv => by
    obtain rfl := List.mem_singleton.1 hkv
    exact hkvs⟩

theorem wide_reverse {kvs : List (PyStr × Json)} (hnodup : (kvs.map Prod.fst).Nodup) :
    normal (wide kvs) = normal (wide kvs.reverse) := by
  have hkvs : normal (.obj kvs) = normal (.obj kvs.reverse) :=
    normal_obj_perm hnodup ((List.reverse_perm kvs).symm.map _)
  simp only [wide, normal_obj (_ :: _), List.map_cons, normalMember, hkvs]

theorem summarize_order_sample : summarize (wide (wideMembers.take 3)) [py "/o"] =
    summarize (wide (wideMembers.take 3).reverse) [py "/o"] := by
  have hnodup : ((wideMembers.take 3).map Prod.fst).Nodup := by decide +kernel
  refine summarize_order (wide_proper hnodup fun kv hkv => List.mem_of_mem_take hkv)
    (wide_proper (by decide +kernel) fun kv hkv => List.mem_of_mem_take (List.mem_reverse.1 hkv))
    (wide_reverse hnodup) fun pointer hp _ v w hv hw => ?_
  obtain rfl := List.mem_singleton.1 hp
  obtain rfl := Option.some.inj (hv.symm.trans (show _ = some (.obj (wideMembers.take 3)) by rfl))
  obtain rfl := Option.some.inj (hw.symm.trans (show _ = some (.obj (wideMembers.take 3).reverse) by rfl))
  refine ⟨by decide +kernel, fun ⟨kv, hkv, hlong⟩ => ?_, fun kv hkv kv' hkv' _ _ _ => ?_⟩
  · have hshort : ((wideMembers.take 3).take 16).all (fun kv => kv.1.length ≤ 64) = true := by decide +kernel
    have := List.all_eq_true.1 hshort kv hkv
    simp only [decide_eq_true_eq] at this
    omega
  · obtain ⟨i, -, rfl⟩ := List.mem_map.1 (List.mem_of_mem_take (List.mem_of_mem_take hkv))
    exact trivial

/-- Seventeen members, and the same in reverse order: one of them is left out of each summary. -/
theorem summarize_order_seventeen : ∃ fields a b, validateFields fields = some fields ∧ Proper a ∧ Proper b ∧
    (canonical a).isSome ∧ canonical a = canonical b ∧ normal a = normal b ∧ summarize a fields ≠ summarize b fields := by
  have hnodup : (wideMembers.map Prod.fst).Nodup := by decide +kernel
  refine ⟨[py "/o"], wide wideMembers, wide wideMembers.reverse, by decide +kernel, wide_proper hnodup fun _ h => h,
    wide_proper (by decide +kernel) fun _ h => List.mem_reverse.1 h, by decide +kernel, ?_, wide_reverse hnodup,
    by decide +kernel⟩
  exact canonical_congr (wide_reverse hnodup)

end Toolstack.Broker.ApprovalSummary
