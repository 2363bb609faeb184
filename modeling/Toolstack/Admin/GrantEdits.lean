import Toolstack.Admin.CallerTools
import Toolstack.Mapping

/-! `admin/policy_edits.py`: the grants of one caller as the fields of a posted form, and what saving
the form does to them. -/

namespace Toolstack.Broker.GrantEdits

open CallerSettings
open Interleave.Prog (raise)

/-! ## The fields of the form -/

/-- `None` for a field that names two operations. -/
abbrev FieldMap := Dict (Option (String × String))

def fieldKey (target : String × String) : String := s!"op__{target.1}__{target.2}"

def addField (result : FieldMap) (target : String × String) : FieldMap :=
  if (result.get (fieldKey target)).any (· ≠ some target) then result.set (fieldKey target) none
  else result.set (fieldKey target) (some target)

/-- The operations the editor shows: those of the catalog, of the tools enabled now. -/
def shownOperations (current : Policy) (catalog : Catalog) : List (String × String) :=
  (enabledTools current).flatMap fun tool =>
    ((catalog.tools.get tool).getD []).map fun operation => (tool, operation.op)

def operationFields (current : Policy) (catalog : Catalog) : FieldMap :=
  (shownOperations current catalog).foldl addField []

/-! ## Merging them -/

/-- `s.split("__", 1)`: what stands before the first separator and what stands after it. -/
def splitField : List Char → Option (List Char × List Char)
  | '_' :: '_' :: rest => some ([], rest)
  | c :: rest => (splitField rest).map fun s => (c :: s.1, s.2)
  | [] => none

/-- `key.split("__", 2)`. -/
def keyParts (key : String) : List String :=
  match splitField key.toList with
  | none => [key]
  | some (a, rest) =>
    match splitField rest with
    | none => [String.ofList a, String.ofList rest]
    | some (b, c) => [String.ofList a, String.ofList b, String.ofList c]

def isOpField (key : String) : Bool := "op__".toList.isPrefixOf key.toList

/-- `f"{tool}.{op}"`. -/
def specOf (target : String × String) : String := s!"{target.1}.{target.2}"

def validEffect (effect : String) : Bool := ["allow", "review", "deny"].contains effect

/-- One posted field. Without a field map its own parts name the operation. -/
def mergeField (fieldMap : Option FieldMap) (grants : Dict String) (field : String × String) :
    Except Exn (Dict String) :=
  if !isOpField field.1 then .ok grants
  else
    match keyParts field.1 with
    | [_, tool, op] =>
      if !validEffect field.2 then .error .valueError
      else
        match fieldMap with
        | none => .ok (grants.set (specOf (tool, op)) field.2)
        | some fieldMap =>
          match fieldMap.get field.1 with
          | some (some (tool, op)) => .ok (grants.set (specOf (tool, op)) field.2)
          | _ => .error .valueError
    | _ => .error .valueError

/-- The operations to allow, to review and to deny, each as `tool.op`. -/
def mergeGrants (current : Policy) (fields : Dict String) (fieldMap : Option FieldMap) :
    Except Exn (List String × List String × List String) :=
  (fields.foldlM (mergeField fieldMap) (Operations.grants current)).map fun grants =>
    let having := fun effect => (grants.filter fun kv => kv.2 = effect).map Prod.fst
    (having "allow", having "review", having "deny")

/-- `POST /callers/{name}/policy`. -/
def savePolicy (name : String) (catalog : Catalog) (data : Dict String) (operator : String) :
    Action Unit := do
  let caller ← Operations.requireCaller name
  let current : Policy ← perform (.policyFor caller.id)
  match mergeGrants current data (some (operationFields current catalog)) with
  | .error e => raise e
  | .ok (allow, review, deny) => Operations.setPolicy name allow review deny operator

/-! ## What a field names -/

theorem get_addField_self (result : FieldMap) (target : String × String) :
    (addField result target).get (fieldKey target) =
      some (if (result.get (fieldKey target)).any (· ≠ some target) then none else some target) := by
  unfold addField
  split_ifs with hother
  · rw [Dict.get_set, if_pos rfl]
  · rw [Dict.get_set, if_pos rfl]

theorem get_addField_ne {target : String × String} {key : String} (h : key ≠ fieldKey target)
    (result : FieldMap) : (addField result target).get key = result.get key := by
  unfold addField
  split_ifs with hother
  · rw [Dict.get_set, if_neg h]
  · rw [Dict.get_set, if_neg h]

/-- The one operation of the list with its field name. -/
def Sole (pairs : List (String × String)) (pair : String × String) : Prop :=
  pair ∈ pairs ∧ ∀ other ∈ pairs, fieldKey other = fieldKey pair → other = pair

/-- The fields of the map are the names of the operations, and a field that is no operation's own
names none. -/
structure Names (result : FieldMap) (pairs : List (String × String)) : Prop where
  unknown : ∀ key, result.get key = none ↔ ∀ pair ∈ pairs, fieldKey pair ≠ key
  named : ∀ key pair, result.get key = some (some pair) ↔ fieldKey pair = key ∧ Sole pairs pair

section Names
variable {result : FieldMap} {pairs : List (String × String)} {last : String × String}

theorem Names.other_iff (h : Names result pairs) :
    (result.get (fieldKey last)).any (· ≠ some last) = true ↔
      ∃ other ∈ pairs, fieldKey other = fieldKey last ∧ other ≠ last := by
  have hknown : ∀ other ∈ pairs, fieldKey other = fieldKey last →
      result.get (fieldKey last) ≠ none := fun other hother hkey hnone =>
    (h.unknown _).1 hnone other hother hkey
  constructor
  · intro hany
    by_contra hsame
    push Not at hsame
    cases hget : result.get (fieldKey last) with
    | none => simp [hget] at hany
    | some target =>
      have hold : ∃ other ∈ pairs, fieldKey other = fieldKey last := by
        by_contra hnot
        push Not at hnot
        simp [(h.unknown _).2 hnot] at hget
      obtain ⟨other, hother, hkey⟩ := hold
      obtain rfl := hsame other hother hkey
      rw [(h.named _ other).2 ⟨rfl, hother, hsame⟩] at hany
      simp at hany
  · rintro ⟨other, hother, hkey, hne⟩
    cases hget : result.get (fieldKey last) with
    | none => exact absurd hget (hknown other hother hkey)
    | some target =>
      have htarget : target ≠ some last := by
        rintro rfl
        exact hne (((h.named _ last).1 hget).2.2 other hother hkey)
      simpa using htarget

theorem sole_append_self {pair : String × String} :
    fieldKey pair = fieldKey last ∧ Sole (pairs ++ [last]) pair ↔
      pair = last ∧ ∀ other ∈ pairs, fieldKey other = fieldKey last → other = last := by
  constructor
  · rintro ⟨hkey, -, hsole⟩
    obtain rfl : last = pair := hsole last (by simp) hkey.symm
    exact ⟨rfl, fun other hother => hsole other (List.mem_append_left _ hother)⟩
  · rintro ⟨rfl, hsole⟩
    refine ⟨rfl, by simp, fun other hother hkey => ?_⟩
    rcases List.mem_append.1 hother with hold | hnew
    · exact hsole other hold hkey
    · exact List.mem_singleton.1 hnew

theorem sole_append_ne {pair : String × String} (h : fieldKey pair ≠ fieldKey last) :
    Sole (pairs ++ [last]) pair ↔ Sole pairs pair := by
  have hne : pair ≠ last := fun he => h (congrArg fieldKey he)
  have hmem : pair ∈ pairs ++ [last] ↔ pair ∈ pairs := by simp [hne]
  unfold Sole
  rw [hmem]
  refine and_congr_right fun _ => ⟨fun hsole other hother => hsole other (List.mem_append_left _ hother), ?_⟩
  intro hsole other hother hkey
  rcases List.mem_append.1 hother with hold | hnew
  · exact hsole other hold hkey
  · exact absurd ((congrArg fieldKey (List.mem_singleton.1 hnew)).symm.trans hkey).symm h

theorem Names.addField (h : Names result pairs) (last : String × String) :
    Names (addField result last) (pairs ++ [last]) := by
  constructor
  · intro key
    by_cases hkey : key = fieldKey last
    · subst hkey
      rw [get_addField_self]
      have hmem : last ∈ pairs ++ [last] := by simp
      exact ⟨fun hnone => by simp at hnone, fun hnone => absurd rfl (hnone last hmem)⟩
    · rw [get_addField_ne hkey, h.unknown]
      constructor
      · intro hnone pair hpair
        rcases List.mem_append.1 hpair with hold | hnew
        · exact hnone pair hold
        · exact List.mem_singleton.1 hnew ▸ Ne.symm hkey
      · exact fun hnone pair hpair => hnone pair (List.mem_append_left _ hpair)
  · intro key pair
    by_cases hkey : key = fieldKey last
    · subst hkey
      have hother := @Names.other_iff result pairs last h
      rw [get_addField_self, sole_append_self]
      split_ifs with hany
      · obtain ⟨other, hother, hk, hne⟩ := hother.1 hany
        exact ⟨fun he => by simp at he, fun hsole => absurd (hsole.2 other hother hk) hne⟩
      · have hsame : ∀ other ∈ pairs, fieldKey other = fieldKey last → other = last := by
          intro other hmem hk
          by_contra hne
          exact hany (hother.2 ⟨other, hmem, hk, hne⟩)
        simp only [Option.some.injEq]
        exact ⟨fun he => ⟨he.symm, hsame⟩, fun hsole => hsole.1.symm⟩
    · rw [get_addField_ne hkey, h.named]
      constructor
      · rintro ⟨rfl, hsole⟩
        exact ⟨rfl, (sole_append_ne hkey).2 hsole⟩
      · rintro ⟨rfl, hsole⟩
        exact ⟨rfl, (sole_append_ne hkey).1 hsole⟩

end Names

theorem names_operationFields (current : Policy) (catalog : Catalog) :
    Names (operationFields current catalog) (shownOperations current catalog) := by
  unfold operationFields
  induction shownOperations current catalog using List.reverseRecOn with
  | nil => exact ⟨by simp [Dict.get], by simp [Dict.get, Sole]⟩
  | append_singleton pairs last ih =>
    rw [List.foldl_append, List.foldl_cons, List.foldl_nil]
    exact ih.addField last

/-! ## What merging a form makes of the grants -/

theorem splitField_append (a b : List Char) : (splitField (a ++ '_' :: '_' :: b)).isSome := by
  induction a with
  | nil => rfl
  | cons c a ih =>
    rw [List.cons_append]
    unfold splitField
    split
    · rfl
    · rename_i c' rest _ heq
      obtain ⟨rfl, rfl⟩ := List.cons.inj heq
      simpa using ih
    · rename_i heq
      cases heq

theorem fieldKey_toList (target : String × String) : (fieldKey target).toList =
    'o' :: 'p' :: '_' :: '_' :: (target.1.toList ++ '_' :: '_' :: target.2.toList) := by
  simp [fieldKey, toString]

theorem isOpField_fieldKey (target : String × String) : isOpField (fieldKey target) = true := by
  unfold isOpField
  rw [fieldKey_toList]
  rfl

theorem keyParts_fieldKey (target : String × String) : ∃ a b c, keyParts (fieldKey target) = [a, b, c] := by
  have hop : splitField (fieldKey target).toList =
      some (['o', 'p'], target.1.toList ++ '_' :: '_' :: target.2.toList) := by
    rw [fieldKey_toList]
    rfl
  obtain ⟨⟨b, c⟩, hrest⟩ := Option.isSome_iff_exists.1 (splitField_append target.1.toList target.2.toList)
  unfold keyParts
  rw [hop]
  simp only [hrest]
  exact ⟨_, _, _, rfl⟩

/-- The form names each of its operations, and no other effect than the three. -/
def Acceptable (pairs : List (String × String)) (fields : Dict String) : Prop :=
  ∀ field ∈ fields, isOpField field.1 = true →
    validEffect field.2 = true ∧ ∃ target, fieldKey target = field.1 ∧ Sole pairs target

/-- What the posted fields set, as `tool.op`. -/
def edits (fieldMap : FieldMap) (fields : Dict String) : Dict String :=
  fields.filterMap fun field => (fieldMap.get field.1).join.map fun target => (specOf target, field.2)

section Merge
variable {m : FieldMap} {pairs : List (String × String)} {fields grants : Dict String}

theorem mergeField_named {target : String × String} {effect : String}
    (hm : m.get (fieldKey target) = some (some target)) (heffect : validEffect effect = true) :
    mergeField (some m) grants (fieldKey target, effect) = .ok (grants.set (specOf target) effect) := by
  obtain ⟨a, b, c, hparts⟩ := keyParts_fieldKey target
  simp [mergeField, isOpField_fieldKey, hparts, heffect, hm]

theorem mergeField_refused {field : String × String} (hop : isOpField field.1 = true)
    (h : ¬(validEffect field.2 = true ∧ ∃ target, m.get field.1 = some (some target))) :
    mergeField (some m) grants field = .error .valueError := by
  unfold mergeField
  rw [hop]
  simp only [Bool.not_true, Bool.false_eq_true, if_false]
  split
  · split_ifs with heffect
    · rfl
    · split
      · rename_i tool op hget
        exact absurd ⟨by simpa using heffect, _, hget⟩ h
      · rfl
  · rfl

theorem mergeFields (h : Names m pairs) (fields grants : Dict String) :
    (Acceptable pairs fields → fields.foldlM (mergeField (some m)) grants =
      .ok ((edits m fields).foldl (fun d kv => d.set kv.1 kv.2) grants)) ∧
    (¬Acceptable pairs fields → fields.foldlM (mergeField (some m)) grants = .error .valueError) := by
  induction fields generalizing grants with
  | nil => exact ⟨fun _ => rfl, fun hnot => absurd (by simp [Acceptable]) hnot⟩
  | cons field fields ih =>
    have hcons : Acceptable pairs (field :: fields) ↔
        (isOpField field.1 = true →
          validEffect field.2 = true ∧ ∃ target, fieldKey target = field.1 ∧ Sole pairs target) ∧
        Acceptable pairs fields := List.forall_mem_cons
    rw [List.foldlM_cons]
    by_cases hop : isOpField field.1 = true
    · by_cases hgood : validEffect field.2 = true ∧ ∃ target, fieldKey target = field.1 ∧ Sole pairs target
      · obtain ⟨heffect, target, hkey, hsole⟩ := hgood
        have hm : m.get (fieldKey target) = some (some target) := (h.named _ target).2 ⟨rfl, hsole⟩
        have hfield : field = (fieldKey target, field.2) := by rw [hkey]
        have hedits : edits m (field :: fields) = (specOf target, field.2) :: edits m fields := by
          rw [hfield]
          simp [edits, hm]
        have hacceptable : Acceptable pairs (field :: fields) ↔ Acceptable pairs fields := by
          rw [hcons]
          exact and_iff_right fun _ => ⟨heffect, target, hkey, hsole⟩
        rw [hacceptable, hedits, hfield, mergeField_named hm heffect]
        exact ih (grants.set (specOf target) field.2)
      · have hrefused : mergeField (some m) grants field = .error .valueError := by
          refine mergeField_refused hop fun hnamed => hgood ?_
          obtain ⟨heffect, target, hget⟩ := hnamed
          exact ⟨heffect, target, (h.named _ target).1 hget⟩
        rw [hrefused]
        exact ⟨fun hall => absurd ((hcons.1 hall).1 hop) hgood, fun _ => rfl⟩
    · have hfield : mergeField (some m) grants field = .ok grants := by simp [mergeField, hop]
      have hedits : edits m (field :: fields) = edits m fields := by
        refine List.filterMap_cons_none ?_
        cases hget : m.get field.1 with
        | none => rfl
        | some named =>
          cases named with
          | none => rfl
          | some target =>
            refine absurd ?_ hop
            rw [← ((h.named _ target).1 hget).1]
            exact isOpField_fieldKey target
      have hacceptable : Acceptable pairs (field :: fields) ↔ Acceptable pairs fields := by
        rw [hcons]
        exact and_iff_right fun hop' => absurd hop' hop
      rw [hacceptable, hedits, hfield]
      exact ih grants

end Merge

/-! ## Grants as one list -/

/-- Every dict of the policy has its keys once, and no tool id has a dot. -/
structure DotFree (p : Policy) : Prop where
  tools : ((p.tools.getD []).map Prod.fst).Nodup
  rules : ∀ t ∈ p.tools.getD [], (t.2.map Prod.fst).Nodup
  ruled : ∀ t ∈ p.tools.getD [], '.' ∉ t.1.toList
  enabled : ∀ tool ∈ p.enabled.getD [], '.' ∉ tool.toList

theorem partition_specOf {target : String × String} (h : '.' ∉ target.1.toList) :
    Operations.partition (specOf target) = target := by
  have hspec : (specOf target).toList = target.1.toList ++ '.' :: target.2.toList := by
    simp [specOf, toString]
  have htool : (specOf target).toList.takeWhile (· ≠ '.') = target.1.toList := by
    rw [hspec, List.takeWhile_append_of_pos]
    · simp
    · intro c hc
      have hne : c ≠ '.' := fun he => h (he ▸ hc)
      simpa using hne
  unfold Operations.partition
  rw [htool, hspec]
  simp

theorem specOf_inj {a b : String × String} (ha : '.' ∉ a.1.toList) (hb : '.' ∉ b.1.toList)
    (h : specOf a = specOf b) : a = b := by
  rw [← partition_specOf ha, h, partition_specOf hb]

/-- The grants of a policy before they are merged into one dict. -/
def rulesList (p : Policy) : Dict String :=
  (p.tools.getD []).flatMap fun t => t.2.map fun o => (specOf (t.1, o.1), o.2)

theorem grants_eq (p : Policy) :
    Operations.grants p = (rulesList p).foldl (fun (d : Dict String) kv => d.set kv.1 kv.2) [] := rfl

theorem mem_rulesList {p : Policy} {kv : String × String} : kv ∈ rulesList p ↔
    ∃ t ∈ p.tools.getD [], ∃ o ∈ t.2, kv = (specOf (t.1, o.1), o.2) := by
  simp only [rulesList, List.mem_flatMap, List.mem_map, eq_comm]

theorem mem_rulesOf {p : Policy} (h : DotFree p) {tool op effect : String} :
    (rulesOf p tool).get op = some effect ↔
      ∃ rules, (tool, rules) ∈ p.tools.getD [] ∧ (op, effect) ∈ rules := by
  have hfind : ∀ rules, (p.tools.getD []).get tool = some rules ↔ (tool, rules) ∈ p.tools.getD [] :=
    fun rules => Mapping.get_iff_mem h.tools
  constructor
  · intro hget
    cases hrules : (p.tools.getD []).get tool with
    | none =>
      rw [rulesOf, hrules] at hget
      cases hget
    | some rules =>
      have hmem : (tool, rules) ∈ p.tools.getD [] := (hfind rules).1 hrules
      rw [rulesOf, hrules, Option.getD_some] at hget
      exact ⟨rules, hmem, (Mapping.get_iff_mem (h.rules _ hmem)).1 hget⟩
  · rintro ⟨rules, hmem, hop⟩
    rw [rulesOf, (hfind rules).2 hmem, Option.getD_some]
    exact (Mapping.get_iff_mem (h.rules _ hmem)).2 hop

theorem mem_edits {m : FieldMap} {pairs : List (String × String)} (h : Names m pairs) {fields : Dict String}
    {kv : String × String} : kv ∈ edits m fields ↔
      ∃ target, Sole pairs target ∧ kv.1 = specOf target ∧ (fieldKey target, kv.2) ∈ fields := by
  simp only [edits, List.mem_filterMap, Option.map_eq_some_iff, Option.join_eq_some_iff]
  constructor
  · rintro ⟨field, hfield, target, hget, rfl⟩
    obtain ⟨hkey, hsole⟩ := (h.named _ _).1 hget
    exact ⟨target, hsole, rfl, by rw [hkey]; exact hfield⟩
  · rintro ⟨target, hsole, hspec, hfield⟩
    exact ⟨_, hfield, target, (h.named _ _).2 ⟨rfl, hsole⟩, by rw [← hspec]⟩

/-- The form sets the effect of this operation. -/
def Posts (pairs : List (String × String)) (fields : Dict String) (target : String × String)
    (effect : String) : Prop := Sole pairs target ∧ (fieldKey target, effect) ∈ fields

/-- The grants of the policy with the posted ones over them. -/
def merged (p : Policy) (m : FieldMap) (fields : Dict String) : Dict String :=
  (rulesList p ++ edits m fields).foldl (fun d kv => d.set kv.1 kv.2) []

section Merged
variable {p : Policy} {m : FieldMap} {pairs : List (String × String)} {fields : Dict String}
  {target : String × String} {effect : String}

theorem get_merged_posted (hm : Names m pairs) (hpairs : ∀ pair ∈ pairs, '.' ∉ pair.1.toList)
    (hfields : (fields.map Prod.fst).Nodup) (hpost : Posts pairs fields target effect) :
    (merged p m fields).get (specOf target) = some effect := by
  have hmem : (specOf target, effect) ∈ edits m fields := (mem_edits hm).2 ⟨target, hpost.1, rfl, hpost.2⟩
  unfold merged
  rw [List.foldl_append]
  refine Dict.get_foldl_set (fun kv hkv hspec => ?_) _ (.inl ⟨_, hmem, rfl⟩)
  obtain ⟨target', hsole, hspec', hfield⟩ := (mem_edits hm).1 hkv
  obtain rfl := specOf_inj (hpairs _ hsole.1) (hpairs _ hpost.1.1) (hspec'.symm.trans hspec)
  have hone : (Mapping.get fields (fieldKey target')) = some kv.2 := (Mapping.get_iff_mem hfields).2 hfield
  rw [(Mapping.get_iff_mem hfields).2 hpost.2] at hone
  exact (Option.some.inj hone).symm

theorem get_merged_kept (h : DotFree p) (hm : Names m pairs) (hpairs : ∀ pair ∈ pairs, '.' ∉ pair.1.toList)
    (htarget : '.' ∉ target.1.toList) (hkept : ∀ effect, ¬Posts pairs fields target effect) :
    (merged p m fields).get (specOf target) = (rulesOf p target.1).get target.2 := by
  have hedits : ∀ kv ∈ edits m fields, kv.1 ≠ specOf target := by
    intro kv hkv hspec
    obtain ⟨target', hsole, hspec', hfield⟩ := (mem_edits hm).1 hkv
    obtain rfl := specOf_inj (hpairs _ hsole.1) htarget (hspec'.symm.trans hspec)
    exact hkept _ ⟨hsole, hfield⟩
  have hrule : ∀ kv ∈ rulesList p, kv.1 = specOf target → (rulesOf p target.1).get target.2 = some kv.2 := by
    intro kv hkv hspec
    obtain ⟨t, ht, o, ho, rfl⟩ := mem_rulesList.1 hkv
    obtain rfl := specOf_inj (h.ruled t ht) htarget hspec
    exact (mem_rulesOf h).2 ⟨t.2, ht, ho⟩
  unfold merged
  rw [List.foldl_append, Dict.get_foldl_set_of_ne hedits]
  cases hget : (rulesOf p target.1).get target.2 with
  | none =>
    rw [Dict.get_foldl_set_of_ne]
    · rfl
    · intro kv hkv hspec
      simp [hrule kv hkv hspec] at hget
  | some effect =>
    obtain ⟨rules, hrules, hop⟩ := (mem_rulesOf h).1 hget
    refine Dict.get_foldl_set (fun kv hkv hspec => ?_) _
      (.inl ⟨_, mem_rulesList.2 ⟨_, hrules, _, hop, rfl⟩, rfl⟩)
    exact Option.some.inj ((hrule kv hkv hspec).symm.trans hget)

theorem mem_set {d : Dict String} {k v : String} {kv : String × String} (h : kv ∈ d.set k v) :
    kv ∈ d ∨ kv.1 = k := by
  unfold Dict.set at h
  split_ifs at h
  · obtain ⟨old, hold, rfl⟩ := List.mem_map.1 h
    split_ifs with hkey
    · exact .inr rfl
    · exact .inl hold
  · rcases List.mem_append.1 h with hold | hnew
    · exact .inl hold
    · exact .inr (congrArg Prod.fst (List.mem_singleton.1 hnew))

theorem mem_foldl_set {kvs : Dict String} {kv : String × String} {d : Dict String}
    (h : kv ∈ kvs.foldl (fun d kv => d.set kv.1 kv.2) d) : kv ∈ d ∨ ∃ kv' ∈ kvs, kv'.1 = kv.1 := by
  induction kvs generalizing d with
  | nil => exact .inl h
  | cons kv' kvs ih =>
    rcases ih h with hset | ⟨kv'', hmem, hkey⟩
    · rcases mem_set hset with hold | hkey
      · exact .inl hold
      · exact .inr ⟨kv', List.mem_cons_self .., hkey.symm⟩
    · exact .inr ⟨kv'', List.mem_cons_of_mem _ hmem, hkey⟩

theorem mem_merged (h : DotFree p) (hm : Names m pairs) (hpairs : ∀ pair ∈ pairs, '.' ∉ pair.1.toList)
    {kv : String × String} (hkv : kv ∈ merged p m fields) :
    ∃ target, kv.1 = specOf target ∧ '.' ∉ target.1.toList := by
  obtain ⟨kv', hmem, hkey⟩ := (mem_foldl_set hkv).resolve_left List.not_mem_nil
  rcases List.mem_append.1 hmem with hrule | hedit
  · obtain ⟨t, ht, o, -, rfl⟩ := mem_rulesList.1 hrule
    exact ⟨(t.1, o.1), hkey.symm, h.ruled t ht⟩
  · obtain ⟨target, hsole, hspec, -⟩ := (mem_edits hm).1 hedit
    exact ⟨target, hkey.symm.trans hspec, hpairs _ hsole.1⟩

theorem nodup_merged : ((merged p m fields).map Prod.fst).Nodup := by
  unfold merged
  induction rulesList p ++ edits m fields using List.reverseRecOn with
  | nil => exact List.nodup_nil
  | append_singleton kvs kv ih =>
    rw [List.foldl_append]
    exact Mapping.nodup_set ih kv.1 kv.2

end Merged

/-! ## The policy that is built from them -/

/-- The operations with the effect. -/
def having (grants : Dict String) (effect : String) : List String :=
  (grants.filter fun kv => kv.2 = effect).map Prod.fst

def ruleOf (tools : Dict (Dict String)) (target : String × String) : Option String :=
  ((tools.get target.1).getD []).get target.2

theorem ruleOf_grant (effect : String) (tools : Dict (Dict String)) (spec : String) (target : String × String) :
    ruleOf (Operations.grant effect tools spec) target =
      if Operations.partition spec = target then some effect else ruleOf tools target := by
  have hgrant : Operations.grant effect tools spec = tools.set (Operations.partition spec).1
      (((tools.get (Operations.partition spec).1).getD []).set (Operations.partition spec).2 effect) := rfl
  obtain ⟨tool, op⟩ := target
  rw [hgrant]
  generalize Operations.partition spec = split
  obtain ⟨tool', op'⟩ := split
  unfold ruleOf
  simp only
  rw [Dict.get_set]
  by_cases htool : tool = tool'
  · subst htool
    rw [if_pos rfl, Option.getD_some, Dict.get_set]
    by_cases hop : op = op'
    · subst hop
      simp
    · rw [if_neg hop, if_neg fun he => hop (congrArg Prod.snd he).symm]
  · rw [if_neg htool, if_neg fun he => htool (congrArg Prod.fst he).symm]

theorem ruleOf_grants (effect : String) (specs : List String) (tools : Dict (Dict String))
    (target : String × String) :
    ruleOf (specs.foldl (Operations.grant effect) tools) target =
      if target ∈ specs.map Operations.partition then some effect else ruleOf tools target := by
  induction specs generalizing tools with
  | nil => simp
  | cons spec specs ih =>
    rw [List.foldl_cons, ih, ruleOf_grant]
    by_cases hmem : target ∈ specs.map Operations.partition
    · simp [hmem]
    · simp [hmem, eq_comm]

theorem rulesOf_buildPolicy (allow review deny : List String) (target : String × String) :
    (rulesOf (Operations.buildPolicy allow review deny) target.1).get target.2 =
      if target ∈ deny.map Operations.partition then some "deny"
      else if target ∈ allow.map Operations.partition then some "allow"
      else if target ∈ review.map Operations.partition then some "review" else none := by
  have hrules : (rulesOf (Operations.buildPolicy allow review deny) target.1).get target.2 =
      ruleOf (deny.foldl (Operations.grant "deny") (allow.foldl (Operations.grant "allow")
        (review.foldl (Operations.grant "review") []))) target := rfl
  rw [hrules, ruleOf_grants, ruleOf_grants, ruleOf_grants]
  rfl

theorem mem_having_partition {g : Dict String} (hnodup : (g.map Prod.fst).Nodup)
    (hkeys : ∀ kv ∈ g, ∃ target, kv.1 = specOf target ∧ '.' ∉ target.1.toList) {effect : String}
    {target : String × String} :
    target ∈ (having g effect).map Operations.partition ↔
      '.' ∉ target.1.toList ∧ g.get (specOf target) = some effect := by
  have hget : g.get (specOf target) = some effect ↔ (specOf target, effect) ∈ g := Mapping.get_iff_mem hnodup
  rw [hget]
  simp only [having, List.mem_map, List.mem_filter, decide_eq_true_eq]
  constructor
  · rintro ⟨spec, ⟨kv, ⟨hkv, rfl⟩, rfl⟩, rfl⟩
    obtain ⟨target, hspec, hdot⟩ := hkeys kv hkv
    rw [hspec, partition_specOf hdot, ← hspec]
    exact ⟨hdot, hkv⟩
  · rintro ⟨hdot, hmem⟩
    exact ⟨specOf target, ⟨_, ⟨hmem, rfl⟩, rfl⟩, partition_specOf hdot⟩

/-! ## The policy that is saved -/

section Saved
variable {p : Policy} {m : FieldMap} {pairs : List (String × String)} {fields : Dict String}
  {target : String × String}

/-- The policy built of the merged grants. -/
def saved (p : Policy) (m : FieldMap) (fields : Dict String) : Policy :=
  regrant (having (merged p m fields) "allow") (having (merged p m fields) "review")
    (having (merged p m fields) "deny") p

theorem mergeGrants_eq (hm : Names m pairs) (fields : Dict String) :
    (Acceptable pairs fields → mergeGrants p fields (some m) =
      .ok (having (merged p m fields) "allow", having (merged p m fields) "review",
        having (merged p m fields) "deny")) ∧
    (¬Acceptable pairs fields → mergeGrants p fields (some m) = .error .valueError) := by
  obtain ⟨hok, herror⟩ := mergeFields hm fields (Operations.grants p)
  refine ⟨fun h => ?_, fun h => ?_⟩
  · rw [mergeGrants, hok h, grants_eq, ← List.foldl_append]
    rfl
  · rw [mergeGrants, herror h]
    rfl

theorem rulesOf_saved (h : DotFree p) (hm : Names m pairs) (hpairs : ∀ pair ∈ pairs, '.' ∉ pair.1.toList)
    (target : String × String) : (rulesOf (saved p m fields) target.1).get target.2 =
      if '.' ∈ target.1.toList then none
      else ((merged p m fields).get (specOf target)).filter validEffect := by
  have hhaving : ∀ effect, target ∈ (having (merged p m fields) effect).map Operations.partition ↔
      '.' ∉ target.1.toList ∧ (merged p m fields).get (specOf target) = some effect := fun effect =>
    mem_having_partition nodup_merged fun kv hkv => mem_merged h hm hpairs hkv
  have hbuild : (rulesOf (saved p m fields) target.1).get target.2 = (rulesOf (Operations.buildPolicy
      (having (merged p m fields) "allow") (having (merged p m fields) "review")
      (having (merged p m fields) "deny")) target.1).get target.2 := rfl
  rw [hbuild, rulesOf_buildPolicy, if_congr (hhaving _) rfl rfl, if_congr (hhaving _) rfl rfl,
    if_congr (hhaving _) rfl rfl]
  by_cases hdot : '.' ∈ target.1.toList
  · simp [hdot]
  · cases hget : (merged p m fields).get (specOf target) with
    | none => simp
    | some effect =>
      simp only [hdot, not_false_eq_true, true_and, Option.some.injEq, if_false, Option.filter_some, validEffect,
        List.contains_cons, List.contains_nil, Bool.or_false, Bool.or_eq_true, beq_iff_eq]
      split_ifs <;> simp_all

theorem norm_filter (rule : Option String) : Policy.norm (rule.filter validEffect) = Policy.norm rule := by
  cases rule with
  | none => rfl
  | some effect =>
    rw [Option.filter_some]
    split_ifs with hvalid
    · rfl
    · have hdeny : ∀ effect, validEffect effect ≠ true → Policy.norm (some effect) = .deny := by
        intro effect hinvalid
        unfold Policy.norm
        split
        · rename_i heq
          obtain rfl := Option.some.inj heq
          exact (hinvalid rfl).elim
        · rename_i heq
          obtain rfl := Option.some.inj heq
          exact (hinvalid rfl).elim
        · rfl
      exact (hdeny effect hvalid).symm

theorem saved_posted (h : DotFree p) (hm : Names m pairs) (hpairs : ∀ pair ∈ pairs, '.' ∉ pair.1.toList)
    (hfields : (fields.map Prod.fst).Nodup) (hall : Acceptable pairs fields) {effect : String}
    (hpost : Posts pairs fields target effect) :
    (rulesOf (saved p m fields) target.1).get target.2 = some effect := by
  have hvalid : validEffect effect = true := (hall _ hpost.2 (isOpField_fieldKey target)).1
  rw [rulesOf_saved h hm hpairs, if_neg (hpairs _ hpost.1.1), get_merged_posted hm hpairs hfields hpost,
    Option.filter_some, if_pos hvalid]

theorem saved_kept (h : DotFree p) (hm : Names m pairs) (hpairs : ∀ pair ∈ pairs, '.' ∉ pair.1.toList)
    (hkept : ∀ effect, ¬Posts pairs fields target effect) :
    (saved p m fields).decide target.1 target.2 = p.decide target.1 target.2 := by
  have hrule : Policy.norm ((rulesOf (saved p m fields) target.1).get target.2) =
      Policy.norm ((rulesOf p target.1).get target.2) := by
    rw [rulesOf_saved h hm hpairs]
    split_ifs with hdot
    · have hnone : ¬∃ rules, (target.1, rules) ∈ p.tools.getD [] := fun ⟨rules, hmem⟩ => h.ruled _ hmem hdot
      rw [rulesOf_of_no_entry hnone]
      rfl
    · rw [get_merged_kept h hm hpairs hdot hkept, norm_filter]
  rw [decide_eq, decide_eq, hrule]
  rfl

end Saved

/-! ## The request that saves it -/

/-- The posted operations have the posted effects, and nothing else has changed. -/
structure TouchesPosted (pairs : List (String × String)) (data : Dict String) (before after : Policy) :
    Prop where
  posted : ∀ target effect, Posts pairs data target effect →
    (rulesOf after target.1).get target.2 = some effect
  kept : ∀ target, (∀ effect, ¬Posts pairs data target effect) →
    after.decide target.1 target.2 = before.decide target.1 target.2
  enabled : after.enabled = before.enabled
  disabled : after.disabledFunctions = before.disabledFunctions

theorem shown_dotFree {p : Policy} (h : DotFree p) {catalog : Catalog} :
    ∀ pair ∈ shownOperations p catalog, '.' ∉ pair.1.toList := by
  intro pair hpair
  obtain ⟨tool, htool, hop⟩ := List.mem_flatMap.1 hpair
  obtain ⟨o, -, rfl⟩ := List.mem_map.1 hop
  rcases CallerTools.prior_of_enabledTools htool with hon | ⟨rules, hrules⟩
  · exact h.enabled tool hon
  · exact h.ruled _ hrules

section Save
variable {H : Hash} {i : Nat} {ω : Oracle} {w : World} {name operator : String} {catalog : Catalog}
  {data : Dict String} {caller : CallerRow}

/-- `POST /callers/{name}/policy` with nobody else at work. -/
def save (H : Hash) (i : Nat) (ω : Oracle) (w : World) (name : String) (catalog : Catalog)
    (data : Dict String) (operator : String) : Interleave.Ran Op Op.Ret Exn Unit World :=
  (savePolicy name catalog data operator).run (fun o w => w.exec H i o ω) w

theorem stored_run {w : World} {c : Nat} {p : Policy} {eventType : String} {details : List (String × Json)}
    (hrow : (w.db.callers.get? c).isSome = true) :
    ((do Operations.storePolicy c p; Operations.recordAdminEvent operator eventType details : Action Unit).run
      (fun o w => w.exec H i o ω) w).result = .ok () := by
  have hanswer : (w.exec H i (.setPolicy c p) ω).1 = .ok () := by
    have hset : (w.exec H i (.setPolicy c p) ω).1 = (w.db.setPolicy ω.now c p).1 := rfl
    rw [hset, Db.setPolicy, if_pos hrow]
  unfold Operations.storePolicy Operations.recordAdminEvent perform
  rw [Interleave.Prog.run_bind, Interleave.Prog.run_perform_bind, hanswer]
  rfl

theorem setPolicy_run {w : World} {allow review deny : List String}
    (hcaller : w.db.callerByName name = some caller) :
    ((Operations.setPolicy name allow review deny operator).run (fun o w => w.exec H i o ω) w).result = .ok () ∧
      ((Operations.setPolicy name allow review deny operator).run (fun o w => w.exec H i o ω) w).world.db.policyFor
        caller.id = regrant allow review deny (w.db.policyFor caller.id) := by
  obtain ⟨w', hrun, hdb⟩ := @CallerTools.requireCaller_run H i ω name caller w hcaller
  have hread : (w'.exec H i (.policyFor caller.id) ω).1 = w.db.policyFor caller.id := by
    rw [← hdb]
    rfl
  have hrow : ((w'.exec H i (.policyFor caller.id) ω).2.db.callers.get? caller.id).isSome = true := by
    have hkept : (w'.exec H i (.policyFor caller.id) ω).2.db = w.db := hdb
    have hget : w.db.callers.get? caller.id = some caller :=
      Table.get?_of_mem (List.mem_of_find?_eq_some hcaller)
    rw [hkept, hget]
    rfl
  rw [Operations.setPolicy, Interleave.Prog.run_bind, hrun]
  simp only [perform, Interleave.Prog.run_perform_bind, hread]
  have hstored := @stored_run H i ω operator _ caller.id (regrant allow review deny (w.db.policyFor caller.id))
    "policy_changed" [("name", strJson name), ("grant_delta", Operations.grantDelta (w.db.policyFor caller.id)
      (regrant allow review deny (w.db.policyFor caller.id)))] hrow
  exact ⟨hstored, CallerTools.stored_ok hstored⟩

/-- Saving the form either refuses it and leaves the store as it is, or gives the posted operations
their effects and changes nothing else. -/
theorem grant_edits (hcaller : w.db.callerByName name = some caller)
    (hp : DotFree (w.db.policyFor caller.id)) (hdata : (data.map Prod.fst).Nodup) :
    (¬Acceptable (shownOperations (w.db.policyFor caller.id) catalog) data ∧
      (save H i ω w name catalog data operator).result = .error .valueError ∧
      (save H i ω w name catalog data operator).world.db = w.db) ∨
    (Acceptable (shownOperations (w.db.policyFor caller.id) catalog) data ∧
      (save H i ω w name catalog data operator).result = .ok () ∧
      TouchesPosted (shownOperations (w.db.policyFor caller.id) catalog) data (w.db.policyFor caller.id)
        ((save H i ω w name catalog data operator).world.db.policyFor caller.id)) := by
  obtain ⟨w', hrun, hdb⟩ := @CallerTools.requireCaller_run H i ω name caller w hcaller
  have hread : (w'.exec H i (.policyFor caller.id) ω).1 = w.db.policyFor caller.id := by
    rw [← hdb]
    rfl
  have hkept : (w'.exec H i (.policyFor caller.id) ω).2.db = w.db := hdb
  have hcaller' : (w'.exec H i (.policyFor caller.id) ω).2.db.callerByName name = some caller := by
    rw [hkept, hcaller]
  have hnames := names_operationFields (w.db.policyFor caller.id) catalog
  obtain ⟨hok, herror⟩ := @mergeGrants_eq (w.db.policyFor caller.id) _ _ hnames data
  rw [save, savePolicy, Interleave.Prog.run_bind, hrun]
  simp only [perform, Interleave.Prog.run_perform_bind, hread]
  by_cases hall : Acceptable (shownOperations (w.db.policyFor caller.id) catalog) data
  · rw [hok hall]
    obtain ⟨hresult, hpolicy⟩ := @setPolicy_run H i ω name operator caller _
      (having (merged (w.db.policyFor caller.id) (operationFields (w.db.policyFor caller.id) catalog) data) "allow")
      (having (merged (w.db.policyFor caller.id) (operationFields (w.db.policyFor caller.id) catalog) data) "review")
      (having (merged (w.db.policyFor caller.id) (operationFields (w.db.policyFor caller.id) catalog) data) "deny")
      hcaller'
    refine .inr ⟨hall, hresult, ?_⟩
    rw [hpolicy, hkept]
    have hpairs := @shown_dotFree _ hp catalog
    exact ⟨fun target effect hpost => saved_posted hp hnames hpairs hdata hall hpost,
      fun target hnone => saved_kept hp hnames hpairs hnone, rfl, rfl⟩
  · rw [herror hall]
    exact .inl ⟨hall, rfl, hkept⟩

end Save

namespace Sample

def echoCatalog : Catalog := ⟨[("echo", [⟨"run", .null, .null⟩])], List.nodup_singleton _⟩

def reviewing : Dict String := [("_csrf", "t"), ("op__echo__run", "review")]

theorem managed_dotFree : DotFree (Broker.Sample.managed.policyFor 1) := by
  have hpolicy : Broker.Sample.managed.policyFor 1 =
      { tools := some [("echo", [("run", "allow")]), ("mail", [("send", "allow")])],
        enabled := some ["echo", "mail"], disabledFunctions := some [] } := rfl
  rw [hpolicy]
  constructor <;> simp

theorem reviewing_acceptable :
    Acceptable (shownOperations (Broker.Sample.managed.policyFor 1) echoCatalog) reviewing := by
  have hshown : shownOperations (Broker.Sample.managed.policyFor 1) echoCatalog = [("echo", "run")] := rfl
  rw [hshown]
  intro field hfield hop
  rcases List.mem_cons.1 hfield with rfl | hfield
  · cases hop
  · obtain rfl := List.mem_singleton.1 hfield
    exact ⟨rfl, ("echo", "run"), rfl, by simp [Sole]⟩

end Sample

/-- `echo.run` goes from allowed to reviewed, and `mail` keeps what it had. -/
theorem grant_edits_managed :
    TouchesPosted (shownOperations (Broker.Sample.managed.policyFor 1) Sample.echoCatalog) Sample.reviewing
      (Broker.Sample.managed.policyFor 1)
      ((save Broker.Sample.hash 0 {} { db := Broker.Sample.managed } "ann" Sample.echoCatalog Sample.reviewing
        "op").world.db.policyFor 1) :=
  ((@grant_edits Broker.Sample.hash 0 {} { db := Broker.Sample.managed } "ann" "op" Sample.echoCatalog
    Sample.reviewing ⟨1, "ann", 0, none⟩ rfl Sample.managed_dotFree (by decide)).resolve_left
      fun h => h.1 Sample.reviewing_acceptable).2.2

end Toolstack.Broker.GrantEdits
