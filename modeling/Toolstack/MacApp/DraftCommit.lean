import Toolstack.Broker.PolicyEdits
import Toolstack.Interleave.Sequential
import Toolstack.MacApp.CallerSettingsDraft
import Toolstack.Mapping

/-! A saved draft is committed as it is shown: the client's payload is accepted, its receipt is, and
every decision is the one the draft shows. -/

namespace Toolstack.Broker.Dict
variable {α : Type}

theorem map_fst_set {d : Dict α} {k : String} (h : k ∈ d.map Prod.fst) (v : α) :
    (d.set k v).map Prod.fst = d.map Prod.fst := by
  obtain ⟨kv, hkv, rfl⟩ := List.mem_map.1 h
  rw [set, if_pos (List.any_eq_true.2 ⟨kv, hkv, decide_eq_true rfl⟩), List.map_map]
  apply List.map_congr_left
  intro kv' _
  simp only [Function.comp_apply]
  split_ifs with hk
  · exact hk.symm
  · rfl

theorem get_iff_mem {d : Dict α} (h : (d.map Prod.fst).Nodup) {k : String} {v : α} :
    d.get k = some v ↔ (k, v) ∈ d := Mapping.get_iff_mem h

theorem exists_get {d : Dict α} {k : String} (h : k ∈ d.map Prod.fst) : ∃ v, d.get k = some v := by
  obtain ⟨kv, hkv, rfl⟩ := List.mem_map.1 h
  have hsome : (d.find? fun kv' => kv'.1 = kv.1).isSome = true :=
    List.find?_isSome.2 ⟨kv, hkv, decide_eq_true rfl⟩
  obtain ⟨kv', hkv'⟩ := Option.isSome_iff_exists.1 hsome
  exact ⟨kv'.2, by rw [get, hkv']; rfl⟩

/-- A dict with one entry for each row. -/
theorem get_rows {β : Type} {rows : Dict β} (hnodup : (rows.map Prod.fst).Nodup) (f : String × β → α)
    {row : String × β} (hrow : row ∈ rows) : get (rows.map fun r => (r.1, f r)) row.1 = some (f row) := by
  refine (get_iff_mem ?_).2 (List.mem_map_of_mem hrow)
  rwa [List.map_map]

end Toolstack.Broker.Dict

namespace Toolstack.MacApp

open Broker (Dict Policy Hash)
open Broker.CallerSettings
open Interleave
open CallerSettingsDraft (sortedNames)

/-! ## The shape of a draft -/

/-- The draft speaks of the tools and operations of its catalog, and of no others. -/
structure Shaped (catalog : Catalog) (v : SettingsValues) : Prop where
  enabled : v.enabled ⊆ (catalog.tools.map Prod.fst).toFinset
  excludedTools : v.excluded.map Prod.fst = catalog.tools.map Prod.fst
  excludedOps : ∀ row ∈ catalog.tools, ∀ s, v.excluded.get row.1 = some s → s ⊆ (row.2.map CatalogOp.op).toFinset
  tools : v.tools.map Prod.fst = catalog.tools.map Prod.fst
  rules : ∀ row ∈ catalog.tools, ∀ r, v.tools.get row.1 = some r → r.map Prod.fst = row.2.map CatalogOp.op ∧
    ∀ kv ∈ r, kv.2 ∈ effectNames

/-- An edit of the catalog's tools and operations, with an effect that the picker offers. -/
def CallerSettingsDraft.Edit.On (catalog : Catalog) : Edit → Prop
  | .setTool tool _ | .bulk tool _ => tool ∈ catalog.tools.map Prod.fst
  | .setFunction tool op _ => ∃ row ∈ catalog.tools, row.1 = tool ∧ op ∈ row.2.map CatalogOp.op
  | .effect tool op e => (∃ row ∈ catalog.tools, row.1 = tool ∧ op ∈ row.2.map CatalogOp.op) ∧ e ∈ effectNames
  | .view .. => True

theorem row_unique {catalog : Catalog} {row row' : String × List CatalogOp} (hrow : row ∈ catalog.tools)
    (hrow' : row' ∈ catalog.tools) (h : row'.1 = row.1) : row' = row :=
  List.inj_on_of_nodup_map catalog.nodup hrow' hrow h

section Steps
variable {catalog : Catalog} {v : SettingsValues} (h : Shaped catalog v)
include h

theorem Shaped.withEnabled {enabled : Finset String} (he : enabled ⊆ (catalog.tools.map Prod.fst).toFinset) :
    Shaped catalog { v with enabled } :=
  ⟨he, h.excludedTools, h.excludedOps, h.tools, h.rules⟩

theorem Shaped.withExcluded {row : String × List CatalogOp} (hrow : row ∈ catalog.tools) {s : Finset String}
    (hs : s ⊆ (row.2.map CatalogOp.op).toFinset) :
    Shaped catalog { v with excluded := v.excluded.set row.1 s } := by
  have hkey : row.1 ∈ v.excluded.map Prod.fst := h.excludedTools ▸ List.mem_map_of_mem hrow
  refine ⟨h.enabled, (Dict.map_fst_set hkey s).trans h.excludedTools, ?_, h.tools, h.rules⟩
  intro row' hrow' s' hs'
  simp only [Dict.get_set] at hs'
  split_ifs at hs' with hsame
  · obtain rfl := row_unique hrow hrow' hsame
    rw [← Option.some.inj hs']
    exact hs
  · exact h.excludedOps row' hrow' s' hs'

theorem Shaped.withRules {row : String × List CatalogOp} (hrow : row ∈ catalog.tools) {r : Dict String}
    (hkeys : r.map Prod.fst = row.2.map CatalogOp.op) (heffects : ∀ kv ∈ r, kv.2 ∈ effectNames) :
    Shaped catalog { v with tools := v.tools.set row.1 r } := by
  have hkey : row.1 ∈ v.tools.map Prod.fst := h.tools ▸ List.mem_map_of_mem hrow
  refine ⟨h.enabled, h.excludedTools, h.excludedOps, (Dict.map_fst_set hkey r).trans h.tools, ?_⟩
  intro row' hrow' r' hr'
  simp only [Dict.get_set] at hr'
  split_ifs at hr' with hsame
  · obtain rfl := row_unique hrow hrow' hsame
    rw [← Option.some.inj hr']
    exact ⟨hkeys, heffects⟩
  · exact h.rules row' hrow' r' hr'

end Steps

namespace CallerSettingsDraft

variable {found : String → String → CatalogOp → Bool} {catalog : Catalog} {d : CallerSettingsDraft}

/-- A draft of the catalog's settings. -/
def Of (catalog : Catalog) (d : CallerSettingsDraft) : Prop := d.snapshot.catalog = catalog ∧ Shaped catalog d.values

theorem ops_eq (h : d.snapshot.catalog = catalog) {row : String × List CatalogOp} (hrow : row ∈ catalog.tools) :
    d.ops row.1 = row.2 := by
  rw [ops, h, (Dict.get_iff_mem catalog.nodup).2 hrow]
  rfl

theorem subset_insert {row : String × List CatalogOp} (hrow : row ∈ catalog.tools) {s : Finset String}
    (hs : s ⊆ (catalog.tools.map Prod.fst).toFinset) : insert row.1 s ⊆ (catalog.tools.map Prod.fst).toFinset :=
  Finset.insert_subset (List.mem_toFinset.2 (List.mem_map_of_mem hrow)) hs

theorem Of.setTool (h : d.Of catalog) {row : String × List CatalogOp} (hrow : row ∈ catalog.tools) (enabled : Bool) :
    (d.setTool row.1 enabled).Of catalog := by
  obtain ⟨hcatalog, hshaped⟩ := h
  unfold CallerSettingsDraft.setTool
  split_ifs
  · refine ⟨hcatalog, ?_⟩
    exact (hshaped.withEnabled (subset_insert hrow hshaped.enabled)).withExcluded hrow (Finset.empty_subset _)
  · exact ⟨hcatalog, hshaped.withEnabled ((Finset.erase_subset _ _).trans hshaped.enabled)⟩

theorem Of.wake (h : d.Of catalog) {row : String × List CatalogOp} (hrow : row ∈ catalog.tools) (enabled : Bool) :
    Shaped catalog (d.wake row.1 enabled) := by
  unfold CallerSettingsDraft.wake
  split_ifs
  · refine (h.2.withEnabled (subset_insert hrow h.2.enabled)).withExcluded hrow ?_
    rw [ops_eq h.1 hrow]
  · exact h.2

theorem Of.setFunction (h : d.Of catalog) {row : String × List CatalogOp} (hrow : row ∈ catalog.tools) {op : String}
    (hop : op ∈ row.2.map CatalogOp.op) (enabled : Bool) : (d.setFunction row.1 op enabled).Of catalog := by
  have hwake := h.wake hrow enabled
  have hold : ((d.wake row.1 enabled).excluded.get row.1).getD ∅ ⊆ (row.2.map CatalogOp.op).toFinset := by
    cases hget : (d.wake row.1 enabled).excluded.get row.1 with
    | none => exact Finset.empty_subset _
    | some s => exact hwake.excludedOps row hrow s hget
  refine ⟨h.1, hwake.withExcluded hrow ?_⟩
  split_ifs
  · exact (Finset.erase_subset _ _).trans hold
  · exact Finset.insert_subset (List.mem_toFinset.2 hop) hold

theorem Of.bulk (h : d.Of catalog) {row : String × List CatalogOp} (hrow : row ∈ catalog.tools) (enabled : Bool) :
    (d.bulk found row.1 enabled).Of catalog := by
  have hvisible : ∀ o ∈ d.matchesTool found row.1, o.op ∈ row.2.map CatalogOp.op := by
    intro o ho
    have hmem := List.mem_of_mem_filter ho
    rw [ops_eq h.1 hrow] at hmem
    exact List.mem_map_of_mem hmem
  unfold CallerSettingsDraft.bulk
  generalize d.matchesTool found row.1 = rows at hvisible
  induction rows generalizing d with
  | nil => exact h
  | cons o rows ih =>
    rw [List.foldl_cons]
    exact ih (h.setFunction hrow (hvisible o List.mem_cons_self) enabled) fun o' ho' =>
      hvisible o' (List.mem_cons_of_mem _ ho')

theorem Of.setEffect (h : d.Of catalog) {row : String × List CatalogOp} (hrow : row ∈ catalog.tools) {op e : String}
    (hop : op ∈ row.2.map CatalogOp.op) (he : e ∈ effectNames) : (d.setEffect row.1 op e).Of catalog := by
  unfold CallerSettingsDraft.setEffect
  split
  next rules hrules =>
    obtain ⟨hkeys, heffects⟩ := h.2.rules row hrow rules hrules
    refine ⟨h.1, h.2.withRules hrow ((Dict.map_fst_set (hkeys ▸ hop) e).trans hkeys) ?_⟩
    intro kv hkv
    rcases Mapping.mem_set hkv with rfl | hkv
    · exact he
    · exact heffects kv hkv
  · exact h

/-- One edit keeps the shape. -/
theorem Of.edit (h : d.Of catalog) {e : Edit} (he : e.On catalog) : (d.edit found e).Of catalog := by
  cases e with
  | setTool tool enabled =>
    obtain ⟨row, hrow, rfl⟩ := List.mem_map.1 he
    exact h.setTool hrow enabled
  | setFunction tool op enabled =>
    obtain ⟨row, hrow, rfl, hop⟩ := he
    exact h.setFunction hrow hop enabled
  | bulk tool enabled =>
    obtain ⟨row, hrow, rfl⟩ := List.mem_map.1 he
    exact h.bulk hrow enabled
  | effect tool op e =>
    obtain ⟨⟨row, hrow, rfl, hop⟩, he⟩ := he
    exact h.setEffect hrow hop he
  | view search enabledOnly needsReview => exact h

theorem Of.edits (h : d.Of catalog) {es : List Edit} (hes : ∀ e ∈ es, e.On catalog) :
    (es.foldl (CallerSettingsDraft.edit found) d).Of catalog := by
  induction es generalizing d with
  | nil => exact h
  | cons e es ih =>
    exact ih (h.edit (hes e List.mem_cons_self)) fun e' he' => hes e' (List.mem_cons_of_mem _ he')

/-- No edit changes what the draft was taken of. -/
theorem frame_edit (found : String → String → CatalogOp → Bool) (d : CallerSettingsDraft) (e : Edit) : (d.edit found e).name = d.name ∧ (d.edit found e).snapshot = d.snapshot := by
  cases e with
  | setTool tool enabled =>
    cases enabled
    · exact ⟨rfl, rfl⟩
    · exact ⟨rfl, rfl⟩
  | setFunction tool op enabled => exact ⟨rfl, rfl⟩
  | bulk tool enabled =>
    show (d.bulk found tool enabled).name = _ ∧ (d.bulk found tool enabled).snapshot = _
    unfold CallerSettingsDraft.bulk
    generalize d.matchesTool found tool = rows
    induction rows generalizing d with
    | nil => exact ⟨rfl, rfl⟩
    | cons o rows ih => exact ih (d.setFunction tool o.op enabled)
  | effect tool op e =>
    show (d.setEffect tool op e).name = _ ∧ (d.setEffect tool op e).snapshot = _
    unfold CallerSettingsDraft.setEffect
    split
    · exact ⟨rfl, rfl⟩
    · exact ⟨rfl, rfl⟩
  | view search enabledOnly needsReview => exact ⟨rfl, rfl⟩

theorem frame_edits (found : String → String → CatalogOp → Bool) (d : CallerSettingsDraft) (es : List Edit) : (es.foldl (CallerSettingsDraft.edit found) d).name = d.name ∧
    (es.foldl (CallerSettingsDraft.edit found) d).snapshot = d.snapshot := by
  induction es generalizing d with
  | nil => exact ⟨rfl, rfl⟩
  | cons e es ih =>
    obtain ⟨hname, hsnapshot⟩ := frame_edit found d e
    rw [← hname, ← hsnapshot]
    exact ih (d.edit found e)

/-- Every stored effect is one of the three. -/
def Known (policy : Policy) : Prop :=
  ∀ tools, policy.tools = some tools → ∀ t ∈ tools, ∀ kv ∈ t.2, kv.2 ∈ effectNames

theorem effect_known {policy : Policy} (h : Known policy) (tool op : String) :
    ((policy.tools.bind (Dict.get · tool)).bind (Dict.get · op)).getD "deny" ∈ effectNames := by
  have hdeny : "deny" ∈ effectNames := by decide
  cases htools : policy.tools with
  | none => exact hdeny
  | some tools =>
    rw [Option.bind_some]
    cases hrules : tools.get tool with
    | none => exact hdeny
    | some rules =>
      rw [Option.bind_some]
      cases heffect : rules.get op with
      | none => exact hdeny
      | some e => exact h tools htools (tool, rules) (Mapping.mem_of_get hrules) (op, e) (Mapping.mem_of_get heffect)

theorem Of.init {name : String} {s : Snapshot} (h : Known s.policy) : (init name s).Of s.catalog := by
  refine ⟨rfl, ⟨Finset.inter_subset_right, ?_, fun row hrow v hv => ?_, ?_, fun row hrow r hr => ?_⟩⟩
  · exact (List.map_map ..).trans rfl
  · rw [CallerSettingsDraft.init, SettingsValues.init, Dict.get_rows s.catalog.nodup _ hrow] at hv
    rw [← Option.some.inj hv]
    exact Finset.inter_subset_right
  · exact (List.map_map ..).trans rfl
  · rw [CallerSettingsDraft.init, SettingsValues.init, Dict.get_rows s.catalog.nodup _ hrow] at hr
    rw [← Option.some.inj hr]
    refine ⟨(List.map_map ..).trans rfl, fun kv hkv => ?_⟩
    obtain ⟨o, -, rfl⟩ := List.mem_map.1 hkv
    exact effect_known h row.1 o.op

end CallerSettingsDraft

/-! ## The payload is accepted -/

theorem find?_py_self {names : List String} {name : String} (h : name ∈ names) :
    names.find? (fun n => py n = py name) = some name := by
  have hsome : (names.find? fun n => py n = py name).isSome = true :=
    List.find?_isSome.2 ⟨name, h, decide_eq_true rfl⟩
  obtain ⟨n, hn⟩ := Option.isSome_iff_exists.1 hsome
  rw [hn, py_injective (find?_py hn).2]

theorem strings?_names {allowed names : List String} (h : ∀ n ∈ names, n ∈ allowed) :
    strings? allowed (Policy.namesJson names) = some names := by
  rw [Policy.namesJson, strings?, Fallible.mapM_some, List.forall₂_map_left_iff, List.forall₂_same]
  exact fun n hn => find?_py_self (h n hn)

theorem find?_dict {α : Type} (d : Dict α) (f : α → Json) (k : String) :
    Json.find? (d.map fun t => (py t.1, f t.2)) (py k) = (d.get k).map f := by
  have hkeys : (fun kv : PyStr × Json => decide (kv.1 = py k)) ∘ (fun t : String × α => (py t.1, f t.2)) =
      fun t => decide (t.1 = k) := by
    funext t
    simp only [Function.comp_apply, py_injective.eq_iff]
  rw [Json.find?, List.find?_map, hkeys, Option.map_map, Dict.get, Option.map_map]
  rfl

theorem effects?_rules {names : List String} {rules : Dict String} (hkeys : rules.map Prod.fst = names)
    (hnodup : names.Nodup) (heffects : ∀ kv ∈ rules, kv.2 ∈ effectNames) :
    effects? names (Policy.rulesJson rules) = some rules := by
  have hget : ∀ kv ∈ rules, rules.get kv.1 = some kv.2 := fun kv hkv =>
    (Dict.get_iff_mem (hkeys ▸ hnodup)).2 hkv
  have hfind : ∀ k, Json.find? (rules.map fun r => (py r.1, Json.str (py r.2))) (py k) =
      (rules.get k).map fun e => .str (py e) := find?_dict rules fun e => .str (py e)
  have hall : (names.all fun n => (Json.find? (rules.map fun r => (py r.1, Json.str (py r.2))) (py n)).isSome) = true := by
    rw [List.all_eq_true, ← hkeys]
    intro n hn
    obtain ⟨kv, hkv, rfl⟩ := List.mem_map.1 hn
    rw [hfind, hget kv hkv]
    rfl
  rw [Policy.rulesJson, effects?, if_pos hall, Fallible.mapM_some, List.forall₂_map_left_iff, List.forall₂_same]
  intro kv hkv
  have hname : kv.1 ∈ names := hkeys ▸ List.mem_map_of_mem hkv
  rw [effect?, find?_py_self hname]
  simp only [Option.bind_eq_bind, Option.bind_some, hfind, hget kv hkv, Option.map_some]
  rw [find?_py_self (heffects kv hkv)]
  rfl

theorem mergeTools_succeed {disabled tools : Draft} {rows : List (String × List CatalogOp)}
    (h : ∀ row ∈ rows, ∃ excluded effects, Reads disabled tools row excluded effects) (p : Policy) :
    ∃ p', rows.foldlM (mergeTool disabled tools) p = .ok p' := by
  induction rows generalizing p with
  | nil => exact ⟨p, rfl⟩
  | cons row rows ih =>
    obtain ⟨excluded, effects, hreads⟩ := h row List.mem_cons_self
    obtain ⟨q, hq⟩ : ∃ q, mergeTool disabled tools p row = .ok q := by
      rw [mergeTool]
      simp only [hreads.excluded, hreads.effects]
      exact ⟨_, rfl⟩
    obtain ⟨p', hp'⟩ := ih (fun row' hrow' => h row' (List.mem_cons_of_mem _ hrow')) q
    exact ⟨p', Fallible.bind_ok.2 ⟨q, hq, hp'⟩⟩

/-- What the committed policy says of the catalog's tools: what the draft shows. -/
structure Committed (catalog : Catalog) (v : SettingsValues) (before after : Policy) : Prop where
  managed : after.disabledFunctions.isSome
  enabled : ∃ enabled, after.enabled = some enabled ∧
    ∀ tool, tool ∈ enabled ↔ (tool ∈ enabledTools before ∧ tool ∉ catalog.tools.map Prod.fst) ∨ tool ∈ v.enabled
  excluded : ∀ row ∈ catalog.tools, ∃ s, v.excluded.get row.1 = some s ∧ ∀ op ∈ row.2.map CatalogOp.op,
    (op ∈ excludedOf after row.1 ↔ op ∈ s)
  rules : ∀ row ∈ catalog.tools, ∃ r, v.tools.get row.1 = some r ∧ ∀ op ∈ row.2.map CatalogOp.op,
    ∃ e ∈ effectNames, r.get op = some e ∧ (rulesOf after row.1).get op = some e

theorem sameTools_dict {catalog : Catalog} {α : Type} {d : Dict α} (hkeys : d.map Prod.fst = catalog.tools.map Prod.fst) (f : α → Json) :
    sameTools catalog (d.map fun t => (py t.1, f t.2)) = true := by
  rw [sameTools, Bool.and_eq_true, List.all_eq_true, List.all_eq_true]
  constructor
  · intro row hrow
    obtain ⟨v, hv⟩ := Dict.exists_get (hkeys ▸ List.mem_map_of_mem hrow : row.1 ∈ d.map Prod.fst)
    rw [find?_dict d f, hv]
    rfl
  · intro kv hkv
    obtain ⟨t, ht, rfl⟩ := List.mem_map.1 hkv
    obtain ⟨row, hrow, hname⟩ := List.mem_map.1 (hkeys ▸ List.mem_map_of_mem ht : t.1 ∈ catalog.tools.map Prod.fst)
    exact List.any_eq_true.2 ⟨row, hrow, decide_eq_true (congrArg py hname)⟩

section Payload
variable {catalog : Catalog} {v : SettingsValues} (h : Shaped catalog v)
  (hops : ∀ row ∈ catalog.tools, (row.2.map CatalogOp.op).Nodup)
include h hops

theorem Shaped.reads {row : String × List CatalogOp} (hrow : row ∈ catalog.tools) : ∃ s r,
    v.excluded.get row.1 = some s ∧ v.tools.get row.1 = some r ∧
    Reads (v.excluded.map fun t => (py t.1, sortedNames t.2)) (v.tools.map fun t => (py t.1, Policy.rulesJson t.2))
      row s.sort r := by
  obtain ⟨s, hs⟩ := Dict.exists_get (h.excludedTools ▸ List.mem_map_of_mem hrow)
  obtain ⟨r, hr⟩ := Dict.exists_get (h.tools ▸ List.mem_map_of_mem hrow)
  obtain ⟨hkeys, heffects⟩ := h.rules row hrow r hr
  refine ⟨s, r, hs, hr, ?_, ?_⟩
  · rw [find?_dict v.excluded sortedNames, hs]
    refine strings?_names fun n hn => ?_
    exact List.mem_toFinset.1 (h.excludedOps row hrow s hs ((Finset.mem_sort _).1 hn))
  · rw [find?_dict v.tools Policy.rulesJson, hr]
    exact effects?_rules hkeys (hops row hrow) heffects

/-- The server's edit accepts the client's payload and writes what the draft shows. -/
theorem Shaped.edit {d : CallerSettingsDraft} (hv : d.values = v) (before : Policy) :
    ∃ after, edit catalog d.payload before = .ok after ∧ Committed catalog v before after := by
  subst hv
  have hfind : Json.find? d.payload (py "enabled") = some (sortedNames d.values.enabled) ∧
      Json.find? d.payload (py "disabled_functions") =
        some (.obj (d.values.excluded.map fun t => (py t.1, sortedNames t.2))) ∧
      Json.find? d.payload (py "tools") = some (.obj (d.values.tools.map fun t => (py t.1, Policy.rulesJson t.2))) :=
    ⟨rfl, rfl, rfl⟩
  have henabled : strings? (catalog.tools.map Prod.fst) (sortedNames d.values.enabled) =
      some d.values.enabled.sort :=
    strings?_names fun n hn => List.mem_toFinset.1 (h.enabled ((Finset.mem_sort _).1 hn))
  obtain ⟨after, hafter⟩ := mergeTools_succeed (fun row hrow => by
    obtain ⟨s, r, -, -, hreads⟩ := h.reads hops hrow
    exact ⟨s.sort, r, hreads⟩) { before with
      enabled := some (sortedSet
        ((enabledTools before).filter (· ∉ catalog.tools.map Prod.fst) ++ d.values.enabled.sort))
      tools := some (before.tools.getD [])
      disabledFunctions := some (before.disabledFunctions.getD []) }
  refine ⟨after, ?_, ?_⟩
  · simp only [Broker.CallerSettings.edit, hfind, Option.getD_some, henabled]
    rw [sameTools_dict h.excludedTools sortedNames, sameTools_dict h.tools Policy.rulesJson]
    exact hafter
  · obtain ⟨hrows, -, hkept, hmanaged⟩ := mergeTools_ok catalog.nodup rfl hafter
    refine ⟨hmanaged, ⟨_, hkept, fun tool => ?_⟩, fun row hrow => ?_, fun row hrow => ?_⟩
    · simp [mem_sortedSet]
    · obtain ⟨s, r, hs, -, hreads⟩ := h.reads hops hrow
      obtain ⟨excluded, effects, hreads', hmerged⟩ := hrows row hrow
      have hsame : excluded = s.sort := Option.some.inj (hreads'.excluded.symm.trans hreads.excluded)
      refine ⟨s, hs, fun op hop => ?_⟩
      rw [hmerged.excluded, mem_sortedSet, hsame]
      simp only [List.mem_append, List.mem_filter, hop, not_true_eq_false, decide_false, Bool.false_eq_true,
        and_false, false_or]
      exact Finset.mem_sort _
    · obtain ⟨s, r, -, hr, hreads⟩ := h.reads hops hrow
      obtain ⟨excluded, effects, hreads', hmerged⟩ := hrows row hrow
      have hsame : effects = r := Option.some.inj (hreads'.effects.symm.trans hreads.effects)
      obtain ⟨hkeys, heffects⟩ := h.rules row hrow r hr
      have hnodup : (r.map Prod.fst).Nodup := hkeys ▸ hops row hrow
      refine ⟨r, hr, fun op hop => ?_⟩
      obtain ⟨e, he⟩ := Dict.exists_get (hkeys ▸ hop : op ∈ r.map Prod.fst)
      have hmem := (Dict.get_iff_mem hnodup).1 he
      refine ⟨e, heffects _ hmem, he, ?_⟩
      rw [hmerged.rules, hsame]
      refine Dict.get_foldl_set (fun kv hkv hkey => ?_) _ (.inl ⟨_, hmem, rfl⟩)
      have hget := (Dict.get_iff_mem hnodup).2 hkv
      rw [hkey, he] at hget
      exact (Option.some.inj hget).symm

end Payload

/-! ## The receipt is accepted -/

theorem sameDictionary_of_keys {α : Type} {eq : α → α → Bool} {d d' : Dict α} (hkeys : d.map Prod.fst = d'.map Prod.fst)
    (h : ∀ kv ∈ d, ∃ v, d'.get kv.1 = some v ∧ eq kv.2 v = true) : sameDictionary eq d d' = true := by
  have hlength : d.length = d'.length := by simpa using congrArg List.length hkeys
  rw [sameDictionary, Bool.and_eq_true, List.all_eq_true]
  refine ⟨by simpa using hlength, fun kv hkv => ?_⟩
  obtain ⟨v, hv, heq⟩ := h kv hkv
  rw [hv]
  exact heq

theorem excluded_eq (policy : Policy) (tool : String) :
    (policy.disabledFunctions.bind (Dict.get · tool)).getD [] = excludedOf policy tool := by
  cases h : policy.disabledFunctions with
  | none => simp [excludedOf, h, Dict.get]
  | some ds => simp [excludedOf, h]

theorem rules_eq (policy : Policy) (tool op : String) :
    (policy.tools.bind (Dict.get · tool)).bind (Dict.get · op) = (rulesOf policy tool).get op := by
  cases h : policy.tools with
  | none => simp [rulesOf, h, Dict.get]
  | some ts =>
    rw [Option.bind_some, rulesOf, h, Option.getD_some]
    cases ts.get tool with
    | none => rfl
    | some rules => rfl

section Receipt
variable {catalog : Catalog} {d : CallerSettingsDraft} (h : d.Of catalog) {before after : Policy}
  (hafter : Committed catalog d.values before after)
include h hafter

/-- The committed policy gives the draft's values back. -/
theorem Committed.same : (SettingsValues.init
    { d.snapshot with policy := after, enabled := after.enabled.getD [] }).same d.values = true := by
  obtain ⟨rfl, hshaped⟩ := h
  obtain ⟨enabled, henabled, hmem⟩ := hafter.enabled
  simp only [SettingsValues.same, Bool.and_eq_true, decide_eq_true_eq]
  refine ⟨⟨?_, ?_⟩, ?_⟩
  · ext tool
    have hknown : tool ∈ d.values.enabled → tool ∈ d.snapshot.catalog.tools.map Prod.fst := fun ht =>
      List.mem_toFinset.1 (hshaped.enabled ht)
    simp only [SettingsValues.init, henabled, Option.getD_some, Finset.mem_inter, List.mem_toFinset, hmem]
    tauto
  · refine sameDictionary_of_keys ((List.map_map ..).trans hshaped.excludedTools.symm) fun kv hkv => ?_
    obtain ⟨row, hrow, rfl⟩ := List.mem_map.1 hkv
    obtain ⟨s, hs, hsame⟩ := hafter.excluded row hrow
    refine ⟨s, hs, decide_eq_true ?_⟩
    ext op
    have hknown : op ∈ s → op ∈ row.2.map CatalogOp.op := fun ho =>
      List.mem_toFinset.1 (hshaped.excludedOps row hrow s hs ho)
    simp only [excluded_eq, Finset.mem_inter, List.mem_toFinset]
    constructor
    · exact fun ho => (hsame op ho.2).1 ho.1
    · exact fun ho => ⟨(hsame op (hknown ho)).2 ho, hknown ho⟩
  · refine sameDictionary_of_keys ((List.map_map ..).trans hshaped.tools.symm) fun kv hkv => ?_
    obtain ⟨row, hrow, rfl⟩ := List.mem_map.1 hkv
    obtain ⟨r, hr, hsame⟩ := hafter.rules row hrow
    refine ⟨r, hr, sameDictionary_of_keys ((List.map_map ..).trans (hshaped.rules row hrow r hr).1.symm) fun kv hkv => ?_⟩
    obtain ⟨o, ho, rfl⟩ := List.mem_map.1 hkv
    obtain ⟨e, -, he, hcommitted⟩ := hsame o.op (List.mem_map_of_mem ho)
    refine ⟨e, he, decide_eq_true ?_⟩
    simp only [rules_eq, hcommitted, Option.getD_some]

omit h in
/-- Every decision is the one the draft shows. -/
theorem Committed.decide {row : String × List CatalogOp} (hrow : row ∈ catalog.tools) {o : CatalogOp} (ho : o ∈ row.2) :
    after.decide row.1 o.op = if d.values.active row.1 o.op then Policy.norm (some (d.values.effect row.1 o.op)) else .deny := by
  have hop : o.op ∈ row.2.map CatalogOp.op := List.mem_map_of_mem ho
  obtain ⟨enabled, henabled, hmem⟩ := hafter.enabled
  obtain ⟨s, hs, hexcluded⟩ := hafter.excluded row hrow
  obtain ⟨r, hr, hrules⟩ := hafter.rules row hrow
  obtain ⟨e, -, he, hcommitted⟩ := hrules o.op hop
  have hlisted : row.1 ∈ enabled ↔ row.1 ∈ d.values.enabled := by
    have hshown : row.1 ∈ catalog.tools.map Prod.fst := List.mem_map_of_mem hrow
    rw [hmem]
    simp only [hshown, not_true_eq_false, and_false, false_or]
  have heffect : d.values.effect row.1 o.op = e := by
    simp only [SettingsValues.effect, hr, Option.bind_some, he, Option.getD_some]
  have hactive : d.values.active row.1 o.op = true ↔ row.1 ∈ enabled ∧ o.op ∉ excludedOf after row.1 := by
    simp only [SettingsValues.active, hs, Option.any_some, Bool.and_eq_true, decide_eq_true_eq, Bool.not_eq_true',
      decide_eq_false_iff_not, hlisted, hexcluded o.op hop]
  rw [decide_eq, hafter.managed, henabled, hcommitted, heffect]
  by_cases hon : row.1 ∈ enabled
  · by_cases hoff : o.op ∈ excludedOf after row.1
    · rw [if_neg (fun hd => (hactive.1 hd).2 hoff)]
      simp [hon, hoff]
    · rw [if_pos (hactive.2 ⟨hon, hoff⟩)]
      simp [hon, hoff]
  · rw [if_neg (fun hd => hon (hactive.1 hd).1)]
    simp [hon]

end Receipt

/-! ## Saving a draft -/

/-- A program of the broker alone. -/
def alone {α : Type} (H : Hash) (i : Nat) (ω : Broker.Oracle) (m : Broker.Action α) (w : Broker.World) :
    Interleave.Ran Broker.Op Broker.Op.Ret Broker.Exn α Broker.World :=
  m.run (fun o w => w.exec H i o ω) w

section Save
variable {H : Hash} {i : Nat} {ω : Broker.Oracle} {w : Broker.World} {name : String} {catalog : Catalog} {s : Snapshot}

/-- The snapshot of a caller's settings. -/
def shown (H : Hash) (w : Broker.World) (catalog : Catalog) (id : Nat) : Snapshot where
  callerId := id
  installation := w.db.installationUuid
  revision := revisionOf H w.db.installationUuid id (w.db.policyFor id) catalog
  policy := w.db.policyFor id
  enabled := enabledTools (w.db.policyFor id)
  catalog := catalog

theorem alone_bind {α β : Type} {m : Broker.Action α} {f : α → Broker.Action β} {a : α}
    (h : (alone H i ω m w).result = .ok a) :
    (alone H i ω (m >>= f) w).result = (alone H i ω (f a) (alone H i ω m w).world).result ∧
      (alone H i ω (m >>= f) w).world = (alone H i ω (f a) (alone H i ω m w).world).world := by
  unfold alone at h ⊢
  rw [Prog.run_bind]
  rw [h]
  exact ⟨rfl, rfl⟩

theorem requireCaller_run {caller : Broker.CallerRow} (h : w.db.callerByName name = some caller) :
    (alone H i ω (Broker.Operations.requireCaller name) w).result = .ok caller ∧
      (alone H i ω (Broker.Operations.requireCaller name) w).world.db = w.db := by
  unfold alone Broker.Operations.requireCaller Broker.perform
  rw [Prog.run_perform_bind]
  simp [Broker.World.exec, Broker.Op.run, h]

theorem snapshot_run {caller : Broker.CallerRow} (h : w.db.callerByName name = some caller) (hlive : caller.revokedAt = none) :
    (alone H i ω (snapshot H name (.ok catalog)) w).result = .ok (shown H w catalog caller.id) ∧
      (alone H i ω (snapshot H name (.ok catalog)) w).world.db = w.db := by
  unfold snapshot
  obtain ⟨hresult, hdb⟩ := requireCaller_run (H := H) (i := i) (ω := ω) h
  rw [(alone_bind hresult).1, (alone_bind hresult).2]
  generalize (alone H i ω (Broker.Operations.requireCaller name) w).world = w' at hdb ⊢
  simp [alone, hlive, Broker.perform, Broker.World.exec, Broker.Op.run, hdb, shown]

theorem snapshot_ok (h : (alone H i ω (snapshot H name (.ok catalog)) w).result = .ok s) :
    ∃ caller, w.db.callerByName name = some caller ∧ caller.revokedAt = none ∧ s = shown H w catalog caller.id := by
  cases hcaller : w.db.callerByName name with
  | none =>
    unfold snapshot alone Broker.Operations.requireCaller Broker.perform at h
    rw [Prog.run_bind, Prog.run_perform_bind] at h
    simp [Broker.World.exec, Broker.Op.run, hcaller] at h
  | some caller =>
    cases hlive : caller.revokedAt with
    | none =>
      rw [(snapshot_run hcaller hlive).1] at h
      exact ⟨caller, rfl, hlive, (Except.ok.inj h).symm⟩
    | some t =>
      unfold snapshot at h
      rw [(alone_bind (requireCaller_run hcaller).1).1] at h
      simp [alone, hlive] at h

theorem apply_ok (h : (alone H i ω (snapshot H name (.ok catalog)) w).result = .ok s) {data : Draft} {operator : String}
    {after : Policy} (hrevision : submittedRevision data = some (py (String.ofList s.revision)))
    (hedit : edit catalog data s.policy = .ok after) :
    (alone H i ω (apply H name (.ok catalog) data operator) w).result = .ok after ∧
      (alone H i ω (apply H name (.ok catalog) data operator) w).world.db.policyFor s.callerId = after := by
  obtain ⟨caller, hcaller, hlive, rfl⟩ := snapshot_ok h
  obtain ⟨hresult, hdb⟩ := @snapshot_run H i ω w name catalog caller hcaller hlive
  unfold apply
  rw [(alone_bind hresult).1, (alone_bind hresult).2]
  have hsame : ¬ submittedRevision data ≠ some (py (String.ofList (shown H w catalog caller.id).revision)) := not_not.2 hrevision
  have hcat : (shown H w catalog caller.id).catalog = catalog := rfl
  rw [if_neg hsame, hcat, hedit]
  simp only
  generalize (alone H i ω (snapshot H name (.ok catalog)) w).world = w' at hdb ⊢
  have hcaller' : w'.db.callerByName name = some caller := hdb ▸ hcaller
  obtain ⟨hresult', hdb'⟩ := requireCaller_run (H := H) (i := i) (ω := ω) hcaller'
  rw [(alone_bind hresult').1, (alone_bind hresult').2]
  generalize (alone H i ω (Broker.Operations.requireCaller name) w').world = w'' at hdb' ⊢
  have hget : w''.db.callers.get? caller.id = some caller := by
    rw [hdb', hdb]
    exact Table.get?_of_mem (List.mem_of_find?_eq_some hcaller)
  have hbinding : (w''.db.policyFor caller.id).binding = (shown H w catalog caller.id).policy.binding := by
    rw [hdb', hdb]
    rfl
  have hcas : (w''.db.compareAndSetPolicy ω.now ω.text caller.id (shown H w catalog caller.id).policy after operator) =
     (true, (w''.db.writePolicy ω.now caller.id after).appendAudit
      ⟨ω.now, "admin", "settings_changed", "ok", ω.text, none,
        [("operator", Broker.strJson operator), ("name", Broker.strJson caller.name)]⟩) := by
    simp only [Broker.Db.compareAndSetPolicy, hget, hlive, hbinding]
    simp
  simp [alone, Broker.perform, Broker.World.exec, Broker.Op.run, hcas]
  exact Broker.policyFor_writePolicy _ _ _ _

end Save

open CallerSettingsDraft in
/-- Wherever a draft is edited to, saving it where its snapshot still holds succeeds, its receipt is
accepted, and the stored policy decides what the draft shows. -/
theorem draft_commits {H : Hash} {i : Nat} {ω : Broker.Oracle} {w : Broker.World} {name operator : String}
    {catalog : Catalog} {s : Snapshot} (found : String → String → CatalogOp → Bool)
    (hops : ∀ row ∈ catalog.tools, (row.2.map CatalogOp.op).Nodup) (hknown : Known s.policy)
    (hs : (alone H i ω (snapshot H name (.ok catalog)) w).result = .ok s) {es : List Edit}
    (hes : ∀ e ∈ es, e.On catalog) :
    let d := es.foldl (edit found) (init name s)
    let saved := alone H i ω (apply H name (.ok catalog) d.payload operator) w
    ∃ after, saved.result = .ok after ∧ saved.world.db.policyFor s.callerId = after ∧
      d.accept ⟨"saved", name, after⟩ = .ok { d with baseline := d.values, phase := .saved } ∧
      ∀ row ∈ catalog.tools, ∀ o ∈ row.2, after.decide row.1 o.op =
        if d.values.active row.1 o.op then Policy.norm (some (d.values.effect row.1 o.op)) else .deny := by
  intro d saved
  obtain ⟨caller, -, -, hshown⟩ := snapshot_ok hs
  have hcatalog : s.catalog = catalog := by
    rw [hshown]
    rfl
  obtain ⟨hname, hsnapshot⟩ := frame_edits found (init name s) es
  have hof : d.Of catalog := (hcatalog ▸ Of.init hknown : (init name s).Of catalog).edits hes
  obtain ⟨after, hedit, hcommitted⟩ := hof.2.edit hops rfl s.policy
  have hrevision : submittedRevision d.payload = some (py (String.ofList s.revision)) := by
    have hfind : submittedRevision d.payload = some (py (String.ofList d.snapshot.revision)) := rfl
    rw [hfind, hsnapshot]
    rfl
  obtain ⟨hsaved, hstored⟩ := @apply_ok H i ω w name catalog s hs d.payload operator after hrevision hedit
  refine ⟨after, hsaved, hstored, ?_, fun row hrow o ho => hcommitted.decide hrow ho⟩
  have hreceipt : ¬(("saved" : String) ≠ "saved" ∨ name ≠ d.name) := by
    rw [hname]
    simp [init]
  rw [accept, if_neg hreceipt]
  simp only [hcommitted.same hof, if_true]

namespace Sample

def hash : Hash := .marked

def catalog : Catalog := ⟨[("echo", [⟨"run", .null, .null⟩, ⟨"stop", .null, .null⟩])], by decide⟩

/-- Legacy rules, one of them of a tool that is gone. -/
def policy : Policy := { tools := some [("echo", [("run", "allow")]), ("gone", [("x", "review")])] }

def world : Broker.World where
  db := (({ installationUuid := [] } : Broker.Db).addCaller 0 "ann").2.writePolicy 0 1 policy

def edits : List CallerSettingsDraft.Edit :=
  [.setTool "echo" false, .setFunction "echo" "run" true, .effect "echo" "run" "review", .bulk "echo" false,
    .setFunction "echo" "stop" true]

theorem edits_on : ∀ e ∈ edits, e.On catalog := by
  simp [edits, CallerSettingsDraft.Edit.On, catalog, effectNames]

theorem known : CallerSettingsDraft.Known policy := by
  rintro tools ⟨⟩ t ht kv hkv
  simp only [List.mem_cons, List.not_mem_nil, or_false] at ht
  rcases ht with rfl | rfl
  · rw [List.mem_singleton.1 hkv]
    decide
  · rw [List.mem_singleton.1 hkv]
    decide

end Sample

open Sample in
theorem draft_commits_sample :
    let d := edits.foldl (CallerSettingsDraft.edit fun _ _ _ => true) (.init "ann" (shown hash world catalog 1))
    let saved := alone hash 0 {} (apply hash "ann" (.ok catalog) d.payload "op") world
    ∃ after, saved.result = .ok after ∧ saved.world.db.policyFor 1 = after ∧
      d.accept ⟨"saved", "ann", after⟩ = .ok { d with baseline := d.values, phase := .saved } ∧
      ∀ row ∈ catalog.tools, ∀ o ∈ row.2, after.decide row.1 o.op =
        if d.values.active row.1 o.op then Policy.norm (some (d.values.effect row.1 o.op)) else .deny := by
  have hcaller : world.db.callerByName "ann" = some ⟨1, "ann", 0, none⟩ := rfl
  have hs : (alone hash 0 {} (snapshot hash "ann" (.ok catalog)) world).result = .ok (shown hash world catalog 1) :=
    (snapshot_run hcaller rfl).1
  have hknown : CallerSettingsDraft.Known (shown hash world catalog 1).policy := by
    have hpolicy : (shown hash world catalog 1).policy = policy := by
      show (Broker.Db.writePolicy 0 1 policy (Broker.Db.addCaller 0 "ann" { installationUuid := [] }).2).policyFor 1 = policy
      exact Broker.policyFor_writePolicy 0 1 policy _
    rw [hpolicy]
    exact known
  have hops : ∀ row ∈ catalog.tools, (row.2.map CatalogOp.op).Nodup := by decide
  exact draft_commits (fun _ _ _ => true) hops hknown hs edits_on

end Toolstack.MacApp
