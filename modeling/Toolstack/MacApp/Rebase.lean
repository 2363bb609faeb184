import Toolstack.MacApp.DraftCommit
import Toolstack.ThreeWay

/-! `canRebase` and `keepEdits` of `ToolstackKit/CallerSettingsDraft.swift`: a draft's edits are kept over a
newer snapshot. The tool flag and the excluded functions are merged apart, so that an operation can come
out active that neither side had active. -/

namespace Toolstack.MacApp

open Broker (Dict Policy Hash)
open Broker.CallerSettings
open ThreeWay (pick)

/-- The catalog lists the operation. -/
def lists (catalog : Catalog) (tool op : String) : Prop :=
  ∃ row ∈ catalog.tools, row.1 = tool ∧ ∃ o ∈ row.2, o.op = op

instance (catalog : Catalog) (tool op : String) : Decidable (lists catalog tool op) :=
  inferInstanceAs (Decidable (∃ row ∈ catalog.tools, row.1 = tool ∧ ∃ o ∈ row.2, o.op = op))

/-- The catalog has the tool. -/
def has (catalog : Catalog) (tool : String) : Prop := ∃ row ∈ catalog.tools, row.1 = tool

instance (catalog : Catalog) (tool : String) : Decidable (has catalog tool) :=
  inferInstanceAs (Decidable (∃ row ∈ catalog.tools, row.1 = tool))

namespace SettingsValues

/-- `excluded[tool]?.contains(op) ?? false`. -/
def excludes (v : SettingsValues) (tool op : String) : Bool := (v.excluded.get tool).any (op ∈ ·)

/-- `merged.excluded[tool, default: []]` with the operation in it, or out of it. -/
def setExcluded (v : SettingsValues) (tool op : String) (excluded : Bool) : SettingsValues :=
  let old := (v.excluded.get tool).getD ∅
  { v with excluded := v.excluded.set tool (if excluded then insert op old else old.erase op) }

/-- `merged.tools[tool]?[op] = effect`. -/
def setEffect (v : SettingsValues) (tool op effect : String) : SettingsValues :=
  match v.tools.get tool with
  | some rules => { v with tools := v.tools.set tool (rules.set op effect) }
  | none => v

def setEnabled (v : SettingsValues) (tool : String) (enabled : Bool) : SettingsValues :=
  { v with enabled := if enabled then insert tool v.enabled else v.enabled.erase tool }

end SettingsValues

namespace CallerSettingsDraft

def canRebase (d : CallerSettingsDraft) (latestName : String) (latest : Snapshot) : Bool :=
  latestName = d.name && latest.callerId = d.snapshot.callerId &&
    latest.installation = d.snapshot.installation &&
    d.snapshot.catalog.tools.all fun row => (latest.catalog.tools.get row.1).any fun current =>
      (row.2.map CatalogOp.op).toFinset ⊆ (current.map CatalogOp.op).toFinset

def mergeEnabled (d : CallerSettingsDraft) (tool : String) (merged : SettingsValues) : SettingsValues :=
  if decide (tool ∈ d.baseline.enabled) ≠ decide (tool ∈ d.values.enabled) then
    merged.setEnabled tool (tool ∈ d.values.enabled)
  else merged

def mergeEffect (d : CallerSettingsDraft) (tool op : String) (merged : SettingsValues) : SettingsValues :=
  if d.baseline.effect tool op ≠ d.values.effect tool op then
    merged.setEffect tool op (d.values.effect tool op)
  else merged

def mergeExcluded (d : CallerSettingsDraft) (tool op : String) (merged : SettingsValues) : SettingsValues :=
  if d.baseline.excludes tool op ≠ d.values.excludes tool op then
    merged.setExcluded tool op (d.values.excludes tool op)
  else merged

def mergeOp (d : CallerSettingsDraft) (tool : String) (merged : SettingsValues) (op : String) : SettingsValues :=
  d.mergeExcluded tool op (d.mergeEffect tool op merged)

def mergeTool (d : CallerSettingsDraft) (merged : SettingsValues) (row : String × List CatalogOp) : SettingsValues :=
  (row.2.map CatalogOp.op).foldl (d.mergeOp row.1) (d.mergeEnabled row.1 merged)

/-- `merged` of `keepEdits` when its loop ends. -/
def merged (d : CallerSettingsDraft) (latest : Snapshot) : SettingsValues :=
  d.snapshot.catalog.tools.foldl d.mergeTool (.init latest)

def keepEdits (d : CallerSettingsDraft) (latestName : String) (latest : Snapshot) : Bool × CallerSettingsDraft :=
  if d.canRebase latestName latest then
    (true, { d with
      name := latestName
      snapshot := latest
      baseline := .init latest
      values := d.merged latest
      phase := .editing })
  else (false, d)

end CallerSettingsDraft

namespace SettingsValues
variable (v : SettingsValues) (tool op tool' op' : String)

theorem active_eq : v.active tool op = (decide (tool ∈ v.enabled) && !v.excludes tool op) := rfl

theorem excludes_set (s : Finset String) : excludes { v with excluded := v.excluded.set tool s } tool' op' =
    if tool' = tool then decide (op' ∈ s) else v.excludes tool' op' := by
  unfold excludes
  rw [Dict.get_set]
  split_ifs
  · rfl
  · rfl

theorem mem_excluded : op ∈ (v.excluded.get tool).getD ∅ ↔ v.excludes tool op = true := by
  unfold excludes
  cases v.excluded.get tool with
  | none => simp
  | some s => simp

theorem excludes_setExcluded (excluded : Bool) : (v.setExcluded tool op excluded).excludes tool' op' =
    if tool' = tool ∧ op' = op then excluded else v.excludes tool' op' := by
  unfold setExcluded
  rw [excludes_set]
  by_cases htool : tool' = tool
  · subst htool
    have hmem := v.mem_excluded tool' op'
    rw [if_pos rfl]
    by_cases hop : op' = op
    · cases excluded with
      | true => simp [hop]
      | false => simp [hop]
    · cases excluded with
      | true => simp [hop, hmem]
      | false => simp [hop, hmem]
  · rw [if_neg htool, if_neg fun h => htool h.1]

theorem effect_setEffect (effect : String) (h : (v.tools.get tool).isSome) :
    (v.setEffect tool op effect).effect tool' op' =
      if tool' = tool ∧ op' = op then effect else v.effect tool' op' := by
  obtain ⟨rules, hrules⟩ := Option.isSome_iff_exists.1 h
  rw [setEffect, hrules]
  simp only [SettingsValues.effect]
  rw [Dict.get_set]
  by_cases htool : tool' = tool
  · subst htool
    rw [if_pos rfl, hrules, Option.bind_some, Option.bind_some, Dict.get_set]
    by_cases hop : op' = op
    · simp [hop]
    · simp [hop]
  · rw [if_neg htool, if_neg fun h => htool h.1]

theorem tools_setEffect (effect : String) (h : (v.tools.get tool').isSome) :
    ((v.setEffect tool op effect).tools.get tool').isSome := by
  unfold setEffect
  split
  · simp only [Dict.get_set]
    split_ifs
    · rfl
    · exact h
  · exact h

@[simp] theorem enabled_setEffect (effect : String) : (v.setEffect tool op effect).enabled = v.enabled := by
  unfold setEffect
  split
  · rfl
  · rfl

@[simp] theorem excluded_setEffect (effect : String) : (v.setEffect tool op effect).excluded = v.excluded := by
  unfold setEffect
  split
  · rfl
  · rfl

theorem enabled_setEnabled (enabled : Bool) : decide (tool' ∈ (v.setEnabled tool enabled).enabled) =
    if tool' = tool then enabled else decide (tool' ∈ v.enabled) := by
  unfold setEnabled
  by_cases htool : tool' = tool
  · cases enabled with
    | true => simp [htool]
    | false => simp [htool]
  · cases enabled with
    | true => simp [htool]
    | false => simp [htool]

end SettingsValues

/-! ## What is merged -/

namespace CallerSettingsDraft
variable (d : CallerSettingsDraft) (v : SettingsValues)

theorem mergeEffect_frame (tool op : String) :
    (d.mergeEffect tool op v).enabled = v.enabled ∧ (d.mergeEffect tool op v).excluded = v.excluded := by
  unfold mergeEffect
  split_ifs
  · exact ⟨SettingsValues.enabled_setEffect .., SettingsValues.excluded_setEffect ..⟩
  · exact ⟨rfl, rfl⟩

theorem mergeExcluded_frame (tool op : String) :
    (d.mergeExcluded tool op v).enabled = v.enabled ∧ (d.mergeExcluded tool op v).tools = v.tools := by
  unfold mergeExcluded
  split_ifs
  · exact ⟨rfl, rfl⟩
  · exact ⟨rfl, rfl⟩

theorem mergeEnabled_frame (tool : String) :
    (d.mergeEnabled tool v).excluded = v.excluded ∧ (d.mergeEnabled tool v).tools = v.tools := by
  unfold mergeEnabled
  split_ifs
  · exact ⟨rfl, rfl⟩
  · exact ⟨rfl, rfl⟩

theorem enabled_mergeEnabled (tool tool' : String) :
    decide (tool' ∈ (d.mergeEnabled tool v).enabled) = pick (tool = tool') (decide (tool' ∈ d.baseline.enabled))
      (decide (tool' ∈ d.values.enabled)) (decide (tool' ∈ v.enabled)) := by
  unfold mergeEnabled
  by_cases htool : tool = tool'
  · subst htool
    rw [ThreeWay.pick_of rfl]
    split_ifs
    · rw [SettingsValues.enabled_setEnabled, if_pos rfl]
    · rfl
  · rw [ThreeWay.pick_of_not htool]
    split_ifs
    · rw [SettingsValues.enabled_setEnabled, if_neg (Ne.symm htool)]
    · rfl

theorem excludes_mergeExcluded (tool op tool' op' : String) :
    (d.mergeExcluded tool op v).excludes tool' op' = pick (tool = tool' ∧ op = op')
      (d.baseline.excludes tool' op') (d.values.excludes tool' op') (v.excludes tool' op') := by
  unfold mergeExcluded
  by_cases hkey : tool = tool' ∧ op = op'
  · obtain ⟨rfl, rfl⟩ := hkey
    rw [ThreeWay.pick_of ⟨rfl, rfl⟩]
    split_ifs
    · rw [SettingsValues.excludes_setExcluded, if_pos ⟨rfl, rfl⟩]
    · rfl
  · rw [ThreeWay.pick_of_not hkey]
    split_ifs
    · rw [SettingsValues.excludes_setExcluded, if_neg fun h => hkey ⟨h.1.symm, h.2.symm⟩]
    · rfl

theorem effect_mergeEffect (tool op tool' op' : String) (h : (v.tools.get tool).isSome) :
    (d.mergeEffect tool op v).effect tool' op' = pick (tool = tool' ∧ op = op')
      (d.baseline.effect tool' op') (d.values.effect tool' op') (v.effect tool' op') := by
  unfold mergeEffect
  by_cases hkey : tool = tool' ∧ op = op'
  · obtain ⟨rfl, rfl⟩ := hkey
    rw [ThreeWay.pick_of ⟨rfl, rfl⟩]
    split_ifs
    · rw [SettingsValues.effect_setEffect _ _ _ _ _ _ h, if_pos ⟨rfl, rfl⟩]
    · rfl
  · rw [ThreeWay.pick_of_not hkey]
    split_ifs
    · rw [SettingsValues.effect_setEffect _ _ _ _ _ _ h, if_neg fun h => hkey ⟨h.1.symm, h.2.symm⟩]
    · rfl

/-- The tools whose effects can be set. -/
def Holds (catalog : Catalog) (v : SettingsValues) : Prop := ∀ row ∈ catalog.tools, (v.tools.get row.1).isSome

theorem Holds.mergeOp {catalog : Catalog} {v : SettingsValues} (h : Holds catalog v) (tool op : String) :
    Holds catalog (d.mergeOp tool v op) := by
  intro row hrow
  rw [CallerSettingsDraft.mergeOp, (d.mergeExcluded_frame _ tool op).2, mergeEffect]
  split_ifs
  · exact SettingsValues.tools_setEffect _ _ _ _ _ (h row hrow)
  · exact h row hrow

theorem Holds.mergeEnabled {catalog : Catalog} {v : SettingsValues} (h : Holds catalog v) (tool : String) :
    Holds catalog (d.mergeEnabled tool v) := by
  intro row hrow
  rw [(d.mergeEnabled_frame v tool).2]
  exact h row hrow

/-! A draft is read at its tools, and twice at its operations. -/

def on (v : SettingsValues) (tool : String) : Bool := tool ∈ v.enabled

def shuts (v : SettingsValues) (key : String × String) : Bool := v.excludes key.1 key.2

def rule (v : SettingsValues) (key : String × String) : String := v.effect key.1 key.2

/-! ### One tool -/

theorem enabled_mergeTool (row : String × List CatalogOp) : (d.mergeTool v row).enabled = (d.mergeEnabled row.1 v).enabled := by
  unfold mergeTool
  generalize d.mergeEnabled row.1 v = v
  induction row.2.map CatalogOp.op generalizing v with
  | nil => rfl
  | cons op ops ih => rw [List.foldl_cons, ih, mergeOp, (d.mergeExcluded_frame _ _ _).1, (d.mergeEffect_frame _ _ _).1]

/-- The operation is one of the row. -/
def InRow (row : String × List CatalogOp) (key : String × String) : Prop :=
  ∃ op ∈ row.2.map CatalogOp.op, row.1 = key.1 ∧ op = key.2

instance (row : String × List CatalogOp) (key : String × String) : Decidable (InRow row key) :=
  inferInstanceAs (Decidable (∃ op ∈ row.2.map CatalogOp.op, row.1 = key.1 ∧ op = key.2))

theorem excludes_mergeTool (row : String × List CatalogOp) (key : String × String) :
    (d.mergeTool v row).excludes key.1 key.2 =
      pick (InRow row key) (d.baseline.excludes key.1 key.2) (d.values.excludes key.1 key.2) (v.excludes key.1 key.2) := by
  have hstep : ∀ op ∈ row.2.map CatalogOp.op, ∀ v : SettingsValues, True → ∀ key : String × String,
      (d.mergeOp row.1 v op).excludes key.1 key.2 = pick (row.1 = key.1 ∧ op = key.2)
        (d.baseline.excludes key.1 key.2) (d.values.excludes key.1 key.2) (v.excludes key.1 key.2) := by
    intro op _ v _ key
    rw [mergeOp, excludes_mergeExcluded]
    simp only [SettingsValues.excludes, (d.mergeEffect_frame v row.1 op).2]
  have hrun := (ThreeWay.read_foldl shuts (fun op key => row.1 = key.1 ∧ op = key.2) d.baseline d.values
    (fun _ => True) (fun _ _ _ _ => trivial) hstep (s := d.mergeEnabled row.1 v) trivial key).2
  have hframe : (d.mergeEnabled row.1 v).excludes key.1 key.2 = v.excludes key.1 key.2 := by
    simp only [SettingsValues.excludes, (d.mergeEnabled_frame v row.1).1]
  rw [mergeTool, ← hframe]
  exact hrun

variable {d v} in
theorem effect_mergeTool {catalog : Catalog} (h : Holds catalog v) {row : String × List CatalogOp}
    (hrow : row ∈ catalog.tools) (key : String × String) :
    Holds catalog (d.mergeTool v row) ∧ (d.mergeTool v row).effect key.1 key.2 =
      pick (InRow row key) (d.baseline.effect key.1 key.2) (d.values.effect key.1 key.2) (v.effect key.1 key.2) := by
  have hstep : ∀ op ∈ row.2.map CatalogOp.op, ∀ v : SettingsValues, Holds catalog v → ∀ key : String × String,
      (d.mergeOp row.1 v op).effect key.1 key.2 = pick (row.1 = key.1 ∧ op = key.2)
        (d.baseline.effect key.1 key.2) (d.values.effect key.1 key.2) (v.effect key.1 key.2) := by
    intro op _ v hv key
    rw [← d.effect_mergeEffect v row.1 op key.1 key.2 (hv row hrow), mergeOp]
    simp only [SettingsValues.effect, (d.mergeExcluded_frame _ row.1 op).2]
  have hrun := ThreeWay.read_foldl rule (fun op key => row.1 = key.1 ∧ op = key.2) d.baseline d.values
    (Holds catalog) (fun op _ v hv => Holds.mergeOp d hv row.1 op) hstep (Holds.mergeEnabled d h row.1) key
  have hframe : (d.mergeEnabled row.1 v).effect key.1 key.2 = v.effect key.1 key.2 := by
    simp only [SettingsValues.effect, (d.mergeEnabled_frame v row.1).2]
  refine ⟨hrun.1, ?_⟩
  rw [mergeTool, ← hframe]
  exact hrun.2

/-! ### All of them -/

theorem inRow_iff (catalog : Catalog) (tool op : String) :
    (∃ row ∈ catalog.tools, InRow row (tool, op)) ↔ lists catalog tool op := by
  constructor
  · rintro ⟨row, hrow, op', hop, htool, rfl⟩
    obtain ⟨o, ho, rfl⟩ := List.mem_map.1 hop
    exact ⟨row, hrow, htool, o, ho, rfl⟩
  · rintro ⟨row, hrow, htool, o, ho, rfl⟩
    exact ⟨row, hrow, o.op, List.mem_map_of_mem ho, htool, rfl⟩

theorem enabled_merged (latest : Snapshot) (tool : String) :
    decide (tool ∈ (d.merged latest).enabled) = pick (has d.snapshot.catalog tool) (decide (tool ∈ d.baseline.enabled))
      (decide (tool ∈ d.values.enabled)) (decide (tool ∈ (SettingsValues.init latest).enabled)) := by
  have hstep : ∀ row ∈ d.snapshot.catalog.tools, ∀ v : SettingsValues, True → ∀ tool : String,
      decide (tool ∈ (d.mergeTool v row).enabled) = pick (row.1 = tool) (decide (tool ∈ d.baseline.enabled))
        (decide (tool ∈ d.values.enabled)) (decide (tool ∈ v.enabled)) := by
    intro row _ v _ tool
    simp only [enabled_mergeTool, enabled_mergeEnabled]
  exact (ThreeWay.read_foldl on (fun (row : String × List CatalogOp) tool => row.1 = tool) d.baseline d.values
    (fun _ => True) (fun _ _ _ _ => trivial) hstep trivial tool).2

theorem excludes_merged (latest : Snapshot) (tool op : String) :
    (d.merged latest).excludes tool op = pick (lists d.snapshot.catalog tool op) (d.baseline.excludes tool op)
      (d.values.excludes tool op) ((SettingsValues.init latest).excludes tool op) := by
  rw [← ThreeWay.pick_congr (inRow_iff d.snapshot.catalog tool op)]
  exact (ThreeWay.read_foldl shuts InRow d.baseline d.values (fun _ => True) (fun _ _ _ _ => trivial)
    (fun row _ v _ key => d.excludes_mergeTool v row key) trivial (tool, op)).2

variable {d} in
theorem effect_merged {latest : Snapshot} (h : Holds d.snapshot.catalog (.init latest)) (tool op : String) :
    (d.merged latest).effect tool op = pick (lists d.snapshot.catalog tool op) (d.baseline.effect tool op)
      (d.values.effect tool op) ((SettingsValues.init latest).effect tool op) := by
  rw [← ThreeWay.pick_congr (inRow_iff d.snapshot.catalog tool op)]
  exact (ThreeWay.read_foldl rule InRow d.baseline d.values (Holds d.snapshot.catalog)
    (fun row hrow v hv => (effect_mergeTool hv hrow ("", "")).1) (fun row hrow v hv key => (effect_mergeTool hv hrow key).2) h (tool, op)).2

/-- A draft can be rebased where the newer snapshot has its tools, so that every effect has a place. -/
theorem Holds.of_canRebase {latestName : String} {latest : Snapshot} (h : d.canRebase latestName latest = true) :
    Holds d.snapshot.catalog (.init latest) := by
  intro row hrow
  simp only [canRebase, Bool.and_eq_true] at h
  have hcurrent := List.all_eq_true.1 h.2 row hrow
  obtain ⟨ops, hops, -⟩ := (Option.any_eq_true _ _).1 hcurrent
  have hmem : (row.1, ops) ∈ latest.catalog.tools := Mapping.mem_of_get hops
  rw [SettingsValues.init, Dict.get_rows latest.catalog.nodup _ hmem]
  rfl

end CallerSettingsDraft

/-! ## What a draft knows -/

/-- The values speak of the catalog's operations alone. -/
structure Within (catalog : Catalog) (v : SettingsValues) : Prop where
  excludes : ∀ tool op, v.excludes tool op = true → lists catalog tool op
  effect : ∀ tool op, ¬lists catalog tool op → v.effect tool op = "deny"

section
variable {catalog : Catalog} {v : SettingsValues}

theorem excludes_init (s : Snapshot) (tool op : String) (h : (SettingsValues.init s).excludes tool op = true) :
    lists s.catalog tool op := by
  obtain ⟨ops, hops, hop⟩ := (Option.any_eq_true _ _).1 h
  obtain ⟨row, hrow, heq⟩ := List.mem_map.1 (Mapping.mem_of_get hops)
  obtain ⟨rfl, rfl⟩ := Prod.mk.injEq .. ▸ heq
  obtain ⟨o, ho, rfl⟩ := List.mem_map.1 (List.mem_toFinset.1 (Finset.mem_inter.1 (of_decide_eq_true hop)).2)
  exact ⟨row, hrow, rfl, o, ho, rfl⟩

theorem effect_init (s : Snapshot) (tool op : String) (h : ¬lists s.catalog tool op) :
    (SettingsValues.init s).effect tool op = "deny" := by
  have hnone : ((SettingsValues.init s).tools.get tool).bind (Dict.get · op) = none := by
    rw [Option.bind_eq_none_iff]
    intro rules hrules
    obtain ⟨row, hrow, heq⟩ := List.mem_map.1 (Mapping.mem_of_get hrules)
    obtain ⟨rfl, rfl⟩ := Prod.mk.injEq .. ▸ heq
    by_contra hsome
    obtain ⟨e, he⟩ := Option.ne_none_iff_exists'.1 hsome
    obtain ⟨o, ho, heq⟩ := List.mem_map.1 (Mapping.mem_of_get he)
    exact h ⟨row, hrow, rfl, o, ho, congrArg Prod.fst heq⟩
  rw [SettingsValues.effect, hnone]
  rfl

theorem Within.init (s : Snapshot) : Within s.catalog (.init s) := ⟨excludes_init s, effect_init s⟩

theorem Within.withExcluded (h : Within catalog v) {tool : String} {excluded : Finset String}
    (hset : ∀ op ∈ excluded, lists catalog tool op) :
    Within catalog { v with excluded := v.excluded.set tool excluded } := by
  refine ⟨fun tool' op hop => ?_, h.effect⟩
  rw [SettingsValues.excludes_set] at hop
  split_ifs at hop with htool
  · exact htool ▸ hset op (of_decide_eq_true hop)
  · exact h.excludes tool' op hop

theorem Within.withEnabled (h : Within catalog v) (enabled : Finset String) : Within catalog { v with enabled } :=
  ⟨h.excludes, h.effect⟩

end

namespace CallerSettingsDraft

/-- The values are the catalog's, and the draft is still the one that was taken. -/
structure Stays (d₀ d : CallerSettingsDraft) : Prop where
  within : Within d₀.snapshot.catalog d.values
  snapshot : d.snapshot = d₀.snapshot
  baseline : d.baseline = d₀.baseline

variable {found : String → String → CatalogOp → Bool} {d₀ d : CallerSettingsDraft}

theorem lists_ops {tool : String} {o : CatalogOp} (h : o ∈ d.ops tool) : lists d.snapshot.catalog tool o.op := by
  unfold ops at h
  cases hget : d.snapshot.catalog.tools.get tool with
  | none =>
    rw [hget] at h
    exact absurd h List.not_mem_nil
  | some rows =>
    rw [hget] at h
    exact ⟨(tool, rows), Mapping.mem_of_get hget, rfl, o, h, rfl⟩

theorem Stays.setTool (h : Stays d₀ d) (tool : String) (enabled : Bool) : Stays d₀ (d.setTool tool enabled) := by
  unfold CallerSettingsDraft.setTool
  split_ifs
  · refine ⟨?_, h.snapshot, h.baseline⟩
    exact (h.within.withEnabled _).withExcluded fun op hop => absurd hop (Finset.notMem_empty op)
  · exact ⟨h.within.withEnabled _, h.snapshot, h.baseline⟩

theorem Stays.wake (h : Stays d₀ d) (tool : String) (enabled : Bool) :
    Within d₀.snapshot.catalog (d.wake tool enabled) := by
  unfold CallerSettingsDraft.wake
  split_ifs
  · refine (h.within.withEnabled _).withExcluded fun op hop => ?_
    obtain ⟨o, ho, rfl⟩ := List.mem_map.1 (List.mem_toFinset.1 hop)
    exact h.snapshot ▸ lists_ops ho
  · exact h.within

theorem Stays.setFunction (h : Stays d₀ d) {tool op : String} (hop : lists d₀.snapshot.catalog tool op) (enabled : Bool) :
    Stays d₀ (d.setFunction tool op enabled) := by
  have hwake := h.wake tool enabled
  refine ⟨hwake.withExcluded fun op' hop' => ?_, h.snapshot, h.baseline⟩
  split_ifs at hop'
  · exact hwake.excludes tool op' (((d.wake tool enabled).mem_excluded tool op').1 (Finset.mem_of_mem_erase hop'))
  · rcases Finset.mem_insert.1 hop' with rfl | hold
    · exact hop
    · exact hwake.excludes tool op' (((d.wake tool enabled).mem_excluded tool op').1 hold)

theorem Stays.bulk (h : Stays d₀ d) (tool : String) (enabled : Bool) : Stays d₀ (d.bulk found tool enabled) := by
  have hvisible : ∀ o ∈ d.matchesTool found tool, lists d₀.snapshot.catalog tool o.op := fun o ho =>
    h.snapshot ▸ lists_ops (List.mem_of_mem_filter ho)
  unfold CallerSettingsDraft.bulk
  generalize d.matchesTool found tool = rows at hvisible
  induction rows generalizing d with
  | nil => exact h
  | cons o rows ih =>
    exact ih (h.setFunction (hvisible o List.mem_cons_self) enabled) fun o' ho' =>
      hvisible o' (List.mem_cons_of_mem _ ho')

theorem Stays.setEffect (h : Stays d₀ d) {tool op : String} (hop : lists d₀.snapshot.catalog tool op) (effect : String) :
    Stays d₀ (d.setEffect tool op effect) := by
  unfold CallerSettingsDraft.setEffect
  split
  next rules hrules =>
    refine ⟨⟨h.within.excludes, fun tool' op' hunseen => ?_⟩, h.snapshot, h.baseline⟩
    have hsome : (d.values.tools.get tool).isSome = true := by
      rw [hrules]
      rfl
    have hset := d.values.effect_setEffect tool op tool' op' effect hsome
    rw [SettingsValues.setEffect, hrules] at hset
    rw [hset, if_neg fun hkey : tool' = tool ∧ op' = op => hunseen (hkey.1 ▸ hkey.2 ▸ hop)]
    exact h.within.effect tool' op' hunseen
  · exact h

/-- One edit of the catalog's rows. -/
theorem Stays.edit (h : Stays d₀ d) {e : Edit} (he : e.On d₀.snapshot.catalog) : Stays d₀ (d.edit found e) := by
  have hlists : ∀ {tool op : String}, (∃ row ∈ d₀.snapshot.catalog.tools, row.1 = tool ∧ op ∈ row.2.map CatalogOp.op) →
      lists d₀.snapshot.catalog tool op := by
    rintro tool op ⟨row, hrow, htool, hop⟩
    exact ⟨row, hrow, htool, List.mem_map.1 hop⟩
  cases e with
  | setTool tool enabled => exact h.setTool tool enabled
  | setFunction tool op enabled => exact h.setFunction (hlists he) enabled
  | bulk tool enabled => exact h.bulk tool enabled
  | effect tool op e => exact h.setEffect (hlists he.1) e
  | view search enabledOnly needsReview => exact ⟨h.within, h.snapshot, h.baseline⟩

theorem Stays.edits (h : Stays d₀ d) {es : List Edit} (hes : ∀ e ∈ es, e.On d₀.snapshot.catalog) :
    Stays d₀ (es.foldl (CallerSettingsDraft.edit found) d) := by
  induction es generalizing d with
  | nil => exact h
  | cons e es ih =>
    exact ih (h.edit (hes e List.mem_cons_self)) fun e' he' => hes e' (List.mem_cons_of_mem _ he')

end CallerSettingsDraft

/-! ## What a rebase activates -/

/-- A rebase activates nothing that `inDraft` and the newer snapshot have not, keeps the effects that were
changed, and is not made where it may not be. -/
structure Rebases (inDraft : String → String → Prop) (d : CallerSettingsDraft) (latestName : String) (latest : Snapshot) :
    Prop where
  refused : d.canRebase latestName latest = false → d.keepEdits latestName latest = (false, d)
  active : d.canRebase latestName latest = true → ∀ tool op, lists latest.catalog tool op →
    (d.keepEdits latestName latest).2.values.active tool op = true →
      (SettingsValues.init latest).active tool op = true ∨ inDraft tool op
  effect : d.canRebase latestName latest = true → ∀ tool op, lists latest.catalog tool op →
    (d.keepEdits latestName latest).2.values.effect tool op =
      if d.baseline.effect tool op ≠ d.values.effect tool op then d.values.effect tool op
      else (SettingsValues.init latest).effect tool op

/-- The base has an operation off twice, and the draft and the newer snapshot each lifted the other one. -/
def Crossed (base draft latest : SettingsValues) (tool op : String) : Prop :=
  tool ∉ base.enabled ∧ base.excludes tool op = true ∧
    ((tool ∉ draft.enabled ∧ draft.excludes tool op = false ∧ tool ∈ latest.enabled ∧ latest.excludes tool op = true) ∨
      (tool ∈ draft.enabled ∧ draft.excludes tool op = true ∧ tool ∉ latest.enabled ∧ latest.excludes tool op = false))

/-- The draft enabled a tool that the newer snapshot has disabled, with an operation in it that is not excluded. -/
def Surfaced (base draft latest : SettingsValues) (tool op : String) : Prop :=
  tool ∉ base.enabled ∧ tool ∈ draft.enabled ∧ tool ∉ latest.enabled ∧ latest.excludes tool op = false

namespace CallerSettingsDraft
variable {d₀ d : CallerSettingsDraft} {latestName : String} {latest : Snapshot} {tool op : String}

theorem keepEdits_of (h : d.canRebase latestName latest = true) :
    (d.keepEdits latestName latest).2.values = d.merged latest := by
  rw [keepEdits, if_pos h]

/-- An operation that the draft has: active after the merge, and in neither. -/
theorem crossed_iff (h : lists d.snapshot.catalog tool op) :
    (d.merged latest).active tool op = true ∧ ¬(SettingsValues.init latest).active tool op = true ∧
      ¬d.values.active tool op = true ↔ Crossed d.baseline d.values (.init latest) tool op := by
  have hhas : has d.snapshot.catalog tool := by
    obtain ⟨row, hrow, htool, -⟩ := h
    exact ⟨row, hrow, htool⟩
  have hiff := ThreeWay.opens_iff (decide (tool ∈ d.baseline.enabled)) (d.baseline.excludes tool op)
    (decide (tool ∈ d.values.enabled)) (d.values.excludes tool op)
    (decide (tool ∈ (SettingsValues.init latest).enabled)) ((SettingsValues.init latest).excludes tool op)
  rw [SettingsValues.active_eq, SettingsValues.active_eq, SettingsValues.active_eq, enabled_merged, excludes_merged,
    ThreeWay.pick_congr (iff_true_intro hhas), ThreeWay.pick_congr (iff_true_intro h), hiff]
  simp only [Crossed, decide_eq_true_eq, decide_eq_false_iff_not]

/-- An operation that the draft has never seen. -/
theorem surfaced_iff (h : ¬lists d.snapshot.catalog tool op) :
    (d.merged latest).active tool op = true ∧ ¬(SettingsValues.init latest).active tool op = true ↔
      has d.snapshot.catalog tool ∧ Surfaced d.baseline d.values (.init latest) tool op := by
  have hiff := ThreeWay.surfaces_iff (has d.snapshot.catalog tool) (decide (tool ∈ d.baseline.enabled))
    (decide (tool ∈ d.values.enabled)) (decide (tool ∈ (SettingsValues.init latest).enabled))
    ((SettingsValues.init latest).excludes tool op)
  rw [SettingsValues.active_eq, SettingsValues.active_eq, enabled_merged, excludes_merged, ThreeWay.pick_of_not h, hiff]
  simp only [Surfaced, decide_eq_true_eq, decide_eq_false_iff_not]

/-- What the draft enables of a tool, it enables of every operation it has not seen. -/
theorem Stays.active_of_surfaced (h : Stays d₀ d) (hunseen : ¬lists d₀.snapshot.catalog tool op) {base latest : SettingsValues}
    (hsurfaced : Surfaced base d.values latest tool op) : d.values.active tool op = true := by
  have hopen : d.values.excludes tool op = false := by
    by_contra hexcluded
    exact hunseen (h.within.excludes tool op (by simpa using hexcluded))
  rw [SettingsValues.active_eq, hopen, decide_eq_true hsurfaced.2.1]
  rfl

theorem Stays.effect_merged (h : Stays d₀ d) (hbase : Within d₀.snapshot.catalog d.baseline)
    (hrebase : d.canRebase latestName latest = true) (tool op : String) :
    (d.merged latest).effect tool op =
      if d.baseline.effect tool op ≠ d.values.effect tool op then d.values.effect tool op
      else (SettingsValues.init latest).effect tool op := by
  rw [CallerSettingsDraft.effect_merged (Holds.of_canRebase d hrebase)]
  by_cases hseen : lists d.snapshot.catalog tool op
  · exact ThreeWay.pick_of hseen ..
  · have hunseen : ¬lists d₀.snapshot.catalog tool op := h.snapshot ▸ hseen
    have hsame : ¬d.baseline.effect tool op ≠ d.values.effect tool op := by
      rw [hbase.effect tool op hunseen, h.within.effect tool op hunseen]
      exact not_not.2 rfl
    rw [ThreeWay.pick_of_not hseen, if_neg hsame]

theorem Stays.rebases_iff (h : Stays d₀ d) (hbase : Within d₀.snapshot.catalog d.baseline) (inDraft : String → String → Prop) :
    Rebases inDraft d latestName latest ↔ (d.canRebase latestName latest = true → ∀ tool op, lists latest.catalog tool op →
      ¬((d.merged latest).active tool op = true ∧ ¬(SettingsValues.init latest).active tool op = true ∧ ¬inDraft tool op)) := by
  constructor
  · rintro hrebases hrebase tool op hlisted ⟨hactive, hlatest, hdraft⟩
    rw [← keepEdits_of hrebase] at hactive
    rcases hrebases.active hrebase tool op hlisted hactive with h' | h'
    · exact hlatest h'
    · exact hdraft h'
  · intro hnone
    refine ⟨fun hrefused => ?_, fun hrebase tool op hlisted hactive => ?_, fun hrebase tool op _ => ?_⟩
    · rw [keepEdits, if_neg (by simp [hrefused])]
    · rw [keepEdits_of hrebase] at hactive
      by_contra hneither
      rw [not_or] at hneither
      exact hnone hrebase tool op hlisted ⟨hactive, hneither⟩
    · rw [keepEdits_of hrebase]
      exact h.effect_merged hbase hrebase tool op

theorem Stays.activates_iff (h : Stays d₀ d) (hbase : Within d₀.snapshot.catalog d.baseline) :
    (d.merged latest).active tool op = true ∧ ¬(SettingsValues.init latest).active tool op = true ∧
      ¬d.values.active tool op = true ↔ Crossed d.baseline d.values (.init latest) tool op := by
  by_cases hseen : lists d₀.snapshot.catalog tool op
  · exact crossed_iff (h.snapshot ▸ hseen)
  · constructor
    · rintro ⟨hactive, hlatest, hdraft⟩
      have hunseen : ¬lists d.snapshot.catalog tool op := h.snapshot ▸ hseen
      exact absurd (h.active_of_surfaced hseen ((surfaced_iff hunseen).1 ⟨hactive, hlatest⟩).2) hdraft
    · intro hcrossed
      exact absurd (hbase.excludes tool op hcrossed.2.1) hseen

theorem Stays.activates_unseen_iff (h : Stays d₀ d) (hbase : Within d₀.snapshot.catalog d.baseline) :
    (d.merged latest).active tool op = true ∧ ¬(SettingsValues.init latest).active tool op = true ∧
        ¬(lists d₀.snapshot.catalog tool op ∧ d.values.active tool op = true) ↔
      Crossed d.baseline d.values (.init latest) tool op ∨ (¬lists d₀.snapshot.catalog tool op ∧
        has d₀.snapshot.catalog tool ∧ Surfaced d.baseline d.values (.init latest) tool op) := by
  by_cases hseen : lists d₀.snapshot.catalog tool op
  · simp only [hseen, true_and, not_true_eq_false, false_and, or_false]
    exact h.activates_iff hbase
  · have hunseen : ¬lists d.snapshot.catalog tool op := h.snapshot ▸ hseen
    have hcrossed : ¬Crossed d.baseline d.values (.init latest) tool op := fun hc =>
      hseen (hbase.excludes tool op hc.2.1)
    simp only [hseen, hcrossed, false_and, not_false_eq_true, and_true, true_and, false_or]
    rw [surfaced_iff hunseen, h.snapshot]

end CallerSettingsDraft

open CallerSettingsDraft in
/-- A rebase activates nothing new exactly where no operation that was off twice had one lock lifted on each
side; where an operation that the draft never saw counts as not active there, also no tool that the draft
enables may have such an operation. -/
theorem keepEdits_rebases (found : String → String → CatalogOp → Bool) (name : String) (s : Snapshot) {es : List Edit}
    (hes : ∀ e ∈ es, e.On s.catalog) (latestName : String) (latest : Snapshot) :
    let d := es.foldl (edit found) (init name s)
    (Rebases (fun tool op => d.values.active tool op = true) d latestName latest ↔
      (d.canRebase latestName latest = true → ∀ tool op, lists latest.catalog tool op →
        ¬Crossed (.init s) d.values (.init latest) tool op)) ∧
    (Rebases (fun tool op => lists s.catalog tool op ∧ d.values.active tool op = true) d latestName latest ↔
      (d.canRebase latestName latest = true → ∀ tool op, lists latest.catalog tool op →
        ¬(Crossed (.init s) d.values (.init latest) tool op ∨ (¬lists s.catalog tool op ∧ has s.catalog tool ∧
          Surfaced (.init s) d.values (.init latest) tool op)))) := by
  intro d
  have hstart : Stays (init name s) (init name s) := ⟨Within.init s, rfl, rfl⟩
  have h : Stays (init name s) d := hstart.edits hes
  have hbaseline : d.baseline = .init s := h.baseline
  have hbase : Within (init name s).snapshot.catalog d.baseline := hbaseline ▸ Within.init s
  rw [← hbaseline]
  constructor
  · simp only [h.rebases_iff hbase, h.activates_iff hbase]
  · have hunseen := fun tool op => @Stays.activates_unseen_iff (init name s) d latest tool op h hbase
    simp only [h.rebases_iff hbase]
    exact imp_congr_right fun _ => forall_congr' fun tool => forall_congr' fun op => imp_congr_right fun _ =>
      not_congr (hunseen tool op)

namespace Sample

def mail : Catalog := ⟨[("mail", [⟨"send", .null, .null⟩])], by decide⟩

/-- The tool is off, and so is its function. -/
def offTwice : Snapshot :=
  ⟨1, [], [], { enabled := some [], disabledFunctions := some [("mail", ["send"])] }, [], mail⟩

/-- Another operator has enabled the tool since. -/
def toolOn : Snapshot :=
  { offTwice with policy := { offTwice.policy with enabled := some ["mail"] }, enabled := ["mail"] }

def onAndOff : List CallerSettingsDraft.Edit := [.setTool "mail" true, .setTool "mail" false]

theorem onAndOff_on : ∀ e ∈ onAndOff, e.On mail := by
  simp [onAndOff, CallerSettingsDraft.Edit.On, mail]

def draft : CallerSettingsDraft := onAndOff.foldl (CallerSettingsDraft.edit fun _ _ _ => true) (.init "ann" offTwice)

end Sample

open Sample in
/-- The draft leaves the tool off and the newer snapshot its function, and the rebase leaves neither. -/
theorem keepEdits_activates : (∀ e ∈ onAndOff, e.On offTwice.catalog) ∧ draft.canRebase "ann" toolOn = true ∧
    (draft.keepEdits "ann" toolOn).2.values.active "mail" "send" = true ∧
    (SettingsValues.init toolOn).active "mail" "send" = false ∧ draft.values.active "mail" "send" = false ∧
    ¬Rebases (fun tool op => draft.values.active tool op = true) draft "ann" toolOn := by
  have hrebase : draft.canRebase "ann" toolOn = true := by decide
  have hactive : (draft.keepEdits "ann" toolOn).2.values.active "mail" "send" = true := by decide
  have hlatest : (SettingsValues.init toolOn).active "mail" "send" = false := by decide
  have hdraft : draft.values.active "mail" "send" = false := by decide
  refine ⟨onAndOff_on, hrebase, hactive, hlatest, hdraft, fun h => ?_⟩
  rcases h.active hrebase "mail" "send" (by decide) hactive with h' | h'
  · exact absurd h' (by simp [hlatest])
  · exact absurd h' (by simp [hdraft])

open Sample in
theorem keepEdits_rebases_mail :
    (Rebases (fun tool op => draft.values.active tool op = true) draft "ann" offTwice ↔
      (draft.canRebase "ann" offTwice = true → ∀ tool op, lists mail tool op →
        ¬Crossed (.init offTwice) draft.values (.init offTwice) tool op)) ∧
    (Rebases (fun tool op => lists mail tool op ∧ draft.values.active tool op = true) draft "ann" offTwice ↔
      (draft.canRebase "ann" offTwice = true → ∀ tool op, lists mail tool op →
        ¬(Crossed (.init offTwice) draft.values (.init offTwice) tool op ∨ (¬lists mail tool op ∧ has mail tool ∧
          Surfaced (.init offTwice) draft.values (.init offTwice) tool op)))) :=
  keepEdits_rebases (fun _ _ _ => true) "ann" offTwice onAndOff_on "ann" offTwice

end Toolstack.MacApp
