import Mathlib.Data.Finset.Sort
import Mathlib.Data.String.Basic
import Toolstack.Admin.SettingsEdit

/-! `ToolstackKit/CallerSettingsDraft.swift`: the draft of a caller's settings that the Mac app edits,
and the payload its client saves. A snapshot is decoded as it was encoded. -/

namespace Toolstack.MacApp

open Broker (Dict Policy)
open Broker.CallerSettings (Catalog CatalogOp Snapshot)

/-- `==` of Swift dictionaries. -/
def sameDictionary {α : Type} (eq : α → α → Bool) (d d' : Dict α) : Bool :=
  d.length == d'.length && d.all fun kv => (d'.get kv.1).any (eq kv.2)

structure SettingsValues where
  enabled : Finset String
  excluded : Dict (Finset String)
  tools : Dict (Dict String)

namespace SettingsValues

def init (s : Snapshot) : SettingsValues where
  enabled := s.enabled.toFinset ∩ (s.catalog.tools.map Prod.fst).toFinset
  excluded := s.catalog.tools.map fun t =>
    (t.1, (((s.policy.disabledFunctions.bind (Dict.get · t.1)).getD [])).toFinset ∩ (t.2.map CatalogOp.op).toFinset)
  tools := s.catalog.tools.map fun t =>
    (t.1, t.2.map fun o => (o.op, ((s.policy.tools.bind (Dict.get · t.1)).bind (Dict.get · o.op)).getD "deny"))

def active (v : SettingsValues) (tool op : String) : Bool :=
  tool ∈ v.enabled && !(v.excluded.get tool).any (op ∈ ·)

def effect (v : SettingsValues) (tool op : String) : String := ((v.tools.get tool).bind (Dict.get · op)).getD "deny"

def same (v v' : SettingsValues) : Bool :=
  v.enabled = v'.enabled && sameDictionary (fun s s' => s = s') v.excluded v'.excluded &&
    sameDictionary (sameDictionary fun e e' => e = e') v.tools v'.tools

end SettingsValues

inductive Phase
  | editing
  | saving
  | unknown
  | stale
  | saved
  deriving DecidableEq

structure CallerSettingsDraft where
  name : String
  snapshot : Snapshot
  baseline : SettingsValues
  values : SettingsValues
  phase : Phase := .editing
  search : String := ""
  enabledOnly : Bool := false
  needsReview : Bool := false

namespace CallerSettingsDraft

def init (name : String) (s : Snapshot) : CallerSettingsDraft :=
  { name, snapshot := s, baseline := .init s, values := .init s }

def ops (d : CallerSettingsDraft) (tool : String) : List CatalogOp := (d.snapshot.catalog.tools.get tool).getD []

variable (found : String → String → CatalogOp → Bool)

/-- The rows in sight. `found` says whether the search text, trimmed and in lower case, is empty or
in a row's text. -/
def matchesTool (d : CallerSettingsDraft) (tool : String) : List CatalogOp :=
  (d.ops tool).filter fun o => found d.search tool o && (!d.enabledOnly || d.values.active tool o.op) &&
    (!d.needsReview || d.values.effect tool o.op = "review")

def setTool (d : CallerSettingsDraft) (tool : String) (enabled : Bool) : CallerSettingsDraft :=
  if enabled then { d with values := { d.values with
    enabled := insert tool d.values.enabled
    excluded := d.values.excluded.set tool ∅ } }
  else { d with values := { d.values with enabled := d.values.enabled.erase tool } }

/-- A disabled tool is enabled with all its functions off but the one that is switched on. -/
def wake (d : CallerSettingsDraft) (tool : String) (enabled : Bool) : SettingsValues :=
  if enabled ∧ tool ∉ d.values.enabled then { d.values with
    enabled := insert tool d.values.enabled
    excluded := d.values.excluded.set tool ((d.ops tool).map CatalogOp.op).toFinset }
  else d.values

def setFunction (d : CallerSettingsDraft) (tool op : String) (enabled : Bool) : CallerSettingsDraft :=
  let values := d.wake tool enabled
  let excluded := (values.excluded.get tool).getD ∅
  { d with values := { values with
    excluded := values.excluded.set tool (if enabled then excluded.erase op else insert op excluded) } }

def bulk (d : CallerSettingsDraft) (tool : String) (enabled : Bool) : CallerSettingsDraft :=
  (d.matchesTool found tool).foldl (fun d o => d.setFunction tool o.op enabled) d

/-- `draft.values.tools[tool]?[op] = effect`. -/
def setEffect (d : CallerSettingsDraft) (tool op effect : String) : CallerSettingsDraft :=
  match d.values.tools.get tool with
  | some rules => { d with values := { d.values with tools := d.values.tools.set tool (rules.set op effect) } }
  | none => d

/-- What an operator does to a draft. -/
inductive Edit
  | setTool (tool : String) (enabled : Bool)
  | setFunction (tool op : String) (enabled : Bool)
  | bulk (tool : String) (enabled : Bool)
  | effect (tool op effect : String)
  | view (search : String) (enabledOnly needsReview : Bool)

def edit (d : CallerSettingsDraft) : Edit → CallerSettingsDraft
  | .setTool tool enabled => d.setTool tool enabled
  | .setFunction tool op enabled => d.setFunction tool op enabled
  | .bulk tool enabled => d.bulk found tool enabled
  | .effect tool op effect => d.setEffect tool op effect
  | .view search enabledOnly needsReview => { d with search, enabledOnly, needsReview }

/-! ## Saving -/

/-- `$0.sorted()`, encoded. -/
def sortedNames (names : Finset String) : Json := Policy.namesJson names.sort

/-- The body of `saveCallerSettings`. -/
def payload (d : CallerSettingsDraft) : Broker.CallerSettings.Draft := [
  (py "revision", Broker.strJson (String.ofList d.snapshot.revision)),
  (py "enabled", sortedNames d.values.enabled),
  (py "disabled_functions", .obj (d.values.excluded.map fun t => (py t.1, sortedNames t.2))),
  (py "tools", .obj (d.values.tools.map fun t => (py t.1, Policy.rulesJson t.2)))]

structure SettingsReceipt where
  outcome : String
  name : String
  policy : Policy

def accept (d : CallerSettingsDraft) (receipt : SettingsReceipt) : Except String CallerSettingsDraft :=
  if receipt.outcome ≠ "saved" ∨ receipt.name ≠ d.name then .error "Wrong settings receipt"
  else
    let committed := { d.snapshot with policy := receipt.policy, enabled := receipt.policy.enabled.getD [] }
    if (SettingsValues.init committed).same d.values then .ok { d with baseline := d.values, phase := .saved }
    else .error "Settings receipt differs from draft"

end CallerSettingsDraft

end Toolstack.MacApp
