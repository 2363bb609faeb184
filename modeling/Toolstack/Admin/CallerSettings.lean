import Mathlib.Data.List.Dedup
import Toolstack.Broker.Operations

/-! `admin/caller_settings.py`: one snapshot of a caller's settings, and one guarded edit of them;
and the older editor of the tool list, `admin/policy_edits.py` with its route. -/

namespace Toolstack.Broker.CallerSettings

open Interleave.Prog (raise)
open Operations (requireCaller)

structure CatalogOp where
  op : String
  risk : Json
  description : Json

/-- The tools an editor sees, each with its operations. -/
structure Catalog where
  tools : Dict (List CatalogOp)
  nodup : (tools.map Prod.fst).Nodup

def Catalog.toJson (catalog : Catalog) : Json :=
  .obj (catalog.tools.map fun t => (py t.1, .arr (t.2.map fun o =>
    .obj [(py "op", strJson o.op), (py "risk", o.risk), (py "description", o.description)])))

/-- `sorted(set(xs))`. -/
def sortedSet (xs : List String) : List String := xs.dedup.insertionSort (· ≤ ·)

/-- `operations.enabled_tools`: managed settings are authoritative, others also show the tools
that carry rules. -/
def enabledTools (policy : Policy) : List String :=
  match policy.disabledFunctions, policy.enabled with
  | some _, some enabled => sortedSet enabled
  | _, enabled => sortedSet (enabled.getD [] ++ (policy.tools.getD []).map Prod.fst)

structure Snapshot where
  callerId : Nat
  installation : Text
  revision : Text
  policy : Policy
  enabled : List String
  catalog : Catalog

def revisionOf (H : Hash) (installation : Text) (callerId : Nat) (policy : Policy) (catalog : Catalog) :
    Text :=
  H.digest (Json.dumps .compact (.arr [strJson (String.ofList installation), .int callerId,
    policy.toJson, catalog.toJson]))

/-- `catalog` is what reading the tools' manifests gives. -/
def snapshot (H : Hash) (name : String) (catalog : Except Exn Catalog) : Action Snapshot := do
  let caller ← requireCaller name
  if caller.revokedAt.isSome then raise .lookupError
  else
    match catalog with
    | .error e => raise e
    | .ok catalog => do
      let policy : Policy ← perform (.policyFor caller.id)
      let installation : Text ← perform .installationId
      return { callerId := caller.id, installation, policy, catalog
               revision := revisionOf H installation caller.id policy catalog
               enabled := enabledTools policy }

/-! ## The edit -/

/-- A submitted draft. -/
abbrev Draft := List (PyStr × Json)

def changedElsewhere : Exn := .other "ChangedElsewhere"

/-- A list of strings that all are among `allowed`. -/
def strings? (allowed : List String) : Json → Option (List String)
  | .arr xs => xs.mapM fun
    | .str s => allowed.find? fun n => py n = s
    | _ => none
  | _ => none

def effectNames : List String := ["allow", "review", "deny"]

/-- One member of a tool's effects: an operation the tool has, and a known effect. -/
def effect? (names : List String) (kvs : Draft) (key : PyStr) : Option (String × String) := do
  let name ← names.find? fun n => py n = key
  match Json.find? kvs key with
  | some (.str v) => do
    let effect ← effectNames.find? fun e => py e = v
    return (name, effect)
  | _ => none

/-- An effect for each of `names` and for nothing else. -/
def effects? (names : List String) : Json → Option (Dict String)
  | .obj kvs =>
    if names.all fun n => (Json.find? kvs (py n)).isSome then kvs.mapM fun kv => effect? names kvs kv.1
    else none
  | _ => none

/-- `rules.update(effects)`. -/
def overwrite (effects rules : Dict String) : Dict String :=
  effects.foldl (fun rules e => rules.set e.1 e.2) rules

/-- The draft has an entry for each tool of the catalog and for nothing else. -/
def sameTools (catalog : Catalog) (kvs : Draft) : Bool :=
  (catalog.tools.all fun t => (Json.find? kvs (py t.1)).isSome) &&
    kvs.all fun kv => catalog.tools.any fun t => py t.1 = kv.1

/-- One tool of the draft. What the catalog does not show stays as it is. -/
def mergeTool (disabled tools : Draft) (after : Policy) (row : String × List CatalogOp) :
    Except Exn Policy :=
  let names := row.2.map CatalogOp.op
  let get (kvs : Draft) : Json := (Json.find? kvs (py row.1)).getD .null
  match strings? names (get disabled), effects? names (get tools) with
  | some excluded, some effects =>
    let ds := after.disabledFunctions.getD []
    let ts := after.tools.getD []
    let oldExcluded := ((ds.get row.1).getD []).filter (· ∉ names)
    .ok { after with
      disabledFunctions := some (ds.set row.1 (sortedSet (oldExcluded ++ excluded)))
      tools := some (ts.set row.1 (overwrite effects ((ts.get row.1).getD []))) }
  | _, _ => .error .valueError

/-- The policy the draft makes of the current one. -/
def edit (catalog : Catalog) (data : Draft) (policy : Policy) : Except Exn Policy :=
  let get (key : String) : Json := (Json.find? data (py key)).getD .null
  match strings? (catalog.tools.map Prod.fst) (get "enabled"), get "disabled_functions", get "tools" with
  | some enabled, .obj disabled, .obj tools =>
    if sameTools catalog disabled && sameTools catalog tools then
      catalog.tools.foldlM (mergeTool disabled tools) { policy with
        enabled := some (sortedSet
          ((enabledTools policy).filter (· ∉ catalog.tools.map Prod.fst) ++ enabled))
        tools := some (policy.tools.getD [])
        disabledFunctions := some (policy.disabledFunctions.getD []) }
    else .error changedElsewhere
  | _, _, _ => .error .valueError

def submittedRevision (data : Draft) : Option PyStr :=
  match Json.find? data (py "revision") with
  | some (.str s) => some s
  | _ => none

def apply (H : Hash) (name : String) (catalog : Except Exn Catalog) (data : Draft) (operator : String) :
    Action Policy := do
  let current ← snapshot H name catalog
  if submittedRevision data ≠ some (py (String.ofList current.revision)) then raise changedElsewhere
  else
    match edit current.catalog data current.policy with
    | .error e => raise e
    | .ok after => do
      let caller ← requireCaller name
      let saved : Bool ← perform (.compareAndSetPolicy caller.id current.policy after operator)
      if saved then return after else raise changedElsewhere

/-! ## The tool list of the web editor -/

/-- `policy_edits.merge_enabled`: tools absent from the catalog cannot be unchecked. -/
def mergeEnabled (current : Policy) (available selected : List String) : List String :=
  let prior := (current.enabled.getD [] ++ (current.tools.getD []).map Prod.fst).eraseDups
  (prior.filter (fun t => !available.contains t) ++ selected).eraseDups

/-- `POST /callers/{name}/tools`. `available` are the tools of the catalog. -/
def saveCallerTools (name : String) (available selected : List String) (operator : String) :
    Action Unit := do
  let caller ← requireCaller name
  let current : Policy ← perform (.policyFor caller.id)
  Operations.setEnabledTools name (mergeEnabled current available selected) operator

end Toolstack.Broker.CallerSettings
