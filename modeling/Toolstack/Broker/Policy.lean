import Toolstack.Json.Value

/-! `broker/policy.py`: allow, review or deny, with deny as the default. -/

namespace Toolstack.Broker

inductive Effect
  | allow
  | review
  | deny
  deriving DecidableEq, Repr

/-- Python dicts with string keys, in insertion order. -/
abbrev Dict (α : Type) := List (String × α)

namespace Dict
variable {α : Type}

def get (d : Dict α) (k : String) : Option α := (d.find? fun kv => kv.1 = k).map Prod.snd

/-- `d[k] = v`: an existing key keeps its place. -/
def set (d : Dict α) (k : String) (v : α) : Dict α :=
  if d.any fun kv => kv.1 = k then d.map fun kv => if kv.1 = k then (k, v) else kv
  else d ++ [(k, v)]

end Dict

/-- A caller's policy. A `none` field is a key the dict does not have; `rest` holds the keys
that no rule reads. -/
structure Policy where
  tools : Option (Dict (Dict String)) := none
  enabled : Option (List String) := none
  disabledFunctions : Option (Dict (List String)) := none
  rest : List (PyStr × Json) := []

namespace Policy

/-- `policy_for` of a caller without a stored policy: deny all. -/
def empty : Policy := {}

def norm : Option String → Effect
  | some "allow" => .allow
  | some "review" => .review
  | _ => .deny

def decide (policy : Policy) (tool op : String) : Effect :=
  if policy.disabledFunctions.isSome && policy.enabled.any (fun enabled => !enabled.contains tool)
  then .deny
  else if (((policy.disabledFunctions.getD []).get tool).getD []).contains op then .deny
  else norm ((((policy.tools.getD []).get tool).getD []).get op)

def rulesJson (rules : Dict String) : Json := .obj (rules.map fun r => (py r.1, .str (py r.2)))

def namesJson (names : List String) : Json := .arr (names.map fun n => .str (py n))

def toJson (policy : Policy) : Json :=
  .obj ((policy.tools.map fun tools =>
      (py "tools", Json.obj (tools.map fun t => (py t.1, rulesJson t.2)))).toList ++
    (policy.enabled.map fun enabled => (py "enabled", namesJson enabled)).toList ++
    (policy.disabledFunctions.map fun ds =>
      (py "disabled_functions", Json.obj (ds.map fun d => (py d.1, namesJson d.2)))).toList ++
    policy.rest)

/-- `json.dumps(policy, sort_keys=True)`: what a request is bound to. -/
def binding (policy : Policy) : Text := Json.dumps .sorted policy.toJson

/-- Default deny. -/
theorem decide_empty (tool op : String) : empty.decide tool op = .deny := rfl

end Policy

end Toolstack.Broker
