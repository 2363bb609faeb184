import Toolstack.Json.Value

/-! What `tomllib` and `json` make of a text: JSON values, and dates and times besides. -/

namespace Toolstack

inductive PyValue
  | none
  | bool (b : Bool)
  | int (n : Int)
  | float (x : PyFloat)
  | str (s : PyStr)
  | date (text : PyStr)
  | list (xs : List PyValue)
  | dict (kvs : List (PyStr × PyValue))

namespace PyValue

mutual
def ofJson : Json → PyValue
  | .null => none
  | .bool b => bool b
  | .int n => int n
  | .float x => float x
  | .str s => str s
  | .arr xs => list (ofJsonAll xs)
  | .obj kvs => dict (ofJsonMembers kvs)

def ofJsonAll : List Json → List PyValue
  | [] => []
  | x :: xs => ofJson x :: ofJsonAll xs

def ofJsonMembers : List (PyStr × Json) → List (PyStr × PyValue)
  | [] => []
  | (k, v) :: kvs => (k, ofJson v) :: ofJsonMembers kvs
end

theorem ofJsonAll_eq (xs : List Json) : ofJsonAll xs = xs.map ofJson := by
  induction xs with
  | nil => rfl
  | cons x xs ih => rw [ofJsonAll, ih, List.map_cons]

/-- `bool(x)`. -/
def truthy : PyValue → Bool
  | none => false
  | bool b => b
  | int n => n ≠ 0
  | float x => (Json.float x).truthy
  | str s => s ≠ []
  | date _ => true
  | list xs => !xs.isEmpty
  | dict kvs => !kvs.isEmpty

end PyValue

/-- A table of `tomllib`, or an object of `json`, whose keys are distinct. -/
abbrev PyDict := List (PyStr × PyValue)

def PyDict.get (data : PyDict) (key : String) : Option PyValue := (data.find? fun kv => kv.1 = py key).map (·.2)

def PyDict.getD (data : PyDict) (key : String) (default : PyValue) : PyValue := (data.get key).getD default

theorem PyDict.get_of_mem {data : PyDict} (hnodup : (data.map Prod.fst).Nodup) {key : String} {v : PyValue}
    (h : (py key, v) ∈ data) : data.get key = some v := by
  have hsome : (data.find? fun kv => kv.1 = py key).isSome = true :=
    List.find?_isSome.2 ⟨_, h, decide_eq_true rfl⟩
  obtain ⟨kv, hkv⟩ := Option.isSome_iff_exists.1 hsome
  have hkey : kv.1 = py key := by simpa using List.find?_some hkv
  have hsame : kv = (py key, v) := List.inj_on_of_nodup_map hnodup (List.mem_of_find?_eq_some hkv) h hkey
  rw [PyDict.get, hkv, hsame]
  rfl

end Toolstack
