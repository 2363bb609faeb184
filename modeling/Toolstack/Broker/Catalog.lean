import Toolstack.Broker.Manifest
import Toolstack.Json.Strings
import Toolstack.Mapping
import Toolstack.PyValue

/-! `broker/registry.py`: the catalog over the values of TOML, and what it serves of them. -/

namespace Toolstack

namespace PyValue

/-- What a check of types and texts sees: a date is none of the things it looks for, as `nan` is. -/
def shape : PyValue → Json
  | none => .null
  | bool b => .bool b
  | int n => .int n
  | float x => .float x
  | str s => .str s
  | date _ => .float .nan
  | list xs => .arr (shapeAll xs)
  | dict kvs => .obj (shapeMembers kvs)
where
  shapeAll : List PyValue → List Json
    | [] => []
    | x :: xs => shape x :: shapeAll xs
  shapeMembers : List (PyStr × PyValue) → List (PyStr × Json)
    | [] => []
    | (k, v) :: kvs => (k, shape v) :: shapeMembers kvs

def maxStrDigits : Nat := 4300

/-- Python writes an integer of at most 4300 digits. -/
@[irreducible] def writable (n : Int) : Bool := n.natAbs < 10 ^ maxStrDigits

/-- What `json.dumps` writes, or `none` where it raises: on a date, on an integer of more than 4300
digits, below `depth` levels, and on `nan` and the infinities where they are not allowed. -/
def json? (allowNan : Bool) : Nat → PyValue → Option Json
  | _, none => some .null
  | _, bool b => some (.bool b)
  | _, int n => if writable n then some (.int n) else .none
  | _, float (.finite x) => some (.float (.finite x))
  | _, float x => if allowNan then some (.float x) else .none
  | _, str s => some (.str s)
  | _, date _ => .none
  | 0, list _ => .none
  | 0, dict _ => .none
  | depth + 1, list xs => (xs.mapM (json? allowNan depth)).map .arr
  | depth + 1, dict kvs => (kvs.mapM fun kv => (json? allowNan depth kv.2).map (kv.1, ·)).map .obj

end PyValue

namespace Broker.Catalog

open Url

/-! ## Reading a manifest -/

/-- What the catalog holds of an operation. -/
structure Op where
  risk : PyValue
  description : PyValue
  args : PyValue
  approvalFields : Option (List PyStr) := none
  rest : Option RestFields := none

structure Tool where
  id : PyStr
  port : Nat
  type : ToolType
  ops : Mapping PyStr Op

/-- A path of the file system as `os.fsdecode` gives it. -/
structure Path where
  text : PyStr
  decoded : text.all fun c => !Json.highSurrogate c

structure Entry where
  tool : Tool
  manifestPath : Path
  manifestDigest : Text

abbrev Entries := Mapping PyStr Entry

def opOf (o : PyDict) (fields : List PyStr) (rest : Option RestFields) : Op :=
  { risk := PyDict.getD o "risk" (.str (py "unknown"))
    description := PyDict.getD o "description" (.str [])
    args := PyDict.getD o "args" (.list [])
    approvalFields := some fields
    rest }

def addOperation (host : Option String) (ops : Mapping PyStr Op) : PyValue → Reading (Mapping PyStr Op)
  | .dict o =>
    match PyDict.get o "name" with
    | some (.str name) => do
      if !Registry.idFullmatch name then throw (.value "invalid operation name")
      if (Mapping.get ops name).isSome then throw (.value "duplicate operation" (some (.str name)))
      let rest ← host.mapM fun host => Registry.restFields host (PyValue.shape.shapeMembers o)
      let fields ← Registry.approvalFields (PyDict.getD o "approval_fields" (.list [])).shape
      return ops ++ [(name, opOf o fields rest)]
    | _ => throw (.value "invalid operation name")
  | _ => throw .attributeError

/-- What `for o in …` goes over. -/
def items : PyValue → Reading (List PyValue)
  | .list xs => return xs
  | .str s => return s.map fun c => .str [c]
  | .dict kvs => return kvs.map fun kv => .str kv.1
  | _ => throw .typeError

def refreshOps : Mapping PyStr Op := [
  (py "refresh", {
    risk := .str (py "read")
    description := .str (py "Re-pull every declared secret from the backend into the tool's in-memory cache.")
    args := .list [] }),
  (py "refresh_one", {
    risk := .str (py "read")
    description := .str (py "Re-pull a single secret by name (arg: name).")
    args := PyValue.ofJson Registry.refreshArgs })]

def injectRefresh (secrets : PyValue) (ops : Mapping PyStr Op) : Reading (Mapping PyStr Op) :=
  if !Registry.declaresSecret secrets.shape then return ops
  else if (Mapping.get ops (py "refresh")).isSome ∨ (Mapping.get ops (py "refresh_one")).isSome then
    throw (.value "reserved refresh operation collision")
  else return ops ++ refreshOps

def toolId : PyValue → Reading PyStr
  | .str s => if Registry.idFullmatch s then return s else throw (.value "invalid tool id" (some (.str s)))
  | v => throw (.value "invalid tool id" (some v.shape))

/-- `_add_toml`, on the table that `tomllib` makes of the file. -/
def readTool (netlocOk : PyStr → Bool) (data : PyDict) : Reading Tool := do
  let id ← toolId (PyDict.getD data "id" .none)
  let type ← Registry.toolType (PyDict.getD data "type" (.str (py "api"))).shape
  let port ← Registry.entryPort (PyDict.getD data "entrypoint" (.dict [])).shape
  let host ← Registry.restHost netlocOk type (PyValue.shape.shapeMembers data)
  let items ← items (PyDict.getD data "operations" (.list []))
  let ops ← items.foldlM (addOperation host) []
  let ops ← injectRefresh (PyDict.getD data "secrets" .none) ops
  return ⟨id, port, type, ops⟩

/-! ## Loading -/

/-- The file system while a catalog is loaded and served. -/
structure Files where
  resolve : PyStr → Path
  exists? : PyStr → Bool
  read : Path → Option Text

inductive LoadError
  | unreadable
  | notToml
  | manifest (e : ManifestError)

variable (H : Hash) (netlocOk : PyStr → Bool) (loads : Text → Option PyDict)

/-- `loads` is `tomllib.loads` of a file's bytes. -/
def readEntry (files : Files) (tomlPath : PyStr) : Except LoadError Entry :=
  match files.read (files.resolve tomlPath) with
  | none => .error .unreadable
  | some raw =>
    match loads raw with
    | none => .error .notToml
    | some data =>
      match readTool netlocOk data with
      | .error e => .error (.manifest e)
      | .ok tool => .ok ⟨tool, files.resolve tomlPath, H.digest raw⟩

def addToml (files : Files) (catalog : Entries) (tomlPath : PyStr) : Except LoadError Entries := do
  let e ← readEntry H netlocOk loads files tomlPath
  return Mapping.set catalog e.tool.id e

/-- The manifests of `from_sources`, in order: those of the tools root, and of the tool directories
that have one. -/
def sources (files : Files) (root toolDirs : List PyStr) : List PyStr :=
  root ++ toolDirs.filter files.exists?

def fromSources (files : Files) (root toolDirs : List PyStr) : Except LoadError Entries :=
  (sources files root toolDirs).foldlM (addToml H netlocOk loads files) []

/-! ## Serving -/

def textValue (s : String) : PyValue := .str (py s)

def Op.fieldValues (op : Op) : PyDict :=
  [(py "risk", op.risk), (py "description", op.description), (py "args", op.args)]

def fieldsValue (fields : List PyStr) : PyValue := .list (fields.map .str)

def Op.value (op : Op) : PyValue :=
  .dict (op.fieldValues ++ (op.approvalFields.map fun fs => (py "approval_fields", fieldsValue fs)).toList ++
    (op.rest.map fun r => [(py "verb", textValue r.verb), (py "path_template", textValue r.pathTemplate),
      (py "base_url_host", textValue r.baseUrlHost), (py "body_kind", textValue r.bodyKind.text')]).getD [])

/-- The catalog's dict of one tool. -/
def Entry.value (e : Entry) : PyValue :=
  .dict [(py "port", .int e.tool.port), (py "type", textValue e.tool.type.text),
    (py "ops", .dict (e.tool.ops.map fun o => (o.1, o.2.value))),
    (py "manifest_path", .str e.manifestPath.text), (py "manifest_digest", textValue (String.ofList e.manifestDigest))]

structure ToolOp where
  tool : PyStr
  op : PyStr
  risk : PyValue
  port : Nat
  type : ToolType
  rest : Option RestFields
  generation : Text
  approvalFields : List PyStr

variable (room : Nat)

/-- `lookup`: `error` where `json.dumps` of the entry raises. It recurses for `room + 5` levels, five
being what an entry takes by itself. -/
def lookup (files : Files) (catalog : Entries) (tool op : PyStr) : Except Unit (Option ToolOp) :=
  match Mapping.get catalog tool with
  | none => .ok none
  | some e =>
    match Mapping.get e.tool.ops op with
    | none => .ok none
    | some m =>
      if (files.read e.manifestPath).any fun raw => H.digest raw = e.manifestDigest then
        match e.value.json? true (room + 5) with
        | none => .error ()
        | some j => .ok (some ⟨tool, op, m.risk, e.tool.port, e.tool.type, m.rest,
            H.digest (Json.dumps .sorted j), m.approvalFields.getD []⟩)
      else .ok none

def Op.described (m : Op) (tool op : PyStr) : PyValue :=
  .dict ((py "tool", .str tool) :: (py "op", .str op) :: m.fieldValues ++
    [(py "approval_fields", fieldsValue (m.approvalFields.getD []))])

def describe (catalog : Entries) (tool op : PyStr) : Option PyValue := do
  let e ← Mapping.get catalog tool
  let m ← Mapping.get e.tool.ops op
  some (m.described tool op)

structure Listed where
  tool : PyStr
  op : PyStr
  type : ToolType
  risk : PyValue
  description : PyValue

def Listed.value (l : Listed) : PyValue :=
  .dict [(py "tool", .str l.tool), (py "op", .str l.op), (py "type", textValue l.type.text), (py "risk", l.risk),
    (py "description", l.description)]

def listOps (catalog : Entries) : List Listed :=
  catalog.flatMap fun t => t.2.tool.ops.map fun o => ⟨t.1, o.1, t.2.tool.type, o.2.risk, o.2.description⟩

end Broker.Catalog

end Toolstack
