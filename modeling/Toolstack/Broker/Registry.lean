import Toolstack.Broker.Policy
import Toolstack.Broker.ApprovalSummary

/-! `broker/registry.py`: the loaded catalog and the lookup of an operation for execution. -/

namespace Toolstack.Broker

inductive ToolType
  | api
  | mcp
  | rest
  deriving DecidableEq, Repr

inductive BodyKind
  | none
  | text
  | binary
  deriving DecidableEq, Repr

structure RestFields where
  verb : String
  pathTemplate : String
  baseUrlHost : String
  bodyKind : BodyKind

/-- The description of one operation. The refresh operations the registry adds itself carry
neither `approval_fields` nor the REST fields. -/
structure OpMeta where
  risk : Json
  description : Json
  args : Json
  approvalFields : Option (List PyStr)
  rest : Option RestFields

/-- `manifest` is the path and the digest of the file the entry was read from. -/
structure CatalogEntry where
  port : Nat
  type : ToolType
  ops : Dict OpMeta
  manifest : Option (String × Text)

structure ToolOp where
  tool : String
  op : String
  risk : Json
  port : Nat
  type : ToolType
  rest : Option RestFields
  generation : Text
  approvalFields : List PyStr

/-- `tool_op.body_kind or "none"`. -/
def ToolOp.bodyKind (o : ToolOp) : BodyKind := (o.rest.map (·.bodyKind)).getD .none

def ToolType.text : ToolType → String
  | .api => "api"
  | .mcp => "mcp"
  | .rest => "rest"

def BodyKind.text' : BodyKind → String
  | .none => "none"
  | .text => "text"
  | .binary => "binary"

def strJson (s : String) : Json := .str (py s)

def OpMeta.toJson (m : OpMeta) : Json :=
  .obj ([(py "risk", m.risk), (py "description", m.description), (py "args", m.args)] ++
    (m.approvalFields.map fun fs => (py "approval_fields", Json.arr (fs.map .str))).toList ++
    (m.rest.map fun r => [(py "verb", strJson r.verb), (py "path_template", strJson r.pathTemplate),
      (py "base_url_host", strJson r.baseUrlHost), (py "body_kind", strJson r.bodyKind.text')]).getD [])

def CatalogEntry.toJson (e : CatalogEntry) : Json :=
  .obj ([(py "port", .int e.port), (py "type", strJson e.type.text),
      (py "ops", .obj (e.ops.map fun o => (py o.1, o.2.toJson)))] ++
    (e.manifest.map fun m => [(py "manifest_path", strJson m.1),
      (py "manifest_digest", .str (py (String.ofList m.2)))]).getD [])

/-- The manifests on disk: path to content. -/
abbrev Disk := Dict Text

abbrev Registry := Dict CatalogEntry

namespace Registry

def generation (H : Hash) (e : CatalogEntry) : Text := H.digest (Json.dumps .sorted e.toJson)

/-- An edited or deleted manifest invalidates the loaded entry. -/
def current (H : Hash) (disk : Disk) (e : CatalogEntry) : Bool :=
  e.manifest.all fun (path, digest) => (disk.get path).any fun raw => H.digest raw = digest

def lookup (H : Hash) (disk : Disk) (registry : Registry) (tool op : String) : Option ToolOp := do
  let e ← registry.get tool
  let m ← e.ops.get op
  if current H disk e then
    some ⟨tool, op, m.risk, e.port, e.type, m.rest, generation H e, m.approvalFields.getD []⟩
  else none

theorem lookup_eq_some {H : Hash} {disk : Disk} {registry : Registry} {tool op : String}
    {o : ToolOp} (h : lookup H disk registry tool op = some o) :
    o.tool = tool ∧ o.op = op ∧ ∃ e, registry.get tool = some e ∧ o.generation = generation H e := by
  simp only [lookup, Option.bind_eq_bind, Option.bind_eq_some_iff] at h
  obtain ⟨e, he, m, -, h⟩ := h
  split_ifs at h
  obtain rfl := Option.some.inj h
  exact ⟨rfl, rfl, e, he, rfl⟩

theorem lookup_generation_ne {H : Hash} {disk : Disk} {registry : Registry} {tool op : String}
    {o : ToolOp} (h : lookup H disk registry tool op = some o) : o.generation ≠ [] := by
  obtain ⟨-, -, e, -, hgen⟩ := lookup_eq_some h
  exact hgen ▸ H.nonempty _

end Registry

end Toolstack.Broker
