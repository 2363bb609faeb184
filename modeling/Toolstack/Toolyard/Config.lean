import Toolstack.Forwarder.Config

/-! `toolyard/config.py`: a manifest as the toolyard reads it, to run the tool. -/

namespace Toolstack.Toolyard

open Url

abbrev Table := List (PyStr × Json)

/-- The message of a `ValueError`, with the value it shows; or an exception of another class. -/
inductive LoadError
  | value (message : String) (shown : Option Json := none)
  | keyError
  | attributeError
  | typeError
  | badUrl

abbrev Load := Except LoadError

inductive ToolType
  | api
  | mcp
  | rest
  deriving DecidableEq

def ToolType.name : ToolType → PyStr
  | api => py "api"
  | mcp => py "mcp"
  | rest => py "rest"

/-- The values are taken from the table as they are. -/
structure SecretSpec where
  name : Json
  field : Json
  writable : Json
  item : Json

structure ToolDef where
  id : PyStr
  type : ToolType
  port : Nat
  command : Json
  image : Json
  secrets : List SecretSpec
  path : String
  description : Json
  egress : List PyStr
  manifestDigest : Text

def get (data : Table) (key : String) : Json := (Json.find? data (py key)).getD .null

def getD (data : Table) (key : String) (default : Json) : Json := (Json.find? data (py key)).getD default

/-- What `for x in v` goes over. -/
def items : Json → Load (List Json)
  | .arr xs => return xs
  | .str s => return s.map fun c => .str [c]
  | .obj kvs => return kvs.map fun kv => .str kv.1
  | _ => throw .typeError

/-! ## REST -/

def baseUrlProblem (netlocOk : PyStr → Bool) (data : Table) : Load Unit :=
  match get data "base_url" with
  | .str (c :: url) =>
    match urlsplit netlocOk (c :: url) with
    | none => throw .badUrl
    | some split => do
      if (split.scheme ≠ py "http" ∧ split.scheme ≠ py "https") ∨ !split.hasHost then
        throw (.value "rest base_url must be an absolute http(s) URL with a host")
      if split.hasUser then throw (.value "rest base_url must not embed credentials")
  | _ => throw (.value "rest tool needs top-level base_url")

/-- The names of the secrets that are declared writable. -/
def writableNames : List Json → Load (List PyStr)
  | [] => return []
  | .obj item :: rest => do
    let names ← writableNames rest
    match get item "name", getD item "writable" (.bool false) with
    | .str name, .bool true => return name :: names
    | _, _ => return names
  | _ :: _ => throw (.value "rest [[secrets]] entries must be tables")

/-- A key of a set of strings. -/
def isOneOf (names : List PyStr) : Json → Load Bool
  | .str s => return s ∈ names
  | .arr _ | .obj _ => throw .typeError
  | _ => return false

def ruleResponseTypes : List PyStr := [py "json", py "xml", py "form", py "plaintext"]

def validateRule (writable : List PyStr) : Json → Load Unit
  | .obj rule => do
    if !(← isOneOf writable (get rule "secret_name")) then
      throw (.value "rest secret_update_rule targets non-writable secret" (get rule "secret_name"))
    if !(← isOneOf ruleResponseTypes (get rule "response_type")) then
      throw (.value "rest secret_update_rule has invalid response_type" (get rule "response_type"))
    if !(get rule "extract_path").truthy then throw (.value "rest secret_update_rule needs extract_path")
    if !(get rule "match_status").truthy then throw (.value "rest secret_update_rule needs match_status")
  | _ => return ()

def validateRules (writable : List PyStr) : Json → Load Unit
  | .obj op => do (← items (getD op "secret_update_rules" (.arr []))).forM (validateRule writable)
  | _ => return ()

def validateRest (netlocOk : PyStr → Bool) (data : Table) : Load Unit := do
  baseUrlProblem netlocOk data
  let .arr secrets := getD data "secrets" (.arr []) | throw (.value "rest [[secrets]] must be a list")
  let writable ← writableNames secrets
  (← items (getD data "operations" (.arr []))).forM (validateRules writable)

/-! ## The whole -/

def toolId (v : Json) : Load PyStr :=
  match v with
  | .str s => if Forwarder.idName s then return s else throw (.value "invalid tool id" (some v))
  | v => throw (.value "invalid tool id" (some v))

def toolType (v : Json) : Load ToolType :=
  match v with
  | .str s =>
    match [ToolType.api, .mcp, .rest].find? fun t => t.name = s with
    | some t => return t
    | none => throw (.value "tool has unknown type" (some v))
  | v => throw (.value "tool has unknown type" (some v))

def toolPort (entry : Table) : Load Nat :=
  match get entry "port" with
  | .int n =>
    if 1 ≤ n ∧ n ≤ 65535 then return n.toNat
    else throw (.value "tool needs an [entrypoint] port (integer 1-65535)" (some (.int n)))
  | v => throw (.value "tool needs an [entrypoint] port (integer 1-65535)" (some v))

/-- `s["name"]`. -/
def subscript (s : Json) (key : String) : Load Json :=
  match s with
  | .obj kvs => match Json.find? kvs (py key) with
    | some v => return v
    | none => throw .keyError
  | _ => throw .typeError

def secretSpec (s : Json) : Load SecretSpec := do
  let name ← subscript s "name"
  let field ← subscript s "field"
  match s with
  | .obj kvs => return ⟨name, field, getD kvs "writable" (.bool false), get kvs "item"⟩
  | _ => throw .typeError

/-- The hosts of `[sandbox] egress`. -/
def egressHosts (data : Table) : Load (List PyStr) :=
  match getD data "sandbox" (.obj []) with
  | .obj sandbox =>
    match (Forwarder.strings? (getD sandbox "egress" (.arr []))).filter fun hosts => [] ∉ hosts with
    | some hosts => return hosts
    | none => throw (.value "[sandbox] egress must be a list of non-empty host strings")
  | _ => throw .attributeError

/-- `load`, from the parsed TOML on. -/
def load (digest : Text → Text) (netlocOk : PyStr → Bool) (path : String) (raw : Text) (data : Table) :
    Load ToolDef := do
  let id ← toolId (get data "id")
  let type ← toolType (getD data "type" (.str (py "api")))
  let .obj entry := getD data "entrypoint" (.obj []) | throw .attributeError
  let port ← toolPort entry
  if type = .rest then validateRest netlocOk data
  let secrets ← (← items (getD data "secrets" (.arr []))).mapM secretSpec
  let egress ← egressHosts data
  let command := get entry "command"
  return {
    id, type, port, secrets, path, egress
    command := if command.truthy then command
      else if type = .rest then .str (py "python3 -m toolstack_forwarder") else .null
    image := get entry "image"
    description := getD data "description" (.str [])
    manifestDigest := digest raw }

end Toolstack.Toolyard
