import Toolstack.Broker.Registry
import Toolstack.Forwarder.Config

/-! `broker/registry.py`: the catalog is read from manifests, and the operations it lists. -/

namespace Toolstack.Broker

open Url

/-- A manifest file: its path, its content, and the table `tomllib` makes of it. -/
structure Manifest where
  path : String
  raw : Text
  data : List (PyStr × Json)

/-- The message of a `ValueError`, with the value it shows; or an exception of another class. -/
inductive ManifestError
  | value (message : String) (shown : Option Json := none)
  | attributeError
  | typeError
  | badUrl

abbrev Reading := Except ManifestError

namespace Registry

/-! ## Lexical rules -/

def idHead (c : CodePoint) : Bool := isAlpha c || isDigit c

def idChar (c : CodePoint) : Bool := idHead c || c = ch '_' || c = ch '-'

/-- `_ID_RE.fullmatch`. -/
def idFullmatch (s : PyStr) : Bool := s.head?.any idHead && s.all idChar

/-- A text of scalar values as a `String`. -/
def string (s : PyStr) : String := String.ofList (s.map fun c => Char.ofNat c.val)

def get (data : List (PyStr × Json)) (key : String) : Json := (Json.find? data (py key)).getD .null

def getD (data : List (PyStr × Json)) (key : String) (default : Json) : Json :=
  (Json.find? data (py key)).getD default

/-! ## The host of a REST tool -/

/-- `str.lower` of the characters whose lower case is ASCII text. -/
def lowerHost (c : CodePoint) : CodePoint := if c.val = 0x212A then ch 'k' else lower c

/-- `_hostinfo`: the host and the port of an authority. -/
def hostinfo (u : SplitUrl) : PyStr × PyStr :=
  let hostinfo := (u.netloc.reverse.takeWhile (· ≠ ch '@')).reverse
  if ch '[' ∈ hostinfo then
    let (host, rest) := cut (ch ']') (cut (ch '[') hostinfo).2
    (host, (cut (ch ':') rest).2)
  else cut (ch ':') hostinfo

/-- `.hostname` of an authority that has a host: a zone keeps its case. -/
def hostname (u : SplitUrl) : PyStr :=
  let host := (hostinfo u).1
  (host.takeWhile (· ≠ ch '%')).map lowerHost ++ host.dropWhile (· ≠ ch '%')

def decimal (digits : PyStr) : Nat := digits.foldl (fun n c => 10 * n + (c.val - 0x30)) 0

/-- `.port`, or `none` where it raises. -/
def port (u : SplitUrl) : Option (Option Nat) :=
  match (hostinfo u).2 with
  | [] => some none
  | digits => if digits.all isDigit ∧ decimal digits ≤ 65535 then some (some (decimal digits)) else none

def hostChar (c : CodePoint) : Bool := isAlpha c || isDigit c || c = ch '.' || c = ch '-'

def restBaseUrlHost (netlocOk : PyStr → Bool) (data : List (PyStr × Json)) : Reading String :=
  match get data "base_url" with
  | .str (c :: url) =>
    match urlsplit netlocOk (c :: url) with
    | none => throw .badUrl
    | some split => do
      if (split.scheme ≠ py "http" ∧ split.scheme ≠ py "https") ∨ !split.hasHost then
        throw (.value "rest base_url must be an absolute http(s) URL with a host")
      if split.hasUser then throw (.value "rest base_url must not embed credentials")
      if !(hostname split).all hostChar then throw (.value "rest base_url host has invalid characters")
      match port split with
      | none => throw .badUrl
      | some none => return string (hostname split)
      | some (some n) => return s!"{string (hostname split)}:{n}"
  | _ => throw (.value "rest tool needs top-level base_url")

/-! ## Operations -/

/-- `approval_summary.validate_fields`. -/
def approvalFields (raw : Json) : Reading (List PyStr) :=
  match (Forwarder.strings? raw).bind ApprovalSummary.validateFields with
  | some fields => return fields
  | none => throw (.value "approval_fields must be <=32 unique non-root RFC6901 pointers (<=256 characters); '*' is forbidden")

def verbs : List String := ["GET", "POST", "PUT", "PATCH", "DELETE"]

def bodyKinds : List BodyKind := [.none, .text, .binary]

def bodyKind (name : Json) (verb : String) : Json → Reading BodyKind
  | .null => return if verb = "GET" ∨ verb = "DELETE" then .none else .text
  | .arr _ | .obj _ => throw .typeError
  | .str kind =>
    match bodyKinds.find? fun k => py k.text' = kind with
    | some k => return k
    | none => throw (.value "rest operation has invalid body_kind" name)
  | _ => throw (.value "rest operation has invalid body_kind" name)

def restFields (host : String) (o : List (PyStr × Json)) : Reading RestFields := do
  let name := get o "name"
  let verb := match get o "verb" with
    | .str verb => verbs.find? fun v => py v = verb.flatMap Forwarder.upper
    | _ => none
  let some verb := verb | throw (.value "rest operation needs a valid verb" name)
  let path := match get o "path" with
    | .str path => if path.head? = some (ch '/') ∧ path[1]? ≠ some (ch '/') then some path else none
    | _ => none
  let some path := path | throw (.value "rest operation needs an absolute path template" name)
  let kind ← bodyKind name verb (get o "body_kind")
  return ⟨verb, string path, host, kind⟩

def addOperation (host : Option String) (ops : Dict OpMeta) : Json → Reading (Dict OpMeta)
  | .obj o =>
    match get o "name" with
    | .str name => do
      if !idFullmatch name then throw (.value "invalid operation name")
      if (ops.get (string name)).isSome then throw (.value "duplicate operation" (some (.str name)))
      let rest ← host.mapM fun host => restFields host o
      let fields ← approvalFields (getD o "approval_fields" (.arr []))
      return ops ++ [(string name, {
        risk := getD o "risk" (strJson "unknown")
        description := getD o "description" (strJson "")
        args := getD o "args" (.arr [])
        approvalFields := some fields
        rest })]
    | _ => throw (.value "invalid operation name")
  | _ => throw .attributeError

/-- What `for o in …` goes over; the members of a string or a table are strings. -/
def operations : Json → Reading (List Json)
  | .arr items => return items
  | .str s => return s.map fun c => .str [c]
  | .obj kvs => return kvs.map fun kv => .str kv.1
  | _ => throw .typeError

/-! ## The refresh operations -/

def declaresSecret : Json → Bool
  | .arr secrets => secrets.any fun
    | .obj s => (get s "name").truthy
    | _ => false
  | _ => false

def refreshMeta (description : String) (args : Json) : OpMeta :=
  ⟨strJson "read", strJson description, args, none, none⟩

def refreshArgs : Json :=
  .arr [.obj [(py "name", strJson "name"), (py "type", strJson "string"), (py "required", .bool true),
    (py "description", strJson "Secret name to refresh.")]]

def injectRefresh (secrets : Json) (ops : Dict OpMeta) : Reading (Dict OpMeta) :=
  if !declaresSecret secrets then return ops
  else if (ops.get "refresh").isSome ∨ (ops.get "refresh_one").isSome then
    throw (.value "reserved refresh operation collision")
  else
    return ops ++ [
      ("refresh", refreshMeta
        "Re-pull every declared secret from the backend into the tool's in-memory cache." (.arr [])),
      ("refresh_one", refreshMeta "Re-pull a single secret by name (arg: name)." refreshArgs)]

/-! ## One manifest -/

def toolType : Json → Reading ToolType
  | .str s =>
    match [ToolType.api, .mcp, .rest].find? fun t => py t.text = s with
    | some t => return t
    | none => throw (.value "tool has unknown type" (some (.str s)))
  | kind => throw (.value "tool has unknown type" (some kind))

def entryPort : Json → Reading Nat
  | .obj entry =>
    match get entry "port" with
    | .int n =>
      if 1 ≤ n ∧ n ≤ 65535 then return n.toNat
      else throw (.value "tool needs an [entrypoint] port (integer 1-65535)" (some (.int n)))
    | v => throw (.value "tool needs an [entrypoint] port (integer 1-65535)" (some v))
  | _ => throw .attributeError

def toolId : Json → Reading String
  | .str s =>
    if idFullmatch s then return string s else throw (.value "invalid tool id" (some (.str s)))
  | v => throw (.value "invalid tool id" (some v))

def restHost (netlocOk : PyStr → Bool) (type : ToolType) (data : List (PyStr × Json)) :
    Reading (Option String) :=
  if type = .rest then some <$> restBaseUrlHost netlocOk data else pure none

/-- `_add_toml`: the catalog with the manifest's entry. -/
def addToml (H : Hash) (netlocOk : PyStr → Bool) (catalog : Registry) (m : Manifest) :
    Reading Registry := do
  let id ← toolId (get m.data "id")
  let type ← toolType (getD m.data "type" (strJson "api"))
  let port ← entryPort (getD m.data "entrypoint" (.obj []))
  let host ← restHost netlocOk type m.data
  let items ← operations (getD m.data "operations" (.arr []))
  let ops ← items.foldlM (addOperation host) []
  let ops ← injectRefresh (get m.data "secrets") ops
  return catalog.set id ⟨port, type, ops, some (m.path, H.digest m.raw)⟩

/-- `from_tools_root` and `from_sources`, of the manifests they find, in order. -/
def fromManifests (H : Hash) (netlocOk : PyStr → Bool) (manifests : List Manifest) : Reading Registry :=
  manifests.foldlM (addToml H netlocOk) []

/-! ## Listing -/

/-- An item of `list_ops`. -/
structure Listed where
  tool : String
  op : String
  type : ToolType
  risk : Json
  description : Json

def listOps (registry : Registry) : List Listed :=
  registry.flatMap fun (tool, e) => e.ops.map fun (op, m) => ⟨tool, op, e.type, m.risk, m.description⟩

end Registry

end Toolstack.Broker
