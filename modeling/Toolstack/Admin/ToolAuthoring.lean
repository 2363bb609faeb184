import Toolstack.Broker.Manifest
import Toolstack.Broker.Redaction

/-! `admin/tool_authoring.py`: the editor's form of a manifest, its checks and its text. A function
that raises answers `none`. -/

namespace Toolstack.Admin.ToolAuthoring

open Url
open Broker (ApprovalSummary.validateFields Registry.lowerHost)

/-! ## Drafts -/

structure Arg where
  name : PyStr
  type : PyStr
  required : Bool
  description : PyStr
  deriving DecidableEq

structure Rule where
  secretName : PyStr
  responseType : PyStr
  extractPath : PyStr
  matchStatus : PyStr
  deriving DecidableEq

/-- What an operation of a REST tool has besides. The raw values are checked, not coerced. -/
structure RestFields where
  verb : PyStr
  path : PyStr
  allowedHeaders : List PyStr
  headers : Json
  allowedSecrets : Json
  bodyTemplate : Json
  bodyKind : PyStr
  bodyContentType : PyStr
  bodySubstitution : Json
  redactResponseBody : Json
  redactResponseHeaders : Json
  secretUpdateRules : List Rule

/-- `approvalFields` is absent, or the raw value. -/
structure Operation where
  approvalFields : Option Json
  name : PyStr
  risk : PyStr
  description : PyStr
  args : List Arg
  rest : Option RestFields

structure Secret where
  name : PyStr
  field : PyStr
  item : PyStr
  writable : Bool
  deriving DecidableEq

structure Draft where
  id : PyStr
  type : PyStr
  description : PyStr
  baseUrl : PyStr
  command : PyStr
  image : PyStr
  port : Option Int
  operations : List Operation
  secrets : List Secret

/-! ## Values -/

/-- What the builtins `str` and `int` make of the values a manifest has no use for: floats and
containers, and texts that are read as a number. `int` may raise past its handler. -/
structure Builtins where
  str : Json → PyStr
  int : Json → Option (Option Int)

/-- `str(x)`. -/
def str (B : Builtins) : Json → PyStr
  | .str s => s
  | .null => py "None"
  | .bool true => py "True"
  | .bool false => py "False"
  | .int n => py n.repr
  | v => B.str v

def strip (s : PyStr) : PyStr :=
  ((s.dropWhile Broker.Redaction.isSpace).reverse.dropWhile Broker.Redaction.isSpace).reverse

/-- `str(x if x is not None else "").strip()`. -/
def s (B : Builtins) : Json → PyStr
  | .null => []
  | v => strip (str B v)

/-- `int(x)`, and `None` where it raises a `TypeError` or a `ValueError`. -/
def int (B : Builtins) : Json → Option (Option Int)
  | .int n => some (some n)
  | .bool b => some (some (if b then 1 else 0))
  | .null | .arr _ | .obj _ => some none
  | v => B.int v

def get (data : List (PyStr × Json)) (key : String) : Json := (Json.find? data (py key)).getD .null

def getD (data : List (PyStr × Json)) (key : String) (default : Json) : Json :=
  (Json.find? data (py key)).getD default

/-- `s(x) or default`. -/
def sOr (B : Builtins) (v : Json) (default : String) : PyStr := if s B v = [] then py default else s B v

/-- What `for x in v or []` goes over. -/
def items (v : Json) : Option (List Json) :=
  if !v.truthy then some []
  else
    match v with
    | .arr xs => some xs
    | .str s => some (s.map fun c => .str [c])
    | .obj kvs => some (kvs.map fun kv => .str kv.1)
    | _ => none

/-- Each item of a list of tables; a blank one is dropped. -/
def rows {α : Type} (row : List (PyStr × Json) → Option (Option α)) (v : Json) : Option (List α) := do
  let xs ← items v
  let rows ← xs.mapM fun
    | .obj kvs => row kvs
    | _ => none
  return rows.filterMap id

/-! ## `normalize` -/

def restVerbRisk (verb : PyStr) : PyStr :=
  if verb = py "GET" then py "read" else if verb = py "DELETE" then py "destructive" else py "write"

/-- The variables of a path template, sorted. -/
def pathVariables (path : PyStr) : List PyStr :=
  (Template.names (Template.pieces Forwarder.templateVar path)).dedup.insertionSort (· ≤ ·)

def commaList (xs : List PyStr) : PyStr := (py ", ").intercalate xs

def restEnvelopeArgs (path : PyStr) (allowedHeaders : List PyStr) (bodyKind : PyStr) : List Arg :=
  (if pathVariables path = [] then []
    else [⟨py "variables", py "object", true, py "Path variables: " ++ commaList (pathVariables path)⟩]) ++
  (if allowedHeaders = [] then []
    else [⟨py "headers", py "object", false, py "Allowed headers: " ++ commaList allowedHeaders⟩]) ++
  if bodyKind = py "none" then []
  else [⟨py "body", py "string", true, if bodyKind = py "text" then py "UTF-8 body" else py "base64 body"⟩]

section Normalize
variable (B : Builtins)

def normArg (a : List (PyStr × Json)) : Option (Option Arg) :=
  if s B (get a "name") = [] then some none
  else some (some ⟨s B (get a "name"), sOr B (get a "type") "string", (get a "required").truthy,
    s B (get a "description")⟩)

def normRule (r : List (PyStr × Json)) : Option (Option Rule) :=
  if s B (get r "secret_name") = [] then some none
  else some (some ⟨s B (get r "secret_name"), sOr B (get r "response_type") "json",
    s B (get r "extract_path"), sOr B (get r "match_status") "2xx"⟩)

def normSecret (sec : List (PyStr × Json)) : Option (Option Secret) :=
  if s B (get sec "name") = [] then some none
  else some (some ⟨s B (get sec "name"), s B (get sec "field"), s B (get sec "item"),
    (get sec "writable").truthy⟩)

/-- The fields of an operation of a REST tool. -/
def normRest (o : List (PyStr × Json)) : Option RestFields := do
  let upper := (s B (get o "verb")).flatMap Forwarder.upper
  let verb := if upper = [] then py "GET" else upper
  let bodyKind := sOr B (get o "body_kind") (if verb = py "GET" ∨ verb = py "DELETE" then "none" else "text")
  let headers ← items (get o "allowed_headers")
  let rules ← rows (normRule B) (get o "secret_update_rules")
  return {
    verb
    path := s B (get o "path")
    allowedHeaders := (headers.map (s B)).filter (· ≠ [])
    headers := getD o "headers" (.obj [])
    allowedSecrets := getD o "allowed_secrets" (.arr [])
    bodyTemplate := get o "body_template"
    bodyKind
    bodyContentType := s B (get o "body_content_type")
    bodySubstitution := getD o "body_substitution" (.bool false)
    redactResponseBody := get o "redact_response_body"
    redactResponseHeaders := get o "redact_response_headers"
    secretUpdateRules := rules }

/-- The kind of body the caller supplies: a template leaves none to supply. -/
def RestFields.envelopeKind (r : RestFields) : PyStr := if r.bodyTemplate matches .null then r.bodyKind else py "none"

def normOperation (rest : Bool) (o : List (PyStr × Json)) : Option (Option Operation) := do
  if s B (get o "name") = [] then return none
  else if rest then do
    let r ← normRest B o
    return some {
      approvalFields := Json.find? o (py "approval_fields")
      name := s B (get o "name")
      risk := restVerbRisk r.verb
      description := s B (get o "description")
      args := restEnvelopeArgs r.path r.allowedHeaders r.envelopeKind
      rest := some r }
  else do
    let args ← rows (normArg B) (get o "args")
    return some {
      approvalFields := Json.find? o (py "approval_fields")
      name := s B (get o "name")
      risk := sOr B (get o "risk") "read"
      description := s B (get o "description")
      args := args
      rest := none }

def forwarderCommand : PyStr := py "python3 -m toolstack_forwarder"

def normalize (data : List (PyStr × Json)) : Option Draft := do
  let type := sOr B (get data "type") "api"
  let operations ← rows (normOperation B (type = py "rest")) (get data "operations")
  let secrets ← rows (normSecret B) (get data "secrets")
  let port ← int B (get data "port")
  let command := s B (get data "command")
  return {
    id := s B (get data "id")
    type
    description := s B (get data "description")
    baseUrl := s B (get data "base_url")
    command := if type = py "rest" ∧ command = [] then forwarderCommand else command
    image := s B (get data "image")
    port, operations, secrets }

end Normalize

/-! ## `validate` -/

/-- A match up to `$`, which is also found before a line feed at the end. -/
def matchesLine (p : PyStr → Bool) (v : PyStr) : Bool :=
  p (if v.getLast? = some (ch '\n') then v.dropLast else v)

/-- `_NAME_RE`. -/
def nameRe (v : PyStr) : Bool := matchesLine (fun v => v ≠ [] && v.all fun c => Forwarder.isAlnum c || c = ch '_') v

/-- `_SECRET_RE`. -/
def secretRe (v : PyStr) : Bool :=
  matchesLine (fun v => v ≠ [] && v.all fun c => Forwarder.isNameChar c || c = ch '.') v

/-- `_ITEM_RE`. -/
def itemRe (v : PyStr) : Bool :=
  matchesLine (fun v => v ≠ [] && v.all fun c => Forwarder.isNameChar c || c = ch '.' || c = ch '/') v

def toolTypes : List PyStr := [py "api", py "mcp", py "rest"]

def risks : List PyStr := [py "read", py "write", py "destructive"]

def restVerbs : List PyStr := [py "GET", py "POST", py "PUT", py "PATCH", py "DELETE"]

def restBodyKinds : List PyStr := [py "none", py "text", py "binary"]

def ruleResponseTypes : List PyStr := [py "json", py "xml", py "form", py "plaintext"]

/-- One message, where there is a problem. -/
def problem (bad : Bool) (message : PyStr) : List PyStr := if bad then [message] else []

def baseUrlErrors (netlocOk : PyStr → Bool) (baseUrl : PyStr) : Option (List PyStr) := do
  let split ← urlsplit netlocOk baseUrl
  if (split.scheme ≠ py "http" ∧ split.scheme ≠ py "https") ∨ !split.hasHost then
    return [py "rest base_url must be an absolute http(s) URL with a host"]
  else if split.hasUser then return [py "rest base_url must not embed credentials"]
  else if split.query ≠ [] ∨ split.fragment ≠ [] then
    return [py "rest base_url must not include a query or fragment"]
  else return []

/-- `approval_summary.validate_fields`. -/
def validateFields (raw : Json) : Option (List PyStr) :=
  (Forwarder.strings? raw).bind ApprovalSummary.validateFields

def restOperation (name tail : PyStr) : PyStr := py "rest operation '" ++ name ++ py "' " ++ tail

def pathErrors (name path : PyStr) : List PyStr :=
  let pathPart := (cut (ch '?') path).1
  if pathPart.head? ≠ some (ch '/') ∨ pathPart[1]? = some (ch '/') then
    [restOperation name (py "path must start with a single '/'")]
  else if ch '#' ∈ path then [restOperation name (py "path must not include fragment text")]
  else if !path.all Forwarder.pathPrintable then
    [restOperation name (py "path must be printable ASCII without spaces")]
  else []

def restFieldErrors (name : PyStr) (r : RestFields) : List PyStr :=
  problem (r.verb ∉ restVerbs) (restOperation name (py "verb must be one of " ++ commaList restVerbs)) ++
  pathErrors name r.path ++
  problem (r.bodyKind ∉ restBodyKinds)
    (restOperation name (py "body_kind must be one of " ++ commaList restBodyKinds)) ++
  r.allowedHeaders.flatMap fun h =>
    problem (!Forwarder.idName h) (restOperation name (py "allowed header '" ++ h ++ py "' has invalid characters"))

/-- The checks of one operation; `seen` holds the names before it. -/
def operationErrors (rest : Bool) (seen : List PyStr) (o : Operation) : List PyStr :=
  problem (o.approvalFields.any fun raw => (validateFields raw).isNone)
    (py "approval_fields must be <=32 unique non-root RFC6901 pointers (<=256 characters)") ++
  problem (!nameRe o.name)
    (py "operation name '" ++ o.name ++ py "' may contain only letters, digits and _") ++
  problem (o.name ∈ seen) (py "duplicate operation '" ++ o.name ++ py "'") ++
  problem (o.risk ∉ risks)
    (py "operation '" ++ o.name ++ py "' risk must be one of " ++ commaList risks) ++
  (match o.rest with
    | some r => if rest then restFieldErrors o.name r else []
    | none => []) ++
  o.args.flatMap fun a => problem (!nameRe a.name)
    (py "argument '" ++ a.name ++ py "' in '" ++ o.name ++ py "' may contain only letters, digits and _")

def operationsErrors (rest : Bool) : List PyStr → List Operation → List PyStr
  | _, [] => []
  | seen, o :: os => operationErrors rest seen o ++ operationsErrors rest (o.name :: seen) os

def secretErrors (confirm : Bool) (id : PyStr) (sec : Secret) : List PyStr :=
  problem (sec.item ≠ [] && sec.item ≠ id && !confirm)
    (py "secret '" ++ sec.name ++ py "' uses another item; explicitly confirm secret items") ++
  problem (!secretRe sec.name) (py "secret name '" ++ sec.name ++ py "' has invalid characters") ++
  problem (sec.field = []) (py "secret '" ++ sec.name ++ py "' needs a backend field") ++
  problem (sec.item ≠ [] && !itemRe sec.item)
    (py "secret '" ++ sec.name ++ py "' path has invalid characters")

/-- What `validate_secret_placement` reads of an operation. -/
def RestFields.table (r : RestFields) : Forwarder.Table :=
  [(py "allowed_secrets", r.allowedSecrets), (py "headers", r.headers), (py "body_template", r.bodyTemplate)]

/-- The message of a `ConfigError` without a field. -/
def configMessage : Forwarder.LoadError → PyStr
  | .config _ message _ => py message
  | .unhashable | .badUrl => []

def placementErrors (declared : List PyStr) (r : RestFields) : List PyStr :=
  match Forwarder.validateSecretPlacement r.table declared (if r.bodyKind = py "text" then .text else .none) with
  | .error e => [configMessage e]
  | .ok (headers, _, _) =>
    let lower := fun h : PyStr => h.map Registry.lowerHost
    problem (headers.any fun h => lower h.1 ∈ r.allowedHeaders.map lower)
      (py "operator headers must not also appear in allowed_headers")

def flagErrors (name : PyStr) (rules : List Rule) (flag : String) (v : Json) : List PyStr :=
  match v with
  | .bool _ => []
  | v =>
    if rules ≠ [] then [restOperation name (py "writeback needs explicit " ++ py flag ++ py " decision")]
    else problem (!(v matches .null)) (restOperation name (py flag ++ py " must be boolean"))

def ruleErrors (name : PyStr) (writable : List PyStr) (rule : Rule) : List PyStr :=
  problem (rule.secretName ∉ writable) (restOperation name
    (py "secret_update_rule targets non-writable secret '" ++ rule.secretName ++ py "'")) ++
  problem (rule.responseType ∉ ruleResponseTypes) (restOperation name
    (py "secret_update_rule response_type must be one of " ++ commaList ruleResponseTypes)) ++
  problem (rule.extractPath = []) (restOperation name (py "secret_update_rule needs an extract_path")) ++
  problem (rule.matchStatus = []) (restOperation name (py "secret_update_rule needs a match_status"))

def writebackErrors (secrets : List Secret) (o : Operation) : List PyStr :=
  match o.rest with
  | none => []
  | some r =>
    problem (!(r.bodySubstitution matches .bool false)) (py "body_substitution is no longer supported; move secret references to operator headers or body_template and declare allowed_secrets") ++
    placementErrors (secrets.map Secret.name) r ++
    flagErrors o.name r.secretUpdateRules "redact_response_body" r.redactResponseBody ++
    flagErrors o.name r.secretUpdateRules "redact_response_headers" r.redactResponseHeaders ++
    r.secretUpdateRules.flatMap (ruleErrors o.name ((secrets.filter Secret.writable).map Secret.name))

def validate (netlocOk : PyStr → Bool) (d : Draft) (confirmSecretItems : Bool := false) : Option (List PyStr) := do
  let rest : Bool := d.type = py "rest"
  let baseUrl ← if rest then baseUrlErrors netlocOk d.baseUrl else some []
  return (if !Forwarder.idName d.id then
      [py "id must start alphanumeric and contain only letters, digits, _ or - (no dots)"]
    else problem (64 < d.id.length) (py "id must be at most 64 characters")) ++
    problem (d.type ∉ toolTypes) (py "type must be one of " ++ commaList toolTypes) ++
    baseUrl ++
    problem (!d.port.any fun n => 1 ≤ n && n ≤ 65535) (py "port must be an integer between 1 and 65535") ++
    problem d.operations.isEmpty (py "add at least one operation") ++
    operationsErrors rest [] d.operations ++
    d.secrets.flatMap (secretErrors confirmSecretItems d.id) ++
    if rest then d.operations.flatMap (writebackErrors d.secrets) else []

/-- `entrypoint_error`, where `dockerfile` says whether the directory has one. -/
def entrypointError (docker dockerfile : Bool) (d : Draft) : Option String :=
  if d.type = py "rest" then none
  else if docker then
    if d.image = [] ∧ !dockerfile then
      some "the docker runner needs an image or a Dockerfile in the tool directory (a process command alone won't run under docker)"
    else none
  else if d.command = [] then some "the process runner needs an entrypoint command"
  else none

/-! ## `to_toml` -/

/-- What `_s` writes for one character. -/
def escape (c : CodePoint) : PyStr :=
  if c = ch '\\' then py "\\\\"
  else if c = ch '"' then py "\\\""
  else if c = ch '\n' then py "\\n"
  else if c = ch '\r' then py "\\r"
  else if c = ch '\t' then py "\\t"
  else [c]

/-- `_s`. -/
def quote (v : PyStr) : PyStr := py "\"" ++ v.flatMap escape ++ py "\""

def boolText (b : Bool) : PyStr := if b then py "true" else py "false"

/-- `key = value`. -/
def pair (key : String) (value : PyStr) : PyStr := py key ++ py " = " ++ value

def inlineTable (parts : List PyStr) : PyStr := py "\x7b " ++ commaList parts ++ py " \x7d"

def array (parts : List PyStr) : PyStr := py "[ " ++ commaList parts ++ py " ]"

/-- A line that is left out where there is nothing to say. -/
def optional (present : Bool) (line : PyStr) : List PyStr := if present then [line] else []

def argInline (a : Arg) : PyStr :=
  inlineTable ([pair "name" (quote a.name), pair "type" (quote a.type), pair "required" (boolText a.required)] ++
    optional (a.description ≠ []) (pair "description" (quote a.description)))

def ruleInline (r : Rule) : PyStr :=
  inlineTable [pair "secret_name" (quote r.secretName), pair "response_type" (quote r.responseType),
    pair "extract_path" (quote r.extractPath), pair "match_status" (quote r.matchStatus)]

section ToToml
variable (B : Builtins)

def headerLines : Json → Option (List PyStr)
  | .obj [] => some []
  | .obj kvs =>
    some [pair "headers" (inlineTable (kvs.map fun kv => quote kv.1 ++ py " = " ++ quote (str B kv.2)))]
  | v => if v.truthy then none else some []

def allowedSecretLines (v : Json) : Option (List PyStr) :=
  (items v).map fun xs => optional (!xs.isEmpty) (pair "allowed_secrets" (array (xs.map fun x => quote (str B x))))

def flagLine (flag : String) : Json → List PyStr
  | .bool b => [pair flag (boolText b)]
  | _ => []

/-- The lines of a REST operation after its arguments. -/
def restLines (r : RestFields) : Option (List PyStr) := do
  let headers ← headerLines B r.headers
  let secrets ← allowedSecretLines B r.allowedSecrets
  return optional (r.allowedHeaders ≠ []) (pair "allowed_headers" (array (r.allowedHeaders.map quote))) ++
    [pair "body_kind" (quote r.bodyKind)] ++
    optional (r.bodyContentType ≠ []) (pair "body_content_type" (quote r.bodyContentType)) ++
    headers ++ secrets ++
    optional (!(r.bodyTemplate matches .null)) (pair "body_template" (quote (str B r.bodyTemplate))) ++
    optional r.bodySubstitution.truthy (py "body_substitution = true") ++
    flagLine "redact_response_body" r.redactResponseBody ++
    flagLine "redact_response_headers" r.redactResponseHeaders ++
    optional (r.secretUpdateRules ≠ [])
      (pair "secret_update_rules" (array (r.secretUpdateRules.map ruleInline)))

def approvalLines : Option Json → Option (List PyStr)
  | none => some []
  | some raw => (validateFields raw).map fun fields =>
    [pair "approval_fields" (py "[" ++ commaList (fields.map quote) ++ py "]")]

def operationLines (rest : Bool) (o : Operation) : Option (List PyStr) := do
  let approval ← approvalLines o.approvalFields
  let rest : Option RestFields := if rest then o.rest else none
  let tail ← match rest with
    | some r => restLines B r
    | none => some []
  return [[], py "[[operations]]", pair "name" (quote o.name)] ++ approval ++
    (match rest with
      | some r => [pair "verb" (quote r.verb), pair "path" (quote r.path)]
      | none => []) ++
    [pair "risk" (quote o.risk)] ++
    optional (o.description ≠ []) (pair "description" (quote o.description)) ++
    optional (o.args ≠ []) (pair "args" (array (o.args.map argInline))) ++ tail

def secretLines (sec : Secret) : List PyStr :=
  [[], py "[[secrets]]", pair "name" (quote sec.name), pair "field" (quote sec.field)] ++
    optional (sec.item ≠ []) (pair "item" (quote sec.item)) ++
    optional sec.writable (py "writable = true")

def portText : Option Int → PyStr
  | some n => py n.repr
  | none => py "None"

/-- The lines before the operations. -/
def headLines (d : Draft) : List PyStr :=
  [pair "id" (quote d.id), pair "type" (quote d.type)] ++
    optional (d.description ≠ []) (pair "description" (quote d.description)) ++
    optional (d.type = py "rest") (pair "base_url" (quote d.baseUrl)) ++
    [[], py "[entrypoint]"] ++
    optional (d.command ≠ []) (pair "command" (quote d.command)) ++
    optional (d.image ≠ []) (pair "image" (quote d.image)) ++
    [pair "port" (portText d.port)]

def lines (d : Draft) : Option (List PyStr) := do
  let operations ← d.operations.mapM (operationLines B (d.type = py "rest"))
  return headLines d ++ operations.flatten ++ d.secrets.flatMap secretLines

def toToml (d : Draft) : Option PyStr := (lines B d).map fun ls => (py "\n").intercalate ls ++ py "\n"

end ToToml

/-! ## `read` -/

/-- The editor's dictionary of a parsed manifest. -/
def editorData (data : List (PyStr × Json)) : Option (List (PyStr × Json)) :=
  match getD data "entrypoint" (.obj []) with
  | .obj entry => some [
      (py "id", getD data "id" (.str [])),
      (py "type", getD data "type" (.str (py "api"))),
      (py "description", getD data "description" (.str [])),
      (py "base_url", getD data "base_url" (.str [])),
      (py "command", getD entry "command" (.str [])),
      (py "image", getD entry "image" (.str [])),
      (py "port", get entry "port"),
      (py "operations", getD data "operations" (.arr [])),
      (py "secrets", getD data "secrets" (.arr []))]
  | _ => none

/-- `read`, from the text of the manifest on. -/
def read (B : Builtins) (loads : PyStr → Option (List (PyStr × Json))) (text : PyStr) : Option Draft := do
  let data ← loads text
  let edited ← editorData data
  normalize B edited

end Toolstack.Admin.ToolAuthoring
