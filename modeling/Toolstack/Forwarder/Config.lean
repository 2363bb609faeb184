import Toolstack.UrlSplit

/-! `toolstack_forwarder/config.py`: load and validate a rest tool's manifest. The parsed TOML is
JSON data; a date in it is, like a float, neither a string, an integer, an array nor a table. -/

namespace Toolstack.Forwarder

open Template Url

/-- The field and message of a `ConfigError`, and the value the message shows; or another
exception that reading the manifest raises. -/
inductive LoadError
  | config (field : Option String) (message : String) (shown : Option Json := none)
  | unhashable
  | badUrl

abbrev Table := List (PyStr × Json)

abbrev Load := Except LoadError

def err {α : Type} (field message : String) (shown : Option Json := none) : Load α :=
  throw (.config (some field) message shown)

/-! ## Lexical rules -/

def isAlnum (c : CodePoint) : Bool := isAlpha c || isDigit c

/-- `[A-Za-z0-9_-]`. -/
def isNameChar (c : CodePoint) : Bool := isAlnum c || c = ch '_' || c = ch '-'

/-- `_HEADER_RE`. -/
def headerName (s : PyStr) : Bool := s.head?.any isAlnum && s.all isNameChar

/-- `_ID_RE`, whose `$` also matches before a line feed at the end. -/
def idName (s : PyStr) : Bool :=
  headerName (if s.getLast? = some (ch '\n') then s.dropLast else s)

/-- `_SECRET_RE`. -/
def secretName (s : PyStr) : Bool := s ≠ [] && s.all isNameChar

/-- `_TEMPLATE_VAR`. -/
def templateVar : Pattern :=
  capture [ch '\x7b'] (fun c => isAlpha c || c = ch '_') (fun c => isAlnum c || c = ch '_') [ch '\x7d']

/-- `_SECRET_REF`. -/
def secretRef : Pattern := capture (py "\x7b\x7bsecret:") isNameChar isNameChar (py "\x7d\x7d")

/-- The text every secret reference starts with. -/
def secretMarker : PyStr := py "\x7b\x7bsecret:"

def pathPrintable (c : CodePoint) : Bool := 0x21 ≤ c.val && c.val ≤ 0x7E

def queryPrintable (c : CodePoint) : Bool := pathPrintable c || c = ch ' ' || c = ch '\''

/-- `ord(c) < 32 or ord(c) == 127`. -/
def isControl (c : CodePoint) : Bool := c.val < 0x20 || c.val == 0x7F

/-- `str.upper` of the characters whose upper case is ASCII text. -/
def upper (c : CodePoint) : PyStr :=
  if 0x61 ≤ c.val ∧ c.val ≤ 0x7A then [byte (c.val - 0x20)]
  else match c.val with
    | 0x131 => py "I"
    | 0x17F => py "S"
    | 0xDF => py "SS"
    | 0xFB00 => py "FF"
    | 0xFB01 => py "FI"
    | 0xFB02 => py "FL"
    | 0xFB03 => py "FFI"
    | 0xFB04 => py "FFL"
    | 0xFB05 | 0xFB06 => py "ST"
    | _ => [c]

/-! ## Declarations -/

inductive Verb
  | get | post | put | patch | delete
  deriving DecidableEq

def Verb.name : Verb → PyStr
  | get => py "GET"
  | post => py "POST"
  | put => py "PUT"
  | patch => py "PATCH"
  | delete => py "DELETE"

def verbs : List Verb := [.get, .post, .put, .patch, .delete]

inductive BodyKind
  | none | text | binary
  deriving DecidableEq

def BodyKind.name : BodyKind → PyStr
  | none => py "none"
  | text => py "text"
  | binary => py "binary"

def bodyKinds : List BodyKind := [.none, .text, .binary]

inductive ResponseType
  | json | xml | form | plaintext
  deriving DecidableEq

def ResponseType.name : ResponseType → PyStr
  | json => py "json"
  | xml => py "xml"
  | form => py "form"
  | plaintext => py "plaintext"

def ruleResponseTypes : List ResponseType := [.json, .xml, .form, .plaintext]

structure SecretDecl where
  name : PyStr
  field : PyStr
  writable : Bool := false

structure SecretUpdateRule where
  secretName : PyStr
  responseType : ResponseType
  extractPath : PyStr
  matchStatus : PyStr

structure Operation where
  name : PyStr
  risk : PyStr
  description : PyStr
  verb : Verb
  path : PyStr
  allowedHeaders : List PyStr
  bodyKind : BodyKind
  bodyContentType : Option PyStr
  bodySubstitution : Bool
  redactResponseBody : Bool := false
  redactResponseHeaders : Bool := false
  secretUpdateRules : List SecretUpdateRule := []
  headers : List (PyStr × PyStr) := []
  allowedSecrets : List PyStr := []
  bodyTemplate : Option PyStr := none

structure RestConfig where
  toolId : PyStr
  port : Option Int
  baseUrl : PyStr
  operations : List Operation
  secrets : List SecretDecl

/-- `config.operations.get(name)`. -/
def RestConfig.operation? (config : RestConfig) (name : PyStr) : Option Operation :=
  config.operations.find? fun op => op.name = name

/-! ## Fields -/

/-- `data.get(key, default)`. -/
def getD (data : Table) (key : String) (default : Json) : Json := (Json.find? data (py key)).getD default

def fieldPath (owner key : String) : String := if owner = "" then key else owner ++ "." ++ key

def string (data : Table) (key owner : String) : Load PyStr :=
  match Json.find? data (py key) with
  | some (.str (c :: s)) => return c :: s
  | _ => err (fieldPath owner key) "must be a non-empty string"

def boolean (data : Table) (key owner : String) : Load Bool :=
  match getD data key (.bool false) with
  | .bool b => return b
  | _ => err (fieldPath owner key) "must be a boolean"

/-- `value if isinstance(value, str) else default`. -/
def text (data : Table) (key default : String) : PyStr :=
  match Json.find? data (py key) with
  | some (.str s) => s
  | _ => py default

/-- The strings of a list that holds nothing else. -/
def strings? : Json → Option (List PyStr)
  | .arr xs => xs.mapM fun
    | .str s => some s
    | _ => none
  | _ => none

def validateBaseUrl (netlocOk : PyStr → Bool) (value : PyStr) : Load Unit :=
  match urlsplit netlocOk value with
  | none => throw .badUrl
  | some split => do
    if split.scheme ≠ py "http" ∧ split.scheme ≠ py "https" then err "base_url" "must use http or https"
    if !split.hasHost then err "base_url" "must include a host"
    if split.hasUser then err "base_url" "must not embed credentials"
    if split.query ≠ [] ∨ split.fragment ≠ [] then
      err "base_url" "must not include a query or fragment"

def validatePathTemplate (field : String) (value : PyStr) : Load Unit := do
  let (pathPart, queryPart) := cut (ch '?') value
  if pathPart.head? ≠ some (ch '/') ∨ pathPart[1]? = some (ch '/') then
    err field "must start with a single /"
  if ch '#' ∈ value then err field "must not include fragment text"
  if !pathPart.all pathPrintable then err field "path portion must be printable ASCII without spaces"
  if !queryPart.all queryPrintable then
    err field "query portion must be printable ASCII with spaces and single quotes allowed"
  let stripped := fill (fun _ => []) (pieces templateVar value)
  if ch '\x7b' ∈ stripped ∨ ch '\x7d' ∈ stripped then
    err field "only single-segment \x7bname\x7d path variables are supported"

/-! ## Secrets -/

def loadSecret (secrets : List SecretDecl) (raw : Json) (idx : Nat) : Load (List SecretDecl) := do
  let field := s!"secrets[{idx}]"
  match raw with
  | .obj item =>
    let name ← string item "name" field
    if !secretName name then err (field ++ ".name") "must match [A-Za-z0-9_-]+"
    if secrets.any fun s => s.name = name then
      err (field ++ ".name") "duplicate secret" (some (.str name))
    let secretField ← string item "field" field
    let writable ← boolean item "writable" field
    return secrets ++ [⟨name, secretField, writable⟩]
  | _ => err field "must be a table"

def loadSecrets : Json → Load (List SecretDecl)
  | .arr items => items.zipIdx.foldlM (fun secrets item => loadSecret secrets item.1 item.2) []
  | _ => err "secrets" "must be an array of tables"

/-! ## Templates of an operation -/

/-- The members of an operator-owned table of header templates; names are unique without case. -/
def headerTemplates (seen : List PyStr) : Table → Load (List (PyStr × PyStr))
  | [] => return []
  | (name, value) :: raw => do
    if !headerName name ∨ name.map lower ∈ seen then
      throw (.config none "operator header names must be valid and case-insensitively unique")
    match value with
    | .str value =>
      if value.any isControl then
        throw (.config none "operator header values must be strings without control characters")
      let rest ← headerTemplates (name.map lower :: seen) raw
      return (name, value) :: rest
    | _ => throw (.config none "operator header values must be strings without control characters")

/-- Every secret reference of an operator template is well formed and allowed. -/
def checkTemplate (allowed : List PyStr) (template : PyStr) : Load Unit := do
  let ps := pieces secretRef template
  if secretMarker <:+: fill (fun _ => []) ps then
    throw (.config none "operator template contains an invalid secret reference")
  if ¬ names ps ⊆ allowed then
    throw (.config none "operator template references must be declared in allowed_secrets")

def validateSecretPlacement (item : Table) (declared : List PyStr) (bodyKind : BodyKind) :
    Load (List (PyStr × PyStr) × List PyStr × Option PyStr) := do
  let some allowed := (strings? (getD item "allowed_secrets" (.arr []))).filter (· ⊆ declared)
    | throw (.config none "allowed_secrets must be a list of declared tool secret names")
  let .obj raw := getD item "headers" (.obj [])
    | throw (.config none "headers must be an operator-owned table of strings")
  let headers ← headerTemplates [] raw
  let template ← match Json.find? item (py "body_template"), bodyKind with
    | none, _ | some .null, _ => pure none
    | some (.str template), .text => pure (some template)
    | _, _ => throw (.config none "body_template requires body_kind = text and a string template")
  (headers.map Prod.snd ++ template.toList).forM (checkTemplate allowed)
  return (headers, allowed, template)

/-! ## Operations -/

def loadRule (field : String) (writable : List PyStr) (raw : Json) (idx : Nat) :
    Load SecretUpdateRule := do
  let field := s!"{field}.secret_update_rules[{idx}]"
  match raw with
  | .obj item =>
    let secretName ← string item "secret_name" field
    if secretName ∉ writable then
      err (field ++ ".secret_name") "secret is not declared writable" (some (.str secretName))
    let response ← string item "response_type" field
    let some responseType := ruleResponseTypes.find? fun t => t.name = response
      | err (field ++ ".response_type") "must be json, xml, form, or plaintext"
    let extractPath ← string item "extract_path" field
    let matchStatus ← string item "match_status" field
    return ⟨secretName, responseType, extractPath, matchStatus⟩
  | _ => err field "must be a table"

def loadRules (opField : String) (writable : List PyStr) : Json → Load (List SecretUpdateRule)
  | .arr items => items.zipIdx.mapM fun item => loadRule opField writable item.1 item.2
  | _ => err (opField ++ ".secret_update_rules") "must be a list"

def loadBodyKind (field : String) (verb : Verb) : Option Json → Load BodyKind
  | none | some .null => return if verb = .get ∨ verb = .delete then .none else .text
  | some (.str kind) =>
    match bodyKinds.find? fun k => k.name = kind with
    | some k => return k
    | none => err (field ++ ".body_kind") "must be none, text, or binary"
  | some (.arr _) | some (.obj _) => throw .unhashable
  | some _ => err (field ++ ".body_kind") "must be none, text, or binary"

def loadContentType (field : String) (kind : BodyKind) (raw : Option Json) : Load (Option PyStr) := do
  let given ← match raw with
    | none | some .null => pure []
    | some (.str s) => pure s
    | some _ => err (field ++ ".body_content_type") "must be a string"
  match kind, given with
  | .none, _ => return none
  | .text, [] => return some (py "application/json")
  | .binary, [] => return some (py "application/octet-stream")
  | _, given => return some given

def loadAllowedHeaders (field : String) (raw : Json) : Load (List PyStr) := do
  let some headers := strings? raw | err (field ++ ".allowed_headers") "must be a list of strings"
  headers.mapM fun h => do
    if !headerName h then err (field ++ ".allowed_headers") "invalid header name" (some (.str h))
    return h.map lower

def loadOperation (secrets : List SecretDecl) (operations : List Operation) (raw : Json) (idx : Nat) :
    Load (List Operation) := do
  let field := s!"operations[{idx}]"
  let .obj item := raw | err field "must be a table"
  let name ← string item "name" field
  if !idName name then err (field ++ ".name") "must match [A-Za-z0-9][A-Za-z0-9_-]*"
  if name = py "refresh" ∨ name = py "refresh_one" then
    err (field ++ ".name") "reserved operation" (some (.str name))
  if operations.any fun op => op.name = name then
    err (field ++ ".name") "duplicate operation" (some (.str name))
  let verbText ← string item "verb" field
  let some verb := verbs.find? fun v => v.name = verbText.flatMap upper
    | err (field ++ ".verb") "must be one of DELETE, GET, PATCH, POST, PUT"
  let path ← string item "path" field
  validatePathTemplate (field ++ ".path") path
  let allowedHeaders ← loadAllowedHeaders field (getD item "allowed_headers" (.arr []))
  let bodyKind ← loadBodyKind field verb (Json.find? item (py "body_kind"))
  let bodyContentType ← loadContentType field bodyKind (Json.find? item (py "body_content_type"))
  let bodySubstitution ← boolean item "body_substitution" field
  if bodySubstitution then
    err field "body_substitution is no longer supported; move secret references to operator headers or body_template and declare allowed_secrets"
  let (headers, allowedSecrets, bodyTemplate) ←
    validateSecretPlacement item (secrets.map SecretDecl.name) bodyKind
  if headers.any fun h => h.1.map lower ∈ allowedHeaders then
    err field "operator headers must not also appear in allowed_headers"
  let redactResponseBody ← boolean item "redact_response_body" field
  let redactResponseHeaders ← boolean item "redact_response_headers" field
  let writable := (secrets.filter SecretDecl.writable).map SecretDecl.name
  let secretUpdateRules ← loadRules field writable (getD item "secret_update_rules" (.arr []))
  let decided (key : String) : Bool := (Json.find? item (py key)).isSome
  if secretUpdateRules ≠ [] ∧ ¬ (decided "redact_response_body" ∧ decided "redact_response_headers") then
    err field "writeback requires explicit redact_response_body and redact_response_headers decisions"
  return operations ++ [{
    name, verb, path, allowedHeaders, bodyKind, bodyContentType, bodySubstitution, redactResponseBody,
    redactResponseHeaders, secretUpdateRules, headers, allowedSecrets, bodyTemplate
    risk := text item "risk" "unknown"
    description := text item "description" "" }]

def loadOperations (secrets : List SecretDecl) : Json → Load (List Operation)
  | .arr items =>
    items.zipIdx.foldlM (fun operations item => loadOperation secrets operations item.1 item.2) []
  | _ => err "operations" "must be an array of tables"

def declaresRest (data : Table) : Bool :=
  match getD data "type" .null with
  | .str kind => kind = py "rest"
  | _ => false

def loadToolId (data : Table) : Load PyStr :=
  match getD data "id" .null with
  | .str s => if idName s then return s else err "id" "invalid tool id" (some (.str s))
  | v => err "id" "invalid tool id" (some v)

def loadPort (entry : Table) : Load (Option Int) :=
  match getD entry "port" .null with
  | .null => return none
  | .int n =>
    if 1 ≤ n ∧ n ≤ 65535 then return some n
    else err "entrypoint.port" "must be an integer 1-65535" (some (.int n))
  | v => err "entrypoint.port" "must be an integer 1-65535" (some v)

/-- `load_config`, from the parsed TOML on. -/
def loadConfig (netlocOk : PyStr → Bool) (data : Json) : Load RestConfig := do
  let .obj data := data | err "root" "must be a TOML table"
  let toolId ← loadToolId data
  if !declaresRest data then err "type" "forwarder config must declare type = \"rest\""
  let .obj entry := getD data "entrypoint" (.obj []) | err "entrypoint" "must be a table"
  let port ← loadPort entry
  let baseUrl ← string data "base_url" ""
  validateBaseUrl netlocOk baseUrl
  let secrets ← loadSecrets (getD data "secrets" (.arr []))
  let operations ← loadOperations secrets (getD data "operations" (.arr []))
  if operations = [] then err "operations" "rest tools must declare at least one operation"
  return { toolId, port, operations, secrets, baseUrl := rstripSlash baseUrl }

end Toolstack.Forwarder
