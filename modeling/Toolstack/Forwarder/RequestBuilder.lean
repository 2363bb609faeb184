import Toolstack.Broker.Redaction
import Toolstack.Forwarder.Config
import Toolstack.Interleave.Sequential

/-! `toolstack_forwarder/request_builder.py`: an operation, the caller's arguments and the
operator's secrets become one outbound request. Reading a secret is the only call it makes. -/

namespace Toolstack.Forwarder

open Template Url
open Interleave (Prog)
open Interleave.Prog (raise)
open Broker.Redaction (isSpace)

/-- A `RequestBuildError`, the `UnicodeEncodeError` of a lone surrogate, or the `ValueError` of a
URL that does not parse. -/
inductive BuildError
  | request (code : String) (detail : PyStr) (fields : Table := [])
  | unicodeEncode
  | badUrl

abbrev Bytes := List Nat

structure OutboundRequest where
  method : PyStr
  url : PyStr
  headers : List (PyStr × PyStr)
  body : Option Bytes
  deriving DecidableEq

/-- `SecretClient.get(name)`, which answers nothing where it raises `KeyError`. -/
structure Get where
  name : PyStr

abbrev Build := Prog Get (fun _ => Option PyStr) BuildError

def refusal (code detail : String) (fields : Table := []) : BuildError := .request code (py detail) fields

def named (name : PyStr) : Table := [(py "name", .str name)]

/-- A step that reads no secret. -/
def pureStep {α : Type} : Except BuildError α → Build α
  | .ok a => return a
  | .error e => raise e

/-! ## Variables -/

/-- `raw.strip()`. -/
def strip (raw : PyStr) : PyStr := ((raw.dropWhile isSpace).reverse.dropWhile isSpace).reverse

/-- `s.encode("utf-8")`. -/
def encode (s : PyStr) : Except BuildError Bytes :=
  if s.any CodePoint.isSurrogate then .error .unicodeEncode else .ok (s.flatMap utf8)

/-- `/` and the backslash. -/
def forbiddenPathChar (c : CodePoint) : Bool := c = ch '/' || c.val == 0x5C

def validateVariableCommon (name raw : PyStr) (context : String) : Except BuildError PyStr := do
  let value := strip raw
  let invalid (detail : String) : Except BuildError Unit :=
    throw (refusal "invalid_variable" (context ++ detail) (named name))
  if value = [] then invalid " variable is empty"
  if 4096 < (← encode value).length then invalid " variable exceeds 4096 bytes"
  if value.any fun c => 0x7F < c.val then invalid " variable must be ASCII"
  return value

/-- The decoded text is `unquote`'s of ASCII text: an escaped byte past `0x7F` stands for the
character outside ASCII it decodes to. -/
def validatePathVariable (name raw : PyStr) : Except BuildError PyStr := do
  let value ← validateVariableCommon name raw "path"
  let invalid (detail : String) : Except BuildError Unit :=
    throw (refusal "invalid_variable" ("path variable contains " ++ detail) (named name))
  if value.any fun c => !pathPrintable c then invalid "whitespace or control characters"
  if value.any forbiddenPathChar then invalid "a forbidden character"
  if py ".." <:+: value then invalid "'..'"
  let decoded := decode value
  if decoded.any fun c => !pathPrintable c then invalid "an encoded forbidden character"
  if decoded.any forbiddenPathChar then invalid "an encoded forbidden character"
  if py ".." <:+: decoded then invalid "'..'"
  return value

def validateQueryVariable (name raw : PyStr) : Except BuildError PyStr := do
  let value ← validateVariableCommon name raw "query"
  if value.any fun c => !queryPrintable c then
    throw (refusal "invalid_variable" "query variable contains a control character" (named name))
  return value

def missingVariable (context : String) (name : PyStr) : BuildError :=
  .request "missing_variable" (py ("missing " ++ context ++ " variable '") ++ name ++ py "'") (named name)

/-! ## Path and query -/

/-- The fill of a path hole; a match past the query's start never comes up in the path part. -/
def pathFill (vars : Table) (name : PyStr) : Except BuildError PyStr :=
  match Json.find? vars name with
  | some (.str value) => return quote (← validatePathVariable name value)
  | _ => throw (missingVariable "path" name)

def queryFill (vars : Table) (name : PyStr) : Except BuildError PyStr :=
  match Json.find? vars name with
  | some (.str value) => return quote (← validateQueryVariable name value)
  | _ => throw (missingVariable "query" name)

/-- One pair of the query, or nothing where a variable it names was left out. -/
def hydratePair (vars : Table) (pair : PyStr) : Except BuildError (Option PyStr) := do
  let ps := pieces templateVar pair
  if names ps = [] then return some pair
  if (names ps).any fun name => (Json.find? vars name).isNone then return none
  (names ps).forM fun name =>
    match Json.find? vars name with
    | some (.str _) => return
    | _ => throw (missingVariable "query" name)
  return some (← sub (queryFill vars) ps)

def hydrateQuery (query : PyStr) (vars : Table) : Except BuildError PyStr := do
  let pairs ← ((query.splitOn (ch '&')).filter (· ≠ [])).mapM (hydratePair vars)
  return [ch '&'].intercalate pairs.reduceOption

/-- A member that is an object, absent or null. -/
def member (arguments : Table) (key code : String) : Except BuildError Table :=
  match Json.find? arguments (py key) with
  | none | some .null => return []
  | some (.obj kvs) => return kvs
  | some _ => throw (refusal code (key ++ " must be an object"))

def hydratePath (op : Operation) (arguments : Table) : Except BuildError PyStr := do
  let vars ← member arguments "variables" "invalid_variables"
  let (pathPrefix, querySuffix) := cut (ch '?') op.path
  let renderedPrefix ← sub (pathFill vars) (pieces templateVar pathPrefix)
  if ch '?' ∉ op.path then return renderedPrefix
  let renderedQuery ← hydrateQuery querySuffix vars
  return if renderedQuery ≠ [] then renderedPrefix ++ ch '?' :: renderedQuery else renderedPrefix

def joinUrl (netlocOk : PyStr → Bool) (baseUrl path : PyStr) : Except BuildError PyStr :=
  match urlsplit netlocOk baseUrl, urlsplit netlocOk path with
  | some base, some rel =>
    return ({ base with path := rstripSlash base.path ++ rel.path, query := rel.query, fragment := [] } :
      SplitUrl).unsplit
  | _, _ => throw .badUrl

/-! ## Headers -/

def refuseCallerRefs (found : Bool) : Except BuildError Unit :=
  if found then
    throw (refusal "caller_secret_reference"
      "caller secret references are not supported; configure operator headers or body_template with allowed_secrets")
  else return

def readSecret (name : PyStr) : Build PyStr := do
  match ← Prog.perform (Get.mk name) with
  | some value => return value
  | none => raise (refusal "missing_secret" "configured secret is unavailable")

def substituteSecrets (text : PyStr) (allowed : List PyStr) : Build PyStr := do
  let out ← sub (fun name =>
    if name ∉ allowed then
      raise (refusal "secret_not_allowed" "configured secret is not allowed for this operation")
    else readSecret name) (pieces secretRef text)
  if secretMarker <:+: out then
    raise (refusal "invalid_secret_ref" "secret reference must be \x7b\x7bsecret:NAME\x7d\x7d")
  else return out

/-- `headers[name] = value`. -/
def assign (headers : List (PyStr × PyStr)) (name value : PyStr) : List (PyStr × PyStr) :=
  if headers.any fun h => h.1 = name then
    headers.map fun h => if h.1 = name then (name, value) else h
  else headers ++ [(name, value)]

def callerHeader (op : Operation) (headers : List (PyStr × PyStr)) (name : PyStr) (value : Json) :
    Except BuildError (List (PyStr × PyStr)) := do
  if !headerName name then
    throw (refusal "invalid_header" "header name is invalid" (named name))
  if name.map lower ∉ op.allowedHeaders then
    throw (refusal "header_not_allowed" "header is not allowed for this operation" (named name))
  let .str value := value
    | throw (refusal "invalid_header" "header value must be a string" (named name))
  refuseCallerRefs (secretMarker <:+: value)
  if name.map lower ∈ op.headers.map (fun h => h.1.map lower) then
    throw (refusal "header_not_allowed" "operator-owned headers cannot be overridden")
  if value.any isControl then
    throw (refusal "invalid_header" "header value contains a control character" (named name))
  return assign headers name value

def callerHeaders (op : Operation) (arguments : Table) : Except BuildError (List (PyStr × PyStr)) := do
  let raw ← member arguments "headers" "invalid_headers"
  raw.foldlM (fun headers h => callerHeader op headers h.1 h.2) []

def operatorHeader (op : Operation) (headers : List (PyStr × PyStr)) (name template : PyStr) :
    Build (List (PyStr × PyStr)) := do
  let value ← substituteSecrets template op.allowedSecrets
  if value.any isControl then
    raise (refusal "invalid_header" "configured header contains a control character")
  else return assign headers name value

def buildHeaders (op : Operation) (arguments : Table) : Build (List (PyStr × PyStr)) := do
  let headers ← pureStep (callerHeaders op arguments)
  op.headers.foldlM (fun headers h => operatorHeader op headers h.1 h.2) headers

/-! ## Body -/

def sextet (c : CodePoint) : Option Nat :=
  let n := c.val
  if 0x41 ≤ n ∧ n ≤ 0x5A then some (n - 0x41)
  else if 0x61 ≤ n ∧ n ≤ 0x7A then some (n - 0x47)
  else if 0x30 ≤ n ∧ n ≤ 0x39 then some (n + 4)
  else if n = 0x2B then some 62
  else if n = 0x2F then some 63
  else none

/-- `base64.b64decode(s, validate=True)`; nothing where it raises. -/
def b64decode : PyStr → Option Bytes
  | [] => some []
  | a :: b :: c :: d :: s => do
    let x ← sextet a
    let y ← sextet b
    if s = [] ∧ c = ch '=' ∧ d = ch '=' then return [x * 4 + y / 16]
    let z ← sextet c
    if s = [] ∧ d = ch '=' then return [x * 4 + y / 16, y % 16 * 16 + z / 4]
    let w ← sextet d
    let rest ← b64decode s
    return (x * 4 + y / 16) :: (y % 16 * 16 + z / 4) :: (z % 4 * 64 + w) :: rest
  | _ => none

/-- The caller's body, where it is a string; a reference to a secret in it is refused. -/
def callerBody (arguments : Table) : Except BuildError (Option PyStr) :=
  match Json.find? arguments (py "body") with
  | some (.str body) => do
    refuseCallerRefs (secretMarker <:+: body)
    return some body
  | _ => return none

/-- The bytes of a body for its kind. -/
def bodyBytes (kind : BodyKind) (body : Option PyStr) (maxBody : Nat) : Except BuildError (Option Bytes) := do
  if kind = .none then return none
  let some body := body | throw (refusal "missing_body" "this operation requires body as a string")
  let data ← if kind = .text then encode body else
    match b64decode body with
    | none => throw (refusal "invalid_body" "binary body must be base64")
    | some data => do
      refuseCallerRefs (secretMarker.flatMap utf8 <:+: data)
      pure data
  if maxBody < data.length then
    throw (refusal "body_too_large" "body exceeds configured limit" [(py "limit_bytes", .int maxBody)])
  return some data

/-- The operator's template goes for the body, where there is one. -/
def bodyText (op : Operation) (present : Bool) (given : Option PyStr) : Build (Option PyStr) :=
  match op.bodyTemplate with
  | some template =>
    if present then raise (refusal "body_not_allowed" "operator-owned body cannot be overridden")
    else some <$> substituteSecrets template op.allowedSecrets
  | none => return given

def buildBody (op : Operation) (arguments : Table) (maxBody : Nat) : Build (Option Bytes) := do
  let present := (Json.find? arguments (py "body")).isSome
  let given ← pureStep (callerBody arguments)
  let body ← bodyText op present given
  if op.bodyKind = .none ∧ present then
    raise (refusal "body_not_allowed" "this operation does not accept a body")
  else pureStep (bodyBytes op.bodyKind body maxBody)

/-! ## Requests -/

def buildUrl (netlocOk : PyStr → Bool) (config : RestConfig) (op : Operation) (arguments : Table) :
    Except BuildError PyStr := do
  joinUrl netlocOk config.baseUrl (← hydratePath op arguments)

/-- The operation's content type goes over any other for a request with a body. -/
def withContentType (op : Operation) (body : Option Bytes) (headers : List (PyStr × PyStr)) :
    List (PyStr × PyStr) :=
  match body, op.bodyContentType with
  | some _, some (c :: s) => assign headers (py "Content-Type") (c :: s)
  | _, _ => headers

def buildRequest (netlocOk : PyStr → Bool) (config : RestConfig) (opName : PyStr) (arguments : Json)
    (maxBody : Nat) : Build OutboundRequest := do
  let .obj arguments := arguments
    | raise (refusal "invalid_arguments" "arguments must be an object")
  let some op := config.operation? opName
    | raise (refusal "unknown_op" "unknown rest operation" [(py "op", .str opName)])
  let url ← pureStep (buildUrl netlocOk config op arguments)
  let headers ← buildHeaders op arguments
  let body ← buildBody op arguments maxBody
  return { method := op.verb.name, url, headers := withContentType op body headers, body }

/-- The client answers from a map of resolved secrets. -/
def resolve (o : Get) (secrets : PyStr → Option PyStr) : Option PyStr × (PyStr → Option PyStr) :=
  (secrets o.name, secrets)

/-- The request that the secrets at hand give. -/
def build (netlocOk : PyStr → Bool) (config : RestConfig) (opName : PyStr) (arguments : Json)
    (maxBody : Nat) (secrets : PyStr → Option PyStr) :
    Interleave.Ran Get (fun _ => Option PyStr) BuildError OutboundRequest (PyStr → Option PyStr) :=
  (buildRequest netlocOk config opName arguments maxBody).run resolve secrets

theorem run_pureStep {α : Type} {x : Except BuildError α} {secrets : PyStr → Option PyStr} {a : α} :
    ((pureStep x).run resolve secrets).result = .ok a ↔ x = .ok a := by
  cases x <;> simp [pureStep]

end Toolstack.Forwarder
