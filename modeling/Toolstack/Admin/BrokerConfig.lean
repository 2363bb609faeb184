import Toolstack.Admin.ToolAuthoring
import Toolstack.PyValue
import Toolstack.Toml.Reader

/-! `admin/broker_config.py`: the broker's run configuration, its update from the panel, and the file
it is kept in. -/

namespace Toolstack.Admin.BrokerConfig

open Url
open Broker (Registry.hostname)
open ToolAuthoring (strip)

/-! ## The interpreter and its libraries -/

/-- What `ipaddress` says of an address. -/
structure Ip where
  isLoopback : Bool
  isLinkLocal : Bool
  isMulticast : Bool
  isReserved : Bool
  isUnspecified : Bool

/-- `str` shows what is no string, number or boolean; `compare` says how a float lies to a number, and
nothing of `nan`; `absPath` is `os.path.abspath(os.path.expanduser(path))`. -/
structure Host where
  str : PyValue → PyStr
  int : PyStr → Option Int
  compare : PyFloat → Int → Option Ordering
  netlocOk : PyStr → Bool
  ipAddress : PyStr → Option Ip
  inetAton : PyStr → Option Ip
  defaultDbPath : PyStr
  absPath : PyStr → Option PyStr
  absPath_idem : ∀ p q, absPath p = some q → absPath q = some q

inductive Raised
  | value (message : String)
  | other
  deriving DecidableEq

variable (H : Host)

def str : PyValue → PyStr
  | .str s => s
  | .int n => py n.repr
  | .bool b => py (if b then "True" else "False")
  | v => H.str v

/-- How a value lies to a number; it must be one to be compared. -/
def order (v : PyValue) (n : Int) : Except Raised (Option Ordering) :=
  match v with
  | .int k => return some (Ord.compare k n)
  | .bool b => return some (Ord.compare (if b then 1 else 0) n)
  | .float x => return H.compare x n
  | _ => throw .other

def less (v : PyValue) (n : Int) : Except Raised Bool := return (← order H v n) = some .lt

/-- `m <= v <= n`. -/
def between (m : Int) (v : PyValue) (n : Int) : Except Raised Bool := do
  if (← order H v m) = some .eq ∨ (← order H v m) = some .gt then
    return (← order H v n) = some .lt ∨ (← order H v n) = some .eq
  return false

/-! ## The one field that points outward -/

def validateNodUrl (url : PyValue) : Except Raised Unit := do
  if !url.truthy then return
  let .str url := url | throw .other
  let some parsed := urlsplit H.netlocOk url | throw (.value "not a URL")
  if parsed.scheme ≠ py "http" ∧ parsed.scheme ≠ py "https" then throw (.value "nod_url must be an http(s) URL")
  if !parsed.hasHost then throw (.value "nod_url must include a host")
  let host := Registry.hostname parsed
  let ip := (H.ipAddress host).orElse fun _ => H.inetAton host
  let loopback := host = py "localhost" ∨ ip.any Ip.isLoopback
  if parsed.scheme = py "http" ∧ ¬loopback then
    throw (.value "nod_url must use https (plain http is allowed only for loopback)")
  if ip.any fun ip => ip.isLinkLocal || ip.isMulticast || ip.isReserved || ip.isUnspecified then
    throw (.value "nod_url host is not a routable address (link-local / metadata / reserved)")

/-! ## Configurations -/

/-- `BrokerRunConfig`. The fields of a file that was edited by hand may have any value. -/
structure Config where
  port : PyValue
  dbPath : PyValue
  toolsRoot : PyValue
  nodUrl : PyValue
  nodToken : PyValue
  nodChannel : PyValue
  approvalTtl : PyValue
  rateLimit : PyValue
  toolDirs : PyValue

def Config.asdict (c : Config) : List (String × PyValue) :=
  [("port", c.port), ("db_path", c.dbPath), ("tools_root", c.toolsRoot), ("nod_url", c.nodUrl),
    ("nod_token", c.nodToken), ("nod_channel", c.nodChannel), ("approval_ttl", c.approvalTtl),
    ("rate_limit", c.rateLimit), ("tool_dirs", c.toolDirs)]

def mergeNumber (key : String) (current : PyValue) (data : PyDict) : Except Raised PyValue :=
  match data.getD key current with
  | .str [] => return current
  | .str raw =>
    match H.int raw with
    | some n => return .int n
    | none => throw (.value s!"{key} must be an integer")
  | .int n => return .int n
  | _ => throw (.value s!"{key} must be an integer")

/-- The fields an empty text leaves as they are. -/
def keepsEmpty (key : String) : Bool := key = "tools_root" || key = "nod_token"

def mergeText (key : String) (current : PyValue) (data : PyDict) : Except Raised PyValue :=
  match data.get key with
  | none => return current
  | some (.str s) => return if strip s ≠ [] ∨ keepsEmpty key = false then .str (strip s) else current
  | some _ => throw (.value s!"{key} must be text")

def mergeUpdate (current : Config) (data : PyDict) : Except Raised Config := do
  let port ← mergeNumber H "port" current.port data
  let approvalTtl ← mergeNumber H "approval_ttl" current.approvalTtl data
  let rateLimit ← mergeNumber H "rate_limit" current.rateLimit data
  if !(← between H 1 port 65535) then throw (.value "port must be 1..65535")
  if ← less H approvalTtl 1 then throw (.value "approval_ttl must be >= 1")
  if ← less H rateLimit 0 then throw (.value "rate_limit must be >= 0")
  let toolsRoot ← mergeText "tools_root" current.toolsRoot data
  let nodUrl ← mergeText "nod_url" current.nodUrl data
  let nodToken ← mergeText "nod_token" current.nodToken data
  let nodChannel ← mergeText "nod_channel" current.nodChannel data
  validateNodUrl H nodUrl
  return { current with port, approvalTtl, rateLimit, toolsRoot, nodUrl, nodToken, nodChannel }

/-! ## The file -/

/-- `_warn_if_suspect`, as far as it can raise. -/
def warnIfSuspect (c : Config) : Except Raised Unit := do
  let _ ← between H 1 c.port 65535
  let _ ← less H c.approvalTtl 1
  let _ ← less H c.rateLimit 0
  match validateNodUrl H c.nodUrl with
  | .error .other => throw .other
  | _ => return

/-- The configuration of a table, its defaults filled in. -/
def fromTable (data : PyDict) : Except Raised Config := do
  let .str path := data.getD "db_path" (.str H.defaultDbPath) | throw .other
  let some path := H.absPath path | throw .other
  let c : Config := {
    port := data.getD "port" (.int 8765)
    dbPath := .str path
    toolsRoot := data.getD "tools_root" (.str (py "tools"))
    nodUrl := data.getD "nod_url" (.str [])
    nodToken := data.getD "nod_token" (.str [])
    nodChannel := data.getD "nod_channel" (.str [])
    approvalTtl := data.getD "approval_ttl" (.int 3600)
    rateLimit := data.getD "rate_limit" (.int 120)
    toolDirs := data.getD "tool_dirs" (.list []) }
  warnIfSuspect H c
  return c

/-- `tomllib.loads`. -/
def parse (text : PyStr) : Option PyDict := (Toml.loads text).map fun t => t.map fun kv => (kv.1, .ofJson kv.2)

def load (file : Option PyStr) : Except Raised Config :=
  match file with
  | none => fromTable H []
  | some text =>
    match parse text with
    | some data => fromTable H data
    | none => throw .other

def escapeBackslash (c : CodePoint) : PyStr := if c = ch '\\' then py "\\\\" else [c]

def escapeMark (c : CodePoint) : PyStr := if c = ch '"' then py "\\\"" else [c]

def tomlStr (value : PyValue) : PyStr :=
  py "\"" ++ ((str H value).flatMap escapeBackslash).flatMap escapeMark ++ py "\""

def tomlValue : PyValue → PyStr
  | .bool b => py (if b then "true" else "false")
  | .int n => py n.repr
  | .list xs => py "[" ++ (py ", ").intercalate (xs.map (tomlStr H)) ++ py "]"
  | v => tomlStr H v

def toToml (data : List (String × PyValue)) : PyStr :=
  (py "\n").intercalate (data.map fun kv => py kv.1 ++ (py " = " ++ tomlValue H kv.2)) ++ py "\n"

/-- What `save` writes: nothing where the text has no UTF-8 form. -/
def save (c : Config) : Option PyStr :=
  if (toToml H c.asdict).any CodePoint.isSurrogate then none else some (toToml H c.asdict)

end Toolstack.Admin.BrokerConfig
