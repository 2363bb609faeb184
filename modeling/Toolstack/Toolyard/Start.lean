import Toolstack.Broker.Manifest
import Toolstack.Broker.Redaction
import Toolstack.Interleave.Handle
import Toolstack.Mapping
import Toolstack.Toolyard.Cleanup
import Toolstack.Toolyard.Config

/-! `toolyard/runner.py`: how a process tool is started, registered with SPS and, where anything fails on
the way, taken down again. -/

namespace Toolstack.Toolyard.Start

open Interleave Prog
open Broker.Redaction (isSpace)
open Broker.Registry (string)

/-! ## Records -/

/-- The rest of a `RunningTool`. -/
structure Record extends RunningTool where
  port : Nat
  logPath : String
  eSecret : Option String
  spsHost : String := "127.0.0.1"
  spsPort : Nat := 8743
  spsCa : Option String := none
  channelSecret : String
  secretDeclarations : List SecretSpec
  manifestDigest : Text

structure ResolvedSps where
  spHost : String
  spPort : Nat
  spTlsCa : String
  verify : Bool

/-- Why a start ends: its own errors, an exception of a call, or children that could not be confirmed
gone, with their record. -/
inductive Exn
  | valueError
  | configError
  | runtimeError (message : String)
  | attributeError
  | raised
  | cleanup (e : Toolyard.Exn)
  | startCleanup (left : Record)

/-- An exception by the clause of `start` that catches it. -/
inductive Refusal
  | config
  | exception
  | exit

abbrev Environment := Mapping String String

/-! ## Calls -/

inductive Op
  | os (o : Toolyard.Op)
  | checkPortFree (port : Nat)
  | spsEnvExists
  | tokenHex
  | toolLogPath (path : String)
  | resolveSps
  | register (toolId : PyStr) (eSecret : String) (secrets : List SecretSpec)
  | unregister (toolId : PyStr)
  | pickFreePort
  | spawnEgress (allow : List PyStr) (port : Nat)
  | openToolLog (path : String)
  | fchmod
  | spawn (script : PyStr) (egressPort : Option Nat) (env : Environment)
  | close

@[reducible] def Op.Answer : Op → Type
  | .os o => o.Answer
  | .spsEnvExists => Bool
  | .tokenHex | .toolLogPath _ => String
  | .resolveSps => ResolvedSps
  | .pickFreePort => Nat
  | .spawnEgress _ _ | .spawn _ _ _ => Int
  | .checkPortFree _ | .register _ _ _ | .openToolLog _ | .fchmod | .close => Unit
  | .unregister _ => Unit

/-- `_sps_unregister` swallows its own exceptions. -/
@[reducible] def Op.Ret : Op → Type
  | .os o => o.Ret
  | .unregister _ => Unit
  | o => Except Refusal o.Answer

/-! ## The command -/

section Command
variable (isDigit : CodePoint → Bool)

/-- A character that a shell takes as it is. -/
def shellSafe (c : CodePoint) : Bool :=
  Url.isAlpha c || Url.isDigit c || c ∈ py "_@%+=:,./-"

/-- `shlex.quote`. -/
def quote (s : PyStr) : PyStr :=
  if s = [] then py "''"
  else if s.all shellSafe then s
  else py "'" ++ s.flatMap (fun c => if c = Url.ch '\'' then py "'\"'\"'" else [c]) ++ py "'"

/-- `(\d+(\.\d+)?)?`. -/
def versionSuffix (s : PyStr) : Bool :=
  s = [] || (!(s.takeWhile isDigit).isEmpty &&
    match s.dropWhile isDigit with
    | [] => true
    | c :: minor => c = Url.ch '.' && !minor.isEmpty && minor.all isDigit)

def isPyInterpreter (token : PyStr) : Bool :=
  (py "python").isPrefixOf token && versionSuffix isDigit (token.drop 6)

/-- `_bind_interpreter`. -/
def bindInterpreter (executable command : PyStr) : PyStr :=
  let text := command.dropWhile isSpace
  let token := text.takeWhile fun c => !isSpace c
  let rest := (text.dropWhile fun c => !isSpace c).dropWhile isSpace
  if token = [] ∨ Url.ch '/' ∈ token ∨ !isPyInterpreter isDigit token then command
  else ((quote executable ++ py " " ++ rest).reverse.dropWhile isSpace).reverse

end Command

/-! ## The environment -/

def allowed : List String :=
  ["PATH", "HOME", "TMPDIR", "TMP", "TEMP", "LANG", "TZ", "PYTHONPATH", "VIRTUAL_ENV", "PYTHONUNBUFFERED",
    "SSL_CERT_FILE", "SSL_CERT_DIR"]

/-- `_child_environment`. -/
def childEnvironment (environ : Environment) : Environment :=
  environ.filter fun kv => kv.1 ∈ allowed || "LC_".toList.isPrefixOf kv.1.toList

/-- What the tool is told: nothing of SPS unless it is registered. -/
def toolEnvironment (environ : Environment) (tool : ToolDef) (channelSecret : String)
    (sps : Option (String × ResolvedSps)) (egressPort : Option Nat) : Environment :=
  let env := childEnvironment environ
  let env := Mapping.set env "TOOLSTACK_PORT" tool.port.repr
  let env := Mapping.set env "TOOLSTACK_TOOL_CONFIG" (tool.path ++ "/toolyard.toml")
  let env := Mapping.del env "TOOLSTACK_E_SECRET"
  let env := Mapping.set env "TOOLSTACK_CHANNEL_SECRET" channelSecret
  let env := match sps with
    | none => env
    | some (eSecret, cfg) =>
      [("TOOLSTACK_E_SECRET", eSecret), ("TOOLSTACK_SPS_HOST", cfg.spHost), ("TOOLSTACK_SPS_PORT", cfg.spPort.repr),
        ("TOOLSTACK_SPS_CA", cfg.spTlsCa), ("TOOLSTACK_SPS_VERIFY", if cfg.verify then "1" else "0")].foldl
          (fun env kv => Mapping.set env kv.1 kv.2) env
  match egressPort with
  | none => env
  | some port => ["HTTP_PROXY", "HTTPS_PROXY", "http_proxy", "https_proxy"].foldl
      (fun env var => Mapping.set env var ("http://127.0.0.1:" ++ port.repr)) env

/-! ## Liveness -/

inductive Liveness
  | alive
  | gone
  | reaped

/-- `_pids_are_current`, of a record with an identity. -/
def pidsAreCurrent (running : RunningTool) (pid : Int) : Toolyard.Program Bool := do
  let boot ← ask .bootId
  if boot.isSome && running.bootId == boot then
    let identity ← ask (.processIdentity pid)
    return identity == running.processIdentity
  else return false

/-- `is_alive`; `reaped` where it calls `_on_reaped` before it answers. -/
def isAlive (int : String → Option Int) (running : RunningTool) : Toolyard.Program Liveness :=
  if running.processExited || running.handle = "" then return .gone
  else match int running.handle with
    | none => raise (.valueError "invalid literal for int()")
    | some pid => do
      let currentBoot ← ask .bootId
      if truthy running.bootId && truthy currentBoot && running.bootId != currentBoot then return .gone
      else
        let currentIdentity ← ask (.processIdentity pid)
        if !truthy running.bootId || !truthy currentBoot then
          raise (.valueError "process identity unknown; retain record")
        else if running.processIdentity.isSome && currentIdentity.isSome &&
            currentIdentity != running.processIdentity then return .gone
        else if !truthy running.processIdentity then
          let absent ← pidAbsent pid
          if absent then return .gone else raise (.valueError "process identity unknown; retain record")
        else
          match ← perform (.waitpid pid) with
          | .ok child => return if child ≠ 0 then .reaped else .alive
          | .error .childProcess =>
            let absent ← pidAbsent pid
            if absent then return .gone
            else
              let current ← pidsAreCurrent running pid
              if current then return .alive
              else raise (.runtimeError "process identity unconfirmed; retain record")
          | .error f => raise (.fault f)

/-! ## The start -/

/-- What a failure inside the `try` leaves to its `except`: the record so far and whether SPS knows it. -/
structure Failure where
  record : Record
  registered : Bool
  cause : Exn

abbrev Launch (α : Type) : Type := Prog Op Op.Ret Failure α

abbrev Program (α : Type) : Type := Prog Op Op.Ret Exn α

def answered {ε α : Type} (e : ε) : Except Refusal α → Prog Op Op.Ret ε α
  | .ok a => return a
  | .error _ => raise e

def osAnswered {ε α : Type} (e : ε) : Except Fault α → Prog Op Op.Ret ε α
  | .ok a => return a
  | .error _ => raise e

/-- The record with the SPS registration of this start, and the configuration it went to. A tool without
secrets goes on where SPS refuses it. -/
def registerTool (tool : ToolDef) (spsActive : Bool) (record : Record) : Launch (Record × Option ResolvedSps) :=
  match spsActive, record.eSecret with
  | true, some eSecret => do
    match ← perform Op.resolveSps with
    | .error .exception =>
      if tool.secrets ≠ [] then raise ⟨record, false, .runtimeError "SPS register failed"⟩
      else return ({ record with eSecret := none }, none)
    | .error _ => raise ⟨record, false, .configError⟩
    | .ok cfg =>
      let record' : Record := { record with spsHost := cfg.spHost, spsPort := cfg.spPort, spsCa := some cfg.spTlsCa }
      match ← perform (Op.register tool.id eSecret tool.secrets) with
      | .ok _ => return (record', some cfg)
      | .error .exception =>
        if tool.secrets ≠ [] then raise ⟨record, false, .runtimeError "SPS register failed"⟩
        else return ({ record' with eSecret := none }, some cfg)
      | .error _ => raise ⟨record, false, .raised⟩
  | _, _ => return (record, none)

/-- The egress proxy, where the tool's sandbox has an allowlist, and its port. -/
def startEgress (allow : List PyStr) (record : Record) : Launch (Record × Option Nat) :=
  let failure : Failure := ⟨record, record.eSecret.isSome, .raised⟩
  if allow = [] then return (record, none)
  else do
    let port ← answered failure (← perform Op.pickFreePort)
    let pid ← answered failure (← perform (Op.spawnEgress allow port))
    let record := { record with egressPid := some pid.repr }
    let identity ← osAnswered { failure with record } (← perform (Op.os (.processIdentity pid)))
    return ({ record with egressIdentity := identity }, some port)

/-- `os.posix_spawn` with the log open, which is closed again whatever happens. -/
def spawnTool (record : Record) (script : PyStr) (egressPort : Option Nat) (env : Environment) : Launch Record := do
  let failure : Failure := ⟨record, record.eSecret.isSome, .raised⟩
  answered failure (← perform (Op.openToolLog record.logPath))
  answered failure (← perform Op.fchmod)
  match ← perform (Op.spawn script egressPort env) with
  | .error _ =>
    let _ ← perform Op.close
    raise failure
  | .ok pid =>
    let record := { record with handle := pid.repr }
    let identity ← perform (Op.os (.processIdentity pid))
    let record := match identity with
      | .ok identity => { record with processIdentity := identity }
      | .error _ => record
    answered { failure with record } (← perform Op.close)
    match identity with
    | .ok _ => return record
    | .error _ => raise { failure with record }

def asOs (o : Toolyard.Op) : Launch o.Ret := perform (Op.os o)

/-- The end of the `try`: the tool must not have exited at once. -/
def confirmAlive (int : String → Option Int) (record : Record) : Launch Record := do
  let failure (record : Record) (cause : Exn) : Failure := ⟨record, record.eSecret.isSome, cause⟩
  osAnswered (failure record .raised) (← perform (Op.os .sleep))
  match ← (isAlive int record.toRunningTool).handle asOs with
  | .ok .alive => return record
  | .ok .gone => raise (failure record (.runtimeError "tool exited immediately on start"))
  | .ok .reaped =>
    raise (failure { record with toRunningTool := record.toRunningTool.receipt .process }
      (.runtimeError "tool exited immediately on start"))
  | .error e => raise (failure record (.cleanup e))

/-- What the runner's own process gives to a start; `int` reads back the numbers that `str` writes. -/
structure Machine where
  int : String → Option Int
  int_repr : ∀ n : Int, int n.repr = some n
  isDigit : CodePoint → Bool
  executable : PyStr
  environ : Environment

def Machine.skip (M : Machine) : Bool := Mapping.get M.environ "TOOLSTACK_SPS_SKIP" == some "1"

/-- The two runners that start processes of their own. -/
inductive Backend
  | process
  | seatbelt
  deriving DecidableEq

def Backend.name : Backend → String
  | process => "process"
  | seatbelt => "seatbelt"

/-- The allowlist of `_policy`: only a sandboxed tool has one. -/
def Backend.allow (backend : Backend) (tool : ToolDef) : List PyStr :=
  match backend with
  | process => []
  | seatbelt => tool.egress

/-- What the tool is told of SPS. -/
def known : Option String → Option ResolvedSps → Option (String × ResolvedSps)
  | some eSecret, some cfg => some (eSecret, cfg)
  | _, _ => none

/-- The `try` of `start` after the registration. -/
def runTool (M : Machine) (backend : Backend) (tool : ToolDef) (record : Record) (cfg : Option ResolvedSps) :
    Launch Record := do
  let (record, egressPort) ← startEgress (backend.allow tool) record
  match tool.command with
  | .str command =>
    let script := py "cd " ++ quote (py tool.path) ++ py " && exec " ++
      bindInterpreter M.isDigit M.executable command
    let env := toolEnvironment M.environ tool record.channelSecret (known record.eSecret cfg) egressPort
    let record ← spawnTool record script egressPort env
    confirmAlive M.int record
  | _ => raise ⟨record, record.eSecret.isSome, .attributeError⟩

/-- The `try` of `start`. -/
def launch (M : Machine) (backend : Backend) (tool : ToolDef) (spsActive : Bool) (record : Record) :
    Launch Record := do
  let (record, cfg) ← registerTool tool spsActive record
  runTool M backend tool record cfg

def unregisterIf (registered : Bool) (toolId : PyStr) : Program Unit :=
  if registered then perform (Op.unregister toolId) else return ()

/-- The `except` of `start`. -/
def takeDown (int : String → Option Int) (toolId : PyStr) (failure : Failure) : Program Record := do
  let cleaned ← (cleanupPartialStart int failure.record.toRunningTool).handle fun o => perform (Op.os o)
  unregisterIf failure.registered toolId
  match cleaned with
  | .ok _ => raise failure.cause
  | .error (.startCleanup left) => raise (.startCleanup { failure.record with toRunningTool := left })
  | .error e => raise (.cleanup e)

def emptyRecord (tool : ToolDef) (backend : Backend) (logPath channelSecret : String)
    (bootId eSecret : Option String) : Record where
  toolId := string tool.id
  port := tool.port
  backend := backend.name
  handle := ""
  logPid := none
  egressPid := none
  bootId := bootId
  processIdentity := none
  logIdentity := none
  egressIdentity := none
  processExited := false
  logExited := false
  egressExited := false
  logPath := logPath
  eSecret := eSecret
  channelSecret := channelSecret
  secretDeclarations := tool.secrets
  manifestDigest := tool.manifestDigest

/-- The record that a start begins with. -/
def prepare (tool : ToolDef) (backend : Backend) (spsActive : Bool) : Program Record := do
  let channelSecret ← answered .raised (← perform Op.tokenHex)
  let eSecret ← if spsActive then some <$> (perform Op.tokenHex >>= answered .raised) else pure none
  let logPath ← answered .raised (← perform (Op.toolLogPath tool.path))
  let bootId ← osAnswered .raised (← perform (Op.os .bootId))
  return emptyRecord tool backend logPath channelSecret bootId eSecret

/-- Required secrets fail closed. -/
def checkSps (backend : Backend) (tool : ToolDef) (skip spsActive : Bool) : Program Bool :=
  if (spsActive || !tool.secrets.isEmpty) && backend != .process then raise .configError
  else if !tool.secrets.isEmpty && !spsActive && !skip then raise .configError
  else return spsActive

/-- `sps_active`, once the checks that come first have passed. -/
def checkStart (M : Machine) (backend : Backend) (tool : ToolDef) : Program Bool := do
  if !tool.command.truthy then raise .valueError
  else
    answered (.runtimeError "port is not available for tool start") (← perform (Op.checkPortFree tool.port))
    let spsActive ← if M.skip then pure false else perform Op.spsEnvExists >>= answered .raised
    checkSps backend tool M.skip spsActive

/-- `ProcessRunner.start`, which `SeatbeltRunner` inherits. -/
def start (M : Machine) (backend : Backend) (tool : ToolDef) : Program Record := do
  let spsActive ← checkStart M backend tool
  let record ← prepare tool backend spsActive
  match ← (launch M backend tool spsActive record).handle perform with
  | .ok record => return record
  | .error failure => takeDown M.int tool.id failure

end Toolstack.Toolyard.Start
