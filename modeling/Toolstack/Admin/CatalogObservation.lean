import Toolstack.Broker.Fingerprint
import Toolstack.Interleave.Rely
import Toolstack.Interleave.Sequential

/-! `admin/catalog_observation.py` against `broker/server.py`: the control plane asks a broker which catalog
it has loaded, while brokers start, reload and exit and the manifests are edited. -/

namespace Toolstack.Admin.CatalogObservation

open Interleave Prog
open Broker Broker.Catalog

/-! ## What is shared -/

/-- `tools_root` and `tool_dirs`. -/
structure Sources where
  root : Option PyStr
  toolDirs : List PyStr

/-- What `if root` lets through. -/
def Sources.givenRoot (s : Sources) : Option PyStr := s.root.filter (· ≠ [])

def manifestOf (toolDir : PyStr) : PyStr := toolDir ++ py "/toolyard.toml"

/-- The files; `glob` gives the sorted manifests below a tools root. -/
structure Disk extends Catalog.Files where
  glob : PyStr → List PyStr

/-- `BrokerRunConfig`, as far as a broker and an observation look at it. -/
structure RunConfig where
  port : Nat
  dbPath : PyStr
  sources : Sources

/-- A private receipt. The number of an observation id tells which call of `uuid4` drew it. -/
structure Receipt where
  observationId : Nat
  fingerprint : Text
  deriving DecidableEq

/-- What a broker process holds in memory. -/
structure Process where
  config : RunConfig
  registry : Entries
  observation : Option Nat := none

/-- Processes are numbered by the threads that started them. `written`, `announced` and `edits` are
history: the receipts that any store ever held, the ids that were ever shown, how often files changed. -/
structure Site where
  disk : Disk
  receipt : PyStr → Option Receipt
  process : Nat → Option Process
  busy : Nat → Option Nat
  drawn : List Nat
  written : List Receipt
  announced : List Nat
  edits : Nat

def update {α : Type} (f : Nat → α) (n : Nat) (a : α) : Nat → α := fun m => if m = n then a else f m

@[simp] theorem update_same {α : Type} (f : Nat → α) (n : Nat) (a : α) : update f n a n = a := if_pos rfl

theorem update_of_ne {α : Type} (f : Nat → α) {n m : Nat} (a : α) (h : m ≠ n) : update f n a m = f m := if_neg h

/-! ## Calls -/

inductive Exn
  | load (e : LoadError)
  | portInUse
  | unwritable
  | exited

inductive Answer
  | done
  | unknown
  | verified (observationId : Nat) (toolIds : List PyStr)
  deriving DecidableEq

inductive Op
  | glob (root : PyStr)
  | exists' (path : PyStr)
  | readBytes (path : PyStr)
  | resolve (path : PyStr)
  | listen (config : RunConfig) (registry : Entries)
  | serving (broker : Nat)
  | exit (broker : Nat)
  | sighup (broker : Nat)
  | handled (broker : Nat)
  | context (broker : Nat)
  | setRegistry (broker : Nat) (registry : Entries)
  | setObservation (broker : Nat) (observation : Option Nat)
  | setCatalogReceipt (broker : Nat) (receipt : Option Receipt)
  | uuid4
  | health (port : Nat)
  | catalogReceipt (dbPath : PyStr)

/-- A health answer is `none` where it is no answer of a broker that is well. -/
@[reducible] def Op.Ret : Op → Type
  | .glob _ => List PyStr
  | .exists' _ => Bool
  | .readBytes _ => Option Text
  | .resolve _ => Catalog.Path
  | .listen _ _ => Option Nat
  | .sighup _ => Bool
  | .context _ => Option Process
  | .uuid4 => Nat
  | .health _ => Option (Option Nat)
  | .catalogReceipt _ => Option Receipt
  | .serving _ | .exit _ | .handled _ | .setRegistry _ _ | .setObservation _ _ | .setCatalogReceipt _ _ => Unit

abbrev Program (α : Type) : Type := Prog Op Op.Ret Exn α

def ask (o : Op) : Program o.Ret := perform o

/-! ## `broker/registry.py` -/

section
variable (H : Hash) (netlocOk : PyStr → Bool) (loads : Text → Option PyDict)

/-- `_add_toml`. -/
def addToml (catalog : Entries) (tomlPath : PyStr) : Program Entries := do
  let raw ← ask (.readBytes tomlPath)
  match raw with
  | none => raise (.load .unreadable)
  | some raw =>
    match loads raw with
    | none => raise (.load .notToml)
    | some data =>
      match readTool netlocOk data with
      | .error e => raise (.load (.manifest e))
      | .ok tool => do
        let path ← ask (.resolve tomlPath)
        return Mapping.set catalog tool.id ⟨tool, path, H.digest raw⟩

/-- The manifest of a tool directory, if it has one. -/
def addToolDir (catalog : Entries) (toolDir : PyStr) : Program Entries := do
  let there ← ask (.exists' (manifestOf toolDir))
  if there then addToml H netlocOk loads catalog (manifestOf toolDir) else return catalog

def rootManifests : Option PyStr → Program (List PyStr)
  | none => return []
  | some root => ask (.glob root)

def fromSources (s : Sources) : Program Entries := do
  let found ← rootManifests s.givenRoot
  let catalog ← found.foldlM (addToml H netlocOk loads) []
  s.toolDirs.foldlM (addToolDir H netlocOk loads) catalog

end

section
variable (str : PyStr → PyStr) (room : Nat) (H : Hash)

def resolveRoot : Option PyStr → Program (Option Catalog.Path)
  | none => return none
  | some root => some <$> ask (.resolve root)

def resolveAll : List PyStr → Program (List Catalog.Path)
  | [] => return []
  | d :: ds => do
    let path ← ask (.resolve d)
    let paths ← resolveAll ds
    return path :: paths

/-- `observation_fingerprint`. -/
def fingerprintOf (catalog : Entries) (s : Sources) : Program Text := do
  let root ← resolveRoot s.givenRoot
  let toolDirs ← resolveAll s.toolDirs
  match observationFingerprint str room H root toolDirs catalog with
  | none => raise .unwritable
  | some fingerprint => return fingerprint

end

variable (str : PyStr → PyStr) (room : Nat) (H : Hash) (netlocOk : PyStr → Bool) (loads : Text → Option PyDict)

/-! ## `broker/server.py` -/

/-- What a broker finds in its own memory, as long as it has not exited. -/
def ownContext (broker : Nat) : Program Process := do
  match ← ask (.context broker) with
  | none => raise .exited
  | some p => return p

def publishCatalogReceipt (broker : Nat) : Program Unit := do
  let observation ← ask .uuid4
  let p ← ownContext broker
  let fingerprint ← fingerprintOf str room H p.registry p.config.sources
  ask (.setCatalogReceipt broker (some ⟨observation, fingerprint⟩))
  ask (.setObservation broker (some observation))

/-- `build_server`, and `main` up to `serve_forever`. -/
def buildServer (config : RunConfig) : Program Answer := do
  let registry ← fromSources H netlocOk loads config.sources
  match ← ask (.listen config registry) with
  | none => raise .portInUse
  | some broker =>
    match ← (publishCatalogReceipt str room H broker).attempt with
    | .ok _ =>
      ask (.serving broker)
      return .done
    | .error e =>
      ask (.exit broker)
      raise e

/-- `_reload_registry`. -/
def reloadRegistry (broker : Nat) : Program Unit := do
  ask (.setObservation broker none)
  ask (.setCatalogReceipt broker none)
  let p ← ownContext broker
  let new ← fromSources H netlocOk loads p.config.sources
  ask (.setRegistry broker new)
  publishCatalogReceipt str room H broker

/-- `_sighup`: a failed reload is logged. -/
def onSighup (broker : Nat) : Program Answer := do
  if ← ask (.sighup broker) then
    let _ ← (reloadRegistry str room H netlocOk loads broker).attempt
    ask (.handled broker)
  return .done

/-! ## `observe_catalog` -/

/-- The second look at the broker. -/
def certify (config : RunConfig) (observation : Nat) (toolIds : List PyStr) : Program Answer := do
  let latest ← ask (.health config.port)
  if latest = some (some observation) then return .verified observation toolIds else return .unknown

def compare (config : RunConfig) (observation : Nat) : Program Answer := do
  let receipt ← ask (.catalogReceipt config.dbPath)
  let current ← fromSources H netlocOk loads config.sources
  match receipt with
  | none => return .unknown
  | some receipt =>
    if receipt.observationId = observation then do
      let fingerprint ← fingerprintOf str room H current config.sources
      if receipt.fingerprint = fingerprint then certify config observation (toolIds current) else return .unknown
    else return .unknown

/-- What is made of the first look. -/
def observed (config : RunConfig) : Option (Option Nat) → Program Answer
  | some (some observation) => compare str room H netlocOk loads config observation
  | _ => return .unknown

/-- `except Exception: return unknown`. -/
def orUnknown (m : Program Answer) : Program Answer := do
  match ← m.attempt with
  | .ok answer => return answer
  | .error _ => return .unknown

def observeCatalog (config : RunConfig) : Program Answer := do
  let health ← ask (.health config.port)
  orUnknown (observed str room H netlocOk loads config health)

/-! ## The system -/

structure Oracle where
  fails : Bool
  answering : Nat

inductive Env
  | edit (disk : Disk)
  | restore (dbPath : PyStr) (n : Nat)
  | exit (broker : Nat)

inductive Job
  | broker (config : RunConfig)
  | reload (pid : Nat)
  | observe (config : RunConfig)

def Site.setProcess (w : Site) (broker : Nat) (f : Process → Process) : Site :=
  { w with process := update w.process broker ((w.process broker).map f) }

/-- What a broker on that port says of itself. -/
def Site.healthOf (w : Site) (port broker : Nat) : Option (Option Nat) :=
  match w.process broker with
  | none => none
  | some p => if p.config.port = port then some p.observation else none

/-- A broker that has exited makes no more calls. -/
def Site.writeReceipt (w : Site) (broker : Nat) (receipt : Option Receipt) : Site :=
  match w.process broker with
  | none => w
  | some p =>
    { w with
      receipt := fun db => if db = p.config.dbPath then receipt else w.receipt db
      written := receipt.toList ++ w.written }

/-- `nests` says whether a signal that arrives inside a signal handler is handled then and there. -/
def exec (nests : Bool) (i : Nat) : (o : Op) → Oracle → Site → o.Ret × Site
  | .glob root, _, w => (w.disk.glob root, w)
  | .exists' path, _, w => (w.disk.exists? path, w)
  | .readBytes path, _, w => (w.disk.read (w.disk.resolve path), w)
  | .resolve path, _, w => (w.disk.resolve path, w)
  | .listen config registry, ω, w =>
    if ω.fails then (none, w)
    else (some i, { w with
      process := update w.process i (some { config, registry })
      busy := update w.busy i (some i) })
  | .serving broker, _, w => ((), { w with busy := update w.busy broker none })
  | .exit broker, _, w => ((), { w with process := update w.process broker none })
  | .sighup broker, _, w =>
    if (w.process broker).isSome ∧ (nests ∨ w.busy broker = none) then
      (true, { w with busy := update w.busy broker (some i) })
    else (false, w)
  | .handled broker, _, w => ((), { w with busy := update w.busy broker none })
  | .context broker, _, w => (w.process broker, w)
  | .setRegistry broker registry, _, w => ((), w.setProcess broker fun p => { p with registry })
  | .setObservation broker observation, _, w =>
    ((), { w.setProcess broker (fun p => { p with observation }) with
      announced := observation.toList ++ w.announced })
  | .setCatalogReceipt broker receipt, _, w => ((), w.writeReceipt broker receipt)
  | .uuid4, _, w => (w.drawn.length, { w with drawn := w.drawn ++ [i] })
  | .health port, ω, w => (w.healthOf port ω.answering, w)
  | .catalogReceipt dbPath, ω, w => (if ω.fails then none else w.receipt dbPath, w)

/-- A store may be put back to any receipt that one ever held, or to none. -/
def Env.apply : Env → Site → Site
  | .edit disk, w => { w with disk, edits := w.edits + 1 }
  | .restore dbPath n, w => { w with receipt := fun db => if db = dbPath then w.written[n]? else w.receipt db }
  | .exit broker, w => { w with process := update w.process broker none }

def Job.program : Job → Program Answer
  | .broker config => buildServer str room H netlocOk loads config
  | .reload pid => onSighup str room H netlocOk loads pid
  | .observe config => observeCatalog str room H netlocOk loads config

abbrev Observing := System Op Op.Ret Exn Answer Job Site Oracle Env Empty

def system (nests : Bool) : Observing where
  exec := exec nests
  program := Job.program str room H netlocOk loads
  env := Env.apply
  offline := fun f => nomatch f

/-- Nothing runs yet, and no store holds a receipt. -/
def Site.initial (disk : Disk) : Site where
  disk := disk
  receipt := fun _ => none
  process := fun _ => none
  busy := fun _ => none
  drawn := []
  written := []
  announced := []
  edits := 0

end Toolstack.Admin.CatalogObservation
