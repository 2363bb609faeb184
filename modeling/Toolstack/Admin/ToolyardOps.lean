import Mathlib.Data.Set.Basic
import Toolstack.Interleave.Cleanup
import Toolstack.Interleave.Guarantee
import Toolstack.Interleave.Outcomes
import Toolstack.Mapping
import Toolstack.Toolyard.Config

/-! `admin/toolyard_ops.py`: the start, stop and restart of a recorded tool. Each of them holds the state
lock from its first read to its last write, so it is alone with the state file; what the runners and the
file system answer is left open. -/

namespace Toolstack.Admin.ToolyardOps

open Interleave Prog
open Toolyard (ToolDef SecretSpec)

/-! ## Records -/

/-- The fields of `RunningTool`, in their order. -/
inductive Field
  | toolId
  | port
  | backend
  | handle
  | logPid
  | logPath
  | egressPid
  | launcherPid
  | eSecret
  | spsHost
  | spsPort
  | spsCa
  | bootId
  | channelSecret
  | processIdentity
  | logIdentity
  | egressIdentity
  | processExited
  | logExited
  | egressExited
  | secretDeclarations
  | manifestDigest
deriving DecidableEq, Repr

namespace Field

def all : List Field :=
  [toolId, port, backend, handle, logPid, logPath, egressPid, launcherPid, eSecret, spsHost, spsPort, spsCa,
    bootId, channelSecret, processIdentity, logIdentity, egressIdentity, processExited, logExited, egressExited,
    secretDeclarations, manifestDigest]

def name : Field → PyStr
  | toolId => py "tool_id"
  | port => py "port"
  | backend => py "backend"
  | handle => py "handle"
  | logPid => py "log_pid"
  | logPath => py "log_path"
  | egressPid => py "egress_pid"
  | launcherPid => py "launcher_pid"
  | eSecret => py "e_secret"
  | spsHost => py "sps_host"
  | spsPort => py "sps_port"
  | spsCa => py "sps_ca"
  | bootId => py "boot_id"
  | channelSecret => py "channel_secret"
  | processIdentity => py "process_identity"
  | logIdentity => py "log_identity"
  | egressIdentity => py "egress_identity"
  | processExited => py "process_exited"
  | logExited => py "log_exited"
  | egressExited => py "egress_exited"
  | secretDeclarations => py "secret_declarations"
  | manifestDigest => py "manifest_digest"

/-- The default of a field, where it has one. -/
def default : Field → Option Json
  | toolId | port | backend | handle => none
  | spsHost => some (.str (py "127.0.0.1"))
  | spsPort => some (.int 8743)
  | processExited | logExited | egressExited => some (.bool false)
  | logPid | logPath | egressPid | launcherPid | eSecret | spsCa | bootId | channelSecret | processIdentity
  | logIdentity | egressIdentity | secretDeclarations | manifestDigest => some .null

end Field

/-- Nothing checks what a field of a record holds. -/
structure RunningTool where
  field : Field → Json

/-- What `state.json` holds: a value for each recorded tool. -/
abbrev State := Mapping PyStr Json

/-- `RunnerStartCleanupError` and `UnrecordedRuntimeError` carry a runtime. `SystemExit` is no
`Exception`. -/
inductive Exn
  | lookupError (message : String) (shown : Option PyStr)
  | valueError (message : String) (shown : Option Json)
  | typeError
  | attributeError
  | startCleanup (running : RunningTool)
  | unrecorded (running : RunningTool)
  | other
  | systemExit

/-- `getattr(exc, "running", None)`, where it is a `RunningTool`. -/
def Exn.running : Exn → Option RunningTool
  | startCleanup running | unrecorded running => some running
  | _ => none

namespace RunningTool

/-- `asdict(running)`. -/
def asdict (running : RunningTool) : Json := .obj (Field.all.map fun f => (f.name, running.field f))

/-- `RunningTool(**record)`. -/
def ofRecord : Json → Except Exn RunningTool
  | .obj kvs =>
    if (kvs.all fun kv => Field.all.any fun f => kv.1 = f.name) &&
        Field.all.all fun f => (Json.find? kvs f.name).isSome || f.default.isSome then
      .ok ⟨fun f => ((Json.find? kvs f.name).or f.default).getD .null⟩
    else .error .typeError
  | _ => .error .typeError

end RunningTool

/-! ## The calls -/

inductive Runner
  | process
  | docker
  | seatbelt
  | bwrap
deriving DecidableEq, Repr

/-- What the calls are made of outside: the SPS link, the manifests, the two files, the host and the
runners. A recovery gives `start` a digest of its own. -/
inductive Op
  | waitUntilUp
  | allDefs
  | loadState
  | publish (state : State)
  | publishChannels (channels : State)
  | platform
  | isAlive (runner : Runner) (running : RunningTool)
  | stop (runner : Runner) (running : RunningTool)
  | start (runner : Runner) (tool : ToolDef) (digest : Json)

namespace Op

@[reducible] def Answer : Op → Type
  | waitUntilUp | isAlive _ _ => Bool
  | allDefs => Mapping PyStr ToolDef
  | loadState => State
  | platform => PyStr
  | start _ _ _ => RunningTool
  | publish _ | publishChannels _ | stop _ _ => Unit

abbrev Ret (o : Op) : Type := Except Exn o.Answer

end Op

abbrev Program (α : Type) : Type := Prog Op Op.Ret Exn α

def ask (o : Op) : Program o.Answer := do
  match ← perform o with
  | .ok answer => return answer
  | .error exc => raise exc

def given {α : Type} : Except Exn α → Program α
  | .ok a => return a
  | .error exc => raise exc

/-- The channel secrets that the second file shows. A value that is no object has no `get`. -/
def channels : State → Except Exn State
  | [] => .ok []
  | (key, .obj kvs) :: state =>
    match Json.find? kvs (py "channel_secret") with
    | some secret =>
      if secret.truthy then
        (channels state).map fun view => (key, .obj [(py "channel_secret", secret)]) :: view
      else channels state
    | none => channels state
  | _ :: _ => .error .attributeError

/-- `_save_state`: the private file is published first. -/
def saveState (state : State) : Program Unit := do
  ask (.publish state)
  let view ← given (channels state)
  ask (.publishChannels view)

def nativeBackend : Program PyStr := do
  let plat ← ask .platform
  if plat = py "darwin" then return py "seatbelt"
  else if (py "linux").isPrefixOf plat then return py "bwrap"
  else raise .other

def nativeRunner (backend : PyStr) : Program Runner :=
  if backend = py "seatbelt" then return .seatbelt
  else if backend = py "bwrap" then return .bwrap
  else raise (.valueError "unknown runner backend: " (some (.str backend)))

def getRunner : Json → Program Runner
  | .str backend =>
    if backend = py "process" then return .process
    else if backend = py "docker" then return .docker
    else do
      let backend ← if backend = py "sandbox" then nativeBackend else pure backend
      nativeRunner backend
  | backend => raise (.valueError "unknown runner backend: " (some backend))

/-- What `_record_or_rollback` does about a state that could not be saved. -/
def rollback (state : State) (toolId : PyStr) (running : RunningTool) (runner : Runner) (exc : Exn) :
    Program Unit := do
  let stopped : Op.Ret (Op.stop runner running) ← perform (Op.stop runner running)
  match stopped with
  | .error .systemExit => raise .systemExit
  | .error _ => raise (.unrecorded running)
  | .ok _ =>
    saveState (Mapping.del state toolId)
    raise exc

/-- `_record_or_rollback`. -/
def recordOrRollback (state : State) (toolId : PyStr) (running : RunningTool) (runner : Runner) :
    Program Unit := do
  let state := Mapping.set state toolId running.asdict
  match ← attempt (saveState state) with
  | .ok _ => return ()
  | .error .systemExit => raise .systemExit
  | .error exc => rollback state toolId running runner exc

/-- The end of `_stop`, and of `_start` for a recorded tool that is not alive: a runtime that could not
be confirmed gone stays recorded. -/
def retire (state : State) (toolId : PyStr) (runner : Runner) (running : RunningTool) : Program Unit := do
  let stopped : Op.Ret (Op.stop runner running) ← perform (Op.stop runner running)
  match stopped with
  | .error (.startCleanup left) =>
    saveState (Mapping.set state toolId left.asdict)
    raise (.startCleanup left)
  | .error exc => raise exc
  | .ok _ => saveState (Mapping.del state toolId)

/-- `SecretSpec(**s)`. -/
def secretSpec : Json → Except Exn SecretSpec
  | .obj kvs =>
    if kvs.all (fun kv => kv.1 = py "name" ∨ kv.1 = py "field" ∨ kv.1 = py "writable" ∨ kv.1 = py "item") then
      match Json.find? kvs (py "name"), Json.find? kvs (py "field") with
      | some name, some field =>
        .ok { name, field, writable := (Json.find? kvs (py "writable")).getD (.bool false),
              item := (Json.find? kvs (py "item")).getD .null }
      | _, _ => .error .typeError
    else .error .typeError
  | _ => .error .typeError

/-- The definition and the digest that a recovery hands to the runner: those of the record, which is an
empty dict where there is none. -/
def declared (tool : ToolDef) : Json → Except Exn (ToolDef × Json)
  | .obj kvs =>
    let declarations := (Json.find? kvs (py "secret_declarations")).getD .null
    let digest := (Json.find? kvs (py "manifest_digest")).getD .null
    match declarations, digest.truthy with
    | .null, _ | _, false => .error (.valueError "recorded declarations missing; operator Start required" none)
    | declarations, true =>
      match Toolyard.items declarations with
      | .error _ => .error .typeError
      | .ok specs => (specs.mapM secretSpec).map fun secrets => ({ tool with secrets }, digest)
  | _ => .error .attributeError

/-- A runtime may survive a failed start. -/
def afterFailure (state : State) (toolId : PyStr) (runner : Runner) (exc : Exn) : Program Unit :=
  match exc.running with
  | some left => do
    recordOrRollback state toolId left runner
    raise exc
  | none => raise exc

/-- `_start` from `runner = get_runner(backend)` on. -/
def launch (state : State) (toolId : PyStr) (backend : Json) (tool : ToolDef × Json) : Program Unit := do
  let runner ← getRunner backend
  let started : Op.Ret (Op.start runner tool.1 tool.2) ← perform (Op.start runner tool.1 tool.2)
  match started with
  | .ok running => recordOrRollback state toolId running runner
  | .error exc => afterFailure state toolId runner exc

/-- `_start` of a known tool, once the state is loaded. -/
def startFrom (state : State) (toolId : PyStr) (backend : Json) (tool : ToolDef × Json) : Program Unit :=
  match Mapping.get state toolId with
  | none => launch state toolId backend tool
  | some record => do
    let recorded ← given (RunningTool.ofRecord record)
    let runner ← getRunner (recorded.field .backend)
    let alive ← ask (.isAlive runner recorded)
    if alive then return ()
    else
      retire state toolId runner recorded
      launch (Mapping.del state toolId) toolId backend tool

/-- `_start`. -/
def start (toolId : PyStr) (backend : Json) (recovery : Bool) : Program Unit := do
  let defs ← ask .allDefs
  match Mapping.get defs toolId with
  | none => raise (.lookupError "unknown tool: " (some toolId))
  | some tool =>
    let state ← ask .loadState
    let tool ← if recovery then given (declared tool ((Mapping.get state toolId).getD (.obj [])))
      else pure (tool, .str (py (String.ofList tool.manifestDigest)))
    startFrom state toolId backend tool

/-- `_stop`. -/
def stop (toolId : PyStr) : Program Unit := do
  let state ← ask .loadState
  match Mapping.get state toolId with
  | none => return ()
  | some record =>
    if record.truthy then
      let running ← given (RunningTool.ofRecord record)
      let runner ← getRunner (running.field .backend)
      retire state toolId runner running
    else return ()

def restart (toolId : PyStr) (backend : Json) : Program Unit := do
  stop toolId
  start toolId backend false

/-! ## The host -/

/-- The state file; the runtimes of each tool that were launched and not confirmed gone since; whether one
was ever started beside another; and what an error reported as running and not recorded. The last three
are history: no call reads them. -/
structure Host where
  state : State
  live : Set (PyStr × RunningTool)
  overlaps : Prop
  unrecorded : Set RunningTool

/-- Two records of one runtime: only the exit receipts may differ. -/
def Same (running running' : RunningTool) : Prop :=
  ∀ f, f ≠ .processExited → f ≠ .logExited → f ≠ .egressExited → running.field f = running'.field f

/-- The runtime that a start has left, whether or not it failed. -/
def survivor : Except Exn RunningTool → Option RunningTool
  | .ok running => some running
  | .error exc => exc.running

/-- What the error reports as running and not recorded. -/
def Exn.reports : Exn → Set RunningTool
  | unrecorded running => {running}
  | _ => ∅

def reported {α : Type} : Except Exn α → Set RunningTool
  | .ok _ => ∅
  | .error exc => exc.reports

namespace Host

/-- A recorded state whose tools are all gone. -/
def idle (state : State) : Host := ⟨state, ∅, False, ∅⟩

def launched (host : Host) (toolId : PyStr) (running : Option RunningTool) : Host :=
  { host with
    live := {x | x ∈ host.live ∨ x.1 = toolId ∧ running = some x.2}
    overlaps := host.overlaps ∨ ∃ x ∈ host.live, x.1 = toolId }

def confirmed (host : Host) (running : RunningTool) : Host :=
  { host with live := {x | x ∈ host.live ∧ ¬Same x.2 running} }

end Host

/-- What a call meets. `_load_state` finds what was last published, and a file is replaced at once or
not at all. -/
def exec (o : Op) (answers : (o : Op) → Op.Ret o) (host : Host) : Op.Ret o × Host :=
  match o with
  | .loadState => ((answers .loadState).map fun _ => host.state, host)
  | .publish new =>
    match answers (.publish new) with
    | .ok _ => (.ok (), { host with state := new })
    | .error exc => (.error exc, host)
  | .stop runner running =>
    match answers (.stop runner running) with
    | .ok _ => (.ok (), host.confirmed running)
    | .error exc => (.error exc, host)
  | .start runner tool digest =>
    (answers (.start runner tool digest), host.launched tool.id (survivor (answers (.start runner tool digest))))
  | o => (answers o, host)

abbrev Answers : Type := Nat → (o : Op) → Op.Ret o

/-! ## What a call can publish -/

/-- The tool counts as recorded: `_stop` and `list_tools` take a value that is not truthy for none. -/
def recorded (state : State) (toolId : PyStr) : Bool := (Mapping.get state toolId).any Json.truthy

/-- A runtime came of the call, whether or not it failed. -/
def launched : Answered Op Op.Ret → Bool
  | ⟨.start _ _ _, .ok _⟩ => true
  | ⟨.start _ _ _, .error exc⟩ => exc.running.isSome
  | _ => false

/-- The state is loaded out of `K`, and no runtime comes up unless `up` says so. -/
def answers (K : State → Prop) (up : Bool) : (o : Op) → Op.Ret o → Prop
  | .loadState, .ok state => K state
  | .start runner tool digest, started => launched ⟨.start runner tool digest, started⟩ = true → up = true
  | _, _ => True

def permits (K : State → Prop) : Op → Prop
  | .publish state => K state
  | _ => True

/-- Whatever becomes of the record of `toolId`, the state stays in `K`. -/
structure Frame (K : State → Prop) (toolId : PyStr) : Prop where
  set : ∀ {state} record, K state → K (Mapping.set state toolId record)
  del : ∀ {state}, K state → K (Mapping.del state toolId)

theorem frame_get {t toolId : PyStr} (hne : t ≠ toolId) (v : Option Json) :
    Frame (fun state => Mapping.get state t = v) toolId where
  set record h := by
    show Mapping.get _ t = v
    rw [Mapping.get_set, if_neg hne, h]
  del h := by
    show Mapping.get _ t = v
    rw [Mapping.get_del, if_neg hne, h]

section When
variable {K : State → Prop} {up : Bool} {toolId : PyStr} {state : State}

theorem when_ask {α : Type} {o : Op} {f : o.Answer → Program α} (ho : permits K o)
    (hf : ∀ a, answers K up o (.ok a) → (f a).When (answers K up) (permits K)) :
    (ask o >>= f).When (answers K up) (permits K) := by
  refine ⟨ho, fun r hr => ?_⟩
  cases r with
  | ok a => exact hf a hr
  | error exc => trivial

theorem when_given {α β : Type} {x : Except Exn α} {f : α → Program β}
    (hf : ∀ a, x = .ok a → (f a).When (answers K up) (permits K)) :
    (given x >>= f).When (answers K up) (permits K) := by
  cases x with
  | ok a => exact hf a rfl
  | error exc => trivial

theorem saveState_when (h : K state) : (saveState state).When (answers K up) (permits K) := by
  refine when_ask (o := .publish state) h fun _ _ => when_given fun view _ => ?_
  exact ⟨trivial, fun published _ => by cases published <;> trivial⟩

theorem nativeRunner_when (backend : PyStr) : (nativeRunner backend).When (answers K up) (permits K) := by
  unfold nativeRunner
  split_ifs <;> trivial

theorem getRunner_when (backend : Json) : (getRunner backend).When (answers K up) (permits K) := by
  unfold getRunner
  split
  · split_ifs
    · trivial
    · trivial
    · refine .bind ?_ nativeRunner_when
      refine when_ask (o := .platform) trivial fun plat _ => ?_
      split_ifs <;> trivial
    · exact nativeRunner_when _
  · trivial

theorem retire_when (hK : Frame K toolId) (h : K state) (runner : Runner) (running : RunningTool) :
    (retire state toolId runner running).When (answers K up) (permits K) := by
  refine ⟨trivial, fun stopped _ => ?_⟩
  rcases stopped with exc | _
  · cases exc with
    | startCleanup left => exact (saveState_when (hK.set _ h)).bind fun _ => trivial
    | _ => trivial
  · exact saveState_when (hK.del h)

theorem rollback_when (hK : Frame K toolId) (h : K state) (runner : Runner) (running : RunningTool) (exc : Exn) :
    (rollback state toolId running runner exc).When (answers K up) (permits K) := by
  refine ⟨trivial, fun stopped _ => ?_⟩
  rcases stopped with exc' | _
  · cases exc' <;> trivial
  · exact (saveState_when (hK.del h)).bind fun _ => trivial

theorem recordOrRollback_when (hK : Frame K toolId) (h : K state) (runner : Runner) (running : RunningTool) :
    (recordOrRollback state toolId running runner).When (answers K up) (permits K) := by
  refine (saveState_when (hK.set _ h)).attempt.bind fun saved => ?_
  rcases saved with exc | _
  · have hroll : (rollback (Mapping.set state toolId running.asdict) toolId running runner exc).When (answers K up)
        (permits K) := rollback_when hK (hK.set running.asdict h) runner running exc
    cases exc with
    | systemExit => trivial
    | _ => exact hroll
  · trivial

theorem launch_when (hK : Frame K toolId) (h : K state) (backend : Json) (tool : ToolDef × Json) :
    (launch state toolId backend tool).When (answers K true) (permits K) := by
  refine (getRunner_when backend).bind fun runner => ⟨trivial, fun started _ => ?_⟩
  rcases started with exc | running
  · show (afterFailure state toolId runner exc).When _ _
    unfold afterFailure
    cases exc.running with
    | none => trivial
    | some left => exact (recordOrRollback_when hK h runner left).bind fun _ => trivial
  · exact recordOrRollback_when hK h runner running

/-- Where no runtime comes up, nothing is published. -/
theorem launch_quiet (backend : Json) (tool : ToolDef × Json) :
    (launch state toolId backend tool).When (answers K false) (permits K) := by
  refine (getRunner_when backend).bind fun runner => ⟨trivial, fun started hstarted => ?_⟩
  rcases started with exc | running
  · have hnone : exc.running = none := by
      by_contra hsome
      exact Bool.noConfusion (hstarted (Option.isSome_iff_ne_none.2 hsome))
    show (afterFailure state toolId runner exc).When _ _
    rw [afterFailure, hnone]
    trivial
  · exact Bool.noConfusion (hstarted rfl)

theorem startFrom_when (hK : Frame K toolId) (h : K state) (backend : Json) (tool : ToolDef × Json) :
    (startFrom state toolId backend tool).When (answers K true) (permits K) := by
  unfold startFrom
  cases Mapping.get state toolId with
  | none => exact launch_when hK h backend tool
  | some record =>
    refine when_given fun recorded _ => (getRunner_when _).bind fun runner => ?_
    refine when_ask (o := .isAlive runner recorded) trivial fun alive _ => ?_
    split_ifs
    · trivial
    · exact (retire_when hK h runner recorded).bind fun _ => launch_when hK (hK.del h) backend tool

theorem start_when (hK : Frame K toolId) (backend : Json) (recovery : Bool) :
    (start toolId backend recovery).When (answers K true) (permits K) := by
  refine when_ask (o := .allDefs) trivial fun defs _ => ?_
  cases Mapping.get defs toolId with
  | none => trivial
  | some tool =>
    refine when_ask (o := .loadState) trivial fun state hstate => ?_
    cases recovery with
    | false => exact startFrom_when hK hstate backend _
    | true => exact when_given fun tool _ => startFrom_when hK hstate backend tool

theorem stop_when (hK : Frame K toolId) : (stop toolId).When (answers K up) (permits K) := by
  refine when_ask trivial fun state hstate => ?_
  cases Mapping.get state toolId with
  | none => trivial
  | some record =>
    show Prog.When _ _ (if record.truthy then _ else _)
    split_ifs
    · exact when_given fun running _ => (getRunner_when _).bind fun runner => retire_when hK hstate runner running
    · trivial

theorem restart_when (hK : Frame K toolId) (backend : Json) :
    (restart toolId backend).When (answers K true) (permits K) :=
  (stop_when hK).bind fun _ => start_when hK backend false

end When

/-! ## A tool without a record -/

section Unrecorded
variable {up : Bool} {toolId : PyStr} {state : State}

abbrev Unrecorded (toolId : PyStr) (state : State) : Prop := recorded state toolId = false

theorem truthy_of_unrecorded (h : Unrecorded toolId state) {record : Json}
    (hget : Mapping.get state toolId = some record) : record.truthy = false := by
  simpa [Unrecorded, recorded, hget] using h

theorem ofRecord_falsy {record : Json} (h : record.truthy = false) :
    RunningTool.ofRecord record = .error .typeError := by
  cases record with
  | obj kvs =>
    obtain rfl : kvs = [] := by simpa [Json.truthy] using h
    rfl
  | _ => rfl

/-- A value that counts as no record is none that a start could use. -/
theorem startFrom_falsy {record : Json} (hget : Mapping.get state toolId = some record)
    (h : record.truthy = false) (backend : Json) (tool : ToolDef × Json) :
    startFrom state toolId backend tool = raise .typeError := by
  rw [startFrom, hget]
  show (given (RunningTool.ofRecord record) >>= _) = _
  rw [ofRecord_falsy h]
  rfl

/-- Only an operator can bring up a tool that has no record: a recovery finds nothing declared. -/
theorem start_unrecorded (backend : Json) (recovery : Bool) :
    (start toolId backend recovery).When (answers (Unrecorded toolId) recovery) (permits (Unrecorded toolId)) := by
  refine when_ask (o := .allDefs) trivial fun defs _ => ?_
  cases Mapping.get defs toolId with
  | none => trivial
  | some tool =>
    refine when_ask (o := .loadState) trivial fun state hstate => ?_
    cases hget : Mapping.get state toolId with
    | none =>
      cases recovery with
      | false =>
        show (startFrom state toolId backend _).When _ _
        rw [startFrom, hget]
        exact launch_quiet backend _
      | true => trivial
    | some record =>
      have hquiet : ∀ tool, (startFrom state toolId backend tool).When (answers (Unrecorded toolId) recovery)
          (permits (Unrecorded toolId)) := by
        intro tool
        rw [startFrom_falsy hget (truthy_of_unrecorded hstate hget)]
        trivial
      cases recovery with
      | false => exact hquiet _
      | true => exact when_given fun tool _ => hquiet tool

theorem stop_unrecorded :
    (stop toolId).When (answers (Unrecorded toolId) up) (permits (Unrecorded toolId)) := by
  refine when_ask (o := .loadState) trivial fun state hstate => ?_
  cases hget : Mapping.get state toolId with
  | none => trivial
  | some record =>
    show Prog.When _ _ (if record.truthy then _ else _)
    rw [if_neg (by simp [truthy_of_unrecorded hstate hget])]
    trivial

theorem restart_unrecorded (backend : Json) :
    (restart toolId backend).When (answers (Unrecorded toolId) false) (permits (Unrecorded toolId)) :=
  stop_unrecorded.bind fun _ => start_unrecorded backend false

end Unrecorded

/-- A program that publishes out of `K` only, run where the state is in `K`. -/
theorem run_keeps_state {α : Type} {K : State → Prop} {up : Bool} {m : Program α}
    (hm : m.When (answers K up) (permits K)) {w : Host × Answers} (hw : K w.1.state)
    (hup : ∀ c ∈ (m.run (answering exec) w).calls, launched c = true → up = true) :
    K (m.run (answering exec) w).world.1.state := by
  refine hm.run (I := fun w => K w.1.state) (fun o w hK ho hgood => ?_) hw hup
  cases o with
  | loadState =>
    refine ⟨?_, hK⟩
    simp only [answering, exec]
    cases w.2 0 .loadState with
    | ok _ => exact hK
    | error exc => trivial
  | publish state =>
    refine ⟨trivial, ?_⟩
    simp only [answering, exec]
    cases w.2 0 (.publish state) with
    | ok _ => exact ho
    | error exc => exact hK
  | start runner tool digest => exact ⟨hgood, hK⟩
  | stop runner running =>
    refine ⟨trivial, ?_⟩
    simp only [answering, exec]
    cases w.2 0 (.stop runner running) <;> exact hK
  | _ => exact ⟨trivial, hK⟩

/-! ## A stop -/

section Stop
variable {α : Type} {P : Host × Answers → Prop}

theorem sat_any {m : Program α} : Sat (answering exec) P m (fun _ _ => True) fun _ _ => True := by
  intro w _
  split <;> trivial

theorem sat_load : Sat (answering exec) P (ask .loadState) (fun state w => w.1.state = state) fun _ _ => True := by
  intro w _
  simp only [ask, perform, call_bind, ret_bind, run, answering, exec]
  cases w.2 0 .loadState with
  | ok _ => rfl
  | error exc => trivial

theorem sat_save (state : State) :
    Sat (answering exec) P (saveState state) (fun _ w => w.1.state = state) fun _ _ => True := by
  have hpublish : Sat (answering exec) P (ask (.publish state)) (fun _ w => w.1.state = state) fun _ _ => True := by
    intro w _
    simp only [ask, perform, call_bind, ret_bind, run, answering, exec]
    cases w.2 0 (.publish state) with
    | ok _ => rfl
    | error exc => trivial
  refine .bind hpublish fun _ => ?_
  cases channels state with
  | error exc => exact .raise fun _ _ => trivial
  | ok view =>
    intro w hw
    simp only [given, ask, perform, call_bind, ret_bind, pure_eq, run, answering, exec]
    cases w.2 0 (.publishChannels view) with
    | ok _ => exact hw
    | error exc => trivial

theorem sat_retire (state : State) (toolId : PyStr) (runner : Runner) (running : RunningTool) :
    Sat (answering exec) P (retire state toolId runner running) (fun _ w => w.1.state = Mapping.del state toolId)
      fun _ _ => True := by
  refine .bind sat_any fun stopped => ?_
  rcases stopped with exc | _
  · cases exc with
    | startCleanup left => exact .bind sat_any fun _ => .raise fun _ _ => trivial
    | _ => exact .raise fun _ _ => trivial
  · exact (sat_save _).conseq (fun _ _ => trivial) (fun _ _ h => h) fun _ _ _ => trivial

/-- A stop that completes leaves the tool without a record. -/
theorem sat_stop (toolId : PyStr) :
    Sat (answering exec) P (stop toolId) (fun _ w => Unrecorded toolId w.1.state) fun _ _ => True := by
  refine .bind sat_load fun state => ?_
  cases hget : Mapping.get state toolId with
  | none =>
    refine .ret ?_
    rintro w rfl
    simp [Unrecorded, recorded, hget]
  | some record =>
    show Sat _ _ (if record.truthy then _ else _) _ _
    split_ifs with htruthy
    · refine .bind sat_any fun running => .bind sat_any fun runner => ?_
      refine (sat_retire state toolId runner running).conseq (fun _ _ => trivial) ?_ fun _ _ _ => trivial
      intro _ w hw
      simp [Unrecorded, recorded, hw, Mapping.get_del]
    · refine .ret ?_
      rintro w rfl
      simpa [Unrecorded, recorded, hget] using htruthy

end Stop

end Toolstack.Admin.ToolyardOps
