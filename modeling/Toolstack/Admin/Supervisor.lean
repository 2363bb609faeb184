import Mathlib.Logic.Function.Basic
import Toolstack.Interleave.Cleanup
import Toolstack.Interleave.Outcomes
import Toolstack.Toolyard.Cleanup

/-! `admin/supervisor.py`: the status, start, stop and restart of the one supervised broker, on a
machine whose processes come and go by themselves. Calls are made one at a time, and the files of the
state directory can be read and written. -/

namespace Toolstack.Admin.Supervisor

open Interleave Prog
open Toolyard (Fault Signal)

/-! ## The calls -/

/-- What the state file holds. -/
structure Record where
  pid : Nat
  port : Nat
deriving DecidableEq, Repr

/-- `ps` answers with the words that `shlex.split` makes of the line, if the probe and the split
succeed. `waitpid` does not block, `waitExit` does, and `killpg` without a signal is signal zero. -/
inductive Op
  | readState
  | writeState (state : Record)
  | clearState
  | ps (pid : Nat)
  | waitpid (pid : Nat)
  | waitExit (pid : Nat)
  | killpg (pid : Nat) (sig : Option Signal)
  | openLog
  | spawn (arguments : List String)
  | closeLog
  | health (port : Nat)
  | sleep
deriving DecidableEq, Repr

namespace Op

@[reducible] def Answer : Op → Type
  | readState => Option Record
  | ps _ => Option (List String)
  | waitpid _ | health _ => Bool
  | spawn _ => Nat
  | writeState _ | clearState | waitExit _ | killpg _ _ | openLog | closeLog | sleep => Unit

abbrev Ret (o : Op) : Type := Except Fault o.Answer

end Op

abbrev Program (α : Type) : Type := Prog Op Op.Ret Fault α

def ask (o : Op) : Program o.Answer := do
  match ← perform o with
  | .ok answer => return answer
  | .error f => raise f

/-! ## The supervisor -/

def namesBroker : List String → Bool
  | tok :: next :: rest => (tok == "-m" && next == "broker.server") || namesBroker (next :: rest)
  | _ => false

def isBroker (pid : Nat) : Program Bool := do
  let args ← ask (.ps pid)
  return args.any namesBroker

structure Status where
  running : Bool
  pid : Option Nat
  port : Option Nat
  healthy : Option Bool
  error : Option String
deriving DecidableEq, Repr

def stopped : Status := ⟨false, none, none, none, none⟩

def pidAlive (pid : Nat) : Program Bool := do
  match ← perform (.killpg pid none) with
  | .ok _ => return true
  | .error .processLookup | .error .permission => return false
  | .error f => raise f

def awaitHealth (port : Nat) : Nat → Program Bool
  | 0 => return false
  | attempts + 1 => do
    let healthy ← ask (.health port)
    if healthy then return true
    else
      ask .sleep
      awaitHealth port attempts

def clearStopped : Program Status := do
  ask .clearState
  return stopped

/-- `status` of a process that was not reaped. -/
def report (state : Record) : Program Status := do
  let alive ← pidAlive state.pid
  if alive then
    let healthy ← ask (.health state.port)
    return ⟨true, some state.pid, some state.port, some healthy, none⟩
  else clearStopped

def status : Program Status := do
  match ← ask .readState with
  | none => return stopped
  | some state =>
    let reaped : Except Fault Bool ← perform (Op.waitpid state.pid)
    match reaped with
    | .ok true | .error .processLookup => clearStopped
    -- not our child, as after a restart of the admin: only a signal can tell
    | .ok false | .error .childProcess => report state
    | .error f => raise f

/-- `start` where nothing runs. -/
def launch (port : Nat) : Program Status := do
  ask .openLog
  let pid ← (ask (.spawn ["-m", "broker.server"])).tryFinally (ask .closeLog)
  ask (.writeState ⟨pid, port⟩)
  let healthy ← awaitHealth port 40
  let result ← status
  if healthy || result.healthy == some true then return result
  else
    return { result with error := some (s!"broker started (pid {pid}) but did not become healthy " ++
      s!"on port {port}; check the broker log") }

def start (port : Nat) : Program Status := do
  let current ← status
  if current.running then return current else launch port

/-- The turns that a broker has for a graceful exit; whether there is nothing left to wait for. -/
def awaitExit (pid : Nat) : Nat → Program Bool
  | 0 => return false
  | turns + 1 => do
    let reaped : Except Fault Bool ← perform (Op.waitpid pid)
    match reaped with
    | .ok true | .error .childProcess | .error .processLookup => return true
    | .ok false =>
      ask .sleep
      awaitExit pid turns
    | .error f => raise f

def kill (pid : Nat) : Program Unit := do
  let killed ← attempt do
    ask (.killpg pid (some .sigkill))
    ask (.waitExit pid)
  match killed with
  | .ok _ | .error .childProcess | .error .processLookup | .error .permission => return ()
  | .error f => raise f

/-- `_terminate` of a process that was seen to be the broker. -/
def signalBroker (pid : Nat) : Program Unit := do
  match ← perform (.killpg pid (some .sigterm)) with
  | .error .processLookup | .error .permission => return ()
  | .error f => raise f
  | .ok _ =>
    let gone ← awaitExit pid 30
    if gone then return () else kill pid

def terminate (pid : Nat) : Program Unit := do
  let broker ← isBroker pid
  if broker then signalBroker pid else return ()

def stop : Program Status := do
  match ← ask .readState with
  | none => return stopped
  | some state =>
    terminate state.pid
    clearStopped

def restart (port : Nat) : Program Status := do
  let _ ← stop
  start port

/-! ## The machine -/

/-- A running broker that the supervisor spawned, a child of the admin that has exited and was not
waited for, or any other running process. A broker leads its group and may be signalled. -/
inductive Process
  | broker (args : Option (List String)) (child : Bool)
  | zombie (ofBroker : Bool)
  | other (args : Option (List String)) (leads ours child : Bool)
deriving DecidableEq, Repr

/-- What a process does by itself. A pid is taken only while no process has it. -/
inductive Event
  | exit (pid : Nat)
  | appear (pid : Nat) (args : Option (List String)) (leads ours child : Bool)
deriving DecidableEq, Repr

/-- What one call meets: what happened before it, whether the probe succeeds, whether a zombie takes
signals, the pid of a new process if there is one, and the words of the interpreter's path. -/
structure Oracle where
  events : List Event
  probed : Bool
  zombieSignalled : Bool
  opened : Bool
  pid : Option Nat
  executable : Option (List String)
  healthy : Bool
deriving DecidableEq, Repr

namespace Process

/-- The broker is alive. -/
def runs : Option Process → Bool
  | some (.broker ..) => true
  | _ => false

/-- A broker that another run of the admin spawned is alive. -/
def inherited : Option Process → Bool
  | some (.broker _ false) => true
  | _ => false

/-- Spawned by the supervisor. -/
def spawned : Process → Bool
  | .broker .. => true
  | .zombie ofBroker => ofBroker
  | .other .. => false

/-- A zombie has no command line. -/
def args : Process → Option (List String)
  | .broker args _ | .other args .. => args
  | .zombie _ => none

/-- The answer of `ps`, which prints nothing for a pid that no process has. -/
def shown (ω : Oracle) (p : Option Process) : Option (List String) :=
  if ω.probed then p.elim (some []) args else none

/-- `killpg` reaches the process. -/
def signalled (ω : Oracle) : Process → Except Fault Unit
  | .broker .. => .ok ()
  | .zombie _ => if ω.zombieSignalled then .ok () else .error .permission
  | .other _ leads ours _ =>
    if leads then if ours then .ok () else .error .permission else .error .processLookup

/-- The process that is left when this one exits. -/
def exited : Process → Option Process
  | .broker _ true => some (.zombie true)
  | .other _ _ _ true => some (.zombie false)
  | .zombie ofBroker => some (.zombie ofBroker)
  | _ => none

/-- The process that is left when the admin restarts. -/
def disowned : Process → Option Process
  | .broker args _ => some (.broker args false)
  | .other args leads ours _ => some (.other args leads ours false)
  | .zombie _ => none

end Process

abbrev Processes : Type := Nat → Option Process

def happen (ps : Processes) : Event → Processes
  | .exit pid => Function.update ps pid ((ps pid).bind Process.exited)
  | .appear pid args leads ours child =>
    if (ps pid).isNone then Function.update ps pid (some (.other args leads ours child)) else ps

def pass (ps : Processes) (events : List Event) : Processes := events.foldl happen ps

/-- What was done, with the brokers that were alive then, or the process that got a signal and whether
the state file named it. -/
inductive Deed
  | spawn (alive : List Nat)
  | clear (alive : List Nat)
  | signal (target : Process) (named : Bool)
deriving DecidableEq, Repr

/-- `spawned` are the pids of the brokers so far. -/
structure World where
  processes : Processes
  record : Option Record
  spawned : List Nat
  history : List Deed

namespace World

def alive (w : World) : List Nat := w.spawned.filter fun pid => Process.runs (w.processes pid)

def names (w : World) (pid : Nat) : Bool := w.record.any fun state => state.pid == pid

def clear (w : World) : World := { w with record := none, history := w.history ++ [.clear w.alive] }

def remove (w : World) (pid : Nat) : World := { w with processes := Function.update w.processes pid none }

def signal (w : World) (pid : Nat) (target : Process) : Option Signal → World
  | none => w
  | some _ => { w with history := w.history ++ [.signal target (w.names pid)] }

def spawn (w : World) (pid : Nat) (args : Option (List String)) : World :=
  { w with
    processes := Function.update w.processes pid (some (.broker args true))
    spawned := w.spawned ++ [pid]
    history := w.history ++ [.spawn w.alive] }

def act (ω : Oracle) (w : World) : (o : Op) → o.Ret × World
  | .readState => (.ok w.record, w)
  | .writeState state => (.ok (), { w with record := some state })
  | .clearState => (.ok (), w.clear)
  | .ps pid => (.ok (Process.shown ω (w.processes pid)), w)
  | .waitpid pid =>
    match w.processes pid with
    | some (.zombie _) => (.ok true, w.remove pid)
    | some (.broker _ true) | some (.other _ _ _ true) => (.ok false, w)
    | _ => (.error .childProcess, w)
  | .waitExit pid =>
    match w.processes pid with
    | some (.zombie _) | some (.broker _ true) | some (.other _ _ _ true) => (.ok (), w.remove pid)
    | _ => (.error .childProcess, w)
  | .killpg pid sig =>
    match w.processes pid with
    | none => (.error .processLookup, w)
    | some target =>
      match target.signalled ω with
      | .ok _ => (.ok (), w.signal pid target sig)
      | .error f => (.error f, w)
  | .openLog => (if ω.opened then .ok () else .error .os, w)
  | .spawn arguments =>
    match ω.pid with
    | none => (.error .os, w)
    | some pid =>
      if (w.processes pid).isSome then (.error .os, w)
      else (.ok pid, w.spawn pid (ω.executable.map (· ++ arguments)))
  | .closeLog | .sleep => (.ok (), w)
  | .health _ => (.ok ω.healthy, w)

def exec (o : Op) (ω : Oracle) (w : World) : o.Ret × World :=
  act ω { w with processes := pass w.processes ω.events } o

end World

/-! ## Runs -/

inductive Call
  | status
  | start (port : Nat)
  | stop
  | restart (port : Nat)

def Call.program : Call → Program Status
  | .status => Supervisor.status
  | .start port => Supervisor.start port
  | .stop => Supervisor.stop
  | .restart port => Supervisor.restart port

inductive Step
  | call (c : Call) (s : Nat → Oracle)
  | happen (events : List Event)
  | restartAdmin

namespace World

def step (w : World) : Step → World
  | .call c s => (c.program.run (answering exec) (w, s)).world.1
  | .happen events => { w with processes := pass w.processes events }
  | .restartAdmin => { w with processes := fun pid => (w.processes pid).bind Process.disowned }

/-- Every world of a run. -/
def visited (w : World) : List Step → List World
  | [] => [w]
  | s :: rest => w :: (w.step s).visited rest

end World

end Toolstack.Admin.Supervisor
