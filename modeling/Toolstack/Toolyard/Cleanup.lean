import Toolstack.Interleave.Program

/-! How a stopped tool's processes are cleaned up: `_pid_absent`, `_terminate` and
`_cleanup_partial_start`, with every answer of the operating system left open. -/

namespace Toolstack.Toolyard

open Interleave

inductive Signal
  | sigterm
  | sigkill
deriving DecidableEq, Repr

/-- What a call of the operating system raises: an `OSError` of one of its subclasses, or
something that is no `OSError`. -/
inductive Fault
  | processLookup
  | permission
  | childProcess
  | os
  | other
deriving DecidableEq, Repr

/-- The calls of `_terminate`. `waitpid` never blocks and `kill` is signal zero to one process.
`polls` is the number of turns that a clock moved on by each sleep allows in `delay` seconds. -/
inductive Op
  | bootId
  | processIdentity (pid : Int)
  | waitpid (pid : Int)
  | kill (pid : Int)
  | killpg (pid : Int) (sig : Signal)
  | polls (delay : Nat)
  | sleep
deriving DecidableEq, Repr

namespace Op

/-- The process that a call looks at, reaps or signals. -/
def target : Op → Option Int
  | processIdentity pid | waitpid pid | kill pid | killpg pid _ => some pid
  | bootId | polls _ | sleep => none

@[reducible] def Answer : Op → Type
  | bootId | processIdentity _ => Option String
  | waitpid _ => Int
  | polls _ => Nat
  | kill _ | killpg _ _ | sleep => Unit

/-- `_boot_id` is cached: its answer may be that of an earlier call. -/
abbrev Ret (o : Op) : Type := Except Fault o.Answer

end Op

/-- A child of a tool's record. -/
inductive Kind
  | process
  | log
  | egress
deriving DecidableEq, Repr

/-- The part of the record that cleaning up reads and writes. -/
structure RunningTool where
  toolId : String
  backend : String
  handle : String
  logPid : Option String
  egressPid : Option String
  bootId : Option String
  processIdentity : Option String
  logIdentity : Option String
  egressIdentity : Option String
  processExited : Bool
  logExited : Bool
  egressExited : Bool
deriving DecidableEq, Repr

namespace RunningTool

def identity (running : RunningTool) : Kind → Option String
  | .process => running.processIdentity
  | .log => running.logIdentity
  | .egress => running.egressIdentity

def exited (running : RunningTool) : Kind → Bool
  | .process => running.processExited
  | .log => running.logExited
  | .egress => running.egressExited

/-- `replace(running, **{f"{kind}_exited": True})`. -/
def receipt (running : RunningTool) : Kind → RunningTool
  | .process => { running with processExited := true }
  | .log => { running with logExited := true }
  | .egress => { running with egressExited := true }

section
variable (running : RunningTool) (kind kind' : Kind)

@[simp] theorem identity_receipt : (running.receipt kind).identity kind' = running.identity kind' := by
  cases kind <;> cases kind' <;> rfl

@[simp] theorem bootId_receipt : (running.receipt kind).bootId = running.bootId := by
  cases kind <;> rfl

theorem exited_receipt :
    (running.receipt kind).exited kind' = (decide (kind' = kind) || running.exited kind') := by
  cases kind <;> cases kind' <;> rfl

end

/-- The children a record names, and their pids. -/
def children (running : RunningTool) : List (Kind × Option String) :=
  let helpers := [(.log, running.logPid), (.egress, running.egressPid)]
  if running.backend = "process" ∨ running.backend = "seatbelt" then
    (.process, if running.handle = "" then none else some running.handle) :: helpers
  else helpers

end RunningTool

inductive Exn
  | fault (f : Fault)
  | runtimeError (text : String)
  | valueError (text : String)
  | startCleanup (running : RunningTool)

abbrev Program (α : Type) : Type := Prog Op Op.Ret Exn α

open Prog

def ask (o : Op) : Program o.Answer := do
  match ← perform o with
  | .ok answer => return answer
  | .error f => raise (.fault f)

/-- Neither `None` nor empty. -/
def truthy (text : Option String) : Bool := text.any (· ≠ "")

/-- `_pid_absent`. -/
def pidAbsent (pid : Int) : Program Bool :=
  if pid ≤ 1 then raise (.runtimeError "invalid process handle; retain state")
  else do
    match ← perform (.kill pid) with
    | .ok _ => return false
    | .error .processLookup => return true
    | .error .other => raise (.fault .other)
    | .error _ => raise (.runtimeError "process absence unconfirmed; retain state")

def reaped (pid : Int) : Program Bool := do
  match ← perform (.waitpid pid) with
  | .ok child => return child == pid
  | .error .childProcess => return false
  | .error f => raise (.fault f)

section Terminate
variable (bootId identity : Option String) (pid : Int)

def checkExit : Program Bool := do
  let currentBoot ← ask .bootId
  if truthy bootId && truthy currentBoot && bootId != currentBoot then return true
  else if truthy bootId && currentBoot.isNone then
    raise (.runtimeError "process boot identity unconfirmed; retain state")
  else
    let current ← ask (.processIdentity pid)
    if identity.isSome && current.isSome && current != identity then
      raise (.runtimeError "process identity changed; retain state")
    else
      let gone ← reaped pid
      if gone then return true
      else if !truthy bootId || !truthy currentBoot then
        raise (.runtimeError "process boot identity unconfirmed; retain state")
      else pidAbsent pid

/-- The match that each signal needs: the boot first, then the process. -/
def current : Program Bool :=
  if !truthy bootId then return false
  else do
    let currentBoot ← ask .bootId
    if currentBoot != bootId || !truthy identity then return false
    else
      let current ← ask (.processIdentity pid)
      return current == identity

/-- `while time.monotonic() < deadline: …`, as often as the clock lets it. -/
def poll : Nat → Program Bool
  | 0 => return false
  | turns + 1 => do
    let gone ← checkExit bootId identity pid
    if gone then return true
    else
      ask .sleep
      poll turns

/-- What follows a signal that was sent, or that found no group. -/
def await (delay : Nat) : Program Bool := do
  let turns ← ask (.polls delay)
  let gone ← poll bootId identity pid turns
  if gone then return true
  else checkExit bootId identity pid

def signalAll : List (Signal × Nat) → Program Unit
  | [] => raise (.runtimeError "process stop unconfirmed; retain state")
  | (sig, delay) :: rest => do
    let matched ← current bootId identity pid
    if !matched then raise (.runtimeError "process identity unconfirmed; retain state")
    else
      match ← perform (.killpg pid sig) with
      | .error .permission =>
        -- a zombie may answer EPERM: only a reap or ESRCH resolves it
        let gone ← checkExit bootId identity pid
        if gone then return () else raise (.runtimeError "process signal denied; retain state")
      | .ok _ | .error .processLookup =>
        let gone ← await bootId identity pid delay
        if gone then return () else signalAll rest
      | .error f => raise (.fault f)

end Terminate

/-- `int` is how a handle is read as a number, if it can be. -/
def terminate (int : String → Option Int) (pid identity bootId : Option String) : Program Unit :=
  match pid.bind int with
  | none => return ()
  | some pid =>
    if pid ≤ 1 then return ()
    else do
      let gone ← checkExit bootId identity pid
      if gone then return ()
      else signalAll bootId identity pid [(.sigterm, 2), (.sigkill, 1)]

/-- One turn of the loop's `try`. -/
def stopChild (int : String → Option Int) (running : RunningTool) (child : Kind × String) : Program Unit :=
  match int child.2 with
  | none => raise (.valueError "invalid literal for int()")
  | some pid =>
    if pid ≤ 1 then raise (.valueError "invalid process handle")
    else terminate int (some child.2) (running.identity child.1) running.bootId

def cleanupChildren (int : String → Option Int) :
    List (Kind × Option String) → Bool → RunningTool → Program (Bool × RunningTool)
  | [], failed, running => return (failed, running)
  | (kind, pid) :: rest, failed, running =>
    match pid with
    | none => cleanupChildren int rest failed running
    | some pid =>
      if running.exited kind then cleanupChildren int rest failed running
      else do
        match ← (stopChild int running (kind, pid)).attempt with
        | .ok _ => cleanupChildren int rest failed (running.receipt kind)
        | .error _ => cleanupChildren int rest true running

/-- `_cleanup_partial_start`. -/
def cleanupPartialStart (int : String → Option Int) (running : RunningTool) : Program RunningTool := do
  let (failed, running) ← cleanupChildren int running.children false running
  if failed then raise (.startCleanup running) else return running

end Toolstack.Toolyard
