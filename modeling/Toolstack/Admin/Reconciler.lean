import Toolstack.Admin.ToolyardOps

/-! `admin/reconciler.py` while an operator starts, stops and restarts tools. -/

namespace Toolstack.Admin.Reconciler

open Interleave Prog
open ToolyardOps

/-! ## The reconciler -/

/-- What runs without interruption: all but the wait and the assessment hold the state lock from end to
end. -/
inductive Call
  | waitUntilUp
  | snapshot
  | assess (record : Json)
  | start (toolId : PyStr) (backend : Json) (recovery : Bool)
  | stop (toolId : PyStr)
  | restart (toolId : PyStr) (backend : Json)
  | restoreIntent (toolId : PyStr) (record : Json)

namespace Call

/-- An assessment answers with the backend, and whether the runtime is alive. -/
@[reducible] def Answer : Call → Type
  | waitUntilUp => Bool
  | snapshot => State
  | assess _ => Json × Bool
  | start _ _ _ | stop _ | restart _ _ | restoreIntent _ _ => Unit

abbrev Ret (o : Call) : Type := Except Exn o.Answer

end Call

def assess (record : Json) : Program (Json × Bool) := do
  let running ← given (RunningTool.ofRecord record)
  let runner ← getRunner (running.field .backend)
  let alive ← ask (.isAlive runner running)
  return (running.field .backend, alive)

/-- What the reconciler does about a tool that it failed to restart. -/
def restoreIntent (toolId : PyStr) (record : Json) : Program Unit := do
  let current ← ask .loadState
  saveState (Mapping.setDefault current toolId record)

def Call.body : (o : Call) → Program o.Answer
  | .waitUntilUp => ask .waitUntilUp
  | .snapshot => ask .loadState
  | .assess record => Reconciler.assess record
  | .start toolId backend recovery => ToolyardOps.start toolId backend recovery
  | .stop toolId => ToolyardOps.stop toolId
  | .restart toolId backend => ToolyardOps.restart toolId backend
  | .restoreIntent toolId record => Reconciler.restoreIntent toolId record

abbrev Routine (α : Type) : Type := Prog Call Call.Ret Exn α

def call (o : Call) : Routine o.Answer := do
  match ← perform o with
  | .ok answer => return answer
  | .error exc => raise exc

/-- A tool that was found dead; whether it was restarted. -/
def recover (toolId : PyStr) (backend record : Json) : Routine Nat := do
  let started : Call.Ret (Call.start toolId backend true) ← perform (Call.start toolId backend true)
  match started with
  | .ok _ => return 1
  | .error (.lookupError _ _) => return 0
  | .error _ =>
    call (.restoreIntent toolId record)
    return 0

def reconcileTool (toolId : PyStr) : Json → Routine Nat
  | .obj kvs => do
    let assessed : Call.Ret (Call.assess (.obj kvs)) ← perform (Call.assess (.obj kvs))
    match assessed with
    | .error .systemExit => raise .systemExit
    | .error _ => return 0
    | .ok (backend, alive) => if alive then return 0 else recover toolId backend (.obj kvs)
  | _ => return 0

def reconcileAll : State → Nat → Routine Nat
  | [], started => return started
  | (toolId, record) :: rest, started => do
    let restarted ← reconcileTool toolId record
    reconcileAll rest (started + restarted)

def reconcilePass (link : Bool) : Routine Nat := do
  let up ← if link then call .waitUntilUp else pure true
  if up then
    let state ← call .snapshot
    reconcileAll state 0
  else return 0

/-- `reconcile_running_tools`; `link` says whether SPS is configured. -/
def reconcileRunningTools (link : Bool) : Routine Nat := do
  match ← attempt (reconcilePass link) with
  | .ok started => return started
  | .error .systemExit => raise .systemExit
  | .error _ => return 0

/-! ## The reconciler and the operator -/

inductive Job
  | reconcile (link : Bool)
  | start (toolId : PyStr) (backend : Json)
  | stop (toolId : PyStr)
  | restart (toolId : PyStr) (backend : Json)

/-- The count of a reconciliation; an operator's calls return nothing. -/
def Job.program : Job → Routine (Option Nat)
  | .reconcile link => some <$> reconcileRunningTools link
  | .start toolId backend => (fun _ => none) <$> call (.start toolId backend false)
  | .stop toolId => (fun _ => none) <$> call (.stop toolId)
  | .restart toolId backend => (fun _ => none) <$> call (.restart toolId backend)

/-- One call, from the first read of the state to the last write. -/
def ran (o : Call) (host : Host) (ω : Answers) : Ran Op Op.Ret Exn o.Answer (Host × Answers) :=
  o.body.run (answering exec) (host, ω)

/-- The host after a call, which remembers what an `UnrecordedRuntimeError` has reported. -/
def after (o : Call) (host : Host) (ω : Answers) : Host :=
  { (ran o host ω).world.1 with unrecorded := host.unrecorded ∪ reported (ran o host ω).result }

def system : System Call Call.Ret Exn (Option Nat) Job Host Answers Empty Empty where
  exec _ o ω host := ((ran o host ω).result, after o host ω)
  program := Job.program
  env e _ := e.elim
  offline f _ := f.elim

abbrev Configuration := Config Call Call.Ret Exn (Option Nat) Job Host

abbrev Step := Move Job Answers Empty Empty

/-- The call that the thread makes next. -/
def next (c : Configuration) (i : Nat) : Option Call :=
  match c.threads[i]? with
  | some ⟨_, some (.call o _)⟩ => some o
  | _ => none

/-- The move makes a call that `p` describes. -/
def does (p : Call → Host → Answers → Bool) (c : Configuration) : Step → Bool
  | .call i ω => (next c i).any fun o => p o c.world ω
  | _ => false

/-- A move makes one call, or none and leaves the state alone. -/
theorem step_world {c c' : Configuration} {m : Step} (h : system.step c m = some c') :
    (c'.world = c.world ∧ ∀ p, does p c m = false) ∨
      ∃ o ω, (∀ p, does p c m = p o c.world ω) ∧ c'.world = after o c.world ω := by
  cases m with
  | call i ω =>
    obtain ⟨j, o, k, hi, hworld, -⟩ := System.step_call h
    refine .inr ⟨o, ω, fun p => ?_, hworld⟩
    simp [does, next, hi]
  | start j =>
    obtain rfl := Option.some.inj h
    exact .inl ⟨rfl, fun _ => rfl⟩
  | crash i =>
    obtain ⟨-, -, -, -, hworld, -⟩ := System.step_crash h
    exact .inl ⟨hworld, fun _ => rfl⟩
  | env e => exact e.elim
  | offline f => exact f.elim

/-! ## What the calls leave alone -/

/-- The tool whose record a call can change. -/
def Call.target : Call → Option PyStr
  | .start toolId _ _ | .stop toolId | .restart toolId _ | .restoreIntent toolId _ => some toolId
  | .waitUntilUp | .snapshot | .assess _ => none

section
variable {K : State → Prop} {t : PyStr} {host : Host} {ω : Answers}

theorem restoreIntent_when (toolId : PyStr) (record : Json)
    (h : ∀ state, K state → K (Mapping.setDefault state toolId record)) :
    (restoreIntent toolId record).When (answers K true) (permits K) :=
  when_ask (o := .loadState) trivial fun state hstate => saveState_when (h state hstate)

theorem frame_setDefault {toolId : PyStr} (hK : Frame K toolId) {state : State} (record : Json) (h : K state) :
    K (Mapping.setDefault state toolId record) := by
  unfold Mapping.setDefault
  split_ifs
  · exact h
  · exact hK.set record h

theorem body_when {o : Call} (hK : ∀ toolId, o.target = some toolId → Frame K toolId) :
    o.body.When (answers K true) (permits K) := by
  cases o with
  | waitUntilUp => exact ⟨trivial, fun r _ => by cases r <;> trivial⟩
  | snapshot => exact ⟨trivial, fun r _ => by cases r <;> trivial⟩
  | assess record =>
    refine when_given fun running _ => (getRunner_when _).bind fun runner => ?_
    exact when_ask (o := .isAlive runner running) trivial fun _ _ => trivial
  | start toolId backend recovery => exact start_when (hK toolId rfl) backend recovery
  | stop toolId => exact stop_when (hK toolId rfl)
  | restart toolId backend => exact restart_when (hK toolId rfl) backend
  | restoreIntent toolId record =>
    exact restoreIntent_when toolId record fun state h => frame_setDefault (hK toolId rfl) record h

/-- A call changes the record of its own tool only. -/
theorem get_ran {o : Call} (ht : o.target ≠ some t) :
    Mapping.get (after o host ω).state t = Mapping.get host.state t := by
  have hwhen := body_when (K := fun s => Mapping.get s t = Mapping.get host.state t) (o := o) fun toolId htarget =>
    frame_get (by rintro rfl; exact ht htarget) _
  exact run_keeps_state hwhen rfl fun _ _ _ => rfl

/-- A record that is there is not replaced. -/
theorem get_restoreIntent {record v : Json} (h : Mapping.get host.state t = some v) :
    Mapping.get (after (.restoreIntent t record) host ω).state t = some v := by
  have hwhen := restoreIntent_when (K := fun s => Mapping.get s t = some v) t record
    fun s hs => by
      show Mapping.get _ t = some v
      rw [Mapping.get_setDefault, if_pos rfl, hs, Option.getD_some]
  exact run_keeps_state hwhen h fun _ _ _ => rfl

end

/-! ## What the operator can count on -/

/-- An operator's start of the tool, which a restart ends with. -/
def Call.operatorStarts (t : PyStr) : Call → Bool
  | .start toolId _ recovery => toolId = t && !recovery
  | .restart toolId _ => toolId = t
  | _ => false

def Call.operatorActs (t : PyStr) (o : Call) : Bool :=
  o.operatorStarts t || match o with
    | .stop toolId => toolId = t
    | _ => false

def Call.restores (t : PyStr) : Call → Bool
  | .restoreIntent toolId _ => toolId = t
  | _ => false

def Call.recovers (t : PyStr) : Call → Bool
  | .start toolId _ recovery => toolId = t && recovery
  | _ => false

/-- A stop of the tool completes: the operator's, or that of a restart which then launches nothing. -/
def stopCompletes (t : PyStr) : Configuration → Step → Bool :=
  does fun o host ω => match o with
    | .stop toolId => toolId = t && (ran (.stop toolId) host ω).result.isOk
    | .restart toolId backend => toolId = t && (ran (.stop toolId) host ω).result.isOk &&
        (ran (.restart toolId backend) host ω).calls.all fun c => !launched c
    | _ => false

/-- An operator's start of the tool launches a runtime, whether or not it then succeeds. -/
def launches (t : PyStr) : Configuration → Step → Bool :=
  does fun o host ω => o.operatorStarts t && (ran o host ω).calls.any launched

def writesBack (t : PyStr) : Configuration → Step → Bool := does fun o _ _ => o.restores t

/-- The reconciler writes its record of a tool back that has none. -/
def resurrects (t : PyStr) : Configuration → Step → Bool :=
  does fun o host _ => o.restores t && (Mapping.get host.state t).isNone

/-- A recovery gives the record up that it found, and leaves no other. -/
def drops (t : PyStr) : Configuration → Step → Bool :=
  does fun o host ω => o.recovers t && (Mapping.get host.state t).isSome &&
    (Mapping.get (after o host ω).state t).isNone

def operatorActs (t : PyStr) : Configuration → Step → Bool := does fun o _ _ => o.operatorActs t

section
variable {t : PyStr} {host : Host} {ω : Answers} {c c₁ c₂ c₃ c' : Configuration} {m : Step}

theorem unrecorded_congr {state state' : State} (h : Mapping.get state' t = Mapping.get state t) :
    Unrecorded t state' ↔ Unrecorded t state := by
  simp only [Unrecorded, recorded, h]

/-- Without a record, nothing but an operator's start that launches, or a record written back where there
is none, makes one. -/
theorem ran_unrecorded {o : Call} (h : Unrecorded t host.state)
    (hlaunch : (o.operatorStarts t && (ran o host ω).calls.any launched) = false)
    (hback : (o.restores t && (Mapping.get host.state t).isNone) = false) :
    Unrecorded t (after o host ω).state := by
  by_cases ht : o.target = some t
  · cases o with
    | waitUntilUp | snapshot | assess record => cases ht
    | start toolId backend recovery =>
      obtain rfl : toolId = t := Option.some.inj ht
      refine run_keeps_state (start_unrecorded backend recovery) h fun call hcall hup => ?_
      cases recovery with
      | true => rfl
      | false =>
        have hany : (ran (.start toolId backend false) host ω).calls.any launched = true :=
          List.any_eq_true.2 ⟨call, hcall, hup⟩
        simp [Call.operatorStarts, hany] at hlaunch
    | stop toolId =>
      obtain rfl : toolId = t := Option.some.inj ht
      exact run_keeps_state (@stop_unrecorded true toolId) h fun _ _ _ => rfl
    | restart toolId backend =>
      obtain rfl : toolId = t := Option.some.inj ht
      refine run_keeps_state (restart_unrecorded backend) h fun call hcall hup => ?_
      have hany : (ran (.restart toolId backend) host ω).calls.any launched = true :=
        List.any_eq_true.2 ⟨call, hcall, hup⟩
      simp [Call.operatorStarts, hany] at hlaunch
    | restoreIntent toolId record =>
      obtain rfl : toolId = t := Option.some.inj ht
      cases hget : Mapping.get host.state toolId with
      | none => simp [Call.restores, hget] at hback
      | some v => exact (unrecorded_congr ((get_restoreIntent hget).trans hget.symm)).2 h
  · exact (unrecorded_congr (get_ran ht)).2 h

theorem ran_stop (h : (ran (.stop t) host ω).result.isOk = true) :
    Unrecorded t (after (.stop t) host ω).state := by
  cases hresult : (ran (.stop t) host ω).result with
  | ok _ => exact (sat_stop (P := fun _ => True) t).returned trivial hresult
  | error exc => simp [hresult, Except.isOk, Except.toBool] at h

/-- A restart that stops the tool and launches nothing leaves it stopped. -/
theorem ran_restart {backend : Json} (h : (ran (.stop t) host ω).result.isOk = true)
    (hquiet : (ran (.restart t backend) host ω).calls.all (fun c => !launched c) = true) :
    Unrecorded t (after (.restart t backend) host ω).state := by
  have hstop := ran_stop h
  have hbind : ran (.restart t backend) host ω = _ :=
    @run_bind _ _ _ _ _ _ (answering exec) (ToolyardOps.stop t)
      (fun _ => ToolyardOps.start t backend false) (host, ω)
  cases hresult : ((ToolyardOps.stop t).run (answering exec) (host, ω)).result with
  | error exc =>
    have hfalse : (ran (.stop t) host ω).result.isOk = false := by
      show Except.isOk ((ToolyardOps.stop t).run (answering exec) (host, ω)).result = false
      rw [hresult]
      rfl
    simp [hfalse] at h
  | ok _ =>
    rw [hresult] at hbind
    rw [hbind] at hquiet
    show Unrecorded t (ran (.restart t backend) host ω).world.1.state
    rw [hbind]
    refine run_keeps_state (start_unrecorded backend false) hstop fun call hcall hup => ?_
    have hnone := List.all_eq_true.1 hquiet call (List.mem_append_right _ hcall)
    simp [hup] at hnone

theorem stop_completes (h : stopCompletes t c m = true) (hstep : system.step c m = some c') :
    Unrecorded t c'.world.state := by
  rcases step_world hstep with ⟨-, hdoes⟩ | ⟨o, ω, hdoes, hworld⟩
  · rw [stopCompletes, hdoes] at h
    cases h
  · rw [stopCompletes, hdoes] at h
    rw [hworld]
    cases o with
    | stop toolId =>
      simp only [Bool.and_eq_true, decide_eq_true_eq] at h
      obtain ⟨rfl, hok⟩ := h
      exact ran_stop hok
    | restart toolId backend =>
      simp only [Bool.and_eq_true, decide_eq_true_eq] at h
      obtain ⟨⟨rfl, hok⟩, hquiet⟩ := h
      exact ran_restart hok hquiet
    | _ => cases h

theorem stays_unrecorded (h : Unrecorded t c.world.state)
    (hrun : system.Steps (fun c m => launches t c m = false ∧ resurrects t c m = false) c c') :
    Unrecorded t c'.world.state := by
  refine hrun.invariant (P := fun c => Unrecorded t c.world.state) h fun c₁ m c₂ _ hok hstep h₁ => ?_
  rcases step_world hstep with ⟨hworld, -⟩ | ⟨o, ω, hdoes, hworld⟩
  · rwa [hworld]
  · rw [hworld]
    refine ran_unrecorded h₁ ?_ ?_
    · rw [← hok.1, launches, hdoes]
    · rw [← hok.2, resurrects, hdoes]

/-- A record stays, unless the operator acts on the tool or a recovery drops it. -/
theorem ran_present {o : Call} (h : (Mapping.get host.state t).isSome = true) (hacts : o.operatorActs t = false)
    (hdrop : (o.recovers t && (Mapping.get host.state t).isSome &&
      (Mapping.get (after o host ω).state t).isNone) = false) :
    (Mapping.get (after o host ω).state t).isSome = true := by
  by_cases ht : o.target = some t
  · cases o with
    | waitUntilUp | snapshot | assess record => cases ht
    | start toolId backend recovery =>
      obtain rfl : toolId = t := Option.some.inj ht
      cases recovery with
      | true => simpa [Call.recovers, h] using hdrop
      | false => simp [Call.operatorActs, Call.operatorStarts] at hacts
    | stop toolId =>
      obtain rfl : toolId = t := Option.some.inj ht
      simp [Call.operatorActs] at hacts
    | restart toolId backend =>
      obtain rfl : toolId = t := Option.some.inj ht
      simp [Call.operatorActs, Call.operatorStarts] at hacts
    | restoreIntent toolId record =>
      obtain rfl : toolId = t := Option.some.inj ht
      obtain ⟨v, hv⟩ := Option.isSome_iff_exists.1 h
      rw [get_restoreIntent hv]
      rfl
  · rwa [get_ran ht]

theorem stays_present (h : (Mapping.get c.world.state t).isSome = true)
    (hrun : system.Steps (fun c m => operatorActs t c m = false ∧ drops t c m = false) c c') :
    (Mapping.get c'.world.state t).isSome = true := by
  refine hrun.invariant (P := fun c => (Mapping.get c.world.state t).isSome = true) h
    fun c₁ m c₂ _ hok hstep h₁ => ?_
  rcases step_world hstep with ⟨hworld, -⟩ | ⟨o, ω, hdoes, hworld⟩
  · rwa [hworld]
  · rw [hworld]
    refine ran_present h₁ ?_ ?_
    · rw [← hok.1, operatorActs, hdoes]
    · rw [← hok.2, drops, hdoes]

theorem writesBack_present (h : (Mapping.get c.world.state t).isSome = true) (hback : writesBack t c m = true)
    (hstep : system.step c m = some c') : Mapping.get c'.world.state t = Mapping.get c.world.state t := by
  rcases step_world hstep with ⟨hworld, -⟩ | ⟨o, ω, hdoes, hworld⟩
  · rw [hworld]
  · rw [writesBack, hdoes] at hback
    obtain ⟨v, hv⟩ := Option.isSome_iff_exists.1 h
    cases o with
    | restoreIntent toolId record =>
      obtain rfl : toolId = t := of_decide_eq_true hback
      rw [hworld, get_restoreIntent hv, hv]
    | _ => cases hback

end

/-- A tool whose stop has completed stays without a record until an operator's start launches it, unless
the reconciler writes its own record back; and a record that an operator's start has left is not replaced
by the reconciler's, until the operator acts on the tool again, unless a recovery has dropped it. -/
theorem reconcile_spares {t : PyStr} {c₁ c₂ c₃ : Configuration} {m : Step}
    (hstep : system.step c₁ m = some c₂) :
    (stopCompletes t c₁ m = true →
      system.Steps (fun c m => launches t c m = false ∧ resurrects t c m = false) c₂ c₃ →
        Unrecorded t c₃.world.state) ∧
    (launches t c₁ m = true → (Mapping.get c₂.world.state t).isSome = true →
      system.Steps (fun c m => operatorActs t c m = false ∧ drops t c m = false) c₂ c₃ →
        ∀ m' c₄, writesBack t c₃ m' = true → system.step c₃ m' = some c₄ →
          Mapping.get c₄.world.state t = Mapping.get c₃.world.state t) := by
  refine ⟨fun hstop hrun => stays_unrecorded (stop_completes hstop hstep) hrun, ?_⟩
  intro _ hpresent hrun m' c₄ hback hstep'
  exact writesBack_present (stays_present hpresent hrun) hback hstep'

/-! ## What the operator cannot count on -/

def snapshots : Configuration → Step → Bool :=
  does fun o host ω => match o with
    | .snapshot => (ran .snapshot host ω).result.isOk
    | _ => false

/-- A run from any recorded state in which the reconciler has taken its snapshot. -/
def AfterSnapshot (c : Configuration) : Prop :=
  ∃ state c₀ m c', system.Reachable (Host.idle state) c₀ ∧ snapshots c₀ m = true ∧
    system.step c₀ m = some c' ∧ system.Steps (fun _ _ => True) c' c

def startSucceeds (t : PyStr) : Configuration → Step → Bool :=
  does fun o host ω => (o.operatorStarts t || o.recovers t) && (ran o host ω).result.isOk

/-- After a stop that has completed, only a start that succeeds records the tool, as long as all steps
are `allowed`. -/
def StopStands (allowed : Configuration → Step → Bool) : Prop :=
  ∀ t c₁ m c₂ c₃, AfterSnapshot c₁ → stopCompletes t c₁ m = true → system.step c₁ m = some c₂ →
    system.Steps (fun c m => startSucceeds t c m = false ∧ allowed c m = true) c₂ c₃ →
      Unrecorded t c₃.world.state

/-- The record that an operator's start has left is not replaced by the reconciler's. -/
def StartStands : Prop :=
  ∀ t c₁ m c₂ c₃ m' c₄, AfterSnapshot c₁ → launches t c₁ m = true →
    (Mapping.get c₂.world.state t).isSome = true → system.step c₁ m = some c₂ →
    system.Steps (fun c m => operatorActs t c m = false) c₂ c₃ →
      writesBack t c₃ m' = true → system.step c₃ m' = some c₄ →
        Mapping.get c₄.world.state t = Mapping.get c₃.world.state t

/-- `act` is a move after the snapshot, and the moves of `after` follow it, all of them `allowed`. -/
def scenario (state : State) (before : List Step) (snapshot : Step) (between : List Step) (act : Step)
    (allowed : Configuration → Step → Bool) (after : List Step) :
    Option (Configuration × Configuration × Configuration) := do
  let c₀ ← system.run ⟨Host.idle state, []⟩ before
  if snapshots c₀ snapshot then
    let c' ← system.step c₀ snapshot
    let c₁ ← system.run c' between
    let c₂ ← system.step c₁ act
    let c₃ ← system.runIf allowed c₂ after
    return (c₁, c₂, c₃)
  else none

theorem of_scenario {state : State} {before between after : List Step} {snapshot act : Step}
    {allowed : Configuration → Step → Bool} {c₁ c₂ c₃ : Configuration}
    (h : scenario state before snapshot between act allowed after = some (c₁, c₂, c₃)) :
    AfterSnapshot c₁ ∧ system.step c₁ act = some c₂ ∧
      system.Steps (fun c m => allowed c m = true) c₂ c₃ := by
  simp only [scenario, Option.bind_eq_bind, Option.bind_eq_some_iff] at h
  obtain ⟨c₀, hbefore, h⟩ := h
  split_ifs at h with hsnap
  simp only [Option.bind_eq_some_iff, Option.pure_def, Option.some.injEq, Prod.mk.injEq] at h
  obtain ⟨c', hc', d₁, hbetween, d₂, hact, d₃, hafter, rfl, rfl, rfl⟩ := h
  exact ⟨⟨state, c₀, snapshot, c', .of_run hbefore, hsnap, hc', .of_run hbetween⟩, hact,
    .of_runIf hafter fun _ _ h => h⟩

namespace Sample

def echo : PyStr := py "echo"

def process : Json := .str (py "process")

def running (handle : String) : RunningTool where
  field
    | .toolId => .str echo
    | .port => .int 4601
    | .backend => process
    | .handle => .str (py handle)
    | .secretDeclarations => .arr []
    | .manifestDigest => .str (py "d1")
    | f => f.default.getD .null

def tool : Toolyard.ToolDef where
  id := echo
  type := .api
  port := 4601
  command := .str (py "serve")
  image := .null
  secrets := []
  path := "/tools/echo"
  description := .null
  egress := []
  manifestDigest := "d1".toList

/-- Every file is written, every runtime is found dead and is stopped, and `runner.start` does as `started`
says. -/
def answers (started : Except Exn RunningTool) : Answers := fun _ o =>
  match o with
  | .waitUntilUp => .ok true
  | .allDefs => .ok [(echo, tool)]
  | .loadState => .ok []
  | .publish _ | .publishChannels _ => .ok ()
  | .platform => .ok (py "linux")
  | .isAlive _ _ => .ok false
  | .stop _ _ => .ok ()
  | .start _ _ _ => started

def recorded₁ : State := [(echo, (running "1").asdict)]

def up : Answers := answers (.ok (running "2"))

def failing : Answers := answers (.error .other)

def leaving : Answers := answers (.error (.startCleanup (running "2")))

/-- The tool is stopped after the snapshot, and found dead by the reconciler. -/
def stopped (allowed : Configuration → Step → Bool) (after : List Step) :
    Option (Configuration × Configuration × Configuration) :=
  scenario recorded₁ [.start (.reconcile false)] (.call 0 up) [.start (.stop echo)] (.call 1 up) allowed after

/-- The tool is started anew after the snapshot, and dies before the reconciler comes to it. -/
def restarted (allowed : Configuration → Step → Bool) (after : List Step) :
    Option (Configuration × Configuration × Configuration) :=
  scenario recorded₁ [.start (.reconcile false)] (.call 0 up) [.start (.start echo process)] (.call 1 up) allowed
    after

def reconciliation : List Step := [.call 0 failing, .call 0 failing, .call 0 failing]

def shownHandle (state : State) : Option PyStr :=
  match Mapping.get state echo with
  | some (.obj kvs) => match Json.find? kvs (py "handle") with
    | some (.str handle) => some handle
    | _ => none
  | _ => none

end Sample

theorem exists_of_any {r : Option (Configuration × Configuration × Configuration)}
    {p : Configuration → Configuration → Configuration → Bool}
    (h : r.any (fun x => p x.1 x.2.1 x.2.2) = true) :
    ∃ c₁ c₂ c₃, r = some (c₁, c₂, c₃) ∧ p c₁ c₂ c₃ = true := by
  obtain ⟨⟨c₁, c₂, c₃⟩, hr, hp⟩ := (Option.any_eq_true _ _).1 h
  exact ⟨c₁, c₂, c₃, hr, hp⟩

/-- After the stop, the reconciler finds nothing declared and writes its old record back. -/
theorem stop_undone : ¬ StopStands fun _ _ => true := by
  intro h
  obtain ⟨c₁, c₂, c₃, hr, hp⟩ := exists_of_any
    (r := Sample.stopped (fun c m => !startSucceeds Sample.echo c m) Sample.reconciliation)
    (p := fun c₁ _ c₃ => stopCompletes Sample.echo c₁ (.call 1 Sample.up) &&
      recorded c₃.world.state Sample.echo)
    (by decide +kernel)
  obtain ⟨hafter, hact, hrun⟩ := of_scenario hr
  obtain ⟨hstop, hrecorded⟩ := Bool.and_eq_true_iff.1 hp
  have hnone := h Sample.echo c₁ _ c₂ c₃ hafter hstop hact
    (hrun.mono fun c m hm => ⟨by simpa using hm, rfl⟩)
  exact Bool.noConfusion (hrecorded.symm.trans hnone)

/-- A start that fails may leave a runtime, which is recorded. -/
theorem stop_outlived : ¬ StopStands fun c m => !writesBack Sample.echo c m := by
  intro h
  obtain ⟨c₁, c₂, c₃, hr, hp⟩ := exists_of_any
    (r := Sample.stopped (fun c m => !startSucceeds Sample.echo c m && !writesBack Sample.echo c m)
      [.start (.start Sample.echo Sample.process), .call 2 Sample.leaving])
    (p := fun c₁ _ c₃ => stopCompletes Sample.echo c₁ (.call 1 Sample.up) &&
      recorded c₃.world.state Sample.echo)
    (by decide +kernel)
  obtain ⟨hafter, hact, hrun⟩ := of_scenario hr
  obtain ⟨hstop, hrecorded⟩ := Bool.and_eq_true_iff.1 hp
  have hnone := h Sample.echo c₁ _ c₂ c₃ hafter hstop hact (hrun.mono fun c m hm => by simpa using hm)
  exact Bool.noConfusion (hrecorded.symm.trans hnone)

/-- The record of the new start is dropped by a recovery that fails, and the old one written back. -/
theorem start_undone : ¬ StartStands := by
  intro h
  obtain ⟨c₁, c₂, c₃, hr, hp⟩ := exists_of_any
    (r := Sample.restarted (fun c m => !operatorActs Sample.echo c m) (Sample.reconciliation.take 2))
    (p := fun c₁ c₂ c₃ => launches Sample.echo c₁ (.call 1 Sample.up) &&
      (Mapping.get c₂.world.state Sample.echo).isSome && writesBack Sample.echo c₃ (.call 0 Sample.failing) &&
      (Mapping.get c₃.world.state Sample.echo).isNone &&
        (system.step c₃ (.call 0 Sample.failing)).any fun c₄ =>
          (Mapping.get c₄.world.state Sample.echo).isSome)
    (by decide +kernel)
  obtain ⟨hafter, hact, hrun⟩ := of_scenario hr
  simp only [Bool.and_eq_true] at hp
  obtain ⟨⟨⟨⟨hlaunch, hleft⟩, hback⟩, hnone⟩, hstep⟩ := hp
  obtain ⟨c₄, hc₄, hsome⟩ := (Option.any_eq_true _ _).1 hstep
  have hkept := h Sample.echo c₁ _ c₂ c₃ _ c₄ hafter hlaunch hleft hact
    (hrun.mono fun c m hm => by simpa using hm) hback hc₄
  rw [hkept, Option.isNone_iff_eq_none.1 hnone] at hsome
  cases hsome

/-- The stopped tool stays stopped while the reconciler finds it gone; and the tool that an operator starts
after a failed recovery keeps its record. -/
theorem reconcile_spares_echo :
    (∃ c₁ c₂ c₃ : Configuration, AfterSnapshot c₁ ∧
      stopCompletes Sample.echo c₁ (.call 1 Sample.up) = true ∧
      system.step c₁ (.call 1 Sample.up) = some c₂ ∧ Unrecorded Sample.echo c₃.world.state) ∧
    ∃ c₁ c₂ c₄ : Configuration, AfterSnapshot c₁ ∧
      launches Sample.echo c₁ (.call 1 Sample.up) = true ∧
      writesBack Sample.echo c₂ (.call 0 Sample.up) = true ∧
      system.step c₂ (.call 0 Sample.up) = some c₄ ∧
      Mapping.get c₄.world.state Sample.echo = Mapping.get c₂.world.state Sample.echo := by
  constructor
  · obtain ⟨c₁, c₂, c₃, hr, hstop⟩ := exists_of_any
      (r := Sample.stopped (fun c m => !launches Sample.echo c m && !resurrects Sample.echo c m)
        (Sample.reconciliation.take 2))
      (p := fun c₁ _ _ => stopCompletes Sample.echo c₁ (.call 1 Sample.up)) (by decide +kernel)
    obtain ⟨hafter, hact, hrun⟩ := of_scenario hr
    exact ⟨c₁, c₂, c₃, hafter, hstop, hact,
      (reconcile_spares hact).1 hstop (hrun.mono fun c m hm => by simpa using hm)⟩
  · obtain ⟨c₁, c₂, c₃, hr, hp⟩ := exists_of_any
      (r := scenario Sample.recorded₁ [.start (.reconcile false)] (.call 0 Sample.up)
        (Sample.reconciliation.take 2 ++ [.start (.start Sample.echo Sample.process)]) (.call 1 Sample.up)
        (fun _ _ => true) [])
      (p := fun c₁ c₂ _ => launches Sample.echo c₁ (.call 1 Sample.up) &&
        (Mapping.get c₂.world.state Sample.echo).isSome && writesBack Sample.echo c₂ (.call 0 Sample.up) &&
          (system.step c₂ (.call 0 Sample.up)).isSome) (by decide +kernel)
    obtain ⟨hafter, hact, -⟩ := of_scenario hr
    simp only [Bool.and_eq_true] at hp
    obtain ⟨⟨⟨hlaunch, hleft⟩, hback⟩, hstep⟩ := hp
    obtain ⟨c₄, hc₄⟩ := Option.isSome_iff_exists.1 hstep
    exact ⟨c₁, c₂, c₄, hafter, hlaunch, hback, hc₄,
      (reconcile_spares hact).2 hlaunch hleft .refl _ c₄ hback hc₄⟩

end Toolstack.Admin.Reconciler
