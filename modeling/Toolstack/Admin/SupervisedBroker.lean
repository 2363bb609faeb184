import Toolstack.Admin.Supervisor

/-! When the supervisor keeps its one broker: what it must find where it stops a broker, and that
nothing else can make it lose or double the broker, or signal another process. -/

namespace Toolstack.Admin.Supervisor

open Interleave Prog

/-! ## What is claimed of a world -/

def Deed.Fine : Deed → Prop
  | .spawn alive | .clear alive => alive = []
  | .signal target named => target.spawned ∧ named

/-- The state file names every broker that is alive, brokers were spawned and the file was cleared
only while none was alive, and only recorded brokers were signalled. -/
structure Safe (w : World) : Prop where
  named : ∀ pid, Process.runs (w.processes pid) → w.names pid
  fine : ∀ d ∈ w.history, d.Fine

/-- The supervisor has spawned nothing yet. -/
def Fresh (w : World) : Prop :=
  (∀ pid p, w.processes pid = some p → p.spawned = false) ∧ w.history = []

/-! ## What stopping must find -/

/-- The processes as the `n`-th of the next calls finds them, if none of the calls removes one. -/
def atCall (s : Nat → Oracle) : Nat → Processes → Processes
  | 0, ps => pass ps (s 0).events
  | n + 1, ps => atCall (fun i => s (i + 1)) n (pass ps (s 0).events)

/-- `waitpid` says that the process still runs. -/
def Process.polled : Option Process → Bool
  | some (.broker _ true) | some (.other _ _ _ true) => true
  | _ => false

/-- `ps` shows the broker. -/
def Process.confirmed (ω : Oracle) (p : Option Process) : Bool := (Process.shown ω p).any namesBroker

/-- The calls that stop a broker read the state file, look with `ps`, send SIGTERM, wait in thirty turns
and send SIGKILL, or clear the file. Where `ps` shows a broker, SIGTERM reaches no other process, and a
broker that is no child of the admin is gone when the file is cleared, with no child of the admin in
its place that the turns wait for. Where it does not, no broker is left. -/
def Stoppable (w : World) (s : Nat → Oracle) : Prop :=
  ∀ state, w.record = some state →
    if Process.confirmed (s 1) (atCall s 1 w.processes state.pid) then
      (∀ p, atCall s 2 w.processes state.pid = some p → p.signalled (s 2) = .ok () → p.spawned) ∧
      (Process.inherited (atCall s 2 w.processes state.pid) →
        ¬Process.runs (atCall s 4 w.processes state.pid) ∧
        ((∀ i < 30, Process.polled (atCall s (2 * i + 3) w.processes state.pid)) →
          ∀ p, atCall s 63 w.processes state.pid = some p → p.signalled (s 63) ≠ .ok ()))
    else ¬Process.runs (atCall s 2 w.processes state.pid)

/-- The condition on a step. -/
def Step.Met (w : World) : Step → Prop
  | .call .stop s | .call (.restart _) s => Stoppable w s
  | _ => True

def World.Met (w : World) : List Step → Prop
  | [] => True
  | s :: rest => s.Met w ∧ (w.step s).Met rest

/-! ## Kinds of processes -/

/-- A child of the admin that is a broker. -/
def Process.owned : Option Process → Bool
  | some (.broker _ true) | some (.zombie true) => true
  | _ => false

/-- A child of the admin that is no broker. -/
def Process.foreign : Option Process → Bool
  | some (.other _ _ _ true) | some (.zombie false) => true
  | _ => false

attribute [local simp] Process.runs Process.inherited Process.owned Process.foreign Process.polled Process.spawned
  Process.exited Process.signalled

section Kinds
variable {p : Option Process} {target : Process}

theorem owned_of_polled (h : Process.polled p) (hruns : Process.runs p) : Process.owned p := by
  rcases p with _ | ⟨args, _ | _⟩ | _ | _ <;> simp_all [Process.polled, Process.runs, Process.owned]

theorem foreign_of_polled (h : Process.polled p) (howned : ¬Process.owned p) : Process.foreign p := by
  rcases p with _ | ⟨args, _ | _⟩ | _ | ⟨args, leads, ours, _ | _⟩ <;>
    simp_all [Process.polled, Process.owned, Process.foreign]

theorem not_owned_of_inherited (h : Process.inherited p) : ¬Process.owned p := by
  rcases p with _ | ⟨args, _ | _⟩ | _ | _ <;> simp_all [Process.inherited, Process.owned]

theorem runs_of_inherited (h : Process.inherited p) : Process.runs p := by
  rcases p with _ | ⟨args, _ | _⟩ | _ | _ <;> simp_all [Process.inherited, Process.runs]

theorem spawned_of_owned (h : Process.owned (some target)) : target.spawned := by
  rcases target with ⟨args, _ | _⟩ | (_ | _) | _ <;> simp_all [Process.owned, Process.spawned]

theorem not_spawned_of_foreign (h : Process.foreign (some target)) : ¬target.spawned := by
  rcases target with ⟨args, _ | _⟩ | (_ | _) | _ <;> simp_all [Process.foreign, Process.spawned]

end Kinds

/-! ## What time does to a process -/

section Time
variable {ps : Processes} {pid : Nat} {P : Option Process → Prop}

theorem pass_keeps (hexit : ∀ p, P p → P (p.bind Process.exited))
    (happear : ∀ args leads ours child, P none → P (some (.other args leads ours child)))
    (events : List Event) (h : P (ps pid)) : P (pass ps events pid) := by
  induction events generalizing ps with
  | nil => exact h
  | cons e rest ih =>
    apply ih
    cases e with
    | exit other =>
      by_cases heq : pid = other
      · subst heq
        simpa [happen] using hexit _ h
      · simpa [happen, heq] using h
    | appear other args leads ours child =>
      simp only [happen]
      split_ifs with hfree
      · by_cases heq : pid = other
        · subst heq
          have hnone := Option.isNone_iff_eq_none.1 hfree
          simpa using happear args leads ours child (hnone ▸ h)
        · simpa [heq] using h
      · exact h

theorem runs_pass {events : List Event} (h : Process.runs (pass ps events pid)) : Process.runs (ps pid) := by
  by_contra hnot
  have hkept : ¬Process.runs (pass ps events pid) := by
    apply pass_keeps (P := fun p => ¬Process.runs p) _ _ events hnot
    · rintro (_ | ⟨args, _ | _⟩ | _ | ⟨args, leads, ours, _ | _⟩) <;> simp [Process.runs, Process.exited]
    · simp [Process.runs]
  exact hkept h

/-- A child of the admin that is a broker stays one until it is waited for. -/
theorem owned_pass {events : List Event} (h : Process.owned (ps pid)) : Process.owned (pass ps events pid) := by
  apply pass_keeps (P := fun p => Process.owned p) _ _ events h
  · rintro (_ | ⟨args, _ | _⟩ | _ | ⟨args, leads, ours, _ | _⟩) <;> simp [Process.owned, Process.exited]
  · simp [Process.owned]

theorem not_owned_pass {events : List Event} (h : ¬Process.owned (ps pid)) :
    ¬Process.owned (pass ps events pid) := by
  apply pass_keeps (P := fun p => ¬Process.owned p) _ _ events h
  · rintro (_ | ⟨args, _ | _⟩ | _ | ⟨args, leads, ours, _ | _⟩) <;> simp [Process.owned, Process.exited]
  · simp [Process.owned]

/-- A broker that is alive now was alive before. -/
theorem runs_atCall {s : Nat → Oracle} {n : Nat} (h : Process.runs (atCall s n ps pid)) :
    Process.runs (ps pid) := by
  induction n generalizing s ps with
  | zero => exact runs_pass h
  | succ n ih => exact runs_pass (ih h)

end Time

/-! ## The invariant -/

structure Good (w : World) : Prop extends Safe w where
  listed : ∀ pid, Process.runs (w.processes pid) → pid ∈ w.spawned

/-- No broker is alive. -/
structure Idle (w : World) : Prop where
  quiet : ∀ pid, ¬Process.runs (w.processes pid)
  fine : ∀ d ∈ w.history, d.Fine

section Invariant
variable {w : World} {state : Record}

def World.after (w : World) (events : List Event) : World := { w with processes := pass w.processes events }

theorem Idle.good (h : Idle w) : Good w where
  named := fun pid hruns => absurd hruns (h.quiet pid)
  fine := h.fine
  listed := fun pid hruns => absurd hruns (h.quiet pid)

theorem Idle.after (h : Idle w) (events : List Event) : Idle (w.after events) where
  quiet := fun pid hruns => h.quiet pid (runs_pass hruns)
  fine := h.fine

theorem Good.after (h : Good w) (events : List Event) : Good (w.after events) where
  named := fun pid hruns => h.named pid (runs_pass hruns)
  fine := h.fine
  listed := fun pid hruns => h.listed pid (runs_pass hruns)

/-- Only the recorded pid can be that of a living broker. -/
theorem Good.only (h : Good w) (hrecord : w.record = some state) {pid : Nat}
    (hruns : Process.runs (w.processes pid)) : pid = state.pid := by
  have hnamed := h.named pid hruns
  simp only [World.names, hrecord, Option.any_some, beq_iff_eq] at hnamed
  exact hnamed.symm

theorem Good.idle (h : Good w) (hrecord : w.record = some state)
    (hquiet : ¬Process.runs (w.processes state.pid)) : Idle w where
  quiet := fun _ hruns => hquiet (h.only hrecord hruns ▸ hruns)
  fine := h.fine

theorem Good.idle_of_none (h : Good w) (hrecord : w.record = none) : Idle w where
  quiet := by
    intro pid hruns
    have hnamed := h.named pid hruns
    simp [World.names, hrecord] at hnamed
  fine := h.fine

theorem runs_remove {pid pid' : Nat} (h : Process.runs ((w.remove pid).processes pid')) :
    pid' ≠ pid ∧ Process.runs (w.processes pid') := by
  by_cases heq : pid' = pid
  · subst heq
    simp [World.remove, Process.runs] at h
  · simp only [World.remove, Function.update_of_ne heq] at h
    exact ⟨heq, h⟩

theorem Good.remove (h : Good w) (hrecord : w.record = some state) : Idle (w.remove state.pid) where
  quiet := by
    intro pid hruns
    obtain ⟨hne, hruns⟩ := runs_remove hruns
    exact hne (h.only hrecord hruns)
  fine := h.fine

theorem alive_eq_nil (h : ∀ pid, ¬Process.runs (w.processes pid)) : w.alive = [] := by
  rw [World.alive, List.filter_eq_nil_iff]
  intro pid _
  exact h pid

theorem forall_fine_concat {history : List Deed} {deed : Deed} (h : ∀ d ∈ history, d.Fine) (hdeed : deed.Fine) :
    ∀ d ∈ history ++ [deed], d.Fine := by
  intro d hd
  rcases List.mem_append.1 hd with hmem | hmem
  · exact h d hmem
  · exact List.mem_singleton.1 hmem ▸ hdeed

theorem Idle.clear (h : Idle w) : Idle w.clear where
  quiet := h.quiet
  fine := forall_fine_concat h.fine (alive_eq_nil h.quiet)

end Invariant

/-! ## The calls -/

abbrev Machine : Type := World × (Nat → Oracle)

namespace Machine

/-- The world as the next call finds it. -/
def found (x : Machine) : World := x.1.after (x.2 0).events

def rest (x : Machine) : Nat → Oracle := fun n => x.2 (n + 1)

end Machine

abbrev exec (o : Op) (x : Machine) : o.Ret × Machine := answering World.exec o x

section Calls
variable {P : Machine → Prop}

theorem exec_eq (o : Op) (x : Machine) :
    exec o x = ((World.act (x.2 0) x.found o).1, (World.act (x.2 0) x.found o).2, x.rest) := rfl

theorem sat_ask {o : Op} {Q : o.Answer → Machine → Prop} {E : Toolyard.Fault → Machine → Prop}
    (h : ∀ x, P x → match (exec o x).1 with
      | .ok a => Q a (exec o x).2
      | .error f => E f (exec o x).2) : Sat exec P (ask o) Q E := by
  intro x hx
  have hanswer := h x hx
  unfold ask
  rw [Prog.run_perform_bind]
  cases hr : (exec o x).1 with
  | ok a =>
    simp only [hr] at hanswer ⊢
    exact hanswer
  | error f =>
    simp only [hr] at hanswer ⊢
    exact hanswer

/-- A call that changes nothing itself. -/
def Op.Looks : Op → Prop
  | .readState | .ps _ | .openLog | .closeLog | .health _ | .sleep => True
  | _ => False

theorem act_looks {o : Op} (ho : o.Looks) (ω : Oracle) (w : World) : (World.act ω w o).2 = w := by
  cases o with
  | readState | ps | openLog | closeLog | health | sleep => rfl
  | writeState | clearState | waitpid | waitExit | killpg | spawn => cases ho

theorem exec_looks {o : Op} (ho : o.Looks) (x : Machine) : (exec o x).2 = (x.found, x.rest) := by
  rw [exec_eq, act_looks ho]

theorem sat_clearStopped {E : Toolyard.Fault → Machine → Prop} :
    Sat exec (fun x => Idle x.found) clearStopped (fun r x => r = stopped ∧ Idle x.1) E := by
  apply Sat.bind (Q := fun _ x => Idle x.1)
  · apply sat_ask
    intro x hidle
    exact hidle.clear
  · intro _
    apply Sat.ret
    intro x hidle
    exact ⟨rfl, hidle⟩

/-- What the answer of a status says of the world. -/
def Told (r : Status) (x : Machine) : Prop := Good x.1 ∧ (r.running = false → Idle x.1)

theorem sat_cleared : Sat exec (fun x => Idle x.1) clearStopped Told fun _ x => Good x.1 := by
  apply sat_clearStopped.conseq (fun x h => h.after _)
  · intro r x h
    exact ⟨h.2.good, fun _ => h.2⟩
  · intro f x h
    exact h

/-- `killpg` fails. -/
def Process.Refused (ω : Oracle) (p : Option Process) : Prop := ∀ target, p = some target → target.signalled ω ≠ .ok ()

theorem Process.Refused.not_runs {ω : Oracle} {p : Option Process} (h : Process.Refused ω p) : ¬Process.runs p := by
  intro hruns
  rcases p with _ | target | _ | _
  · cases hruns
  · exact h _ rfl rfl
  · cases hruns
  · cases hruns

theorem act_killpg (ω : Oracle) (w : World) (pid : Nat) (sig : Option Toolyard.Signal) :
    (∃ target, w.processes pid = some target ∧ target.signalled ω = .ok () ∧
      World.act ω w (.killpg pid sig) = (.ok (), w.signal pid target sig)) ∨
    ∃ f, (f = .processLookup ∨ f = .permission) ∧ Process.Refused ω (w.processes pid) ∧
      World.act ω w (.killpg pid sig) = (.error f, w) := by
  simp only [World.act]
  cases hp : w.processes pid with
  | none => exact .inr ⟨.processLookup, .inl rfl, by simp [Process.Refused], rfl⟩
  | some target =>
    cases hs : target.signalled ω with
    | ok u => exact .inl ⟨target, rfl, hs, by simp only [hs]⟩
    | error f =>
      refine .inr ⟨f, ?_, ?_, by simp only [hs]⟩
      · cases target with
        | broker args child => simp [Process.signalled] at hs
        | zombie ofBroker =>
          simp only [Process.signalled] at hs
          split_ifs at hs
          exact .inr (Except.error.inj hs).symm
        | other args leads ours child =>
          simp only [Process.signalled] at hs
          split_ifs at hs
          · exact .inr (Except.error.inj hs).symm
          · exact .inl (Except.error.inj hs).symm
      · intro target' heq
        rw [← Option.some.inj heq, hs]
        simp

theorem sat_killpg {α : Type} {pid : Nat} {sig : Option Toolyard.Signal} {A B : Machine → Prop}
    {k : Op.Ret (.killpg pid sig) → Program α} {Q : α → Machine → Prop} {E : Toolyard.Fault → Machine → Prop}
    (hsent : ∀ x, P x → ∀ target, x.found.processes pid = some target → target.signalled (x.2 0) = .ok () →
      A (x.found.signal pid target sig, x.rest))
    (hrefused : ∀ x, P x → Process.Refused (x.2 0) (x.found.processes pid) → B (x.found, x.rest))
    (hok : Sat exec A (k (.ok ())) Q E) (hlookup : Sat exec B (k (.error .processLookup)) Q E)
    (hpermission : Sat exec B (k (.error .permission)) Q E) :
    Sat exec P (perform (.killpg pid sig) >>= k) Q E := by
  intro x hx
  rw [run_perform_bind, exec_eq]
  rcases act_killpg (x.2 0) x.found pid sig with ⟨target, hp, hs, hact⟩ | ⟨f, hf, hruns, hact⟩
  · rw [hact]
    exact hok _ (hsent x hx target hp hs)
  · rw [hact]
    rcases hf with rfl | rfl
    · exact hlookup _ (hrefused x hx hruns)
    · exact hpermission _ (hrefused x hx hruns)

theorem act_waitpid (ω : Oracle) (w : World) (pid : Nat) :
    (World.act ω w (.waitpid pid) = (.ok true, w.remove pid) ∧ ¬Process.polled (w.processes pid) ∧
      ¬Process.runs (w.processes pid)) ∨
    (World.act ω w (.waitpid pid) = (.ok false, w) ∧ Process.polled (w.processes pid)) ∨
    (World.act ω w (.waitpid pid) = (.error .childProcess, w) ∧ ¬Process.polled (w.processes pid) ∧
      ¬Process.owned (w.processes pid)) := by
  simp only [World.act]
  rcases hp : w.processes pid with _ | ⟨args, _ | _⟩ | _ | ⟨args, leads, ours, _ | _⟩ <;>
    simp [Process.polled, Process.runs, Process.owned]

theorem sat_waitpid {α : Type} {pid : Nat} {A B C : Machine → Prop}
    {k : Op.Ret (.waitpid pid) → Program α} {Q : α → Machine → Prop} {E : Toolyard.Fault → Machine → Prop}
    (hreaped : ∀ x, P x → ¬Process.polled (x.found.processes pid) → ¬Process.runs (x.found.processes pid) →
      A (x.found.remove pid, x.rest))
    (hruns : ∀ x, P x → Process.polled (x.found.processes pid) → B (x.found, x.rest))
    (hnone : ∀ x, P x → ¬Process.polled (x.found.processes pid) → ¬Process.owned (x.found.processes pid) →
      C (x.found, x.rest))
    (htrue : Sat exec A (k (.ok true)) Q E) (hfalse : Sat exec B (k (.ok false)) Q E)
    (hchild : Sat exec C (k (.error .childProcess)) Q E) :
    Sat exec P (perform (.waitpid pid) >>= k) Q E := by
  intro x hx
  rw [run_perform_bind, exec_eq]
  rcases act_waitpid (x.2 0) x.found pid with ⟨hact, hp, hp'⟩ | ⟨hact, hp⟩ | ⟨hact, hp, hp'⟩
  · rw [hact]
    exact htrue _ (hreaped x hx hp hp')
  · rw [hact]
    exact hfalse _ (hruns x hx hp)
  · rw [hact]
    exact hchild _ (hnone x hx hp hp')

/-! ## Status and start -/

/-- The state file names this broker, or none that is alive. -/
def Recorded (state : Record) (x : Machine) : Prop := Good x.1 ∧ x.1.record = some state

theorem Recorded.found {state : Record} {x : Machine} (h : Recorded state x) : Recorded state (x.found, x.rest) :=
  ⟨h.1.after _, h.2⟩

theorem sat_pidAlive (state : Record) :
    Sat exec (Recorded state) (pidAlive state.pid)
      (fun alive x => if alive then Recorded state x else Idle x.1) fun _ x => Good x.1 := by
  apply sat_killpg (A := Recorded state) (B := fun x => Idle x.1)
  · intro x hx target hp hs
    exact hx.found
  · intro x hx hrefused
    exact hx.found.1.idle hx.2 hrefused.not_runs
  · apply Sat.ret
    intro x hx
    exact hx
  · apply Sat.ret
    intro x hx
    simpa using hx
  · apply Sat.ret
    intro x hx
    simpa using hx

theorem sat_report (state : Record) : Sat exec (Recorded state) (report state) Told fun _ x => Good x.1 := by
  apply (sat_pidAlive state).bind
  intro alive
  cases alive with
  | false => exact sat_cleared.conseq (fun x hx => by simpa using hx) (fun _ _ h => h) fun _ _ h => h
  | true =>
    apply Sat.bind (Q := fun _ x => Good x.1)
    · apply sat_ask
      intro x hx
      exact (Recorded.found hx).1
    · intro healthy
      apply Sat.ret
      intro x hx
      exact ⟨hx, by simp⟩

theorem sat_status : Sat exec (fun x => Good x.1) status Told fun _ x => Good x.1 := by
  apply Sat.bind (Q := fun r x => Good x.1 ∧ x.1.record = r)
  · apply sat_ask
    intro x hx
    exact ⟨hx.after _, rfl⟩
  · intro r
    cases r with
    | none =>
      apply Sat.ret
      intro x hx
      exact ⟨hx.1, fun _ => hx.1.idle_of_none hx.2⟩
    | some state =>
      apply sat_waitpid (A := fun x => Idle x.1) (B := Recorded state) (C := Recorded state)
      · intro x hx _ _
        exact (Recorded.found hx).1.remove hx.2
      · intro x hx hp
        exact Recorded.found hx
      · intro x hx hp hp'
        exact Recorded.found hx
      · exact sat_cleared
      · exact sat_report state
      · exact sat_report state

/-- A broker that was just spawned may be alive, and no other. -/
structure Spawned (pid : Nat) (w : World) : Prop where
  only : ∀ pid', Process.runs (w.processes pid') → pid' = pid
  listed : pid ∈ w.spawned
  fine : ∀ d ∈ w.history, d.Fine

theorem Spawned.after {pid : Nat} {w : World} (h : Spawned pid w) (events : List Event) :
    Spawned pid (w.after events) where
  only := fun pid' hruns => h.only pid' (runs_pass hruns)
  listed := h.listed
  fine := h.fine

theorem Spawned.record {pid : Nat} {w : World} (h : Spawned pid w) (port : Nat) :
    Good { w with record := some ⟨pid, port⟩ } where
  named := by
    intro pid' hruns
    simp [World.names, h.only pid' hruns]
  fine := h.fine
  listed := fun pid' hruns => h.only pid' hruns ▸ h.listed

theorem Idle.spawn {w : World} (h : Idle w) (pid : Nat) (args : Option (List String)) :
    Spawned pid (w.spawn pid args) where
  only := by
    intro pid' hruns
    by_contra hne
    simp only [World.spawn, Function.update_of_ne hne] at hruns
    exact h.quiet pid' hruns
  listed := List.mem_append_right _ (List.mem_singleton_self pid)
  fine := forall_fine_concat h.fine (alive_eq_nil h.quiet)

theorem sat_spawn (arguments : List String) :
    Sat exec (fun x => Idle x.1) ((ask (.spawn arguments)).tryFinally (ask .closeLog))
      (fun pid x => Spawned pid x.1) fun _ x => Idle x.1 := by
  apply Sat.bind
  · apply Sat.attempt (Q := fun pid x => Spawned pid x.1) (E := fun _ x => Idle x.1)
    apply sat_ask
    intro x hidle
    have hfound : Idle x.found := hidle.after _
    rw [exec_eq]
    simp only [World.act]
    cases (x.2 0).pid with
    | none => exact hfound
    | some pid =>
      dsimp only
      split_ifs
      · exact hfound
      · exact hfound.spawn pid _
  · intro result
    cases result with
    | ok pid =>
      apply Sat.bind (Q := fun _ x => Spawned pid x.1)
      · apply sat_ask
        intro x hx
        exact hx.after _
      · exact fun _ => Sat.ret fun x hx => hx
    | error f =>
      apply Sat.bind (Q := fun _ x => Idle x.1)
      · apply sat_ask
        intro x hx
        exact hx.after _
      · exact fun _ => Sat.raise fun x hx => hx

theorem all_awaitHealth (port n : Nat) : (awaitHealth port n).All Op.Looks := by
  have hask : ∀ o : Op, o.Looks → (ask o).All Op.Looks := by
    intro o ho
    unfold ask
    refine ⟨ho, ?_⟩
    intro r
    cases r <;> trivial
  induction n with
  | zero => trivial
  | succ n ih =>
    apply (hask (.health port) trivial).bind
    intro healthy
    cases healthy with
    | false => exact (hask .sleep trivial).bind fun _ => ih
    | true => trivial

theorem sat_awaitHealth (port n : Nat) :
    Sat exec (fun x => Good x.1) (awaitHealth port n) (fun _ x => Good x.1) fun _ x => Good x.1 := by
  apply Sat.of_all (all_awaitHealth port n)
  intro o x ho hgood
  rw [exec_looks ho]
  exact hgood.after _

theorem sat_launch (port : Nat) :
    Sat exec (fun x => Idle x.1) (launch port) (fun _ x => Good x.1) fun _ x => Good x.1 := by
  apply Sat.bind (Q := fun _ x => Idle x.1)
  · apply sat_ask
    intro x hidle
    have hfound : Idle x.found := hidle.after _
    rw [exec_eq]
    simp only [World.act]
    split_ifs
    · exact hfound
    · exact hfound.good
  · intro _
    apply Sat.bind ((sat_spawn _).conseq (fun _ h => h) (fun _ _ h => h) fun _ _ h => h.good)
    intro pid
    apply Sat.bind (Q := fun _ x => Good x.1)
    · apply sat_ask
      intro x hx
      exact (hx.after _).record port
    · intro _
      apply (sat_awaitHealth port 40).bind
      intro healthy
      apply sat_status.bind
      intro result
      split_ifs
      · exact Sat.ret fun x hx => hx.1
      · exact Sat.ret fun x hx => hx.1

theorem sat_start (port : Nat) :
    Sat exec (fun x => Good x.1) (start port) (fun _ x => Good x.1) fun _ x => Good x.1 := by
  apply sat_status.bind
  intro current
  split_ifs with hrunning
  · exact Sat.ret fun x hx => hx.1
  · exact (sat_launch port).conseq (fun x hx => hx.2 (by simpa using hrunning)) (fun _ _ h => h) fun _ _ h => h

/-! ## Stop -/

/-- The processes as the `n`-th of the next calls finds them. -/
abbrev Machine.at (x : Machine) (n : Nat) (pid : Nat) : Option Process := atCall x.2 n x.1.processes pid

/-- What is being waited for is a broker of this run of the admin, or is no broker and takes no signal
after `n` more turns. -/
def Waiting (state : Record) (n : Nat) (x : Machine) : Prop :=
  Recorded state x ∧
    (Process.owned (x.1.processes state.pid) ∨
      ¬Process.owned (x.1.processes state.pid) ∧ ¬Process.runs (x.at 1 state.pid) ∧
        ((∀ i < n, Process.polled (x.at (2 * i) state.pid)) →
          ∀ p, x.at (2 * n) state.pid = some p → p.signalled (x.2 (2 * n)) ≠ .ok ()))

theorem Recorded.signal {state : Record} {w : World} {s : Nat → Oracle} {target : Process}
    (h : Recorded state (w, s)) (hspawned : target.spawned) (sig : Option Toolyard.Signal) :
    Recorded state (w.signal state.pid target sig, s) := by
  cases sig with
  | none => exact h
  | some sig =>
    refine ⟨⟨⟨h.1.named, ?_⟩, h.1.listed⟩, h.2⟩
    apply forall_fine_concat h.1.fine
    refine ⟨hspawned, ?_⟩
    have hrecord : w.record = some state := h.2
    simp [World.names, hrecord]

theorem Waiting.turn {state : Record} {n : Nat} {x : Machine} (h : Waiting state (n + 1) x)
    (hpolled : Process.polled (x.found.processes state.pid)) :
    Waiting state n (Machine.found (x.found, x.rest), fun i => x.2 (i + 2)) := by
  refine ⟨h.1.found.found, ?_⟩
  rcases h.2 with howned | ⟨howned, -, hlast⟩
  · exact .inl (owned_pass (owned_pass howned))
  · have hother : ¬Process.owned (x.found.processes state.pid) := not_owned_pass howned
    have hquiet : ¬Process.runs (x.found.processes state.pid) := by
      intro hruns
      exact hother (owned_of_polled hpolled hruns)
    refine .inr ⟨not_owned_pass hother, ?_, ?_⟩
    · intro hruns
      exact hquiet (runs_pass (runs_atCall hruns))
    · intro hturns
      apply hlast
      intro i hi
      cases i with
      | zero => exact hpolled
      | succ i => exact hturns i (by omega)

theorem sat_awaitExit {E : Toolyard.Fault → Machine → Prop} (state : Record) (n : Nat) :
    Sat exec (Waiting state n) (awaitExit state.pid n)
      (fun gone x => if gone then Idle x.found else Waiting state 0 x) E := by
  induction n with
  | zero => exact Sat.ret fun x hx => hx
  | succ n ih =>
    apply sat_waitpid (A := fun x => Idle x.1) (B := fun x => Waiting state n (x.found, x.rest))
      (C := fun x => Idle x.found)
    · intro x hx _ _
      exact hx.1.found.1.remove hx.1.2
    · intro x hx hpolled
      exact hx.turn hpolled
    · intro x hx hpolled howned
      rcases hx.2 with howned' | ⟨-, hquiet, -⟩
      · exact absurd (owned_pass howned') howned
      · exact hx.1.found.found.1.idle hx.1.2 hquiet
    · exact Sat.ret fun x hx => hx.after _
    · apply Sat.bind (Q := fun _ => Waiting state n)
      · apply sat_ask
        intro x hx
        exact hx
      · exact fun _ => ih
    · exact Sat.ret fun x hx => hx

theorem sat_kill {E : Toolyard.Fault → Machine → Prop} (state : Record) :
    Sat exec (Waiting state 0) (kill state.pid) (fun _ x => Idle x.found) E := by
  apply Sat.bind
  · apply Sat.attempt (Q := fun _ x => Idle x.found)
      (E := fun f x => (f = .childProcess ∨ f = .processLookup ∨ f = .permission) ∧ Idle x.found)
    apply Sat.bind (Q := fun _ x => Recorded state x ∧ Process.owned (x.1.processes state.pid))
    · apply sat_ask
      intro x hx
      rw [exec_eq]
      rcases act_killpg (x.2 0) x.found state.pid (some .sigkill) with ⟨target, hp, hs, hact⟩ | ⟨f, hf, hrefused, hact⟩
      · rw [hact]
        rcases hx.2 with howned | ⟨-, -, hlast⟩
        · have howned' : Process.owned (x.found.processes state.pid) := owned_pass howned
          exact ⟨hx.1.found.signal (spawned_of_owned (hp ▸ howned')) (some .sigkill), howned'⟩
        · exact absurd hs (hlast (by simp) target hp)
      · rw [hact]
        exact ⟨.inr hf, (hx.1.found.1.idle hx.1.2 hrefused.not_runs).after _⟩
    · intro _
      apply sat_ask
      intro x hx
      have howned : Process.owned (x.found.processes state.pid) := owned_pass hx.2
      rw [exec_eq]
      have hact : World.act (x.2 0) x.found (.waitExit state.pid) = (.ok (), x.found.remove state.pid) := by
        simp only [World.act]
        rcases hp : x.found.processes state.pid with _ | ⟨args, _ | _⟩ | _ | _ <;> simp_all [Process.owned]
      rw [hact]
      exact (hx.1.found.1.remove hx.1.2).after _
  · intro killed
    rcases killed with f | u
    · intro x ⟨hf, hidle⟩
      rcases hf with rfl | rfl | rfl <;> exact hidle
    · exact Sat.ret fun x hx => hx

/-- What `Stoppable` says from SIGTERM on. -/
def Signalling (state : Record) (x : Machine) : Prop :=
  (∀ p, x.at 0 state.pid = some p → p.signalled (x.2 0) = .ok () → p.spawned) ∧
  (Process.inherited (x.at 0 state.pid) →
    ¬Process.runs (x.at 2 state.pid) ∧
    ((∀ i < 30, Process.polled (x.at (2 * i + 1) state.pid)) →
      ∀ p, x.at 61 state.pid = some p → p.signalled (x.2 61) ≠ .ok ()))

/-- What `Stoppable` says from the probe on. -/
def Probing (state : Record) (x : Machine) : Prop :=
  if Process.confirmed (x.2 0) (x.at 0 state.pid) then Signalling state (x.found, x.rest)
  else ¬Process.runs (x.at 1 state.pid)

theorem Signalling.waiting {state : Record} {x : Machine} {target : Process} (hx : Recorded state x)
    (h : Signalling state x) (hp : x.found.processes state.pid = some target)
    (hs : target.signalled (x.2 0) = .ok ()) :
    Waiting state 30 (x.found.signal state.pid target (some .sigterm), x.rest) := by
  have hspawned : target.spawned := h.1 target hp hs
  refine ⟨hx.found.signal hspawned (some .sigterm), ?_⟩
  have hsame : (x.found.signal state.pid target (some .sigterm)).processes state.pid = some target := hp
  rw [hsame]
  rcases target with ⟨args, _ | _⟩ | (_ | _) | _
  · obtain ⟨hquiet, hlast⟩ := h.2 (by rw [show x.at 0 state.pid = _ from hp]; rfl)
    exact .inr ⟨by simp [Process.owned], hquiet, hlast⟩
  · exact .inl rfl
  · cases hspawned
  · exact .inl rfl
  · cases hspawned

theorem sat_signalBroker {E : Toolyard.Fault → Machine → Prop} (state : Record) :
    Sat exec (fun x => Recorded state x ∧ Signalling state x) (signalBroker state.pid)
      (fun _ x => Idle x.found) E := by
  apply sat_killpg (A := Waiting state 30) (B := fun x => Idle x.found)
  · intro x hx target hp hs
    exact hx.2.waiting hx.1 hp hs
  · intro x hx hrefused
    exact (hx.1.found.1.idle hx.1.2 hrefused.not_runs).after _
  · apply (sat_awaitExit state 30).bind
    intro gone
    cases gone with
    | true => exact Sat.ret fun x hx => hx
    | false => exact sat_kill state
  · exact Sat.ret fun x hx => hx
  · exact Sat.ret fun x hx => hx

theorem sat_terminate {E : Toolyard.Fault → Machine → Prop} (state : Record) :
    Sat exec (fun x => Recorded state x ∧ Probing state x) (terminate state.pid) (fun _ x => Idle x.found) E := by
  apply Sat.bind (Q := fun broker x => Recorded state x ∧
    if broker then Signalling state x else ¬Process.runs (x.at 0 state.pid))
  · apply Sat.bind (Q := fun args x => Recorded state x ∧
      if args.any namesBroker then Signalling state x else ¬Process.runs (x.at 0 state.pid))
    · apply sat_ask
      intro x hx
      exact ⟨hx.1.found, hx.2⟩
    · exact fun args => Sat.ret fun x hx => hx
  · intro broker
    cases broker with
    | true => exact sat_signalBroker state
    | false => exact Sat.ret fun x hx => hx.1.found.1.idle hx.1.2 hx.2

theorem sat_stop {E : Toolyard.Fault → Machine → Prop} :
    Sat exec (fun x => Good x.1 ∧ Stoppable x.1 x.2) stop (fun _ x => Idle x.1) E := by
  apply Sat.bind (Q := fun r x => (Good x.1 ∧ x.1.record = r) ∧ ∀ state, r = some state → Probing state x)
  · apply sat_ask
    intro x hx
    exact ⟨⟨hx.1.after _, rfl⟩, fun state hrecord => hx.2 state hrecord⟩
  · intro r
    cases r with
    | none => exact Sat.ret fun x hx => hx.1.1.idle_of_none hx.1.2
    | some state =>
      apply ((sat_terminate state).conseq (fun x hx => ⟨hx.1, hx.2 state rfl⟩) (fun _ _ h => h)
        fun _ _ h => h).bind
      intro _
      exact sat_clearStopped.conseq (fun _ h => h) (fun _ _ h => h.2) fun _ _ h => h

end Calls

/-! ## Runs -/

theorem Good.step {w : World} (h : Good w) {s : Step} (hs : s.Met w) : Good (w.step s) := by
  cases s with
  | happen events => exact h.after events
  | restartAdmin =>
    have hruns : ∀ pid, Process.runs ((w.processes pid).bind Process.disowned) → Process.runs (w.processes pid) := by
      intro pid
      rcases w.processes pid with _ | _ | _ | _ <;> simp [Process.runs, Process.disowned]
    exact ⟨⟨fun pid hp => h.named pid (hruns pid hp), h.fine⟩, fun pid hp => h.listed pid (hruns pid hp)⟩
  | call c s =>
    cases c with
    | status =>
      exact (sat_status.conseq (fun _ h => h) (fun _ _ hx => hx.1) fun _ _ hx => hx).always
        (I := fun x : Machine => Good x.1) (w := (w, s)) h
    | start port => exact (sat_start port).always (I := fun x : Machine => Good x.1) (w := (w, s)) h
    | stop =>
      exact ((sat_stop (E := fun _ x => Good x.1)).conseq (fun _ h => h) (fun _ _ hx => hx.good) fun _ _ hx => hx).always
        (I := fun x : Machine => Good x.1) (w := (w, s)) ⟨h, hs⟩
    | restart port =>
      have hrestart : Sat exec (fun x => Good x.1 ∧ Stoppable x.1 x.2) (restart port) (fun _ x => Good x.1)
          fun _ x => Good x.1 :=
        sat_stop.bind fun _ => (sat_start port).conseq (fun _ hx => hx.good) (fun _ _ h => h) fun _ _ h => h
      exact hrestart.always (I := fun x : Machine => Good x.1) (w := (w, s)) ⟨h, hs⟩

theorem Fresh.good {w : World} (h : Fresh w) : Good w := by
  have hidle : Idle w := by
    refine ⟨?_, by simp [h.2]⟩
    intro pid hruns
    have hnone := h.1 pid
    rcases hp : w.processes pid with _ | _ | _ | _ <;> simp_all [Process.runs, Process.spawned]
  exact hidle.good

/-! ## What goes wrong otherwise -/

/-- Something was done that cannot be taken back. -/
def Bad (w : World) : Prop := ∃ d ∈ w.history, ¬d.Fine

section Otherwise
variable {state : Record}

theorem Bad.not_safe {w : World} (h : Bad w) : ¬Safe w := by
  intro hsafe
  obtain ⟨d, hd, hbad⟩ := h
  exact hbad (hsafe.fine d hd)

theorem Bad.act {w : World} (h : Bad w) (ω : Oracle) (o : Op) : Bad (World.act ω w o).2 := by
  obtain ⟨d, hd, hbad⟩ := h
  refine ⟨d, ?_, hbad⟩
  cases o with
  | readState | writeState | ps | openLog | closeLog | health | sleep => exact hd
  | clearState => exact List.mem_append_left _ hd
  | waitpid pid | waitExit pid =>
    simp only [World.act]
    split <;> exact hd
  | killpg pid sig =>
    rcases act_killpg ω w pid sig with ⟨target, -, -, hact⟩ | ⟨f, -, -, hact⟩
    · rw [hact]
      cases sig with
      | none => exact hd
      | some sig => exact List.mem_append_left _ hd
    · rw [hact]
      exact hd
  | spawn arguments =>
    simp only [World.act]
    cases ω.pid with
    | none => exact hd
    | some pid =>
      dsimp only
      split_ifs
      · exact hd
      · exact List.mem_append_left _ hd

theorem sat_bad {α : Type} (m : Program α) :
    Sat exec (fun x => Bad x.1) m (fun _ x => Bad x.1) fun _ x => Bad x.1 := by
  apply Sat.of_all (All.of_forall (p := fun _ => True) (fun _ => trivial) m)
  intro o x _ hbad
  have hfound : Bad x.found := hbad
  exact hfound.act _ _

theorem Bad.signal {w : World} {target : Process} (h : ¬target.spawned) (pid : Nat) (sig : Toolyard.Signal) :
    Bad (w.signal pid target (some sig)) :=
  ⟨_, List.mem_append_right _ (List.mem_singleton_self _), fun hfine => h hfine.1⟩

/-- A child of the admin that is no broker stays one until it is waited for. -/
theorem foreign_pass {ps : Processes} {pid : Nat} {events : List Event} (h : Process.foreign (ps pid)) :
    Process.foreign (pass ps events pid) := by
  apply pass_keeps (P := fun p => Process.foreign p) _ _ events h
  · rintro (_ | ⟨args, _ | _⟩ | _ | ⟨args, leads, ours, _ | _⟩) <;> simp [Process.foreign, Process.exited]
  · simp [Process.foreign]

/-- Another child of the admin has the pid for `n` turns and will be signalled. -/
def Overtaken (state : Record) (n : Nat) (x : Machine) : Prop :=
  ¬Process.owned (x.1.processes state.pid) ∧ (n = 0 → Process.foreign (x.1.processes state.pid)) ∧
    (∀ i < n, Process.polled (x.at (2 * i) state.pid)) ∧
    ∃ p, x.at (2 * n) state.pid = some p ∧ p.signalled (x.2 (2 * n)) = .ok ()

theorem sat_awaitExit_overtaken {E : Toolyard.Fault → Machine → Prop} (n : Nat) :
    Sat exec (Overtaken state n) (awaitExit state.pid n) (fun gone x => gone = false ∧ Overtaken state 0 x) E := by
  induction n with
  | zero => exact Sat.ret fun x hx => ⟨rfl, hx⟩
  | succ n ih =>
    have hpolled : ∀ x, Overtaken state (n + 1) x → Process.polled (x.found.processes state.pid) :=
      fun x hx => hx.2.2.1 0 (Nat.succ_pos n)
    apply sat_waitpid (A := fun _ => False) (B := fun x => Overtaken state n (x.found, x.rest)) (C := fun _ => False)
    · intro x hx hnot _
      exact hnot (hpolled x hx)
    · intro x hx _
      have howned : ¬Process.owned (x.found.processes state.pid) := not_owned_pass hx.1
      have hforeign := foreign_of_polled (hpolled x hx) howned
      exact ⟨not_owned_pass howned, fun _ => foreign_pass hforeign, fun i hi => hx.2.2.1 (i + 1) (by omega), hx.2.2.2⟩
    · intro x hx hnot _
      exact hnot (hpolled x hx)
    · exact Sat.ret fun x hx => hx.elim
    · apply Sat.bind (Q := fun _ => Overtaken state n)
      · apply sat_ask
        intro x hx
        exact hx
      · exact fun _ => ih
    · exact Sat.ret fun x hx => hx.elim

theorem sat_kill_overtaken :
    Sat exec (Overtaken state 0) (kill state.pid) (fun _ x => Bad x.1) fun _ x => Bad x.1 := by
  apply Sat.bind
  · apply Sat.attempt (Q := fun _ x => Bad x.1) (E := fun _ x => Bad x.1)
    apply Sat.bind (Q := fun _ x => Bad x.1)
    · apply sat_ask
      intro x hx
      obtain ⟨-, hforeign, -, p, hp, hs⟩ := hx
      rw [exec_eq]
      rcases act_killpg (x.2 0) x.found state.pid (some .sigkill) with ⟨target, htarget, -, hact⟩ | ⟨f, -, hrefused, -⟩
      · rw [hact]
        have hfound : Process.foreign (x.found.processes state.pid) := foreign_pass (hforeign rfl)
        exact Bad.signal (not_spawned_of_foreign (htarget ▸ hfound)) state.pid .sigkill
      · exact absurd hs (hrefused p hp)
    · exact fun _ => sat_bad _
  · intro killed
    rcases killed with f | u
    · exact (sat_bad _).conseq (fun _ h => h) (fun _ _ h => h) fun _ _ h => h
    · exact Sat.ret fun x hx => hx

/-- Either it is done, or the file is about to be cleared while a broker is alive. -/
def Doomed (state : Record) (x : Machine) : Prop :=
  Bad x.1 ∨ state.pid ∈ x.1.spawned ∧ Process.runs (x.found.processes state.pid)

/-- A broker that cannot be waited for has one more call to live. -/
def Lingering (state : Record) (x : Machine) : Prop :=
  state.pid ∈ x.1.spawned ∧ ¬Process.owned (x.1.processes state.pid) ∧ Process.runs (x.at 1 state.pid)

theorem sat_awaitExit_lingering {E : Toolyard.Fault → Machine → Prop} (n : Nat) :
    Sat exec (Lingering state) (awaitExit state.pid (n + 1)) (fun gone x => gone = true ∧ Doomed state x) E := by
  apply sat_waitpid (A := fun _ => False) (B := fun _ => False) (C := Doomed state)
  · intro x hx _ hquiet
    exact hquiet (runs_pass hx.2.2)
  · intro x hx hpolled
    have howned : ¬Process.owned (x.found.processes state.pid) := not_owned_pass hx.2.1
    exact howned (owned_of_polled hpolled (runs_pass hx.2.2))
  · intro x hx _ _
    exact .inr ⟨hx.1, hx.2.2⟩
  · exact Sat.ret fun x hx => hx.elim
  · exact fun x hx => hx.elim
  · exact Sat.ret fun x hx => ⟨rfl, hx⟩

theorem sat_clearStopped_doomed :
    Sat exec (Doomed state) clearStopped (fun _ x => Bad x.1) fun _ x => Bad x.1 := by
  apply Sat.bind (Q := fun _ x => Bad x.1)
  · apply sat_ask
    intro x hx
    rcases hx with hbad | ⟨hlisted, hruns⟩
    · have hfound : Bad x.found := hbad
      exact hfound.act (x.2 0) .clearState
    · refine ⟨_, List.mem_append_right _ (List.mem_singleton_self _), ?_⟩
      have hmem : state.pid ∈ x.found.alive := List.mem_filter.2 ⟨hlisted, hruns⟩
      exact List.ne_nil_of_mem hmem
  · exact fun _ => sat_bad _

theorem sat_signalBroker_doomed :
    Sat exec (fun x => Recorded state x ∧ ¬Signalling state x) (signalBroker state.pid) (fun _ x => Doomed state x)
      fun _ x => Bad x.1 := by
  have hbad : ∀ {α : Type} (m : Program α), Sat exec (fun x => Bad x.1) m (fun _ x => Doomed state x) fun _ x => Bad x.1 :=
    fun m => (sat_bad m).conseq (fun _ h => h) (fun _ _ h => .inl h) fun _ _ h => h
  apply sat_killpg (A := fun x => Bad x.1 ∨ Lingering state x ∨ Overtaken state 30 x) (B := fun _ => False)
  · intro x hx target hp hs
    obtain ⟨hrecorded, hnot⟩ := hx
    by_cases hspawned : target.spawned
    · apply Or.inr
      have hall : ∀ p, x.at 0 state.pid = some p → p.signalled (x.2 0) = .ok () → p.spawned := by
        intro p hp' _
        exact Option.some.inj (hp.symm.trans hp') ▸ hspawned
      have hsecond := fun h => hnot ⟨hall, h⟩
      obtain ⟨hinherited, hsecond⟩ := Classical.not_imp.1 hsecond
      have howned : ¬Process.owned (x.found.processes state.pid) := not_owned_of_inherited hinherited
      by_cases hruns : Process.runs (x.at 2 state.pid)
      · left
        exact ⟨hrecorded.1.listed _ (runs_atCall hruns), howned, hruns⟩
      · right
        have hlast := fun h => hsecond ⟨hruns, h⟩
        obtain ⟨hturns, hlast⟩ := Classical.not_imp.1 hlast
        obtain ⟨p, hlast⟩ := Classical.not_forall.1 hlast
        obtain ⟨hat, hsignalled⟩ := Classical.not_imp.1 hlast
        exact ⟨howned, by simp, hturns, p, hat, Classical.not_not.1 hsignalled⟩
    · exact .inl (Bad.signal hspawned state.pid .sigterm)
  · intro x hx hrefused
    apply hx.2
    refine ⟨fun p hp hs => absurd hs (hrefused p hp), ?_⟩
    intro hinherited
    exact absurd (runs_of_inherited hinherited) hrefused.not_runs
  · apply Sat.or (hbad _)
    apply Sat.or
    · apply (sat_awaitExit_lingering 29).bind
      intro gone x hx
      obtain ⟨rfl, hdoomed⟩ := hx
      exact hdoomed
    · apply (sat_awaitExit_overtaken 30).bind
      intro gone x hx
      obtain ⟨rfl, hovertaken⟩ := hx
      exact (sat_kill_overtaken.conseq (fun _ h => h) (fun _ _ h => .inl h) fun _ _ h => h) x hovertaken
  · exact Sat.ret fun x hx => hx.elim
  · exact Sat.ret fun x hx => hx.elim

theorem sat_stop_doomed :
    Sat exec (fun x => Good x.1 ∧ ¬Stoppable x.1 x.2) stop (fun _ x => Bad x.1) fun _ x => Bad x.1 := by
  apply Sat.bind (Q := fun r x => ∃ state, r = some state ∧ Recorded state x ∧ ¬Probing state x)
  · apply sat_ask
    intro x hx
    obtain ⟨state, hstate⟩ := Classical.not_forall.1 hx.2
    obtain ⟨hrecord, hnot⟩ := Classical.not_imp.1 hstate
    exact ⟨state, hrecord, ⟨hx.1.after _, hrecord⟩, hnot⟩
  · intro r
    apply Sat.exists
    intro state
    cases r with
    | none => exact fun x hx => absurd hx.1 (by simp)
    | some state' =>
      have hterminate : Sat exec (fun x => Recorded state x ∧ ¬Probing state x) (terminate state.pid)
          (fun _ x => Doomed state x) fun _ x => Bad x.1 := by
        apply Sat.bind (Q := fun broker x => if broker then Recorded state x ∧ ¬Signalling state x else Doomed state x)
        · apply Sat.bind (Q := fun args x =>
            if args.any namesBroker then Recorded state x ∧ ¬Signalling state x else Doomed state x)
          · apply sat_ask
            intro x hx
            obtain ⟨hrecorded, hnot⟩ := hx
            change if Process.confirmed (x.2 0) (x.at 0 state.pid) then
                Recorded state (x.found, x.rest) ∧ ¬Signalling state (x.found, x.rest)
              else Doomed state (x.found, x.rest)
            unfold Probing at hnot
            split_ifs at hnot ⊢ with hconfirmed
            · exact ⟨hrecorded.found, hnot⟩
            · have hruns := Classical.not_not.1 hnot
              exact .inr ⟨hrecorded.1.listed _ (runs_atCall hruns), hruns⟩
          · exact fun args => Sat.ret fun x hx => hx
        · intro broker
          cases broker with
          | true => exact sat_signalBroker_doomed
          | false => exact Sat.ret fun x hx => hx
      intro x hx
      obtain ⟨hstate, hx⟩ := hx
      obtain rfl := Option.some.inj hstate
      exact (hterminate.bind fun _ => sat_clearStopped_doomed) x hx

end Otherwise

/-- A step that does not meet the condition does something that cannot be taken back. -/
theorem Good.step_bad {w : World} (h : Good w) {s : Step} (hs : ¬s.Met w) : Bad (w.step s) := by
  cases s with
  | happen events => exact absurd trivial hs
  | restartAdmin => exact absurd trivial hs
  | call c s =>
    cases c with
    | status => exact absurd trivial hs
    | start port => exact absurd trivial hs
    | stop => exact sat_stop_doomed.always (I := fun x : Machine => Bad x.1) (w := (w, s)) ⟨h, hs⟩
    | restart port =>
      have hrestart : Sat exec (fun x => Good x.1 ∧ ¬Stoppable x.1 x.2) (restart port) (fun _ x => Bad x.1)
          fun _ x => Bad x.1 := sat_stop_doomed.bind fun _ => sat_bad _
      exact hrestart.always (I := fun x : Machine => Bad x.1) (w := (w, s)) ⟨h, hs⟩

theorem safe_step {w : World} {steps : List Step} (h : Good w) :
    (∀ w' ∈ w.visited steps, Safe w') ↔ w.Met steps := by
  induction steps generalizing w with
  | nil => simpa [World.visited, World.Met] using h.toSafe
  | cons s rest ih =>
    rw [World.visited, List.forall_mem_cons, World.Met]
    constructor
    · intro hall
      have hmet : s.Met w := by
        by_contra hnot
        have hfirst : w.step s ∈ (w.step s).visited rest := by cases rest <;> simp [World.visited]
        exact (h.step_bad hnot).not_safe (hall.2 _ hfirst)
      exact ⟨hmet, (ih (h.step hmet)).1 hall.2⟩
    · intro hmet
      exact ⟨h.toSafe, (ih (h.step hmet.1)).2 hmet.2⟩

/-- The supervisor neither loses nor doubles its broker, and signals nothing else, in the runs whose
stops find what `Stoppable` says, and in no others. -/
theorem keeps_one_broker {w : World} (h : Fresh w) (steps : List Step) :
    (∀ w' ∈ w.visited steps, Safe w') ↔ w.Met steps := safe_step h.good

/-! ## Runs of one machine -/

/-- A machine on which nothing runs. -/
def bare : World := ⟨fun _ => none, none, [], []⟩

theorem bare_fresh : Fresh bare := ⟨fun _ _ h => (by cases h), rfl⟩

def calm : Oracle := ⟨[], true, true, true, some 7, some ["python3"], true⟩

/-- After the admin has restarted it restarts the broker, which exits right after SIGTERM, or not. -/
def restarts (events : List Event) : List Step :=
  [.call (.start 80) fun _ => calm, .restartAdmin,
    .call (.restart 80) fun n => if n = 3 then { calm with events := events } else { calm with pid := some 8 }]

theorem keeps_one_broker_restarts : Fresh bare ∧ ∀ w' ∈ bare.visited (restarts [.exit 7]), Safe w' := by
  refine ⟨bare_fresh, (keeps_one_broker bare_fresh _).2 ⟨trivial, trivial, ?_, trivial⟩⟩
  intro state hrecord
  obtain rfl : (⟨7, 80⟩ : Record) = state := Option.some.inj hrecord
  rw [if_pos (by decide)]
  refine ⟨?_, ?_⟩
  · intro p hp _
    obtain rfl : Process.broker (some ["python3", "-m", "broker.server"]) false = p := Option.some.inj hp
    rfl
  · intro _
    refine ⟨by decide, ?_⟩
    intro _ p hp
    cases hp

/-- A broker that is slow to shut down is doubled and lost, and one that `ps` does not show is lost. -/
theorem loses_slow_and_unseen_brokers :
    (∃ w' ∈ bare.visited (restarts []), w'.alive = [7, 8] ∧ w'.record = some ⟨8, 80⟩ ∧ ¬Safe w') ∧
    ∃ w' ∈ bare.visited [.call (.start 80) fun _ => calm, .call .stop fun _ => { calm with probed := false }],
      w'.alive = [7] ∧ w'.record = none ∧ ¬Safe w' := by
  refine ⟨⟨_, .tail _ (.tail _ (.tail _ (.head _))), by decide, by decide, ?_⟩,
    ⟨_, .tail _ (.tail _ (.head _)), by decide, by decide, ?_⟩⟩
  · intro h
    exact absurd (h.fine (.spawn [7]) (by decide)) (by simp [Deed.Fine])
  · intro h
    exact absurd (h.fine (.clear [7]) (by decide)) (by simp [Deed.Fine])

end Toolstack.Admin.Supervisor
