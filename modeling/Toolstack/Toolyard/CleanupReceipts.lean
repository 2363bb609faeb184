import Toolstack.Interleave.Trace
import Toolstack.Toolyard.Cleanup

/-! Cleanup signals only the processes of its record and loses no receipt, whatever the operating
system answers. -/

namespace Toolstack.Toolyard

open Interleave Prog

abbrev Call : Type := Answered Op Op.Ret

/-- The answers that say the recorded process no longer exists. -/
inductive Gone (bootId : Option String) (pid : Int) : Call → Prop
  | reaped : Gone bootId pid ⟨.waitpid pid, .ok pid⟩
  | absent : Gone bootId pid ⟨.kill pid, .error .processLookup⟩
  | rebooted {current : Option String} (hknown : truthy bootId) (hcurrent : truthy current)
      (hne : bootId ≠ current) : Gone bootId pid ⟨.bootId, .ok current⟩

/-- The last call said that the process is gone. -/
def Ends (bootId : Option String) (pid : Int) (calls : List Call) : Prop :=
  ∃ before call, calls = before ++ [call] ∧ Gone bootId pid call

/-- Right before each signal the current boot and the start identity of its process were seen,
and `owns` says whose they are. -/
def Matched (owns : Int → String → String → Prop) (calls : List Call) : Prop :=
  ∀ pid sig answer before after, calls = before ++ ⟨.killpg pid sig, answer⟩ :: after →
    ∃ earlier boot identity, before = earlier ++
      [⟨.bootId, .ok (some boot)⟩, ⟨.processIdentity pid, .ok (some identity)⟩] ∧ owns pid boot identity

/-- No signal is among the calls. -/
def Quiet (calls : List Call) : Prop := ∀ call ∈ calls, ∀ pid sig, call.1 ≠ .killpg pid sig

section
variable {bootId : Option String} {pid : Int} {owns owns' : Int → String → String → Prop}
  {calls calls' : List Call}

theorem Ends.append (h : Ends bootId pid calls') : Ends bootId pid (calls ++ calls') := by
  obtain ⟨before, call, rfl, hgone⟩ := h
  exact ⟨calls ++ before, call, (List.append_assoc ..).symm, hgone⟩

theorem Ends.of_gone {call : Call} (h : Gone bootId pid call) : Ends bootId pid [call] :=
  ⟨[], call, rfl, h⟩

theorem Quiet.append (h : Quiet calls) (h' : Quiet calls') : Quiet (calls ++ calls') := by
  intro call hcall
  rcases List.mem_append.1 hcall with hmem | hmem
  · exact h call hmem
  · exact h' call hmem

theorem Quiet.matched (h : Quiet calls) : Matched owns calls := by
  intro p sig answer before after heq
  have hmem : (⟨.killpg p sig, answer⟩ : Call) ∈ calls := by
    rw [heq]
    exact List.mem_append_right _ (List.mem_cons_self ..)
  exact absurd rfl (h _ hmem p sig)

theorem Matched.append (h : Matched owns calls) (h' : Matched owns calls') :
    Matched owns (calls ++ calls') := by
  intro p sig answer before after heq
  rcases List.append_eq_append_iff.1 heq with ⟨middle, hbefore, hcalls'⟩ | ⟨middle, hcalls, hafter⟩
  · obtain ⟨earlier, boot, identity, hmiddle, hown⟩ := h' p sig answer middle after hcalls'
    refine ⟨calls ++ earlier, boot, identity, ?_, hown⟩
    rw [hbefore, hmiddle, List.append_assoc]
  · cases middle with
    | nil =>
      obtain ⟨earlier, boot, identity, hnil, -⟩ := h' p sig answer [] after hafter.symm
      exact absurd (congrArg List.length hnil) (by simp)
    | cons call rest =>
      obtain ⟨rfl, -⟩ := List.cons.inj hafter
      exact h p sig answer before rest hcalls

theorem Matched.flatMap {γ : Type} {l : List γ} {f : γ → List Call} (h : ∀ x ∈ l, Matched owns (f x)) :
    Matched owns (l.flatMap f) := by
  induction l with
  | nil =>
    intro p sig answer before after heq
    simp at heq
  | cons x l ih =>
    rw [List.flatMap_cons]
    exact (h x (List.mem_cons_self ..)).append (ih fun y hy => h y (List.mem_cons_of_mem _ hy))

theorem Matched.mono (h : Matched owns calls) (hle : ∀ p boot identity, owns p boot identity →
    owns' p boot identity) : Matched owns' calls := by
  intro p sig answer before after heq
  obtain ⟨earlier, boot, identity, hbefore, hown⟩ := h p sig answer before after heq
  exact ⟨earlier, boot, identity, hbefore, hle _ _ _ hown⟩

/-- A signal right after the two matching answers. -/
theorem matched_signal {boot identity : String} (h : owns pid boot identity) (sig : Signal)
    (answer : Except Fault Unit) : Matched owns [⟨.bootId, .ok (some boot)⟩,
      ⟨.processIdentity pid, .ok (some identity)⟩, ⟨.killpg pid sig, answer⟩] := by
  intro p sig' answer' before after heq
  match before with
  | [] | [_] => simp at heq
  | [b, i] =>
    simp only [List.cons_append, List.nil_append, List.cons.injEq] at heq
    obtain ⟨rfl, rfl, hsig, -⟩ := heq
    obtain ⟨rfl, rfl⟩ : pid = p ∧ sig = sig' := by simpa using congrArg Sigma.fst hsig
    exact ⟨[], boot, identity, rfl, h⟩
  | _ :: _ :: _ :: _ => simp at heq

end

/-! ## What each step can have called -/

theorem trace_ask_bind {α : Type} {o : Op} {f : o.Answer → Program α}
    {Q : Except Exn α → List Call → Prop} : (ask o >>= f).Trace Q ↔
      (∀ fault, Q (.error (.fault fault)) [⟨o, .error fault⟩]) ∧
        ∀ answer, (f answer).Trace fun result calls => Q result (⟨o, .ok answer⟩ :: calls) := by
  constructor
  · intro h
    exact ⟨fun fault => h (.error fault), fun answer => h (.ok answer)⟩
  · rintro ⟨herror, hok⟩ (fault | answer)
    · exact herror fault
    · exact hok answer

/-- A test for the process's end: it signals nothing, and what it takes for the end is evidence. -/
def Tests (bootId : Option String) (pid : Int) (m : Program Bool) : Prop :=
  m.Trace fun result calls => Quiet calls ∧ (result = .ok true → Ends bootId pid calls)

section
variable {bootId identity : Option String} {pid : Int}

theorem quiet_cons {call : Call} {calls : List Call} (hcall : ∀ p sig, call.1 ≠ .killpg p sig)
    (h : Quiet calls) : Quiet (call :: calls) := by
  intro c hc
  rcases List.mem_cons.1 hc with rfl | hmem
  · exact hcall
  · exact h c hmem

theorem quiet_nil : Quiet [] := fun _ h => absurd h List.not_mem_nil

theorem pidAbsent_tests : Tests bootId pid (pidAbsent pid) := by
  have hquiet : ∀ answer, Quiet [(⟨.kill pid, answer⟩ : Call)] :=
    fun answer => quiet_cons (fun p sig h => by cases h) quiet_nil
  rw [Tests, pidAbsent]
  split_ifs
  · exact ⟨quiet_nil, fun h => by cases h⟩
  · intro answer
    cases answer with
    | ok _ => exact ⟨hquiet _, fun h => by cases h⟩
    | error fault =>
      cases fault with
      | processLookup => exact ⟨hquiet _, fun _ => Ends.of_gone .absent⟩
      | permission | childProcess | os | other => exact ⟨hquiet _, fun h => by cases h⟩

theorem reaped_tests : Tests bootId pid (reaped pid) := by
  have hquiet : ∀ answer, Quiet [(⟨.waitpid pid, answer⟩ : Call)] :=
    fun answer => quiet_cons (fun p sig h => by cases h) quiet_nil
  intro answer
  cases answer with
  | ok child =>
    refine ⟨hquiet _, fun h => Ends.of_gone ?_⟩
    have hchild : child = pid := by simpa using h
    rw [hchild]
    exact .reaped
  | error fault =>
    cases fault with
    | childProcess => exact ⟨hquiet _, fun h => by cases h⟩
    | processLookup | permission | os | other => exact ⟨hquiet _, fun h => by cases h⟩

/-- Calls that a test made before its verdict. -/
theorem Tests.after {m : Program Bool} (h : Tests bootId pid m) {before : List Call}
    (hbefore : Quiet before) : m.Trace fun result calls =>
      Quiet (before ++ calls) ∧ (result = .ok true → Ends bootId pid (before ++ calls)) :=
  h.mono fun _ _ ⟨hquiet, hends⟩ => ⟨hbefore.append hquiet, fun hok => (hends hok).append⟩

/-- A test whose negative answer leads to another one. -/
theorem Tests.orElse {m n : Program Bool} (h : Tests bootId pid m) (hn : Tests bootId pid n) :
    Tests bootId pid (m >>= fun gone => if gone then return true else n) := by
  apply Trace.bind h
  · intro e calls hcalls
    exact ⟨hcalls.1, fun hok => by cases hok⟩
  · intro gone calls hcalls
    cases gone with
    | true => simpa using ⟨hcalls.1, hcalls.2 rfl⟩
    | false => exact hn.after hcalls.1

theorem checkExit_tests : Tests bootId pid (checkExit bootId identity pid) := by
  have hboot : ∀ answer, Quiet [(⟨.bootId, answer⟩ : Call)] :=
    fun answer => quiet_cons (fun p sig h => by cases h) quiet_nil
  have hidentity : ∀ answer, Quiet [(⟨.processIdentity pid, answer⟩ : Call)] :=
    fun answer => quiet_cons (fun p sig h => by cases h) quiet_nil
  refine trace_ask_bind.2 ⟨fun fault => ⟨hboot _, fun h => by cases h⟩, fun currentBoot => ?_⟩
  split
  case isTrue hother =>
    simp only [Bool.and_eq_true, bne_iff_ne] at hother
    exact ⟨hboot _, fun _ => Ends.of_gone (.rebooted hother.1.1 hother.1.2 hother.2)⟩
  case isFalse =>
    apply Tests.after _ (hboot _)
    split
    · exact ⟨quiet_nil, fun h => by cases h⟩
    · refine trace_ask_bind.2 ⟨fun fault => ⟨hidentity _, fun h => by cases h⟩, fun current => ?_⟩
      apply Tests.after _ (hidentity _)
      split
      · exact ⟨quiet_nil, fun h => by cases h⟩
      · apply reaped_tests.orElse
        split
        · exact ⟨quiet_nil, fun h => by cases h⟩
        · exact pidAbsent_tests

theorem poll_tests (turns : Nat) : Tests bootId pid (poll bootId identity pid turns) := by
  induction turns with
  | zero => exact ⟨quiet_nil, fun h => by cases h⟩
  | succ turns ih =>
    have hsleep : ∀ answer, Quiet [(⟨.sleep, answer⟩ : Call)] :=
      fun answer => quiet_cons (fun p sig h => by cases h) quiet_nil
    apply checkExit_tests.orElse
    exact trace_ask_bind.2 ⟨fun fault => ⟨hsleep _, fun h => by cases h⟩,
      fun _ => ih.after (hsleep _)⟩

theorem await_tests (delay : Nat) : Tests bootId pid (await bootId identity pid delay) := by
  have hpolls : ∀ answer, Quiet [(⟨.polls delay, answer⟩ : Call)] :=
    fun answer => quiet_cons (fun p sig h => by cases h) quiet_nil
  refine trace_ask_bind.2 ⟨fun fault => ⟨hpolls _, fun h => by cases h⟩, fun turns => ?_⟩
  exact ((poll_tests turns).orElse checkExit_tests).after (hpolls _)

/-- Where the match holds, its two answers are the last calls, and they are the record's. -/
theorem current_trace : (current bootId identity pid).Trace fun result calls =>
    Quiet calls ∧ (result = .ok true → ∃ boot start, bootId = some boot ∧ identity = some start ∧
      calls = [⟨.bootId, .ok (some boot)⟩, ⟨.processIdentity pid, .ok (some start)⟩]) := by
  have hboot : ∀ answer, Quiet [(⟨.bootId, answer⟩ : Call)] :=
    fun answer => quiet_cons (fun p sig h => by cases h) quiet_nil
  have hidentity : ∀ answer answer', Quiet [(⟨.bootId, answer⟩ : Call), ⟨.processIdentity pid, answer'⟩] :=
    fun answer answer' => (hboot answer).append (quiet_cons (fun p sig h => by cases h) quiet_nil)
  rw [current]
  split
  case isTrue => exact ⟨quiet_nil, fun h => by cases h⟩
  case isFalse hknown =>
    refine trace_ask_bind.2 ⟨fun fault => ⟨hboot _, fun h => by cases h⟩, fun currentBoot => ?_⟩
    split
    case isTrue => exact ⟨hboot _, fun h => by cases h⟩
    case isFalse hmatch =>
      refine trace_ask_bind.2 ⟨fun fault => ⟨hidentity _ _, fun h => by cases h⟩, fun start => ?_⟩
      refine ⟨hidentity _ _, fun h => ?_⟩
      have hstart : start = identity := by simpa using h
      simp only [Bool.or_eq_true, bne_iff_ne, not_or, ne_eq, not_not] at hmatch
      obtain ⟨hcurrent, hidentity⟩ := hmatch
      obtain ⟨boot, rfl⟩ : ∃ boot, bootId = some boot := by
        cases bootId with
        | none => simp [truthy] at hknown
        | some boot => exact ⟨boot, rfl⟩
      obtain ⟨i, rfl⟩ : ∃ i, identity = some i := by
        cases identity with
        | none => simp [truthy] at hidentity
        | some i => exact ⟨i, rfl⟩
      exact ⟨boot, i, rfl, rfl, by rw [hcurrent, hstart]⟩

/-- What ends a process: its signals are matched, and only evidence lets it return. -/
def Stops (owns : Int → String → String → Prop) (bootId : Option String) (pid : Int) (m : Program Unit) : Prop :=
  m.Trace fun result calls => Matched owns calls ∧ (result = .ok () → Ends bootId pid calls)

variable {owns : Int → String → String → Prop}

theorem Stops.after {m : Program Unit} (h : Stops owns bootId pid m) {before : List Call}
    (hbefore : Matched owns before) : m.Trace fun result calls =>
      Matched owns (before ++ calls) ∧ (result = .ok () → Ends bootId pid (before ++ calls)) :=
  h.mono fun _ _ ⟨hmatched, hends⟩ => ⟨hbefore.append hmatched, fun hok => (hends hok).append⟩

theorem stops_raise (e : Exn) : Stops owns bootId pid (raise e) :=
  ⟨quiet_nil.matched, fun h => by cases h⟩

theorem Tests.orStop {m : Program Bool} {n : Program Unit} (h : Tests bootId pid m)
    (hn : Stops owns bootId pid n) :
    Stops owns bootId pid (m >>= fun gone => if gone then return () else n) := by
  apply Trace.bind h
  · intro e calls hcalls
    exact ⟨hcalls.1.matched, fun hok => by cases hok⟩
  · intro gone calls hcalls
    cases gone with
    | true => simpa using ⟨hcalls.1.matched, hcalls.2 rfl⟩
    | false => exact hn.after hcalls.1.matched

/-- Whose signals `_terminate` may send. -/
def Owns (bootId identity : Option String) (pid : Int) (p : Int) (boot start : String) : Prop :=
  p = pid ∧ bootId = some boot ∧ identity = some start

theorem signalAll_stops (signals : List (Signal × Nat)) :
    Stops (Owns bootId identity pid) bootId pid (signalAll bootId identity pid signals) := by
  induction signals with
  | nil => exact stops_raise _
  | cons signal rest ih =>
    obtain ⟨sig, delay⟩ := signal
    apply Trace.bind current_trace
    · intro e calls hcalls
      exact ⟨hcalls.1.matched, fun h => by cases h⟩
    · intro matched calls hcalls
      cases matched with
      | false => exact (stops_raise _).after hcalls.1.matched
      | true =>
        obtain ⟨boot, start, hboot, hstart, rfl⟩ := hcalls.2 rfl
        intro answer
        have hsignal : Matched (Owns bootId identity pid) [⟨.bootId, .ok (some boot)⟩,
            ⟨.processIdentity pid, .ok (some start)⟩, ⟨.killpg pid sig, answer⟩] :=
          matched_signal ⟨rfl, hboot, hstart⟩ sig answer
        have hawait : Tests bootId pid (await bootId identity pid delay) := await_tests delay
        have hcheck : Tests bootId pid (checkExit bootId identity pid) := checkExit_tests
        have hwait := (hawait.orStop ih).after hsignal
        cases answer with
        | ok _ => exact hwait
        | error fault =>
          cases fault with
          | processLookup => exact hwait
          | permission => exact (hcheck.orStop (stops_raise _)).after hsignal
          | childProcess | os | other => exact (stops_raise _).after hsignal

theorem terminate_stops {int : String → Option Int} (text identity bootId : Option String)
    (hint : text.bind int = some pid) (hpid : 1 < pid) :
    Stops (Owns bootId identity pid) bootId pid (terminate int text identity bootId) := by
  rw [terminate, hint]
  simp only [Int.not_le.2 hpid, if_false]
  exact checkExit_tests.orStop (signalAll_stops _)

/-- Where there is no pid above one, nothing is called. -/
theorem terminate_none {int : String → Option Int} {text : Option String}
    (hnone : ∀ pid, text.bind int = some pid → pid ≤ 1) :
    terminate int text identity bootId = return () := by
  rw [terminate]
  cases hint : text.bind int with
  | none => rfl
  | some pid => exact if_pos (hnone pid hint)

end

/-! ## Every call is about the process at hand -/

/-- A call about the process `pid`, or about none. -/
def About (pid : Int) (o : Op) : Prop := ∀ p, o.target = some p → p = pid

section
variable {bootId identity : Option String} {pid : Int}

theorem ask_about {o : Op} (h : About pid o) : (ask o).All (About pid) := by
  refine All.bind ⟨h, fun _ => trivial⟩ fun answer => ?_
  cases answer <;> trivial

theorem about_none {o : Op} (h : o.target = none) : About pid o := by
  intro p hp
  rw [h] at hp
  cases hp

theorem about_self {o : Op} (h : o.target = some pid) : About pid o := by
  intro p hp
  exact (Option.some.inj (h.symm.trans hp)).symm

theorem pidAbsent_about : (pidAbsent pid).All (About pid) := by
  rw [pidAbsent]
  split_ifs
  · trivial
  · refine All.bind ⟨about_self rfl, fun _ => trivial⟩ fun answer => ?_
    split <;> trivial

theorem reaped_about : (reaped pid).All (About pid) := by
  refine All.bind ⟨about_self rfl, fun _ => trivial⟩ fun answer => ?_
  split <;> trivial

theorem checkExit_about : (checkExit bootId identity pid).All (About pid) := by
  refine (ask_about (about_none rfl)).bind fun currentBoot => ?_
  split
  · trivial
  · split
    · trivial
    · refine (ask_about (about_self rfl)).bind fun current => ?_
      split
      · trivial
      · refine reaped_about.bind fun gone => ?_
        split
        · trivial
        · split
          · trivial
          · exact pidAbsent_about

theorem current_about : (current bootId identity pid).All (About pid) := by
  rw [current]
  split
  · trivial
  · refine (ask_about (about_none rfl)).bind fun currentBoot => ?_
    split
    · trivial
    · exact (ask_about (about_self rfl)).bind fun _ => trivial

theorem poll_about (turns : Nat) : (poll bootId identity pid turns).All (About pid) := by
  induction turns with
  | zero => trivial
  | succ turns ih =>
    refine checkExit_about.bind fun gone => ?_
    split
    · trivial
    · exact (ask_about (about_none rfl)).bind fun _ => ih

theorem await_about (delay : Nat) : (await bootId identity pid delay).All (About pid) := by
  refine (ask_about (about_none rfl)).bind fun turns => (poll_about turns).bind fun gone => ?_
  split
  · trivial
  · exact checkExit_about

theorem signalAll_about (signals : List (Signal × Nat)) :
    (signalAll bootId identity pid signals).All (About pid) := by
  induction signals with
  | nil => trivial
  | cons signal rest ih =>
    refine current_about.bind fun matched => ?_
    split
    · trivial
    · refine All.bind ⟨about_self rfl, fun _ => trivial⟩ fun answer => ?_
      split
      · refine checkExit_about.bind fun gone => ?_
        split <;> trivial
      · refine (await_about _).bind fun gone => ?_
        split
        · trivial
        · exact ih
      · refine (await_about _).bind fun gone => ?_
        split
        · trivial
        · exact ih
      · trivial

theorem terminate_about {int : String → Option Int} (text : Option String) (hint : text.bind int = some pid) :
    (terminate int text identity bootId).All (About pid) := by
  rw [terminate, hint]
  show All _ (if pid ≤ 1 then _ else _)
  split
  · trivial
  · refine checkExit_about.bind fun gone => ?_
    split
    · trivial
    · exact signalAll_about _

end

/-! ## The children of a record -/

namespace RunningTool

/-- The children of a list that are recorded and have no receipt yet. -/
def unreceipted (running : RunningTool) (children : List (Kind × Option String)) : List (Kind × String) :=
  children.filterMap fun child =>
    if running.exited child.1 then none else child.2.map fun pid => (child.1, pid)

/-- The children that cleaning up has to attempt. -/
def pending (running : RunningTool) : List (Kind × String) := running.unreceipted running.children

def receipts (running : RunningTool) (kinds : List Kind) : RunningTool := kinds.foldl receipt running

section
variable {running : RunningTool} {kind : Kind} {kinds : List Kind}

theorem exited_receipts :
    (running.receipts kinds).exited kind = (decide (kind ∈ kinds) || running.exited kind) := by
  induction kinds generalizing running with
  | nil => simp [receipts]
  | cons k kinds ih =>
    show (receipts (running.receipt k) kinds).exited kind = _
    rw [ih, exited_receipt]
    simp only [List.mem_cons, Bool.decide_or]
    cases decide (kind ∈ kinds) <;> simp

theorem children_receipts : (running.receipts kinds).children = running.children := by
  induction kinds generalizing running with
  | nil => rfl
  | cons k kinds ih =>
    show (receipts (running.receipt k) kinds).children = _
    rw [ih]
    cases k <;> rfl

theorem unreceipted_skip {children : List (Kind × Option String)} {pid : Option String}
    (h : pid = none ∨ running.exited kind = true) :
    running.unreceipted ((kind, pid) :: children) = running.unreceipted children := by
  apply List.filterMap_cons_none
  rcases h with rfl | hexited
  · simp
  · simp [hexited]

theorem unreceipted_cons {children : List (Kind × Option String)} {text : String}
    (h : running.exited kind = false) :
    running.unreceipted ((kind, some text) :: children) = (kind, text) :: running.unreceipted children := by
  apply List.filterMap_cons_some
  simp [h]

theorem mem_pending {text : String} : (kind, text) ∈ running.pending ↔
    (kind, some text) ∈ running.children ∧ running.exited kind = false := by
  simp only [pending, unreceipted, List.mem_filterMap]
  constructor
  · rintro ⟨⟨k, pid⟩, hmem, hchild⟩
    split at hchild
    · cases hchild
    · rename_i hexited
      obtain ⟨t, rfl, heq⟩ := Option.map_eq_some_iff.1 hchild
      obtain ⟨rfl, rfl⟩ := Prod.mk.inj heq
      exact ⟨hmem, by simpa using hexited⟩
  · rintro ⟨hmem, hexited⟩
    exact ⟨(kind, some text), hmem, by simp [hexited]⟩

theorem nodup_children : (running.children.map Prod.fst).Nodup := by
  rw [children]
  split_ifs <;> simp

end
end RunningTool

/-! ## One attempt after another -/

section Attempts
variable {World : Type} {int : String → Option Int} {exec : (o : Op) → World → o.Ret × World}
  {running : RunningTool} {w : World}

/-- An attempt of the loop, and what came of it. -/
abbrev Attempt (World : Type) : Type := (Kind × String) × Ran Op Op.Ret Exn Unit World

/-- The kinds of the children that an attempt found gone. -/
def confirmed (attempts : List (Attempt World)) : List Kind :=
  (attempts.filter fun attempt => attempt.2.result.isOk).map fun attempt => attempt.1.1

theorem mem_confirmed {attempts : List (Attempt World)} {kind : Kind} : kind ∈ confirmed attempts ↔
    ∃ text ran, ((kind, text), ran) ∈ attempts ∧ ran.result = .ok () := by
  simp only [confirmed, List.mem_map, List.mem_filter]
  constructor
  · rintro ⟨⟨⟨k, text⟩, ran⟩, ⟨hmem, hok⟩, rfl⟩
    refine ⟨text, ran, hmem, ?_⟩
    cases hresult : ran.result with
    | ok a => rfl
    | error e => simp [hresult, Except.isOk, Except.toBool] at hok
  · rintro ⟨text, ran, hmem, hok⟩
    exact ⟨((kind, text), ran), ⟨hmem, by simp [hok, Except.isOk, Except.toBool]⟩, rfl⟩

/-- The attempts of one cleanup, each in the world that the one before it left. -/
def attempts (int : String → Option Int) (exec : (o : Op) → World → o.Ret × World) (running : RunningTool)
    (w : World) : List (Attempt World) :=
  runEach exec (stopChild int running) running.pending w

theorem stopChild_congr {running' : RunningTool} (hboot : running'.bootId = running.bootId)
    (hidentity : ∀ kind, running'.identity kind = running.identity kind) (child : Kind × String) :
    stopChild int running' child = stopChild int running child := by
  rw [stopChild, hboot, hidentity, stopChild]

/-- A turn of the loop that attempts its child. -/
theorem cleanupChildren_cons {running' : RunningTool} {children : List (Kind × Option String)} {failed : Bool}
    {kind : Kind} {text : String} (hexited : running'.exited kind = false) :
    cleanupChildren int ((kind, some text) :: children) failed running' =
      (stopChild int running' (kind, text)).attempt >>= fun result =>
        cleanupChildren int children (failed || !result.isOk)
          (if result.isOk then running'.receipt kind else running') := by
  rw [cleanupChildren]
  simp only [hexited, Bool.false_eq_true, if_false]
  apply congrArg
  funext result
  cases result with
  | ok _ => simp [Except.isOk, Except.toBool]
  | error e => simp [Except.isOk, Except.toBool]

/-- What the loop makes of the attempts. -/
structure Summed (failed : Bool) (running : RunningTool) (attempts : List (Attempt World))
    (ran : Ran Op Op.Ret Exn (Bool × RunningTool) World) : Prop where
  result : ran.result = .ok (failed || attempts.any fun attempt => !attempt.2.result.isOk,
    running.receipts (confirmed attempts))
  calls : ran.calls = attempts.flatMap fun attempt => attempt.2.calls

theorem cleanupChildren_run {running' : RunningTool} (children : List (Kind × Option String))
    (failed : Bool) (hboot : running'.bootId = running.bootId)
    (hidentity : ∀ kind, running'.identity kind = running.identity kind)
    (hexited : ∀ child ∈ children, running'.exited child.1 = running.exited child.1)
    (hnodup : (children.map Prod.fst).Nodup) (w : World) :
    Summed failed running' (runEach exec (stopChild int running) (running.unreceipted children) w)
      ((cleanupChildren int children failed running').run exec w) := by
  induction children generalizing running' failed w with
  | nil => exact ⟨by simp [cleanupChildren, RunningTool.unreceipted, runEach, confirmed, RunningTool.receipts], rfl⟩
  | cons child children ih =>
    obtain ⟨kind, pid⟩ := child
    obtain ⟨hnew, hrest⟩ := List.nodup_cons.1 hnodup
    have hhead : running'.exited kind = running.exited kind := hexited _ (List.mem_cons_self ..)
    have htail : ∀ child ∈ children, running'.exited child.1 = running.exited child.1 :=
      fun child hmem => hexited child (List.mem_cons_of_mem _ hmem)
    cases pid with
    | none =>
      rw [RunningTool.unreceipted_skip (.inl rfl)]
      exact ih failed hboot hidentity htail hrest w
    | some text =>
      cases hkind : running.exited kind with
      | true =>
        rw [RunningTool.unreceipted_skip (.inr hkind), cleanupChildren, hhead, hkind]
        exact ih failed hboot hidentity htail hrest w
      | false =>
        rw [RunningTool.unreceipted_cons hkind, cleanupChildren_cons (hhead.trans hkind),
          stopChild_congr hboot hidentity, run_bind, run_attempt]
        have hother : ∀ child ∈ children, kind ≠ child.1 :=
          fun child hmem heq => hnew (List.mem_map.2 ⟨child, hmem, heq.symm⟩)
        cases hresult : ((stopChild int running (kind, text)).run exec w).result with
        | ok _ =>
          have hnext := @ih (running'.receipt kind) failed
            (by rw [RunningTool.bootId_receipt, hboot])
            (fun k => by rw [RunningTool.identity_receipt, hidentity])
            (fun child hmem => by
              rw [RunningTool.exited_receipt, htail child hmem]
              simp [(hother child hmem).symm]) hrest ((stopChild int running (kind, text)).run exec w).world
          constructor
          · simp [runEach, confirmed, hresult, hnext.result, Except.isOk, Except.toBool, RunningTool.receipts]
          · simp [runEach, hnext.calls, Except.isOk, Except.toBool]
        | error e =>
          have hnext := ih true hboot hidentity htail hrest
            ((stopChild int running (kind, text)).run exec w).world
          constructor
          · simp [runEach, confirmed, hresult, hnext.result, Except.isOk, Except.toBool]
          · simp [runEach, hnext.calls, Except.isOk, Except.toBool]

theorem cleanupPartialStart_run (w : World) :
    ((cleanupPartialStart int running).run exec w).calls =
        (attempts int exec running w).flatMap (fun attempt => attempt.2.calls) ∧
      ((cleanupPartialStart int running).run exec w).result =
        if (attempts int exec running w).all fun attempt => attempt.2.result.isOk then
          .ok (running.receipts (confirmed (attempts int exec running w)))
        else .error (.startCleanup (running.receipts (confirmed (attempts int exec running w)))) := by
  have hsum : Summed false running (attempts int exec running w)
      ((cleanupChildren int running.children false running).run exec w) :=
    cleanupChildren_run running.children false rfl (fun _ => rfl) (fun _ _ => rfl)
      RunningTool.nodup_children w
  have hany : (attempts int exec running w).all (fun attempt => attempt.2.result.isOk) =
      !(attempts int exec running w).any fun attempt => !attempt.2.result.isOk := by
    simp [List.all_eq_not_any_not]
  rw [cleanupPartialStart, run_bind, hsum.result]
  cases hfailed : (attempts int exec running w).any fun attempt => !attempt.2.result.isOk with
  | true => simp [hany, hfailed, hsum.calls]
  | false => simp [hany, hfailed, hsum.calls]

/-- Each attempt is about its own pid, its signals are matched, and it is confirmed by evidence
only. -/
theorem stopChild_attempt (child : Kind × String) (w : World) :
    (∃ pid, int child.2 = some pid ∧ 1 < pid ∧
      (∀ call ∈ ((stopChild int running child).run exec w).calls, About pid call.1) ∧
      Matched (Owns running.bootId (running.identity child.1) pid) ((stopChild int running child).run exec w).calls ∧
      (((stopChild int running child).run exec w).result = .ok () →
        Ends running.bootId pid ((stopChild int running child).run exec w).calls)) ∨
    ((stopChild int running child).run exec w).calls = [] ∧
      ((stopChild int running child).run exec w).result ≠ .ok () := by
  cases hint : int child.2 with
  | none =>
    right
    simp [stopChild, hint]
  | some pid =>
    by_cases hpid : pid ≤ 1
    · right
      simp [stopChild, hint, hpid]
    · left
      have hstop : stopChild int running child =
          terminate int (some child.2) (running.identity child.1) running.bootId := by
        simp [stopChild, hint, hpid]
      have hstops := terminate_stops (some child.2) (running.identity child.1) running.bootId hint
        (Int.not_le.1 hpid)
      rw [hstop]
      exact ⟨pid, rfl, Int.not_le.1 hpid, (terminate_about (some child.2) hint).calls w,
        (hstops.run exec w).1, (hstops.run exec w).2⟩

end Attempts

/-! ## Cleanup keeps every receipt -/

section Receipts
variable {World : Type} (int : String → Option Int) (exec : (o : Op) → World → o.Ret × World)

/-- What `_terminate` may do with a saved process. -/
structure Terminated (text identity bootId : Option String) (ran : Ran Op Op.Ret Exn Unit World) : Prop where
  matched : Matched (fun p boot start => text.bind int = some p ∧ bootId = some boot ∧
    identity = some start) ran.calls
  returned : ∀ pid, text.bind int = some pid → 1 < pid → ran.result = .ok () → Ends bootId pid ran.calls

/-- What `_cleanup_partial_start` may do with a saved record. -/
structure CleanedUp (running : RunningTool) (w : World) (ran : Ran Op Op.Ret Exn RunningTool World) : Prop where
  /-- every unreceipted child is attempted, and nothing else is called -/
  attempted : ∀ kind text, (kind, some text) ∈ running.children ∧ running.exited kind = false ↔
    ∃ attempt, ((kind, text), attempt) ∈ attempts int exec running w
  calls : ran.calls = (attempts int exec running w).flatMap fun attempt => attempt.2.calls
  matched : Matched (fun p boot start => ∃ kind text, (kind, some text) ∈ running.children ∧
    running.exited kind = false ∧ int text = some p ∧ running.bootId = some boot ∧
    running.identity kind = some start) ran.calls
  evidence : ∀ kind text attempt, ((kind, text), attempt) ∈ attempts int exec running w →
    attempt.result = .ok () → ∃ pid, int text = some pid ∧ 1 < pid ∧ Ends running.bootId pid attempt.calls
  returned : ∀ left, ran.result = .ok left → left = running.receipts (confirmed (attempts int exec running w)) ∧
    ∀ kind text, (kind, some text) ∈ left.children → left.exited kind = true
  raised : ∀ e, ran.result = .error e → ∃ left, e = .startCleanup left ∧
    left = running.receipts (confirmed (attempts int exec running w)) ∧
    ∀ kind, left.exited kind = true ↔ running.exited kind = true ∨
      ∃ text attempt, ((kind, text), attempt) ∈ attempts int exec running w ∧ attempt.result = .ok ()

variable {int exec}

theorem terminate_terminated (text identity bootId : Option String) (w : World) :
    Terminated int text identity bootId ((terminate int text identity bootId).run exec w) := by
  by_cases hpid : ∃ pid, text.bind int = some pid ∧ 1 < pid
  · obtain ⟨pid, hint, hlt⟩ := hpid
    have hrun := (terminate_stops text identity bootId hint hlt).run exec w
    constructor
    · apply hrun.1.mono
      rintro p boot start ⟨rfl, hboot, hstart⟩
      exact ⟨hint, hboot, hstart⟩
    · intro pid' hint' _ hok
      obtain rfl : pid = pid' := Option.some.inj (hint.symm.trans hint')
      exact hrun.2 hok
  · have hnone : ∀ pid, text.bind int = some pid → pid ≤ 1 :=
      fun pid hint => Int.not_lt.1 fun hlt => hpid ⟨pid, hint, hlt⟩
    rw [terminate_none hnone]
    constructor
    · exact quiet_nil.matched
    · intro pid hint hlt
      exact absurd hlt (Int.not_lt.2 (hnone pid hint))

theorem attempts_pending {running : RunningTool} {w : World} (kind : Kind) (text : String) :
    (kind, some text) ∈ running.children ∧ running.exited kind = false ↔
      ∃ attempt, ((kind, text), attempt) ∈ attempts int exec running w := by
  have hfst : (attempts int exec running w).map Prod.fst = running.pending := runEach_fst _ _
  rw [← RunningTool.mem_pending, ← hfst, List.mem_map]
  constructor
  · rintro ⟨⟨child, attempt⟩, hmem, rfl⟩
    exact ⟨attempt, hmem⟩
  · rintro ⟨attempt, hmem⟩
    exact ⟨_, hmem, rfl⟩

theorem attempt_evidence {running : RunningTool} {w : World} {kind : Kind} {text : String}
    {attempt : Ran Op Op.Ret Exn Unit World} (h : ((kind, text), attempt) ∈ attempts int exec running w)
    (hok : attempt.result = .ok ()) :
    ∃ pid, int text = some pid ∧ 1 < pid ∧ Ends running.bootId pid attempt.calls := by
  obtain ⟨w', rfl⟩ := (exists_of_mem_runEach h).2
  rcases stopChild_attempt (kind, text) w' with ⟨pid, hint, hlt, -, -, hends⟩ | ⟨-, hfailed⟩
  · exact ⟨pid, hint, hlt, hends hok⟩
  · exact absurd hok hfailed

theorem attempt_matched {running : RunningTool} {w : World} {kind : Kind} {text : String}
    {attempt : Ran Op Op.Ret Exn Unit World} (h : ((kind, text), attempt) ∈ attempts int exec running w) :
    Matched (fun p boot start => ∃ kind text, (kind, some text) ∈ running.children ∧
      running.exited kind = false ∧ int text = some p ∧ running.bootId = some boot ∧
      running.identity kind = some start) attempt.calls := by
  obtain ⟨hchild, hexited⟩ := (attempts_pending kind text).2 ⟨attempt, h⟩
  obtain ⟨w', rfl⟩ := (exists_of_mem_runEach h).2
  rcases stopChild_attempt (kind, text) w' with ⟨pid, hint, -, -, hmatched, -⟩ | ⟨hnil, -⟩
  · apply hmatched.mono
    rintro p boot start ⟨rfl, hboot, hstart⟩
    exact ⟨kind, text, hchild, hexited, hint, hboot, hstart⟩
  · rw [hnil]
    exact quiet_nil.matched

theorem cleanedUp (running : RunningTool) (w : World) :
    CleanedUp int exec running w ((cleanupPartialStart int running).run exec w) := by
  obtain ⟨hcalls, hresult⟩ := @cleanupPartialStart_run _ int exec running w
  constructor
  case attempted => exact attempts_pending
  case calls => exact hcalls
  case matched =>
    rw [hcalls]
    exact Matched.flatMap fun ⟨_, attempt⟩ hmem => attempt_matched hmem
  case evidence => exact fun kind text attempt hmem hok => attempt_evidence hmem hok
  case returned =>
    intro left hleft
    rw [hresult] at hleft
    split at hleft
    case isFalse => cases hleft
    case isTrue hall =>
      obtain rfl := Except.ok.inj hleft
      refine ⟨rfl, fun kind text hchild => ?_⟩
      rw [RunningTool.children_receipts] at hchild
      rw [RunningTool.exited_receipts]
      cases hexited : running.exited kind with
      | true => exact Bool.or_true _
      | false =>
        obtain ⟨attempt, hmem⟩ := (@attempts_pending _ int exec running w kind text).1 ⟨hchild, hexited⟩
        have hok : attempt.result = .ok () := by
          have hisOk := List.all_eq_true.1 hall _ hmem
          cases hattempt : attempt.result with
          | ok a => rfl
          | error e => simp [hattempt, Except.isOk, Except.toBool] at hisOk
        have hmem' : kind ∈ confirmed (attempts int exec running w) := mem_confirmed.2 ⟨text, attempt, hmem, hok⟩
        simp [hmem']
  case raised =>
    intro e he
    rw [hresult] at he
    split at he
    case isTrue => cases he
    case isFalse =>
      obtain rfl := Except.error.inj he
      refine ⟨_, rfl, rfl, fun kind => ?_⟩
      rw [RunningTool.exited_receipts, Bool.or_eq_true, decide_eq_true_iff, mem_confirmed]
      exact or_comm

/-- A cleanup looks at, reaps and signals only processes of children without a receipt. -/
theorem cleanup_targets (running : RunningTool) (w : World) :
    ∀ call ∈ ((cleanupPartialStart int running).run exec w).calls, ∀ p, call.1.target = some p →
      ∃ kind text, (kind, some text) ∈ running.children ∧ running.exited kind = false ∧ int text = some p := by
  intro call hcall p hp
  rw [(cleanupPartialStart_run w).1] at hcall
  obtain ⟨⟨⟨kind, text⟩, attempt⟩, hattempt, hmem⟩ := List.mem_flatMap.1 hcall
  obtain ⟨hchild, hexited⟩ := (attempts_pending kind text).2 ⟨attempt, hattempt⟩
  obtain ⟨w', rfl⟩ := (exists_of_mem_runEach hattempt).2
  rcases stopChild_attempt (kind, text) w' with ⟨pid, hint, -, habout, -, -⟩ | ⟨hnil, -⟩
  · exact ⟨kind, text, hchild, hexited, habout call hmem p hp ▸ hint⟩
  · rw [hnil] at hmem
    cases hmem

/-- `_terminate` signals only the recorded process and returns only on evidence; cleanup attempts
every unreceipted child and raises with all receipts; a retry leaves the receipted children alone. -/
theorem cleanup_keeps_receipts (int : String → Option Int) (exec : (o : Op) → World → o.Ret × World) (w : World) :
    (∀ text identity bootId,
      Terminated int text identity bootId ((terminate int text identity bootId).run exec w)) ∧
    ∀ running, CleanedUp int exec running w ((cleanupPartialStart int running).run exec w) ∧
      ∀ left, ((cleanupPartialStart int running).run exec w).result = .error (.startCleanup left) →
        ∀ (exec' : (o : Op) → World → o.Ret × World) (w' : World),
          ∀ call ∈ ((cleanupPartialStart int left).run exec' w').calls, ∀ p, call.1.target = some p →
            ∃ kind text, (kind, some text) ∈ running.children ∧ left.exited kind = false ∧ int text = some p := by
  refine ⟨fun text identity bootId => terminate_terminated text identity bootId w,
    fun running => ⟨cleanedUp running w, ?_⟩⟩
  intro left hleft exec' w' call hcall p hp
  obtain ⟨left', heq, hreceipts, -⟩ := (cleanedUp running w).raised _ hleft
  obtain rfl : left = left' := by simpa using heq
  obtain ⟨kind, text, hchild, hexited, hint⟩ := cleanup_targets left w' call hcall p hp
  rw [hreceipts, RunningTool.children_receipts] at hchild
  exact ⟨kind, text, hchild, hexited, hint⟩

end Receipts

end Toolstack.Toolyard
