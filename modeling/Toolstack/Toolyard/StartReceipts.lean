import Toolstack.Toolyard.CleanupReceipts
import Toolstack.Toolyard.Start

/-! A start loses no child: at whatever call it fails, each process that it has spawned is known to be gone
or stands in the record that it returns or raises. -/

namespace Toolstack.Toolyard.Start

open Interleave Prog

abbrev Calls := List (Answered Op Op.Ret)

/-! ## Children -/

/-- The call has brought up a child. -/
inductive Spawns : Answered Op Op.Ret → Kind → Int → Prop
  | process (script : PyStr) (egressPort : Option Nat) (env : Environment) (pid : Int) :
    Spawns ⟨.spawn script egressPort env, .ok pid⟩ .process pid
  | egress (allow : List PyStr) (port : Nat) (pid : Int) : Spawns ⟨.spawnEgress allow port, .ok pid⟩ .egress pid

/-- The environment of a tool that the call tries to spawn. -/
def spawnEnv : Answered Op Op.Ret → Option Environment
  | ⟨.spawn _ _ env, _⟩ => some env
  | _ => none

/-- The call has neither brought up a child nor registered the tool. -/
def idle : Answered Op Op.Ret → Bool
  | ⟨.spawn _ _ _, .ok _⟩ | ⟨.spawnEgress _ _, .ok _⟩ | ⟨.register _ _ _, .ok _⟩ => false
  | _ => true

theorem not_spawns {c : Answered Op Op.Ret} {kind : Kind} {pid : Int} (h : idle c = true) :
    ¬Spawns c kind pid := by
  intro hspawns
  cases hspawns <;> cases h

/-- The call has shown that the child of this start is gone: reaped, absent, or of an earlier boot. -/
def Evident (bootId : Option String) (pid : Int) (c : Answered Op Op.Ret) : Prop :=
  ∃ c' : Call, c = ⟨.os c'.1, c'.2⟩ ∧ (Gone bootId pid c' ∨ ∃ child, child ≠ 0 ∧ c' = ⟨.waitpid pid, .ok child⟩)

/-- The record names the child and has no receipt for it. -/
def Kept (record : RunningTool) (kind : Kind) (pid : Int) : Prop :=
  (kind, some pid.repr) ∈ record.children ∧ record.exited kind = false

/-- From one record to another by some calls: no child is lost. -/
structure Accounts (r r' : RunningTool) (calls : Calls) : Prop where
  bootId : r'.bootId = r.bootId
  kept : ∀ kind pid, Kept r kind pid → Kept r' kind pid ∨ ∃ c ∈ calls, Evident r.bootId pid c
  spawned : ∀ pre c post kind pid, calls = pre ++ c :: post → Spawns c kind pid →
    Kept r' kind pid ∨ ∃ c' ∈ post, Evident r.bootId pid c'

section
variable {r r' r'' : RunningTool} {calls calls' : Calls} {c : Answered Op Op.Ret} {kind : Kind} {pid : Int}

theorem Accounts.refl (r : RunningTool) : Accounts r r [] where
  bootId := rfl
  kept := fun _ _ h => .inl h
  spawned := fun pre c post _ _ heq => by simp at heq

theorem Accounts.trans (h : Accounts r r' calls) (h' : Accounts r' r'' calls') : Accounts r r'' (calls ++ calls') := by
  have hlater : ∀ kind pid, Kept r' kind pid → ∀ earlier : Calls,
      Kept r'' kind pid ∨ ∃ c ∈ earlier ++ calls', Evident r.bootId pid c := by
    intro kind pid hkept earlier
    rcases h'.kept kind pid hkept with hkept | ⟨c, hc, hevident⟩
    · exact .inl hkept
    · rw [h.bootId] at hevident
      exact .inr ⟨c, List.mem_append_right _ hc, hevident⟩
  refine ⟨h'.bootId.trans h.bootId, fun kind pid hkept => ?_, fun pre c post kind pid heq hspawns => ?_⟩
  · rcases h.kept kind pid hkept with hkept | ⟨c, hc, hevident⟩
    · exact hlater kind pid hkept calls
    · exact .inr ⟨c, List.mem_append_left _ hc, hevident⟩
  · rcases List.append_eq_append_iff.1 heq with ⟨middle, -, hcalls'⟩ | ⟨middle, hcalls, hpost⟩
    · rw [← h.bootId]
      exact h'.spawned middle c post kind pid hcalls' hspawns
    · cases middle with
      | nil =>
        rw [← h.bootId]
        exact h'.spawned [] c post kind pid hpost.symm hspawns
      | cons d middle =>
        obtain ⟨rfl, rfl⟩ := List.cons.inj hpost
        rcases h.spawned pre c middle kind pid hcalls hspawns with hkept | ⟨c', hc', hevident⟩
        · exact hlater kind pid hkept middle
        · exact .inr ⟨c', List.mem_append_left _ hc', hevident⟩

/-- A call that neither spawns nor registers. -/
theorem Accounts.unchanged (h : idle c = true) : Accounts r r [c] where
  bootId := rfl
  kept := fun _ _ hkept => .inl hkept
  spawned := by
    intro pre c' post kind pid heq hspawns
    cases pre with
    | nil =>
      obtain ⟨rfl, -⟩ := List.cons.inj heq
      exact absurd hspawns (not_spawns h)
    | cons d pre => simp at heq

/-- A call that spawns a child, and the record with it. -/
theorem Accounts.spawn (hboot : r'.bootId = r.bootId) (hold : ∀ kind pid, Kept r kind pid → Kept r' kind pid)
    (hnew : ∀ kind pid, Spawns c kind pid → Kept r' kind pid) : Accounts r r' [c] where
  bootId := hboot
  kept := fun kind pid hkept => .inl (hold kind pid hkept)
  spawned := by
    intro pre c' post kind pid heq hspawns
    cases pre with
    | nil =>
      obtain ⟨rfl, -⟩ := List.cons.inj heq
      exact .inl (hnew kind pid hspawns)
    | cons d pre => simp at heq

/-- A record with other identities, or with what no cleanup reads, keeps the same children. -/
theorem Accounts.same (hboot : r'.bootId = r.bootId) (hchildren : r'.children = r.children)
    (hexited : ∀ kind, r'.exited kind = r.exited kind) : Accounts r r' [] where
  bootId := hboot
  kept := by
    rintro kind pid ⟨hmem, hnot⟩
    exact .inl ⟨by rw [hchildren]; exact hmem, (hexited kind).trans hnot⟩
  spawned := fun pre c post _ _ heq => by simp at heq

end

/-! ## Taking down -/

/-- The record with which a stage ends. -/
def final {α : Type} (f : α → Record) : Except Failure α → Record
  | .ok a => f a
  | .error e => e.record

/-- The call has registered the tool with SPS. -/
def Registers (c : Answered Op Op.Ret) : Prop := ∃ id s secrets, c = ⟨.register id s secrets, .ok ()⟩

theorem not_registers {c : Answered Op Op.Ret} (h : idle c = true) : ¬Registers c := by
  rintro ⟨id, s, secrets, rfl⟩
  cases h

/-- A stage after the registration: no child is lost, and what SPS knows stays as it is. -/
structure Stage {α : Type} (f : α → Record) (r : Record) (result : Except Failure α) (calls : Calls) : Prop where
  accounts : Accounts r.toRunningTool (final f result).toRunningTool calls
  secret : (final f result).eSecret = r.eSecret
  failure : ∀ e, result = .error e → e.registered = r.eSecret.isSome
  unregistered : ∀ c ∈ calls, ¬Registers c

section Stage
variable {α β : Type} {f : α → Record} {g : β → Record} {r r' : Record} {result : Except Failure α}
  {calls calls' : Calls} {c : Answered Op Op.Ret}

theorem Stage.fail (cause : Exn) : Stage f r (.error ⟨r, r.eSecret.isSome, cause⟩) [] where
  accounts := .refl _
  secret := rfl
  failure := by
    intro e he
    obtain rfl := Except.error.inj he
    rfl
  unregistered := fun c hc => absurd hc List.not_mem_nil

theorem Stage.done {a : α} (h : f a = r) : Stage f r (.ok a) [] where
  accounts := by
    show Accounts r.toRunningTool (f a).toRunningTool []
    rw [h]
    exact .refl _
  secret := congrArg Record.eSecret h
  failure := fun e he => by cases he
  unregistered := fun c hc => absurd hc List.not_mem_nil

/-- A call before the rest of a stage. -/
theorem Stage.after (r : Record) (h : Stage f r' result calls)
    (haccounts : Accounts r.toRunningTool r'.toRunningTool [c]) (hsecret : r'.eSecret = r.eSecret)
    (hc : ¬Registers c) : Stage f r result (c :: calls) where
  accounts := haccounts.trans h.accounts
  secret := h.secret.trans hsecret
  failure := fun e he => by rw [h.failure e he, hsecret]
  unregistered := List.forall_mem_cons.2 ⟨hc, h.unregistered⟩

theorem Stage.cons (hc : idle c = true) (h : Stage f r result calls) : Stage f r result (c :: calls) :=
  h.after r (.unchanged hc) rfl (not_registers hc)

theorem Stage.append {a : α} {result : Except Failure β} (h : Stage f r (.ok a) calls)
    (h' : Stage g (f a) result calls') : Stage g r result (calls ++ calls') where
  accounts := h.accounts.trans h'.accounts
  secret := h'.secret.trans h.secret
  failure := by
    intro e he
    have hsecret : (f a).eSecret = r.eSecret := h.secret
    rw [h'.failure e he, hsecret]
  unregistered := by
    intro c hc
    rcases List.mem_append.1 hc with hmem | hmem
    · exact h.unregistered c hmem
    · exact h'.unregistered c hmem

theorem Stage.error {e : Failure} (h : Stage f r (.error e) calls) : Stage g r (.error e) calls where
  accounts := h.accounts
  secret := h.secret
  failure := fun e' he => h.failure e' (congrArg Except.error (Except.error.inj he))
  unregistered := h.unregistered

end Stage

/-- Nothing of this start runs as the tool yet. -/
structure Ready (r : RunningTool) : Prop where
  backend : r.backend = "process" ∨ r.backend = "seatbelt"
  handle : r.handle = ""
  running : r.processExited = false

theorem Ready.egress {r : RunningTool} (h : Ready r) (pid identity : Option String) :
    Ready { r with egressPid := pid, egressIdentity := identity } := ⟨h.backend, h.handle, h.running⟩

/-- The tool that runs is the one child of its record. -/
structure Running (r : RunningTool) : Prop where
  backend : r.backend = "process" ∨ r.backend = "seatbelt"
  handle : ∃ pid : Int, r.handle = pid.repr

/-- The program never answers `reaped`. -/
def NeverReaps (m : Toolyard.Program Liveness) : Prop := m.Trace fun result _ => result ≠ .ok .reaped

theorem NeverReaps.ask {o : Toolyard.Op} {k : o.Answer → Toolyard.Program Liveness} (hk : ∀ a, NeverReaps (k a)) :
    NeverReaps (Toolyard.ask o >>= k) := by
  refine trace_ask_bind.2 ⟨(fun _ h => by cases h), fun a => ?_⟩
  exact (hk a).mono fun _ _ h => h

theorem NeverReaps.absent {pid : Int} {k : Bool → Toolyard.Program Liveness} (hk : ∀ absent, NeverReaps (k absent)) :
    NeverReaps (pidAbsent pid >>= k) := by
  refine (Trace.always (pidAbsent pid)).bind (fun e _ _ h => by cases h) fun absent _ _ => ?_
  exact (hk absent).mono fun _ _ h => h

/-- Only a wait that has collected the process gives `reaped`. -/
def Reaps (int : String → Option Int) (r : RunningTool) (result : Except Toolyard.Exn Liveness) (calls : List Call) :
    Prop :=
  result = .ok .reaped → ∃ pid child, int r.handle = some pid ∧ child ≠ 0 ∧ ⟨.waitpid pid, .ok child⟩ ∈ calls

theorem Reaps.cons {int : String → Option Int} {r : RunningTool} {result : Except Toolyard.Exn Liveness}
    {calls : List Call} (c : Call) (h : Reaps int r result calls) : Reaps int r result (c :: calls) := by
  intro hresult
  obtain ⟨pid, child, hpid, hchild, hmem⟩ := h hresult
  exact ⟨pid, child, hpid, hchild, List.mem_cons_of_mem _ hmem⟩

/-- A start is registered exactly where it keeps its secret, and always where the tool has secrets. -/
structure Enrolled (tool : ToolDef) (spsActive : Bool) (r : Record)
    (result : Except Failure (Record × Option ResolvedSps)) (calls : Calls) : Prop where
  same : (final Prod.fst result).toRunningTool = r.toRunningTool
  unspawned : ∀ c ∈ calls, ∀ kind pid, ¬Spawns c kind pid
  unspawned' : calls.filterMap spawnEnv = []
  failed : ∀ e, result = .error e → e.registered = false ∧ ∀ c ∈ calls, ¬Registers c
  registered : ∀ a, result = .ok a → ∀ c ∈ calls, Registers c →
    ∃ s, c = ⟨.register tool.id s tool.secrets, .ok ()⟩ ∧ a.1.eSecret = some s
  secret : ∀ a s, result = .ok a → a.1.eSecret = some s →
    ⟨.register tool.id s tool.secrets, .ok ()⟩ ∈ calls ∧ a.2.isSome = true
  needed : ∀ a, result = .ok a → spsActive = true → tool.secrets ≠ [] → a.1.eSecret.isSome = true

section Enrolled
variable {tool : ToolDef} {spsActive : Bool} {r : Record} {calls : Calls}

theorem Enrolled.refuse (hidle : ∀ c ∈ calls, idle c = true) (hnone : calls.filterMap spawnEnv = []) (cause : Exn) :
    Enrolled tool spsActive r (.error ⟨r, false, cause⟩) calls where
  same := rfl
  unspawned := fun c hc _ _ => not_spawns (hidle c hc)
  unspawned' := hnone
  failed := by
    intro e he
    obtain rfl := Except.error.inj he
    exact ⟨rfl, fun c hc => not_registers (hidle c hc)⟩
  registered := fun a ha => by cases ha
  secret := fun a s ha => by cases ha
  needed := fun a ha => by cases ha

end Enrolled

/-- Every tool that the calls try to spawn is told the secret it is registered with. -/
def Told (secret : Option String) (cfg : Option ResolvedSps) (calls : Calls) : Prop :=
  ∀ env ∈ calls.filterMap spawnEnv, Mapping.get env "TOOLSTACK_E_SECRET" = (known secret cfg).map Prod.fst

section Told
variable {secret : Option String} {cfg : Option ResolvedSps} {calls calls' : Calls}

theorem Told.append (h : Told secret cfg calls) (h' : Told secret cfg calls') : Told secret cfg (calls ++ calls') := by
  intro env henv
  rw [List.filterMap_append, List.mem_append] at henv
  rcases henv with henv | henv
  · exact h env henv
  · exact h' env henv

end Told

theorem Enrolled.accounts {tool : ToolDef} {spsActive : Bool} {r : Record}
    {result : Except Failure (Record × Option ResolvedSps)} {calls : Calls}
    (h : Enrolled tool spsActive r result calls) :
    Accounts r.toRunningTool (final Prod.fst result).toRunningTool calls := by
  rw [h.same]
  refine ⟨rfl, fun _ _ hkept => .inl hkept, fun pre c post kind pid heq hspawns => ?_⟩
  refine absurd hspawns (h.unspawned c ?_ kind pid)
  rw [heq]
  exact List.mem_append_right _ (List.mem_cons_self ..)

/-- Calls with which nothing has begun. -/
def Idle (calls : Calls) : Prop := ∀ c ∈ calls, idle c = true ∧ spawnEnv c = none

theorem Idle.nil : Idle [] := fun _ hc => absurd hc List.not_mem_nil

theorem Idle.cons {c : Answered Op Op.Ret} {calls : Calls} (hidle : idle c = true) (hnone : spawnEnv c = none)
    (h : Idle calls) : Idle (c :: calls) := List.forall_mem_cons.2 ⟨⟨hidle, hnone⟩, h⟩

theorem Idle.append {calls calls' : Calls} (h : Idle calls) (h' : Idle calls') : Idle (calls ++ calls') := by
  intro c hc
  rcases List.mem_append.1 hc with hmem | hmem
  · exact h c hmem
  · exact h' c hmem

end Toolstack.Toolyard.Start
