import Mathlib.Tactic.Common

/-! Programs made of atomic calls, and the runs of any number of them over one shared world.
A call is one indivisible transaction; everything between two calls of a program is local. -/

namespace Toolstack.Interleave

/-- A program over the calls `Op`: it returns, raises, or makes one call and continues with
the answer. -/
inductive Prog (Op : Type) (Ret : Op → Type) (ε α : Type) : Type
  | ret (a : α)
  | raise (e : ε)
  | call (o : Op) (k : Ret o → Prog Op Ret ε α)

section Prog
variable {Op : Type} {Ret : Op → Type} {ε α β : Type}

namespace Prog

def bind : Prog Op Ret ε α → (α → Prog Op Ret ε β) → Prog Op Ret ε β
  | ret a, f => f a
  | raise e, _ => raise e
  | call o k, f => call o fun r => (k r).bind f

instance : Monad (Prog Op Ret ε) where
  pure := ret
  bind := bind

@[simp] theorem pure_eq (a : α) : (pure a : Prog Op Ret ε α) = ret a := rfl

@[simp] theorem ret_bind (a : α) (f : α → Prog Op Ret ε β) : (ret a >>= f) = f a := rfl

@[simp] theorem raise_bind (e : ε) (f : α → Prog Op Ret ε β) :
    ((raise e : Prog Op Ret ε α) >>= f) = raise e := rfl

@[simp] theorem call_bind (o : Op) (k : Ret o → Prog Op Ret ε α) (f : α → Prog Op Ret ε β) :
    (call o k >>= f) = call o fun r => k r >>= f := rfl

theorem map_eq (f : α → β) (m : Prog Op Ret ε α) : f <$> m = m >>= fun a => ret (f a) := rfl

def perform (o : Op) : Prog Op Ret ε (Ret o) := call o ret

/-- Run a program and hand its exception over as a value. -/
def attempt : Prog Op Ret ε α → Prog Op Ret ε (Except ε α)
  | ret a => ret (.ok a)
  | raise e => ret (.error e)
  | call o k => call o fun r => (k r).attempt

/-- Every call the program can make, on any answers, satisfies `p`. -/
def All (p : Op → Prop) : Prog Op Ret ε α → Prop
  | ret _ => True
  | raise _ => True
  | call o k => p o ∧ ∀ r, (k r).All p

theorem All.of_forall {p : Op → Prop} (hp : ∀ o, p o) (m : Prog Op Ret ε α) : m.All p := by
  induction m with
  | ret a => trivial
  | raise e => trivial
  | call o k ih => exact ⟨hp o, ih⟩

theorem All.bind {p : Op → Prop} {m : Prog Op Ret ε α} {f : α → Prog Op Ret ε β}
    (hm : m.All p) (hf : ∀ a, (f a).All p) : (m >>= f).All p := by
  induction m with
  | ret a => exact hf a
  | raise e => trivial
  | call o k ih => exact ⟨hm.1, fun r => ih r (hm.2 r)⟩

theorem All.attempt {p : Op → Prop} {m : Prog Op Ret ε α} (hm : m.All p) :
    m.attempt.All p := by
  induction m with
  | ret a => trivial
  | raise e => trivial
  | call o k ih => exact ⟨hm.1, fun r => ih r (hm.2 r)⟩

theorem All.mono {p q : Op → Prop} (hpq : ∀ o, p o → q o) {m : Prog Op Ret ε α}
    (hm : m.All p) : m.All q := by
  induction m with
  | ret a => trivial
  | raise e => trivial
  | call o k ih => exact ⟨hpq o hm.1, fun r => ih r (hm.2 r)⟩

end Prog
end Prog

/-- What the calls do, what the jobs run, and what else can touch the world: `env` at any
time, `offline` only while no program is running. `Oracle` resolves what a call leaves open
(clocks, random values, answers from outside). -/
structure System (Op : Type) (Ret : Op → Type) (ε α Job World Oracle Env Offline : Type) where
  exec : Nat → (o : Op) → Oracle → World → Ret o × World
  program : Job → Prog Op Ret ε α
  env : Env → World → World
  offline : Offline → World → Option World

/-- One run of a job. `prog` is what is left of it, `none` once it has been killed. -/
structure Thread (Op : Type) (Ret : Op → Type) (ε α Job : Type) where
  job : Job
  prog : Option (Prog Op Ret ε α)

namespace Thread
variable {Op : Type} {Ret : Op → Type} {ε α Job : Type}

def stopped (t : Thread Op Ret ε α Job) : Bool :=
  match t.prog with
  | some (.call _ _) => false
  | _ => true

end Thread

/-- The threads are numbered by their position, so a number is never used twice. -/
structure Config (Op : Type) (Ret : Op → Type) (ε α Job World : Type) where
  world : World
  threads : List (Thread Op Ret ε α Job)

inductive Move (Job Oracle Env Offline : Type) : Type
  | start (j : Job)
  | call (i : Nat) (ω : Oracle)
  | crash (i : Nat)
  | env (e : Env)
  | offline (f : Offline)

namespace System
variable {Op : Type} {Ret : Op → Type} {ε α Job World Oracle Env Offline : Type}
variable (S : System Op Ret ε α Job World Oracle Env Offline)

def step (c : Config Op Ret ε α Job World) :
    Move Job Oracle Env Offline → Option (Config Op Ret ε α Job World)
  | .start j => some { c with threads := c.threads ++ [⟨j, some (S.program j)⟩] }
  | .call i ω =>
    match c.threads[i]? with
    | some ⟨j, some (.call o k)⟩ =>
      let (r, w) := S.exec i o ω c.world
      some ⟨w, c.threads.set i ⟨j, some (k r)⟩⟩
    | _ => none
  | .crash i =>
    match c.threads[i]? with
    | some ⟨j, some (.call _ _)⟩ => some { c with threads := c.threads.set i ⟨j, none⟩ }
    | _ => none
  | .env e => some { c with world := S.env e c.world }
  | .offline f =>
    if c.threads.all Thread.stopped then
      (S.offline f c.world).map fun w => { c with world := w }
    else none

def run (c : Config Op Ret ε α Job World) (ms : List (Move Job Oracle Env Offline)) :
    Option (Config Op Ret ε α Job World) :=
  ms.foldlM S.step c

/-- As `run`, as long as every move passes a check where it is made. -/
def runIf (check : Config Op Ret ε α Job World → Move Job Oracle Env Offline → Bool)
    (c : Config Op Ret ε α Job World) (ms : List (Move Job Oracle Env Offline)) :
    Option (Config Op Ret ε α Job World) :=
  ms.foldlM (fun c m => if check c m then S.step c m else none) c

/-- Runs all of whose steps satisfy `ok`. -/
inductive Steps (ok : Config Op Ret ε α Job World → Move Job Oracle Env Offline → Prop)
    (c : Config Op Ret ε α Job World) : Config Op Ret ε α Job World → Prop
  | refl : Steps ok c c
  | tail {c₁ c₂ m} : Steps ok c c₁ → ok c₁ m → S.step c₁ m = some c₂ → Steps ok c c₂

/-- Reachable from a world in which nothing runs yet. -/
def Reachable (w : World) (c : Config Op Ret ε α Job World) : Prop :=
  S.Steps (fun _ _ => True) ⟨w, []⟩ c

variable {S}
variable {ok : Config Op Ret ε α Job World → Move Job Oracle Env Offline → Prop}
variable {c c₁ c₂ : Config Op Ret ε α Job World}

theorem Steps.trans (h₁ : S.Steps ok c c₁) (h₂ : S.Steps ok c₁ c₂) : S.Steps ok c c₂ := by
  induction h₂ with
  | refl => exact h₁
  | tail _ hok hstep ih => exact ih.tail hok hstep

theorem Steps.mono {ok' : Config Op Ret ε α Job World → Move Job Oracle Env Offline → Prop}
    (hle : ∀ c m, ok c m → ok' c m) (h : S.Steps ok c c₁) : S.Steps ok' c c₁ := by
  induction h with
  | refl => exact .refl
  | tail _ hok hstep ih => exact ih.tail (hle _ _ hok) hstep

/-- The invariant rule: what holds at the start and survives every admitted step holds at
the end of every admitted run. -/
theorem Steps.invariant {P : Config Op Ret ε α Job World → Prop} (h : S.Steps ok c c₁)
    (h₀ : P c) (hstep : ∀ c₁ m c₂, S.Steps ok c c₁ → ok c₁ m → S.step c₁ m = some c₂ →
      P c₁ → P c₂) : P c₁ := by
  induction h with
  | refl => exact h₀
  | tail hrun hok hs ih => exact hstep _ _ _ hrun hok hs ih

/-- An executed list of checked moves is a run. -/
theorem Steps.of_runIf {check : Config Op Ret ε α Job World → Move Job Oracle Env Offline → Bool}
    {ms : List (Move Job Oracle Env Offline)} (h : S.runIf check c ms = some c₁)
    (hok : ∀ c m, check c m = true → ok c m) : S.Steps ok c c₁ := by
  induction ms generalizing c with
  | nil =>
    obtain rfl : c = c₁ := by simpa [runIf] using h
    exact .refl
  | cons m ms ih =>
    obtain ⟨c₂, hm, hms⟩ : ∃ c₂, (if check c m then S.step c m else none) = some c₂ ∧
        S.runIf check c₂ ms = some c₁ := by
      simpa only [runIf, List.foldlM_cons, Option.bind_eq_bind, Option.bind_eq_some_iff] using h
    split_ifs at hm with hcheck
    exact (Steps.tail .refl (hok c m hcheck) hm).trans (ih hms)

/-- An executed list of admitted moves is a run. -/
theorem Steps.of_run_admitted {ms : List (Move Job Oracle Env Offline)} (h : S.run c ms = some c₁)
    (hok : ∀ m ∈ ms, ∀ c, ok c m) : S.Steps ok c c₁ := by
  induction ms generalizing c with
  | nil =>
    obtain rfl : c = c₁ := by simpa [run] using h
    exact .refl
  | cons m ms ih =>
    obtain ⟨c₂, hm, hms⟩ : ∃ c₂, S.step c m = some c₂ ∧ S.run c₂ ms = some c₁ := by
      simpa [run, List.foldlM_cons, Option.bind_eq_some_iff] using h
    exact (Steps.tail .refl (hok m (List.mem_cons_self ..) c) hm).trans
      (ih hms fun m' hm' => hok m' (List.mem_cons_of_mem _ hm'))

/-- An executed list of moves is a run. -/
theorem Steps.of_run {ms : List (Move Job Oracle Env Offline)} (h : S.run c ms = some c₁) :
    S.Steps (fun _ _ => True) c c₁ :=
  of_run_admitted h fun _ _ _ => trivial

/-! ## What one step can be -/

theorem step_call {i : Nat} {ω : Oracle} (h : S.step c (.call i ω) = some c₁) :
    ∃ j o k, c.threads[i]? = some ⟨j, some (.call o k)⟩ ∧
      c₁.world = (S.exec i o ω c.world).2 ∧
      c₁.threads = c.threads.set i ⟨j, some (k (S.exec i o ω c.world).1)⟩ := by
  simp only [step] at h
  split at h
  · rename_i j o k hi
    obtain rfl := Option.some.inj h
    exact ⟨j, o, k, hi, rfl, rfl⟩
  · cases h

theorem step_crash {i : Nat} (h : S.step c (.crash i) = some c₁) :
    ∃ j o k, c.threads[i]? = some ⟨j, some (.call o k)⟩ ∧ c₁.world = c.world ∧
      c₁.threads = c.threads.set i ⟨j, none⟩ := by
  simp only [step] at h
  split at h
  · rename_i j o k hi
    obtain rfl := Option.some.inj h
    exact ⟨j, o, k, hi, rfl, rfl⟩
  · cases h

theorem step_offline {f : Offline} (h : S.step c (.offline f) = some c₁) :
    (∀ t ∈ c.threads, t.stopped) ∧ S.offline f c.world = some c₁.world ∧
      c₁.threads = c.threads := by
  simp only [step] at h
  split_ifs at h with hall
  obtain ⟨w, hw, rfl⟩ := Option.map_eq_some_iff.1 h
  exact ⟨List.all_eq_true.1 hall, hw, rfl⟩

/-- Threads are never removed, and a thread's job never changes. -/
def KeepsJobs (c c' : Config Op Ret ε α Job World) : Prop :=
  ∀ (i : Nat) (t : Thread Op Ret ε α Job), c.threads[i]? = some t →
    ∃ t', c'.threads[i]? = some t' ∧ t'.job = t.job

theorem KeepsJobs.lt (h : KeepsJobs c c₁) {i : Nat} (hi : i < c.threads.length) :
    i < c₁.threads.length := by
  obtain ⟨t', ht', -⟩ := h i _ (List.getElem?_eq_getElem hi)
  exact (List.getElem?_eq_some_iff.1 ht').1

theorem KeepsJobs.trans (h : KeepsJobs c c₁) (h' : KeepsJobs c₁ c₂) : KeepsJobs c c₂ := by
  intro i t ht
  obtain ⟨t₁, ht₁, hj₁⟩ := h i t ht
  obtain ⟨t₂, ht₂, hj₂⟩ := h' i t₁ ht₁
  exact ⟨t₂, ht₂, hj₂.trans hj₁⟩

theorem KeepsJobs.set {w : World} {i : Nat} {t t' : Thread Op Ret ε α Job}
    (ht : c.threads[i]? = some t) (hjob : t'.job = t.job) :
    KeepsJobs c ⟨w, c.threads.set i t'⟩ := by
  intro i' u hu
  rcases eq_or_ne i i' with rfl | hne
  · obtain rfl := Option.some.inj (ht.symm.trans hu)
    exact ⟨t', List.getElem?_set_self (List.getElem?_eq_some_iff.1 ht).1, hjob⟩
  · exact ⟨u, (List.getElem?_set_ne hne).trans hu, rfl⟩

theorem step_keepsJobs {m : Move Job Oracle Env Offline} (h : S.step c m = some c₁) :
    KeepsJobs c c₁ := by
  have hsame : ∀ {c' : Config Op Ret ε α Job World}, c'.threads = c.threads → KeepsJobs c c' :=
    fun he i t ht => ⟨t, he ▸ ht, rfl⟩
  cases m with
  | start j =>
    obtain rfl := Option.some.inj h
    intro i t ht
    exact ⟨t, (List.getElem?_append_left (List.getElem?_eq_some_iff.1 ht).1).trans ht, rfl⟩
  | call i ω =>
    obtain ⟨j, o, k, ht, -, hth⟩ := step_call h
    exact (hth ▸ KeepsJobs.set (w := c₁.world) ht rfl : KeepsJobs c ⟨c₁.world, c₁.threads⟩)
  | crash i =>
    obtain ⟨j, o, k, ht, -, hth⟩ := step_crash h
    exact (hth ▸ KeepsJobs.set (w := c₁.world) ht rfl : KeepsJobs c ⟨c₁.world, c₁.threads⟩)
  | env e =>
    obtain rfl := Option.some.inj h
    exact hsame rfl
  | offline f => exact hsame (step_offline h).2.2

theorem Steps.keepsJobs (h : S.Steps ok c c₁) : KeepsJobs c c₁ :=
  h.invariant (P := KeepsJobs c) (fun _ t ht => ⟨t, ht, rfl⟩)
    fun _ _ _ _ _ hs hc => hc.trans (step_keepsJobs hs)

end System

end Toolstack.Interleave
