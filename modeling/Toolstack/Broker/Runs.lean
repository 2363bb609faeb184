import Toolstack.Broker.Jobs

/-! What one step of the whole system does to the database, and what a run keeps. -/

namespace Toolstack.Broker

open Interleave (System)

variable {H : Hash} {c c' : Config} {m : Move}

/-- A step is one call of one thread, or the operator's offline work, or it leaves database and
log alone. -/
inductive Moved (H : Hash) (c : Config) (m : Move) (c' : Config) : Prop
  | call (i : Nat) (o : Op) (ω : Oracle) (move : m = .call i ω)
      (thread : ∃ j k, c.threads[i]? = some ⟨j, some (.call o k)⟩)
      (requires : Requires i o c.world) (world : c'.world = (c.world.exec H i o ω).2)
  | still (db : c'.world.db = c.world.db) (log : c'.world.log = c.world.log)
  | offline (f : OfflineMove) (move : m = .offline f) (world : f.apply c.world = some c'.world)

theorem Reachable.moved (h : Reachable H c) (hs : (broker H).step c m = some c') :
    Moved H c m c' := by
  cases m with
  | start j =>
    obtain rfl := Option.some.inj hs
    exact .still rfl rfl
  | call i ω =>
    obtain ⟨j, o, k, hthread, hworld, -⟩ := Interleave.System.step_call hs
    exact .call i o ω rfl ⟨j, k, hthread⟩ (h.covered.requires hthread) hworld
  | crash i =>
    obtain ⟨-, -, -, -, hworld, -⟩ := Interleave.System.step_crash hs
    exact .still (by rw [hworld]) (by rw [hworld])
  | env e =>
    obtain rfl := Option.some.inj hs
    exact .still (e.apply_db _) (e.apply_log _)
  | offline f => exact .offline f rfl (Interleave.System.step_offline hs).2.1

theorem Reachable.step (h : Reachable H c) (hs : (broker H).step c m = some c') :
    Reachable H c' := by
  obtain ⟨uuid, hrun⟩ := h
  exact ⟨uuid, hrun.tail trivial hs⟩

theorem Reachable.steps {ok : Config → Move → Prop} (h : Reachable H c)
    (hrun : (broker H).Steps ok c c') : Reachable H c' := by
  obtain ⟨uuid, hstart⟩ := h
  exact ⟨uuid, hstart.trans (hrun.mono fun _ _ _ => trivial)⟩

/-- The moves that keep the database: all but a restore, which replaces it by a snapshot. -/
def SameDatabase (_ : Config) (m : Move) : Prop := ∀ n now uuid, m ≠ .offline (.restore n now uuid)

/-- What `reconcile_offline` makes of one row. -/
def Row.reconcile (now : Time) (row : Row) : Row :=
  if row.status.unfinished then
    { Row.close now .unknown (some "offline_reconciled") row with resultJson := none }
  else row

/-- The receipts of one database, from a step to the next. -/
inductive Reaches (H : Hash) (c c' : Config) (r : Nat) : Prop
  | step (i : Nat) (step : Receipt.Step H i (c.world.receipt r) (c'.world.receipt r))
  | reconciled (now : Time) (receipt : c'.world.receipt r =
      ⟨(c.world.receipt r).row.map (Row.reconcile now), (c.world.receipt r).approvals,
        (c.world.receipt r).events⟩)

theorem receipt_reconcile (w : World) (now : Time) (r : Nat) :
    receiptOf r (w.db.reconcileOffline now) w.log =
      ⟨(w.receipt r).row.map (Row.reconcile now), (w.receipt r).approvals, (w.receipt r).events⟩ := by
  have hget : (w.db.reconcileOffline now).requests.get? r =
      (w.db.requests.get? r).map (Row.reconcile now) :=
    Table.get?_update _ _ _ (fun _ => by rfl) r
  simp only [receiptOf, hget]
  rfl

theorem Reachable.reaches (h : Reachable H c) (hs : (broker H).step c m = some c')
    (hm : SameDatabase c m) (r : Nat) : Reaches H c c' r := by
  cases h.moved hs with
  | call i o ω _ _ requires world =>
    exact .step i (world ▸ (exec_worldStep h.sound.current requires).receipts r)
  | still db log =>
    have heq : c'.world.receipt r = c.world.receipt r := by simp only [World.receipt, db, log]
    exact .step 0 (heq ▸ .stay _)
  | offline f move world =>
    cases f with
    | reconcile now =>
      have hworld : c'.world = { c.world with db := c.world.db.reconcileOffline now } :=
        (Option.some.inj world).symm
      exact .reconciled now (hworld ▸ receipt_reconcile c.world now r)
    | restore n now uuid => exact absurd move (hm n now uuid)

/-- Whatever happens to a database, each request only goes on. -/
theorem Reachable.later (h : Reachable H c) (hrun : (broker H).Steps SameDatabase c c') (r : Nat) :
    (c.world.receipt r).Later (c'.world.receipt r) := by
  refine hrun.invariant (P := fun c' => (c.world.receipt r).Later (c'.world.receipt r)) (.refl _)
    fun c₁ m c₂ hrun₁ hok hs ih => ih.trans ?_
  cases (h.steps hrun₁).reaches hs hok r with
  | step i step => exact step.later
  | reconciled now receipt =>
    rw [receipt]
    refine ⟨fun row hrow => ⟨row.reconcile now, by rw [hrow]; rfl, ?_⟩, List.prefix_rfl⟩
    unfold Row.reconcile
    split_ifs
    · exact Ends.precedes ⟨rfl, rfl, rfl, rfl⟩
    · exact .refl _

theorem Db.get?_sweepStatus (p : Status → Bool) (status : Status) (error : String) (now : Time)
    (db : Db) (r : Nat) : (db.sweepStatus p status error now).requests.get? r =
      (db.requests.get? r).map fun row => if p row.status then
        { Row.close now status (some error) row with resultJson := none } else row :=
  Table.get?_update _ _ _ (fun _ => by rfl) r

/-- Every row of a restored database has ended. -/
theorem Db.sanitize_terminal {now : Time} {uuid : Text} {db : Db} {r : Nat} {row : Row}
    (h : (db.sanitize now uuid).requests.get? r = some row) : row.status.terminal = true := by
  have hreq : (db.sanitize now uuid).requests =
      ((db.sweepStatus (fun s => s = .pendingApproval) .expired "restore_cancelled" now).sweepStatus
        Status.unfinished .unknown "restore_unknown" now).requests := rfl
  rw [hreq, Db.get?_sweepStatus, Db.get?_sweepStatus, Option.map_map] at h
  obtain ⟨row₀, -, rfl⟩ := Option.map_eq_some_iff.1 h
  simp only [Function.comp_apply]
  cases hs : row₀.status <;>
    simp [Status.unfinished, Status.terminal, Row.close, hs]

theorem restored (hs : (broker H).step c m = some c') (hm : ¬SameDatabase c m) :
    ∃ b ∈ c.world.backups, ∃ now uuid, c'.world = { c.world with
      db := b.1.sanitize now uuid, log := b.2 } := by
  obtain ⟨n, now, uuid, rfl⟩ : ∃ n now uuid, m = .offline (.restore n now uuid) := by
    simpa [SameDatabase] using hm
  obtain ⟨-, hworld, -⟩ := Interleave.System.step_offline hs
  obtain ⟨b, hb, hworld⟩ := Option.map_eq_some_iff.1 hworld
  exact ⟨b, List.mem_of_getElem? hb, now, uuid, hworld.symm⟩

/-! ## Executed runs -/

/-- Where a list of moves leads from a new database. -/
def after (H : Hash) (ms : List Move) : Option Config :=
  (broker H).run ⟨World.initial [], []⟩ ms

theorem Reachable.after {ms : List Move} (h : after H ms = some c) : Reachable H c :=
  ⟨[], Interleave.System.Steps.of_run h⟩

namespace Sample

def hash : Hash where
  digest t := 'h' :: t
  injective _ _ h := List.tail_eq_of_cons_eq h
  nonempty _ := List.cons_ne_nil _ _

def context : Context := { broker := 0, surface := true, approvalTtl := 600 }

def caller : Caller := ⟨1, "ann", none⟩

def entry : CatalogEntry where
  port := 8000
  type := .api
  ops := [("run", ⟨.null, .null, .null, none, none⟩)]
  manifest := none

/-- `n` calls of thread `i`, all answered by `ω`. -/
def calls (i : Nat) (ω : Oracle) (n : Nat) : List Move := List.replicate n (.call i ω)

/-- Thread 0 creates the caller, and broker 0 loads the catalog. -/
def setup (allow review : List String) : List Move :=
  .start (.createCaller "ann" allow review [] "op") :: calls 0 {} 6 ++
    [.env (.reload 0 [("echo", entry)])]

def submit (key : Json) : Job := .submit context caller "echo" "run" (.obj []) [] .null key

def answer : HttpAnswer := { status := 200, body := .ok (.ok (.obj [])) }

/-- Thread 1 submits an allowed request and completes it. -/
def completed : List Move :=
  setup ["echo.run"] [] ++ .start (submit .null) :: calls 1 { exchange := .answered answer } 17

end Sample

end Toolstack.Broker
