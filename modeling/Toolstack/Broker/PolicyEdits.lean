import Mathlib.Data.List.Permutation
import Toolstack.Broker.Runs
import Toolstack.Admin.SettingsEdit

/-! The operators who edit one caller's policy at the same time: what each writes, and in which
order the writes take effect. -/

namespace Toolstack.Broker

open CallerSettings
open Interleave (System)

/-! ## The edits as functions of the policy they start from -/

/-- `operations.set_policy`. -/
def regrant (allow review deny : List String) (q : Policy) : Policy :=
  { Operations.buildPolicy allow review deny with
    enabled := q.enabled, disabledFunctions := q.disabledFunctions }

/-- `operations.set_enabled_tools`. -/
def enableTools (enabled : List String) (q : Policy) : Policy :=
  let tools := (q.tools.getD []).filter fun t => enabled.eraseDups.contains t.1
  if q.disabledFunctions.isSome then
    { tools := some tools, enabled := some enabled.eraseDups,
      disabledFunctions := q.disabledFunctions }
  else
    { tools := some tools,
      enabled := if enabled.eraseDups.isEmpty then none else some enabled.eraseDups }

/-- What a job makes of the policy `q` of caller `c` when nobody else edits it. Policies are
compared as dicts, by their sorted text. -/
inductive Edits (H : Hash) (installation : Text) (c : Nat) (q : Policy) : Job → Policy → Prop
  | setPolicy (name : String) (allow review deny : List String) (operator : String) :
    Edits H installation c q (.setPolicy name allow review deny operator)
      (regrant allow review deny q)
  | setEnabledTools (name : String) (enabled : List String) (operator : String) :
    Edits H installation c q (.setEnabledTools name enabled operator) (enableTools enabled q)
  | saveCallerTools (name : String) (available selected : List String) (operator : String) :
    Edits H installation c q (.saveCallerTools name available selected operator)
      (enableTools (mergeEnabled q available selected) q)
  | applySettings (name : String) (catalog : Catalog) (data : Draft) (operator : String)
      (read after : Policy) (same : q.binding = read.binding)
      (revision : submittedRevision data =
        some (py (String.ofList (revisionOf H installation c read catalog))))
      (edited : edit catalog data read = .ok after) :
    Edits H installation c q (.applySettings name (.ok catalog) data operator) after

/-- The writers of the policy of the caller called `name`. -/
def Job.edits (name : String) : Job → Bool
  | .setPolicy n .. | .setEnabledTools n .. | .saveCallerTools n .. | .applySettings n .. => n = name
  | _ => false

/-! ## What the log says -/

/-- The write of caller `c`'s policy that a call made. -/
def Call.committed (c : Nat) : Call → Option (Nat × Policy)
  | ⟨i, .setPolicy c' p, .ok ()⟩ => if c' = c then some (i, p) else none
  | ⟨i, .compareAndSetPolicy c' _ p _, true⟩ => if c' = c then some (i, p) else none
  | _ => none

/-- Who wrote caller `c`'s policy, and what, newest first. -/
def commits (c : Nat) (log : List Call) : List (Nat × Policy) := log.filterMap (Call.committed c)

def Call.readPolicy (i c : Nat) : Call → Option Policy
  | ⟨i', .policyFor c', q⟩ => if i' = i ∧ c' = c then some q else none
  | _ => none

/-- The policies of caller `c` that thread `i` has read. -/
def policiesRead (i c : Nat) (log : List Call) : List Policy := log.filterMap (Call.readPolicy i c)

/-- The threads whose edit of caller `c`'s policy took effect, oldest first. -/
def writers (c : Nat) (log : List Call) : List Nat := ((commits c log).map Prod.fst).reverse

/-! ## Serial runs -/

/-- The edits of `order`, one after another, lead from `q` to the last policy. -/
inductive Serial (edit : Nat → Policy → Policy → Prop) (q : Policy) : List Nat → Policy → Prop
  | nil : Serial edit q [] q
  | snoc {order p i r} (before : Serial edit q order p) (last : edit i p r) :
    Serial edit q (order ++ [i]) r

/-- What the job of thread `i` makes of a policy of caller `c`. -/
def Config.edit (H : Hash) (installation : Text) (c : Nat) (cfg : Config) (i : Nat) (q r : Policy) :
    Prop :=
  ∃ t, cfg.threads[i]? = some t ∧ Edits H installation c q t.job r

/-- The policy of caller `c` is what the edits that took effect make of the one in `w`, one after
another in the order `order`; an edit that reported success took effect, one that failed did not. -/
structure Serialised (H : Hash) (w : World) (c : Nat) (cfg : Config) (order : List Nat) : Prop where
  once : order.Nodup
  effective : ∀ i, i ∈ order ↔ i ∈ writers c cfg.world.log
  returned : ∀ i j a, cfg.threads[i]? = some ⟨j, some (.ret a)⟩ → i ∈ order
  raised : ∀ i j e, cfg.threads[i]? = some ⟨j, some (.raise e)⟩ → i ∉ order
  serial : Serial (cfg.edit H w.db.installationUuid c) (w.db.policyFor c) order
    (cfg.world.db.policyFor c)

/-- An edit that had ended in `cfg₁` stands before one that started after it. -/
def RealTime (cfg₁ : Config) (order : List Nat) : Prop :=
  ∃ ended rest, order = ended ++ rest ∧ (∀ i ∈ ended, i < cfg₁.threads.length) ∧
    ∀ i ∈ rest, ∀ t, cfg₁.threads[i]? = some t → t.stopped = false

/-! ## The runs -/

/-- A plain `set_policy` write happens while the stored policy still is the one its writer read. -/
def Undisturbed (cfg : Config) (i : Nat) : Prop :=
  ∀ j c p k, cfg.threads[i]? = some ⟨j, some (.call (.setPolicy c p) k)⟩ →
    ∀ q ∈ policiesRead i c cfg.world.log, q = cfg.world.db.policyFor c

/-- Only the writers of one caller's policy run. -/
def Editing (name : String) (_ : Config) : Move → Prop
  | .start j => j.edits name = true
  | .call .. | .crash _ | .env _ => True
  | .offline _ => False

def UndisturbedEditing (name : String) (cfg : Config) (m : Move) : Prop :=
  Editing name cfg m ∧ ∀ i ω, m = .call i ω → Undisturbed cfg i

/-! ## What is left of a writer -/

/-- The writers that do not compare before they write. -/
def Job.plain : Job → Bool
  | .setPolicy .. | .setEnabledTools .. | .saveCallerTools .. => true
  | _ => false

/-- Calls that touch no table a policy is read from. -/
def Op.aside : Op → Bool
  | .time | .token | .appendAudit .. => true
  | _ => false

/-- The edit has taken effect, and what is left reports success. -/
def Saved : Action Reply → Prop
  | .ret _ => True
  | .raise _ => False
  | .call o k => o.aside = true ∧ ∀ r, Saved (k r)

/-- The edit of the job `j` has not taken effect yet, and `reads` are the policies read so far. -/
inductive Pending (H : Hash) (installation : Text) (name : String) (cid : Nat) (j : Job) :
    List Policy → Action Reply → Prop
  | raise {reads e} : Pending H installation name cid j reads (.raise e)
  | caller {reads k}
    (next : ∀ row : CallerRow, row.id = cid → Pending H installation name cid j reads (k (some row))) :
    Pending H installation name cid j reads (.call (.callerByName name) k)
  | installation {reads k} (next : Pending H installation name cid j reads (k installation)) :
    Pending H installation name cid j reads (.call .installationId k)
  | read {reads k} (next : ∀ q, Pending H installation name cid j (q :: reads) (k q)) :
    Pending H installation name cid j reads (.call (.policyFor cid) k)
  | write {reads p k} (plain : j.plain = true)
    (edits : ∀ q, (∀ q' ∈ reads, q' = q) → Edits H installation cid q j p)
    (saved : Saved (k (.ok ())))
    (refused : ∀ e, Pending H installation name cid j reads (k (.error e))) :
    Pending H installation name cid j reads (.call (.setPolicy cid p) k)
  | swap {reads before after operator k}
    (edits : ∀ q, q.binding = before.binding → Edits H installation cid q j after)
    (saved : k true = .ret .done) (refused : Pending H installation name cid j reads (k false)) :
    Pending H installation name cid j reads
      (.call (.compareAndSetPolicy cid before after operator) k)

section Programs
variable {H : Hash} {installation : Text} {name operator : String} {cid : Nat} {j : Job}
  {reads : List Policy}

theorem saved_recordAdminEvent {eventType : String} {details : List (String × Json)} :
    Saved (Operations.recordAdminEvent operator eventType details >>= fun _ => .ret .done) :=
  ⟨rfl, fun _ => ⟨rfl, fun _ => trivial⟩⟩

theorem pending_storePolicy {p : Policy} {eventType : String} {details : List (String × Json)}
    (plain : j.plain = true)
    (edits : ∀ q, (∀ q' ∈ reads, q' = q) → Edits H installation cid q j p) :
    Pending H installation name cid j reads ((do
      Operations.storePolicy cid p
      Operations.recordAdminEvent operator eventType details) >>= fun _ => .ret .done) :=
  .write plain edits saved_recordAdminEvent fun _ => .raise

theorem pending_setPolicy {allow review deny : List String} :
    Pending H installation name cid (.setPolicy name allow review deny operator) []
      (program H (.setPolicy name allow review deny operator)) := by
  refine .caller fun row hrow => ?_
  subst hrow
  refine .read fun before => pending_storePolicy rfl fun q hq => ?_
  obtain rfl := hq before (by simp)
  exact .setPolicy ..

/-- The policy is read up to three times; undisturbed, all three are one. -/
theorem pending_setEnabledTools {enabled : List String} (plain : j.plain = true)
    (edits : ∀ q, (∀ q' ∈ reads, q' = q) → Edits H installation cid q j (enableTools enabled q)) :
    Pending H installation name cid j reads
      (Operations.setEnabledTools name enabled operator >>= fun _ => .ret .done) := by
  refine .caller fun row hrow => ?_
  subst hrow
  refine .read fun prior => .read fun current => ?_
  have hcurrent : ∀ q, (∀ q' ∈ current :: prior :: reads, q' = q) → prior = q ∧ current = q ∧
      Edits H installation row.id q j (enableTools enabled q) := fun q hq =>
    ⟨hq _ (by simp), hq _ (by simp), edits q fun q' hq' => hq q' (by simp [hq'])⟩
  show Pending H installation name row.id j _
    ((if current.disabledFunctions.isSome = true then _ else _ : Action Unit) >>= _)
  cases hdis : current.disabledFunctions.isSome with
  | true =>
    refine .read fun again => pending_storePolicy plain fun q hq => ?_
    obtain ⟨rfl, rfl, hedits⟩ := hcurrent q fun q' hq' => hq q' (List.mem_cons_of_mem _ hq')
    obtain rfl := hq again (by simp)
    simpa [enableTools, hdis] using hedits
  | false =>
    refine pending_storePolicy plain fun q hq => ?_
    obtain ⟨rfl, rfl, hedits⟩ := hcurrent q hq
    simpa [enableTools, hdis] using hedits

theorem pending_saveCallerTools {available selected : List String} :
    Pending H installation name cid (.saveCallerTools name available selected operator) []
      (program H (.saveCallerTools name available selected operator)) := by
  refine .caller fun row hrow => ?_
  subst hrow
  refine .read fun current => pending_setEnabledTools rfl fun q hq => ?_
  obtain rfl := hq current (by simp)
  exact .saveCallerTools ..

theorem pending_compareAndSet {c : Nat} {before after : Policy} (hc : c = cid)
    (edits : ∀ q, q.binding = before.binding → Edits H installation cid q j after) :
    Pending H installation name cid j reads ((do
      let saved : Bool ← perform (.compareAndSetPolicy c before after operator)
      if saved then return after else Interleave.Prog.raise changedElsewhere) >>=
        fun _ => .ret .done) := by
  subst hc
  exact .swap edits rfl .raise

theorem pending_applySettings {catalog : Except Exn Catalog} {data : Draft} :
    Pending H installation name cid (.applySettings name catalog data operator) []
      (program H (.applySettings name catalog data operator)) := by
  refine .caller fun row hrow => ?_
  subst hrow
  show Pending H installation name row.id _ _
    (((if row.revokedAt.isSome = true then _ else _ : Action Snapshot) >>= _) >>= _)
  split_ifs
  · exact .raise
  · cases catalog with
    | error e => exact .raise
    | ok catalog =>
      refine .read fun read => .installation ?_
      show Pending H installation name row.id _ _
        ((if submittedRevision data ≠ some (py (String.ofList
          (revisionOf H installation row.id read catalog))) then _ else _ : Action Policy) >>= _)
      split_ifs with hrevision
      · exact .raise
      · cases hedit : edit catalog data read with
        | error e => exact .raise
        | ok after =>
          exact .caller fun row' hrow' => pending_compareAndSet hrow' fun q hq =>
            .applySettings name catalog data operator read after hq (not_not.1 hrevision) hedit

theorem pending_program (hj : j.edits name = true) :
    Pending H installation name cid j [] (program H j) := by
  cases j <;> simp only [Job.edits, Bool.false_eq_true, decide_eq_true_eq] at hj <;> subst hj
  · exact pending_setPolicy
  · exact pending_setEnabledTools rfl fun q _ => .setEnabledTools ..
  · exact pending_applySettings
  · exact pending_saveCallerTools

end Programs

/-! ## One call of a writer -/

/-- The tables no writer of policies touches. -/
structure Standing (name : String) (cid : Nat) (installation : Text) (w : World) : Prop where
  caller : ∃ row, w.db.callerByName name = some row ∧ row.id = cid
  installation : w.db.installationUuid = installation

/-- One call of thread `i`, of the job `j`: its edit still is to come, or this call made it. -/
inductive Acted (H : Hash) (installation : Text) (name : String) (cid : Nat) (i : Nat)
    (j : Job) (w w' : World) (next : Action Reply) : Prop
  | kept (policy : w'.db.policyFor cid = w.db.policyFor cid)
    (commits : commits cid w'.log = commits cid w.log)
    (next : Pending H installation name cid j (policiesRead i cid w'.log) next)
  | committed (commits : commits cid w'.log =
      (i, w'.db.policyFor cid) :: commits cid w.log)
    (edits : Edits H installation cid (w.db.policyFor cid) j
      (w'.db.policyFor cid))
    (next : Saved next)

section Calls
variable {H : Hash} {installation : Text} {name : String} {cid : Nat} {i : Nat} {j : Job}
  {w : World} {ω : Oracle} {c : Nat}

theorem policyFor_writePolicy (now : Time) (c : Nat) (policy : Policy) (db : Db) :
    (db.writePolicy now c policy).policyFor c = policy := by
  have hget : ((Db.putPolicy now c policy db.policies).get? c).map (·.policy) = some policy := by
    unfold Db.putPolicy
    split_ifs with h
    · exact congrArg _ (Table.get?_insert_self _ _ _)
    · rw [Table.get?_update]
      cases hrow : db.policies.get? c with
      | none => exact absurd (Table.get?_eq_none_iff.1 hrow) h
      | some row =>
        have hkey : row.callerId = c := Table.get?_key hrow
        simp [hkey]
  simp only [Db.policyFor, Db.writePolicy, Db.cancelPending, hget, Option.getD_some]

theorem exec_run {o : Op} {answer : o.Ret} {db : Db} (hrun : o.run H ω w = (answer, db)) :
    w.exec H i o ω = (answer, { w with db := db, log := ⟨i, o, answer⟩ :: w.log }) := by
  simp only [World.exec, hrun]

theorem Pending.call {o : Op} {k : o.Ret → Action Reply}
    (h : Pending H installation name cid j (policiesRead i cid w.log) (.call o k))
    (hfresh : ∀ p, o = .setPolicy cid p →
      ∀ q ∈ policiesRead i cid w.log, q = w.db.policyFor cid)
    (hw : Standing name cid installation w) :
    Acted H installation name cid i j w (w.exec H i o ω).2 (k (w.exec H i o ω).1) ∧
      Standing name cid installation (w.exec H i o ω).2 := by
  cases h with
  | caller next =>
    obtain ⟨row, hrow, hid⟩ := hw.caller
    have hanswer : (w.exec H i (.callerByName name) ω).1 = some row := hrow
    exact ⟨.kept rfl rfl (hanswer ▸ next row hid), hw.caller, hw.installation⟩
  | installation next =>
    have hanswer : (w.exec H i .installationId ω).1 = installation := hw.installation
    exact ⟨.kept rfl rfl (hanswer ▸ next), hw.caller, hw.installation⟩
  | read next =>
    have hread : policiesRead i cid (w.exec H i (.policyFor cid) ω).2.log =
        w.db.policyFor cid :: policiesRead i cid w.log :=
      List.filterMap_cons_some (by simp [Call.readPolicy])
    exact ⟨.kept rfl rfl (hread ▸ next _), hw.caller, hw.installation⟩
  | @write _ p _ plain edits saved refused =>
    rcases setPolicy_cases ω.now cid p w.db with hdb | hdb
    · rw [exec_run (o := .setPolicy cid p) hdb]
      have hpolicy := policyFor_writePolicy ω.now cid p w.db
      refine ⟨.committed ?_ ?_ saved, hw.caller, hw.installation⟩
      · exact List.filterMap_cons_some (by simp [Call.committed, hpolicy])
      · rw [hpolicy]
        exact edits _ (hfresh p rfl)
    · rw [exec_run (o := .setPolicy cid p) hdb]
      exact ⟨.kept rfl rfl (refused _), hw.caller, hw.installation⟩
  | @swap _ before after operator k edits saved refused =>
    rcases compareAndSetPolicy_cases ω.now ω.text cid before after operator w.db with
      hdb | ⟨hbinding, row, e, -, -, hdb⟩
    · rw [exec_run (o := .compareAndSetPolicy cid before after operator) hdb]
      exact ⟨.kept rfl rfl refused, hw.caller, hw.installation⟩
    · rw [exec_run (o := .compareAndSetPolicy cid before after operator) hdb]
      have hpolicy : ((w.db.writePolicy ω.now cid after).appendAudit e).policyFor cid =
          after := policyFor_writePolicy ω.now cid after w.db
      have hsaved : Saved (k true) := by
        rw [saved]
        trivial
      refine ⟨.committed ?_ ?_ hsaved, hw.caller, hw.installation⟩
      · exact List.filterMap_cons_some (by simp [Call.committed, hpolicy])
      · rw [hpolicy]
        exact edits _ hbinding

/-- After its edit a writer only records it. -/
theorem Saved.call {o : Op} {k : o.Ret → Action Reply} (h : Saved (.call o k))
    (hw : Standing name cid installation w) :
    (w.exec H i o ω).2.db.policyFor c = w.db.policyFor c ∧
      commits c (w.exec H i o ω).2.log = commits c w.log ∧ Saved (k (w.exec H i o ω).1) ∧
      Standing name cid installation (w.exec H i o ω).2 := by
  obtain ⟨haside, hnext⟩ := h
  cases o with
  | time | token | appendAudit => exact ⟨rfl, rfl, hnext _, hw.caller, hw.installation⟩
  | _ => cases haside

end Calls

/-! ## Runs -/

/-- What every step of an undisturbed run of writers keeps. -/
structure InOrder (H : Hash) (w : World) (name : String) (cid : Nat) (c : Config) : Prop where
  standing : Standing name cid w.db.installationUuid c.world
  once : (writers cid c.world.log).Nodup
  serial : Serial (c.edit H w.db.installationUuid cid) (w.db.policyFor cid)
    (writers cid c.world.log) (c.world.db.policyFor cid)
  threads : ∀ call ∈ c.world.log, call.thread < c.threads.length
  running : ∀ i j p, c.threads[i]? = some ⟨j, some p⟩ →
    i ∉ writers cid c.world.log ∧
        Pending H w.db.installationUuid name cid j (policiesRead i cid c.world.log) p ∨
      i ∈ writers cid c.world.log ∧ Saved p

section Runs
variable {H : Hash} {w : World} {name : String} {cid : Nat} {c c' : Config} {m : Move}

theorem Serial.mono {edit edit' : Nat → Policy → Policy → Prop} {q r : Policy} {order : List Nat}
    (hle : ∀ i q r, edit i q r → edit' i q r) (h : Serial edit q order r) :
    Serial edit' q order r := by
  induction h with
  | nil => exact .nil
  | snoc before last ih => exact ih.snoc (hle _ _ _ last)

theorem writers_cons {i : Nat} {p : Policy} {cid : Nat} {log log' : List Call}
    (h : commits cid log' = (i, p) :: commits cid log) : writers cid log' = writers cid log ++ [i] := by
  simp [writers, h]

theorem committed_thread {i cid : Nat} {p : Policy} {call : Call}
    (h : call.committed cid = some (i, p)) : i = call.thread := by
  unfold Call.committed at h
  split at h
  · split_ifs at h
    exact (Prod.mk.inj (Option.some.inj h)).1.symm
  · split_ifs at h
    exact (Prod.mk.inj (Option.some.inj h)).1.symm
  · cases h

theorem thread_of_writer {i cid : Nat} {log : List Call} (h : i ∈ writers cid log) :
    ∃ call ∈ log, call.thread = i := by
  simp only [writers, commits, List.mem_reverse, List.mem_map, List.mem_filterMap] at h
  obtain ⟨⟨i', p⟩, ⟨call, hcall, hcommitted⟩, rfl⟩ := h
  exact ⟨call, hcall, (committed_thread hcommitted).symm⟩

theorem readPolicy_ne {i cid : Nat} {call : Call} (h : call.thread ≠ i) :
    call.readPolicy i cid = none := by
  unfold Call.readPolicy
  split
  · exact if_neg fun hand => h hand.1
  · rfl

/-- Threads keep their jobs, so what an edit means never changes. -/
theorem Config.edit_mono {installation : Text} {cid : Nat} (hjobs : System.KeepsJobs c c') (i : Nat)
    (q r : Policy) (h : c.edit H installation cid i q r) : c'.edit H installation cid i q r := by
  obtain ⟨t, ht, hedit⟩ := h
  obtain ⟨t', ht', hjob⟩ := hjobs i t ht
  exact ⟨t', ht', hjob ▸ hedit⟩

/-- A step that calls nothing: threads may start with their whole program before them. -/
theorem InOrder.still (h : InOrder H w name cid c) (hdb : c'.world.db = c.world.db)
    (hlog : c'.world.log = c.world.log) (hjobs : System.KeepsJobs c c')
    (hrunning : ∀ i j p, c'.threads[i]? = some ⟨j, some p⟩ → c.threads[i]? = some ⟨j, some p⟩ ∨
      c.threads.length ≤ i ∧ Pending H w.db.installationUuid name cid j [] p) :
    InOrder H w name cid c' := by
  refine ⟨⟨hdb ▸ h.standing.caller, hdb ▸ h.standing.installation⟩, hlog ▸ h.once, ?_, ?_, ?_⟩
  · rw [hdb, hlog]
    exact h.serial.mono (Config.edit_mono hjobs)
  · rw [hlog]
    exact fun call hcall => hjobs.lt (h.threads call hcall)
  · intro i j p ht
    rw [hlog]
    rcases hrunning i j p ht with hold | ⟨hnew, hpending⟩
    · exact h.running i j p hold
    · have hne : ∀ call ∈ c.world.log, call.thread ≠ i := fun call hcall he =>
        Nat.lt_irrefl _ (Nat.lt_of_lt_of_le (he ▸ h.threads call hcall) hnew)
      refine .inl ⟨fun hmem => ?_, ?_⟩
      · obtain ⟨call, hcall, hthread⟩ := thread_of_writer hmem
        exact hne call hcall hthread
      · have hnone : policiesRead i cid c.world.log = [] :=
          List.filterMap_eq_nil_iff.2 fun call hcall => readPolicy_ne (hne call hcall)
        rw [hnone]
        exact hpending

/-- A call of one writer. -/
theorem InOrder.call {i : Nat} {ω : Oracle} (h : InOrder H w name cid c)
    (hs : (broker H).step c (.call i ω) = some c') (hfresh : Undisturbed c i) :
    InOrder H w name cid c' := by
  have hjobs := System.step_keepsJobs hs
  obtain ⟨j, o, k, ht, hworld, hthreads⟩ := System.step_call hs
  have hworld : c'.world = (c.world.exec H i o ω).2 := hworld
  have hlt : i < c.threads.length := (List.getElem?_eq_some_iff.1 ht).1
  have hlog : c'.world.log = ⟨i, o, (c.world.exec H i o ω).1⟩ :: c.world.log := by rw [hworld]; rfl
  have hbound : ∀ call ∈ c'.world.log, call.thread < c'.threads.length := by
    rw [hlog]
    intro call hcall
    rcases List.mem_cons.1 hcall with rfl | hold
    · exact hjobs.lt hlt
    · exact hjobs.lt (h.threads call hold)
  -- The others neither read nor wrote, so what is known of them stays.
  have hrunning : ∀ {new : List Nat}, writers cid c'.world.log =
      writers cid c.world.log ++ new → (∀ i' ∈ new, i' = i) →
      (i ∉ writers cid c'.world.log ∧ Pending H w.db.installationUuid name cid j
          (policiesRead i cid c'.world.log) (k (c.world.exec H i o ω).1) ∨
        i ∈ writers cid c'.world.log ∧ Saved (k (c.world.exec H i o ω).1)) →
      ∀ i' j' p, c'.threads[i']? = some ⟨j', some p⟩ → i' ∉ writers cid c'.world.log ∧
          Pending H w.db.installationUuid name cid j' (policiesRead i' cid c'.world.log) p ∨
        i' ∈ writers cid c'.world.log ∧ Saved p := by
    intro new hwriters hnew hown i' j' p ht'
    rw [hthreads, List.getElem?_set] at ht'
    split_ifs at ht' with heq
    · obtain ⟨rfl, hp⟩ := Interleave.Thread.mk.inj (Option.some.inj ht')
      subst heq
      rw [← Option.some.inj hp]
      exact hown
    · have hnot : i' ∉ new := fun hmem => heq (hnew i' hmem).symm
      have hreads : policiesRead i' cid c'.world.log = policiesRead i' cid c.world.log := by
        rw [hlog]
        exact List.filterMap_cons_none (readPolicy_ne heq)
      rw [hwriters, hreads]
      simp only [List.mem_append, hnot, or_false]
      exact h.running i' j' p ht'
  rcases h.running i j _ ht with ⟨hnot, hpending⟩ | ⟨hmem, hsaved⟩
  · have hread : ∀ p, o = .setPolicy cid p →
        ∀ q ∈ policiesRead i cid c.world.log, q = c.world.db.policyFor cid := by
      rintro p rfl
      exact hfresh j cid p k ht
    obtain ⟨hacted, hstanding⟩ := hpending.call (ω := ω) hread h.standing
    rw [← hworld] at hacted hstanding
    cases hacted with
    | kept policy commits next =>
      have hwriters : writers cid c'.world.log = writers cid c.world.log := by
        simp only [writers, commits]
      refine ⟨hstanding, hwriters ▸ h.once, ?_, hbound, ?_⟩
      · rw [hwriters, policy]
        exact h.serial.mono (Config.edit_mono hjobs)
      · exact hrunning (by rw [hwriters, List.append_nil]) (by simp)
          (.inl ⟨hwriters ▸ hnot, next⟩)
    | committed commits edits next =>
      have hwriters := writers_cons commits
      refine ⟨hstanding, ?_, ?_, hbound, ?_⟩
      · rw [hwriters, List.nodup_append]
        exact ⟨h.once, by simp, fun a ha b hb he => hnot (List.mem_singleton.1 hb ▸ he ▸ ha)⟩
      · rw [hwriters]
        refine (h.serial.mono (Config.edit_mono hjobs)).snoc ?_
        obtain ⟨t', ht', hjob⟩ := hjobs i _ ht
        exact ⟨t', ht', hjob ▸ edits⟩
      · exact hrunning hwriters (by simp) (.inr ⟨by simp [hwriters], next⟩)
  · obtain ⟨hpolicy, hcommits, hnext, hstanding⟩ := hsaved.call (c := cid) (i := i) (ω := ω) h.standing
    rw [← hworld] at hpolicy hcommits hstanding
    have hwriters : writers cid c'.world.log = writers cid c.world.log := by
      simp only [writers, hcommits]
    refine ⟨hstanding, hwriters ▸ h.once, ?_, hbound, ?_⟩
    · rw [hwriters, hpolicy]
      exact h.serial.mono (Config.edit_mono hjobs)
    · exact hrunning (by rw [hwriters, List.append_nil]) (by simp)
        (.inr ⟨hwriters ▸ hmem, hnext⟩)

theorem InOrder.step (h : InOrder H w name cid c) (hok : UndisturbedEditing name c m)
    (hs : (broker H).step c m = some c') : InOrder H w name cid c' := by
  obtain ⟨hediting, hfresh⟩ := hok
  have hjobs := System.step_keepsJobs hs
  cases m with
  | start j =>
    obtain rfl := Option.some.inj hs
    refine h.still rfl rfl hjobs fun i j' p ht => ?_
    rw [List.getElem?_append] at ht
    split_ifs at ht with hlt
    · exact .inl ht
    · rw [List.getElem?_singleton] at ht
      split_ifs at ht
      obtain ⟨rfl, hp⟩ := Interleave.Thread.mk.inj (Option.some.inj ht)
      exact .inr ⟨Nat.not_lt.1 hlt, Option.some.inj hp ▸ pending_program hediting⟩
  | call i ω => exact h.call hs (hfresh i ω rfl)
  | crash i =>
    obtain ⟨j, o, k, -, hworld, hthreads⟩ := System.step_crash hs
    refine h.still (by rw [hworld]) (by rw [hworld]) hjobs fun i' j' p ht => ?_
    rw [hthreads, List.getElem?_set] at ht
    split_ifs at ht
    · cases ht
    · exact .inl ht
  | env e =>
    obtain rfl := Option.some.inj hs
    exact h.still (e.apply_db _) (e.apply_log _) hjobs fun _ _ _ ht => .inl ht
  | offline f => cases hediting

theorem InOrder.initial (hlog : w.log = [])
    (hcaller : ∃ row, w.db.callerByName name = some row ∧ row.id = cid) :
    InOrder H w name cid ⟨w, []⟩ := by
  have hwriters : writers cid w.log = [] := by simp [writers, commits, hlog]
  refine ⟨⟨hcaller, rfl⟩, ?_, ?_, ?_, ?_⟩
  · rw [hwriters]
    exact List.nodup_nil
  · rw [hwriters]
    exact .nil
  · simp [hlog]
  · simp

/-! ## Real time -/

theorem writers_step (hs : (broker H).step c m = some c') (hediting : Editing name c m) (cid : Nat) :
    writers cid c'.world.log = writers cid c.world.log ∨
      ∃ i ω, m = .call i ω ∧ writers cid c'.world.log = writers cid c.world.log ++ [i] := by
  cases m with
  | start j =>
    obtain rfl := Option.some.inj hs
    exact .inl rfl
  | call i ω =>
    obtain ⟨j, o, k, -, hworld, -⟩ := System.step_call hs
    have hlog : c'.world.log = ⟨i, o, (c.world.exec H i o ω).1⟩ :: c.world.log := by rw [hworld]; rfl
    rw [hlog]
    cases hcall : Call.committed cid ⟨i, o, (c.world.exec H i o ω).1⟩ with
    | none =>
      have hcommits := List.filterMap_cons_none (l := c.world.log) hcall
      exact .inl (by simp only [writers, commits, hcommits])
    | some ip =>
      obtain rfl : ip.1 = i := committed_thread hcall
      exact .inr ⟨_, ω, rfl, writers_cons (List.filterMap_cons_some hcall)⟩
  | crash i =>
    obtain ⟨-, -, -, -, hworld, -⟩ := System.step_crash hs
    exact .inl (by rw [hworld])
  | env e =>
    obtain rfl := Option.some.inj hs
    exact .inl (by rw [show (broker H).env e c.world = e.apply c.world from rfl, e.apply_log])
  | offline f => cases hediting

theorem realTime_writers {c₁ : Config} {ok : Config → Move → Prop}
    (hok : ∀ c m, ok c m → Editing name c m) (hrun : (broker H).Steps ok c₁ c) {cid : Nat}
    (hthreads : ∀ i ∈ writers cid c₁.world.log, i < c₁.threads.length) :
    RealTime c₁ (writers cid c.world.log) := by
  suffices h : ∃ rest, writers cid c.world.log = writers cid c₁.world.log ++ rest ∧
      ∀ i ∈ rest, ∀ t, c₁.threads[i]? = some t → t.stopped = false by
    obtain ⟨rest, hrest, hrunning⟩ := h
    exact ⟨_, rest, hrest, hthreads, hrunning⟩
  refine hrun.invariant (P := fun c => ∃ rest, writers cid c.world.log =
    writers cid c₁.world.log ++ rest ∧ ∀ i ∈ rest, ∀ (t : Interleave.Thread Op Op.Ret Exn Reply Job),
      c₁.threads[i]? = some t → t.stopped = false) ⟨[], by simp, by simp⟩ ?_
  rintro c₂ m c₃ hrun₂ hm hs ⟨rest, hrest, hrunning⟩
  rcases writers_step hs (hok c₂ m hm) cid with hsame | ⟨i, ω, rfl, hnew⟩
  · exact ⟨rest, hsame.trans hrest, hrunning⟩
  · refine ⟨rest ++ [i], by rw [hnew, hrest, List.append_assoc], ?_⟩
    intro i' hmem t ht
    rcases List.mem_append.1 hmem with hold | hself
    · exact hrunning i' hold t ht
    · obtain rfl := List.mem_singleton.1 hself
      obtain ⟨j, o, k, ht', -, -⟩ := System.step_call hs
      cases hstop : t.stopped with
      | false => rfl
      | true =>
        -- A thread that had stopped would not have called.
        have hgone := Interleave.Discipline.stopped_of_steps hrun₂ ht hstop
        obtain rfl := Option.some.inj (ht'.symm.trans hgone)
        cases hstop

/-- As long as every plain write finds the policy its writer read, the edits of one caller's policy
by any number of operators are a serial run of those that took effect, in an order that agrees with
real time. -/
theorem policy_edits_serialised {caller : CallerRow} (hlog : w.log = [])
    (hcaller : w.db.callerByName name = some caller)
    (hrun : (broker H).Steps (UndisturbedEditing name) ⟨w, []⟩ c) :
    ∃ order, Serialised H w caller.id c order ∧
      ∀ c₁, (broker H).Steps (UndisturbedEditing name) ⟨w, []⟩ c₁ →
        (broker H).Steps (UndisturbedEditing name) c₁ c → RealTime c₁ order := by
  have hinv : ∀ {c}, (broker H).Steps (UndisturbedEditing name) ⟨w, []⟩ c →
      InOrder H w name caller.id c := fun hrun =>
    hrun.invariant (.initial hlog ⟨caller, hcaller, rfl⟩) fun _ _ _ _ hok hs h => h.step hok hs
  have h := hinv hrun
  refine ⟨writers caller.id c.world.log, ⟨h.once, fun _ => Iff.rfl, fun i j a ht => ?_,
    fun i j e ht => ?_, h.serial⟩, fun c₁ hbefore hafter => ?_⟩
  · rcases h.running i j _ ht with ⟨-, hpending⟩ | ⟨hmem, -⟩
    · cases hpending
    · exact hmem
  · rcases h.running i j _ ht with ⟨hnot, -⟩ | ⟨-, hsaved⟩
    · exact hnot
    · cases hsaved
  · refine realTime_writers (fun _ _ hok => hok.1) hafter fun i hmem => ?_
    obtain ⟨call, hcall, rfl⟩ := thread_of_writer hmem
    exact (hinv hbefore).threads call hcall

end Runs

/-! ## What overlapping edits can lose -/

namespace Sample

/-- Caller 1 with two managed tools. -/
def managed : Db :=
  let db : Db := (Db.addCaller 0 "ann" { installationUuid := [] }).2
  (db.setPolicy 0 1
    { tools := some [("echo", [("run", "allow")]), ("mail", [("send", "allow")])],
      enabled := some ["echo", "mail"], disabledFunctions := some [] }).2

def regranting : Job := .setPolicy "ann" ["echo.run", "mail.send"] [] [] "op"

def disabling : Job := .setEnabledTools "ann" ["echo"] "op"

/-- The second operator disables `mail` after the first one has read the policy. -/
def overlapping : List Move :=
  .start regranting :: .start disabling :: calls 0 {} 2 ++ calls 1 {} 7 ++ calls 0 {} 3

end Sample

section Overlap
variable {edit : Nat → Policy → Policy → Prop} {q r : Policy} {order : List Nat} {i j : Nat}

theorem Serial.nil_inv (h : Serial edit q [] r) : r = q := by
  generalize hnil : ([] : List Nat) = order at h
  cases h with
  | nil => rfl
  | snoc => simp at hnil

theorem Serial.snoc_inv (h : Serial edit q (order ++ [i]) r) : ∃ p, Serial edit q order p ∧ edit i p r := by
  generalize hsnoc : order ++ [i] = whole at h
  cases h with
  | nil => simp at hsnoc
  | snoc before last =>
    obtain ⟨rfl, rfl⟩ := List.append_inj' hsnoc rfl |>.imp_right List.singleton_inj.1
    exact ⟨_, before, last⟩

theorem Serial.pair_inv (h : Serial edit q [i, j] r) : ∃ p, edit i q p ∧ edit j p r := by
  have hlast : Serial edit q ([i] ++ [j]) r := h
  obtain ⟨p, hfirst, hsecond⟩ := hlast.snoc_inv
  have hfirst : Serial edit q ([] ++ [i]) p := hfirst
  obtain ⟨p', hnone, hfirst⟩ := hfirst.snoc_inv
  exact ⟨p, hnone.nil_inv ▸ hfirst, hsecond⟩

end Overlap

/-- Both operators are told that their edit was saved, and the tool one of them disabled is
enabled again: no serial run of the two edits ends so. -/
theorem overlapping_edit_lost : ∃ c, (broker Sample.hash).Steps (Editing "ann")
      ⟨{ db := Sample.managed }, []⟩ c ∧ Sample.managed.callerByName "ann" = some ⟨1, "ann", 0, none⟩ ∧
    (c.world.db.policyFor 1).decide "mail" "send" = .allow ∧
    ¬∃ order, Serialised Sample.hash { db := Sample.managed } 1 c order := by
  obtain ⟨c, hrun⟩ : ∃ c, (broker Sample.hash).run ⟨{ db := Sample.managed }, []⟩ Sample.overlapping =
    some c := Option.isSome_iff_exists.1 rfl
  have hsteps : (broker Sample.hash).Steps (Editing "ann") ⟨{ db := Sample.managed }, []⟩ c :=
    System.Steps.of_run_admitted hrun fun m hm _ => by
    simp only [Sample.overlapping, Sample.calls, List.replicate, List.cons_append, List.nil_append,
      List.mem_cons, List.not_mem_nil, or_false] at hm
    rcases hm with rfl | rfl | rfl | rfl | rfl | rfl | rfl | rfl | rfl | rfl | rfl | rfl | rfl | rfl <;>
      trivial
  have hobs : ((broker Sample.hash).run ⟨{ db := Sample.managed }, []⟩ Sample.overlapping).map (fun c =>
      (c.threads.map Interleave.Thread.job, writers 1 c.world.log,
        (c.world.db.policyFor 1).decide "mail" "send")) =
      some ([Sample.regranting, Sample.disabling], [1, 0], .allow) := rfl
  rw [hrun] at hobs
  obtain ⟨hjobs, hwriters, hdecide⟩ : c.threads.map Interleave.Thread.job =
      [Sample.regranting, Sample.disabling] ∧ writers 1 c.world.log = [1, 0] ∧
      (c.world.db.policyFor 1).decide "mail" "send" = .allow := by
    simpa using hobs
  refine ⟨c, hsteps, rfl, hdecide, ?_⟩
  rintro ⟨order, h⟩
  have hjob : ∀ {i j}, [Sample.regranting, Sample.disabling][i]? = some j → ∀ {q r},
      Config.edit Sample.hash [] 1 c i q r → Edits Sample.hash [] 1 q j r := by
    rintro i j hj q r ⟨t, ht, hedit⟩
    rw [← hjobs, List.getElem?_map, ht] at hj
    exact Option.some.inj hj ▸ hedit
  have hregrant : ∀ {q r}, Config.edit Sample.hash [] 1 c 0 q r →
      r = regrant ["echo.run", "mail.send"] [] [] q := fun hedit => by
    cases hjob (j := Sample.regranting) rfl hedit
    rfl
  have hdisable : ∀ {q r}, Config.edit Sample.hash [] 1 c 1 q r → r = enableTools ["echo"] q := fun hedit => by
    cases hjob (j := Sample.disabling) rfl hedit
    rfl
  have hperm : order.Perm [1, 0] := (List.perm_ext_iff_of_nodup h.once (by decide)).2 fun i => by
    rw [h.effective, hwriters]
  rcases List.perm_pair.1 hperm with rfl | rfl
  · obtain ⟨p, hfirst, hsecond⟩ := h.serial.pair_inv
    rw [hregrant hsecond, hdisable hfirst] at hdecide
    cases hdecide
  · obtain ⟨p, hfirst, hsecond⟩ := h.serial.pair_inv
    rw [hdisable hsecond, hregrant hfirst] at hdecide
    cases hdecide

/-- One operator alone is undisturbed. -/
theorem policy_edits_serialised_alone : ∃ c, (broker Sample.hash).Steps (UndisturbedEditing "ann")
      ⟨{ db := Sample.managed }, []⟩ c ∧
    (c.threads[0]?.map fun t => t.prog.any fun p => p matches .ret .done) = some true ∧
    ∃ order, Serialised Sample.hash { db := Sample.managed } 1 c order ∧
      ∀ c₁, (broker Sample.hash).Steps (UndisturbedEditing "ann") ⟨{ db := Sample.managed }, []⟩ c₁ →
        (broker Sample.hash).Steps (UndisturbedEditing "ann") c₁ c → RealTime c₁ order := by
  have h₀ : (broker Sample.hash).Steps (UndisturbedEditing "ann") ⟨{ db := Sample.managed }, []⟩ _ :=
    .tail .refl (m := .start Sample.regranting) ⟨rfl, fun _ _ h => by cases h⟩ rfl
  have h₁ := h₀.tail (m := .call 0 {}) ⟨trivial, by rintro _ _ ⟨⟩ j c p k ⟨⟩⟩ rfl
  have h₂ := h₁.tail (m := .call 0 {}) ⟨trivial, by rintro _ _ ⟨⟩ j c p k ⟨⟩⟩ rfl
  have h₃ := h₂.tail (m := .call 0 {}) ⟨trivial, by
    rintro _ _ ⟨⟩ j c p k ⟨⟩ q hq
    cases hq with
    | head => rfl
    | tail _ hq => cases hq⟩ rfl
  have h₄ := h₃.tail (m := .call 0 {}) ⟨trivial, by rintro _ _ ⟨⟩ j c p k ⟨⟩⟩ rfl
  have h₅ := h₄.tail (m := .call 0 {}) ⟨trivial, by rintro _ _ ⟨⟩ j c p k ⟨⟩⟩ rfl
  exact ⟨_, h₅, rfl, policy_edits_serialised rfl rfl h₅⟩

end Toolstack.Broker
