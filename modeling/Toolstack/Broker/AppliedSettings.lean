import Toolstack.Broker.PolicyEdits

/-! Saving a caller's settings, in any run of the broker and beside any other operator: the save
that is accepted edits the very policy its revision was taken of, and every other leaves the
database as it was. -/

namespace Toolstack.Broker

open CallerSettings
open Interleave (System)

section Standing
variable {H : Hash} {name : String} {cid i : Nat} {w : World} {o : Op} {ω : Oracle} {row : CallerRow}

theorem callerByName_addCaller {now : Time} {n : String} {db : Db} (h : db.callerByName name = some row) :
    (db.addCaller now n).2.callerByName name = some row := by
  unfold Db.addCaller
  split_ifs
  · exact h
  · simp only [Db.callerByName, Table.append, Table.insert] at h ⊢
    rw [List.find?_append, h]
    rfl

theorem callerByName_revokeCaller {now : Time} {n : String} {db : Db}
    (h : db.callerByName name = some row) :
    ∃ row', (db.revokeCaller now n).callerByName name = some row' ∧ row'.id = row.id := by
  have hfind : (db.revokeCaller now n).callerByName name = _ :=
    Table.find?_update db.callers (fun c => c.name = n && c.revokedAt.isNone)
      (fun c => c.name = name) (fun c => { c with revokedAt := some now }) (fun _ => rfl) fun _ => rfl
  rw [hfind, show db.callers.rows.find? (fun c => c.name = name) = some row from h]
  exact ⟨_, rfl, by simp only [apply_ite CallerRow.id, ite_self]⟩

/-- No call changes the caller of a name or the installation. -/
theorem Standing.exec {installation : Text} (hw : Standing name cid installation w) :
    Standing name cid installation (w.exec H i o ω).2 := by
  obtain ⟨row, hrow, rfl⟩ := hw.caller
  cases ho : o.identifies with
  | false =>
    have hsame := Op.identity_run (H := H) (w := w) (ω := ω) ho
    refine ⟨⟨row, ?_, rfl⟩, hsame.installation.trans hw.installation⟩
    simp only [exec_snd, Db.callerByName, hsame.callers]
    exact hrow
  | true =>
    cases o with
    | addCaller n =>
      refine ⟨⟨row, callerByName_addCaller hrow, rfl⟩, Eq.trans ?_ hw.installation⟩
      simp only [exec_snd, Op.run, Db.addCaller]
      split_ifs <;> rfl
    | revokeCaller n => exact ⟨callerByName_revokeCaller hrow, hw.installation⟩
    | addToken c h =>
      have hsame : (w.exec H i (.addToken c h) ω).2.db.callers = w.db.callers ∧
          (w.exec H i (.addToken c h) ω).2.db.installationUuid = w.db.installationUuid := by
        simp only [exec_snd, Op.run, Db.addToken]
        split_ifs <;> exact ⟨rfl, rfl⟩
      exact ⟨⟨row, by simp only [Db.callerByName, hsame.1]; exact hrow, rfl⟩,
        hsame.2.trans hw.installation⟩
    | revokeTokenByPrefix pre =>
      have hsame : (w.exec H i (.revokeTokenByPrefix pre) ω).2.db.callers = w.db.callers ∧
          (w.exec H i (.revokeTokenByPrefix pre) ω).2.db.installationUuid = w.db.installationUuid := by
        simp only [exec_snd, Op.run, Db.revokeTokenByPrefix]
        split_ifs <;> exact ⟨rfl, rfl⟩
      exact ⟨⟨row, by simp only [Db.callerByName, hsame.1]; exact hrow, rfl⟩,
        hsame.2.trans hw.installation⟩
    | revokeTokensForCaller => exact ⟨⟨row, hrow, rfl⟩, hw.installation⟩
    | _ => cases ho

end Standing

/-! ## One call of a writer that compares -/

/-- The edit that the call of a comparing writer has made. -/
structure Swapped (H : Hash) (installation : Text) (cid : Nat) (j : Job) (w w' : World)
    (after : Policy) : Prop where
  live : ∃ row, w.db.callers.get? cid = some row ∧ row.revokedAt = none
  edits : Edits H installation cid (w.db.policyFor cid) j after
  saved : ∃ now e, w'.db = (w.db.writePolicy now cid after).appendAudit e

/-- It has changed nothing and the edit still is to come, or it has made the edit and ends. -/
inductive Compared (H : Hash) (installation : Text) (name : String) (cid : Nat) (j : Job)
    (w w' : World) (next : Action Reply) : Prop
  | kept (db : w'.db = w.db) (next : ∃ reads, Pending H installation name cid j reads next)
  | swapped (after : Policy) (swapped : Swapped H installation cid j w w' after)
    (next : next = .ret .done)

section Calls
variable {H : Hash} {installation : Text} {name : String} {cid i : Nat} {j : Job} {w : World} {ω : Oracle}

theorem Pending.compared {reads : List Policy} {o : Op} {k : o.Ret → Action Reply}
    (h : Pending H installation name cid j reads (.call o k)) (hj : j.plain = false)
    (hw : Standing name cid installation w) :
    Compared H installation name cid j w (w.exec H i o ω).2 (k (w.exec H i o ω).1) := by
  cases h with
  | caller next =>
    obtain ⟨row, hrow, hid⟩ := hw.caller
    have hanswer : (w.exec H i (.callerByName name) ω).1 = some row := hrow
    exact .kept rfl ⟨reads, hanswer ▸ next row hid⟩
  | installation next =>
    have hanswer : (w.exec H i .installationId ω).1 = installation := hw.installation
    exact .kept rfl ⟨reads, hanswer ▸ next⟩
  | read next => exact .kept rfl ⟨_, next _⟩
  | write plain => simp [hj] at plain
  | @swap _ before after operator k edits saved refused =>
    rcases compareAndSetPolicy_cases ω.now ω.text cid before after operator w.db with
      hdb | ⟨hbinding, row, e, hrow, hlive, hdb⟩
    · rw [exec_run (o := .compareAndSetPolicy cid before after operator) hdb]
      exact .kept rfl ⟨reads, refused⟩
    · rw [exec_run (o := .compareAndSetPolicy cid before after operator) hdb]
      exact .swapped after ⟨⟨row, hrow, hlive⟩, edits _ hbinding, ω.now, e, rfl⟩ saved

end Calls

/-! ## Runs -/

/-- What is left of every running thread that compares before it writes. -/
def Comparing (H : Hash) (c : Config) : Prop :=
  ∀ (i : Nat) (name : String) (j : Job) (o : Op) (k : o.Ret → Action Reply),
    c.threads[i]? = some ⟨j, some (.call o k)⟩ → j.edits name = true → j.plain = false →
    .call o k = program H j ∨ ∃ cid reads, Standing name cid c.world.db.installationUuid c.world ∧
      Pending H c.world.db.installationUuid name cid j reads (.call o k)

section Runs
variable {H : Hash} {c c' : Config} {m : Move} {i : Nat} {name : String} {j : Job}

/-- A comparing writer first asks for the caller, and gives up without one. -/
theorem program_comparing (hj : j.edits name = true) (hplain : j.plain = false) :
    ∃ k e, program H j = .call (.callerByName name) k ∧ k none = .raise e := by
  cases j with
  | applySettings n catalog data operator =>
    obtain rfl : n = name := of_decide_eq_true hj
    exact ⟨_, _, rfl, rfl⟩
  | setPolicy | setEnabledTools | saveCallerTools => cases hplain
  | _ => cases hj

theorem Comparing.call {ω : Oracle} (h : Comparing H c) {o : Op} {k : o.Ret → Action Reply}
    (ht : c.threads[i]? = some ⟨j, some (.call o k)⟩) (hj : j.edits name = true)
    (hplain : j.plain = false) :
    (c.world.exec H i o ω).2.db = c.world.db ∧
        ((∃ e, k (c.world.exec H i o ω).1 = .raise e) ∨ ∃ cid reads,
          Standing name cid c.world.db.installationUuid (c.world.exec H i o ω).2 ∧
          Pending H c.world.db.installationUuid name cid j reads (k (c.world.exec H i o ω).1)) ∨
      ∃ cid after, Standing name cid c.world.db.installationUuid c.world ∧
        Swapped H c.world.db.installationUuid cid j c.world (c.world.exec H i o ω).2 after ∧
        k (c.world.exec H i o ω).1 = .ret .done := by
  rcases h i name j o k ht hj hplain with hfirst | ⟨cid, reads, hstanding, hpending⟩
  · obtain ⟨k', e, hprogram, hnone⟩ := program_comparing (H := H) hj hplain
    obtain ⟨rfl, hk⟩ := Interleave.Prog.call.inj (hfirst.trans hprogram)
    obtain rfl := eq_of_heq hk
    refine .inl ⟨rfl, ?_⟩
    cases hrow : c.world.db.callerByName name with
    | none =>
      have hanswer : (c.world.exec H i (.callerByName name) ω).1 = none := hrow
      exact .inl ⟨e, by rw [hanswer, hnone]⟩
    | some row =>
      have hanswer : (c.world.exec H i (.callerByName name) ω).1 = some row := hrow
      have hpending : Pending H c.world.db.installationUuid name row.id j [] (program H j) :=
        pending_program hj
      rw [hprogram] at hpending
      cases hpending with
      | caller next =>
        exact .inr ⟨row.id, [], ⟨⟨row, hrow, rfl⟩, rfl⟩, hanswer ▸ next row rfl⟩
  · cases hpending.compared (ω := ω) (i := i) hplain hstanding with
    | kept db next =>
      obtain ⟨reads', hnext⟩ := next
      exact .inl ⟨db, .inr ⟨cid, reads', hstanding.exec, hnext⟩⟩
    | swapped after swapped next => exact .inr ⟨cid, after, hstanding, swapped, next⟩

theorem Comparing.step (h : Comparing H c) (hs : (broker H).step c m = some c') : Comparing H c' := by
  intro i name j o k ht hj hplain
  -- What is known of a thread that has not moved outlives what the others do to the world.
  have hkeep : ∀ {w : World}, (∀ {cid inst}, Standing name cid inst c.world → Standing name cid inst w) →
      c.threads[i]? = some ⟨j, some (.call o k)⟩ → .call o k = program H j ∨ ∃ cid reads,
        Standing name cid w.db.installationUuid w ∧
          Pending H w.db.installationUuid name cid j reads (.call o k) := by
    intro w hworld hold
    refine (h i name j o k hold hj hplain).imp_right fun ⟨cid, reads, hstanding, hpending⟩ => ?_
    have hnow := hworld hstanding
    exact ⟨cid, reads, hnow.installation ▸ hnow, hnow.installation ▸ hpending⟩
  cases m with
  | start j' =>
    obtain rfl := Option.some.inj hs
    rw [List.getElem?_append] at ht
    split_ifs at ht with hlt
    · exact hkeep id ht
    · rw [List.getElem?_singleton] at ht
      split_ifs at ht
      obtain ⟨rfl, hp⟩ := Interleave.Thread.mk.inj (Option.some.inj ht)
      exact .inl (Option.some.inj hp).symm
  | call i' ω =>
    obtain ⟨j', o', k', ht', hworld, hthreads⟩ := System.step_call hs
    have hworld : c'.world = (c.world.exec H i' o' ω).2 := hworld
    rw [hthreads, List.getElem?_set] at ht
    rw [hworld]
    split_ifs at ht with heq
    · obtain ⟨rfl, hp⟩ := Interleave.Thread.mk.inj (Option.some.inj ht)
      have hp : k' (c.world.exec H i' o' ω).1 = .call o k := Option.some.inj hp
      rcases h.call (ω := ω) ht' hj hplain with
        ⟨-, ⟨e, hraise⟩ | ⟨cid, reads, hstanding, hpending⟩⟩ | ⟨cid, after, -, -, hret⟩
      · cases hraise.symm.trans hp
      · rw [hp] at hpending
        exact .inr ⟨cid, reads, hstanding.installation ▸ hstanding, hstanding.installation ▸ hpending⟩
      · cases hret.symm.trans hp
    · exact hkeep (fun hstanding => hstanding.exec) ht
  | crash i' =>
    obtain ⟨j', o', k', -, hworld, hthreads⟩ := System.step_crash hs
    rw [hthreads, List.getElem?_set] at ht
    rw [hworld]
    split_ifs at ht
    · cases ht
    · exact hkeep id ht
  | env e =>
    obtain rfl := Option.some.inj hs
    refine hkeep (fun hstanding => ?_) ht
    have hdb : ((broker H).env e c.world).db = c.world.db := e.apply_db c.world
    exact ⟨hdb ▸ hstanding.caller, hdb ▸ hstanding.installation⟩
  | offline f =>
    obtain ⟨hstop, -, hthreads⟩ := System.step_offline hs
    exact absurd (hstop _ (List.mem_of_getElem? (hthreads ▸ ht))) (by simp [Interleave.Thread.stopped])

theorem Reachable.comparing (h : Reachable H c) : Comparing H c := by
  obtain ⟨uuid, hrun⟩ := h
  exact hrun.invariant (P := Comparing H) (fun _ _ _ _ _ ht => by simp at ht)
    fun _ _ _ _ _ hs hc => hc.step hs

/-- An accepted save of the settings of `caller`: what it was computed from, and what it stored. -/
structure Applied (H : Hash) (name : String) (catalog : Catalog) (data : Draft) (w w' : World)
    (caller : CallerRow) (before after : Policy) : Prop where
  found : w.db.callerByName name = some caller
  live : caller.revokedAt = none
  revision : submittedRevision data =
    some (py (String.ofList (revisionOf H w.db.installationUuid caller.id before catalog)))
  current : (w.db.policyFor caller.id).binding = before.binding
  edited : CallerSettings.Edited catalog data before after
  stored : w'.db.policyFor caller.id = after
  saved : ∃ now e, w'.db = (w.db.writePolicy now caller.id after).appendAudit e

/-- In every run, beside any other operators, a save of a caller's settings is an exact edit of the
policy its revision was taken of, which still is the stored one; or it changes nothing and does not
report success. -/
theorem settings_applied {catalog : Except Exn Catalog} {data : Draft} {operator : String} {ω : Oracle}
    (h : Reachable H c) {p : Option (Action Reply)}
    (ht : c.threads[i]? = some ⟨.applySettings name catalog data operator, p⟩)
    (hs : (broker H).step c (.call i ω) = some c') :
    c'.world.db = c.world.db ∧
        (∀ a, c'.threads[i]? ≠ some ⟨.applySettings name catalog data operator, some (.ret a)⟩) ∨
      ∃ shown caller before after, catalog = .ok shown ∧
        Applied H name shown data c.world c'.world caller before after ∧
        c'.threads[i]? = some ⟨.applySettings name catalog data operator, some (.ret .done)⟩ := by
  obtain ⟨j, o, k, ht', hworld, hthreads⟩ := System.step_call hs
  have hworld : c'.world = (c.world.exec H i o ω).2 := hworld
  obtain ⟨rfl, rfl⟩ := Interleave.Thread.mk.inj (Option.some.inj (ht.symm.trans ht'))
  have hnext : c'.threads[i]? = some ⟨.applySettings name catalog data operator,
      some (k (c.world.exec H i o ω).1)⟩ := by
    rw [hthreads, List.getElem?_set_self (List.getElem?_eq_some_iff.1 ht').1]
    rfl
  rw [hnext, hworld]
  have hname : (Job.applySettings name catalog data operator).edits name = true := by simp [Job.edits]
  rcases h.comparing.call (ω := ω) ht' hname rfl with ⟨hdb, hrest⟩ | ⟨cid, after, hstanding, hswapped, hret⟩
  · refine .inl ⟨hdb, fun a ha => ?_⟩
    have ha : k (c.world.exec H i o ω).1 = .ret a := by simpa using ha
    rcases hrest with ⟨e, hraise⟩ | ⟨cid, reads, -, hpending⟩
    · cases hraise.symm.trans ha
    · rw [ha] at hpending
      cases hpending
  · obtain ⟨caller, hcaller, rfl⟩ := hstanding.caller
    obtain ⟨row, hrow, hlive⟩ := hswapped.live
    have hsame : row = caller := by
      have hget := Table.get?_of_mem (List.mem_of_find?_eq_some hcaller)
      exact Option.some.inj (hrow.symm.trans hget)
    obtain ⟨now, e, hsaved⟩ := hswapped.saved
    have hedits := hswapped.edits
    cases hedits with
    | applySettings _ shown _ _ before _ same revision edited =>
      refine .inr ⟨shown, caller, before, after, rfl, ⟨hcaller, hsame ▸ hlive, revision, same,
        edit_ok edited, ?_, now, e, hsaved⟩, by rw [hret]⟩
      rw [hsaved]
      exact policyFor_writePolicy now caller.id after c.world.db

end Runs

namespace Sample

def shown : Catalog := ⟨[("echo", [⟨"run", .null, .null⟩])], by decide⟩

/-- Review `echo.run` from now on. -/
def draft : Draft :=
  [(py "revision", .str (py (String.ofList
      (revisionOf hash [] 1 (Operations.buildPolicy ["echo.run"] [] []) shown)))),
    (py "enabled", .arr [strJson "echo"]),
    (py "disabled_functions", .obj [(py "echo", .arr [])]),
    (py "tools", .obj [(py "echo", .obj [(py "run", strJson "review")])])]

def save : Job := .applySettings "ann" (.ok shown) draft "op"

end Sample

theorem settings_applied_saved : ∃ c c', Reachable Sample.hash c ∧
    (broker Sample.hash).step c (.call 1 {}) = some c' ∧
    (c'.world.db.policyFor 1).decide "echo" "run" = .review ∧
    ∃ caller before after, Applied Sample.hash "ann" Sample.shown Sample.draft c.world c'.world
      caller before after ∧ c'.threads[1]? = some ⟨Sample.save, some (.ret .done)⟩ := by
  obtain ⟨c₀, hc₀⟩ : ∃ c₀, after Sample.hash (Sample.setup ["echo.run"] []) = some c₀ :=
    Option.isSome_iff_exists.1 (by decide +kernel)
  have hobs : (after Sample.hash (Sample.setup ["echo.run"] [])).bind (fun c₀ =>
      ((broker Sample.hash).run c₀ (.start Sample.save :: Sample.calls 1 {} 4)).bind fun c =>
        ((broker Sample.hash).step c (.call 1 {})).map fun c' => (c₀.threads.length,
          (c.world.db.policyFor 1).decide "echo" "run", (c'.world.db.policyFor 1).decide "echo" "run")) =
      some (1, .allow, .review) := by decide +kernel
  rw [hc₀] at hobs
  simp only [Option.bind_some, Option.bind_eq_some_iff, Option.map_eq_some_iff, Prod.mk.injEq] at hobs
  obtain ⟨c, hc, c', hs, hlen, hbefore, hafter⟩ := hobs
  have hrun := System.Steps.of_run hc
  have hreach : Reachable Sample.hash c := (Reachable.after hc₀).steps hrun
  obtain ⟨p, ht⟩ : ∃ p, c.threads[1]? = some ⟨Sample.save, p⟩ := by
    have hrest : (broker Sample.hash).run { c₀ with threads := c₀.threads ++
        [⟨Sample.save, some (program Sample.hash Sample.save)⟩] } (Sample.calls 1 {} 4) = some c := hc
    obtain ⟨t, ht, hjob⟩ := (System.Steps.of_run hrest).keepsJobs 1 ⟨Sample.save, _⟩
      (by rw [← hlen]; exact List.getElem?_concat_length)
    have hjob : t.job = Sample.save := hjob
    exact ⟨t.prog, by rw [ht, ← hjob]⟩
  refine ⟨c, c', hreach, hs, hafter, ?_⟩
  rcases settings_applied hreach ht hs with ⟨hdb, -⟩ | ⟨shown, caller, before, after, hshown, happlied, hret⟩
  · rw [hdb, hbefore] at hafter
    cases hafter
  · obtain rfl := Except.ok.inj hshown
    exact ⟨caller, before, after, happlied, hret⟩

end Toolstack.Broker
