import Toolstack.Broker.KeyAnswer

/-! The key ledger: under each idempotency key a caller has one request, whatever happens to it later, and no
submit but the one that reserved it does anything under that key. -/

namespace Toolstack.Broker

open Interleave (Discipline Prog System)
open Interleave.Discipline (Triple)
open Json (canonical)

variable {H : Hash} {i r : Nat} {w w' : World} {c c' c₁ : Config} {m : Move}

/-! ## Every run -/

/-- What a submit has come to when it returns. -/
def Settles (H : Hash) (i : Nat) : Job → Reply → World → Prop
  | .submit _ caller tool op arguments _ reason key, a, w =>
    ∃ out, a = .outcome out ∧ Lifecycle.Concludes H i caller tool op arguments reason key out w
  | _, _, _ => True

def Fails (i : Nat) : Job → World → Prop
  | .submit _ caller _ _ _ _ _ key, w => Opened i caller key w
  | _, _ => True

theorem settles_program (H : Hash) (i : Nat) (j : Job) :
    (discipline H).Triple i ((discipline H).fresh i) (program H j) (Settles H i j) (fun _ => Fails i j) := by
  have hany := disciplined H i j
  cases j with
  | submit ctx caller tool op arguments corr reason key =>
    exact .bind (Lifecycle.submit_concludes.conseq (fun _ _ h => Fresh.idle h) (fun _ _ _ h => h)
      fun _ _ _ h => h) fun out => .ret fun _ _ h => ⟨out, rfl, h⟩
  | _ => exact hany

theorem Reachable.fresh_of_started {t : Interleave.Thread Op Op.Ret Exn Reply Job} (h : Reachable H c)
    (hs : (broker H).step c m = some c') (hbefore : c.threads[i]? = none) (ht : c'.threads[i]? = some t) :
    Fresh i c'.world := by
  have hfresh : Fresh i c.world := h.covered.fresh i (List.getElem?_eq_none_iff.1 hbefore)
  have hothers : Others H i c.world c'.world := by
    refine h.covered.step_rely hs (fun f hm => ?_) fun ω hm => ?_
    · subst hm
      rw [(System.step_offline hs).2.2, hbefore] at ht
      cases ht
    · subst hm
      obtain ⟨j, o, k, hthread, -, -⟩ := System.step_call hs
      cases hbefore.symm.trans hthread
  exact hfresh.others hothers

section Submit
variable {ctx : Context} {caller : Caller} {tool op : String} {arguments : Json} {corr : Text} {reason key : Json}

/-- Whatever is left of a submit, what it has done so far is in order. -/
theorem ordered_of_wp {p : Action Reply} (hs : w.Sound H) (h : (discipline H).wp i p
      (Settles H i (.submit ctx caller tool op arguments corr reason key))
      (fun _ => Fails i (.submit ctx caller tool op arguments corr reason key)) w) :
    Ordered i caller key w.log := by
  have honce : Nonempty Oracle := ⟨{}⟩
  obtain ⟨w', hsuffix, hend⟩ := Discipline.wp_alone (P := fun w' => w.log <:+ w'.log) h hs (List.suffix_refl _)
    fun hlog => hlog.trans (List.suffix_cons _ _)
  refine Ordered.of_suffix ?_ hsuffix
  rcases hend with ⟨a, out, -, hopened | ⟨hidle, -⟩⟩ | ⟨e, hopened⟩
  · exact hopened.ordered
  · exact hidle.ordered
  · exact hopened.ordered

/-- The log, and every snapshot of it. -/
def OrderedIn (i : Nat) (caller : Caller) (key : Json) (w : World) : Prop :=
  Ordered i caller key w.log ∧ ∀ b ∈ w.backups, Ordered i caller key b.2

theorem Fresh.ordered (h : Fresh i w) : OrderedIn i caller key w := by
  have hnone : ∀ {log : List Call}, (∀ c ∈ log, c.thread ≠ i) → Ordered i caller key log := by
    intro log hlog new call old heq hcall
    exact absurd hcall (hlog call (heq ▸ List.mem_append_right _ List.mem_cons_self))
  exact ⟨hnone h.log, fun b hb => hnone (h.backups b hb)⟩

theorem Reachable.ordered {prog : Option (Action Reply)} (h : Reachable H c)
    (ht : c.threads[i]? = some ⟨.submit ctx caller tool op arguments corr reason key, prog⟩) :
    OrderedIn i caller key c.world := by
  obtain ⟨uuid, hrun⟩ := h
  have hinitial : (discipline H).Covered (⟨World.initial uuid, []⟩ : Config) :=
    .initial (World.Sound.initial uuid) fun _ => .initial uuid
  induction hrun generalizing prog with
  | refl => simp at ht
  | @tail c₁ c₂ m hrun hok hs ih =>
    have hcovered := hinitial.steps (disciplined H) hrun
    cases hbefore : c₁.threads[i]? with
    | none =>
      have hreach : Reachable H c₁ := ⟨uuid, hrun⟩
      exact (hreach.fresh_of_started hs hbefore ht).ordered
    | some t =>
      obtain ⟨t', ht', hjob⟩ := System.step_keepsJobs hs i t hbefore
      obtain rfl := Option.some.inj (ht.symm.trans ht')
      obtain ⟨job, left⟩ := t
      obtain rfl : Job.submit ctx caller tool op arguments corr reason key = job := hjob
      have hold : OrderedIn i caller key c₁.world := ih hbefore
      cases m with
      | start j =>
        obtain rfl := Option.some.inj hs
        exact hold
      | call i' ω =>
        obtain ⟨j, o, k, hthread, hworld, hthreads⟩ := System.step_call hs
        have hbackups : ∀ b ∈ c₂.world.backups, Ordered i caller key b.2 := by
          rw [hworld]
          exact hold.2
        refine ⟨?_, hbackups⟩
        by_cases hi : i' = i
        · subst hi
          obtain ⟨rfl, -⟩ := Interleave.Thread.mk.inj (Option.some.inj (hbefore.symm.trans hthread))
          have hlt := (List.getElem?_eq_some_iff.1 hthread).1
          rw [hthreads, List.getElem?_set_self hlt] at ht
          have hwp := hinitial.wp_of_step (disciplined H) (settles_program H) hrun (Nat.zero_le i') hs
            (fun t ht => by rw [Option.some.inj (ht.symm.trans hthread)]; rfl)
            (by rw [hthreads, List.getElem?_set_self hlt])
          exact ordered_of_wp (hcovered.step (disciplined H) hs).inv hwp
        · rw [hworld]
          exact hold.1.cons hi
      | crash i' =>
        obtain ⟨-, -, -, -, hworld, -⟩ := System.step_crash hs
        rwa [hworld]
      | env e =>
        obtain rfl := Option.some.inj hs
        cases e with
        | reload | edit => exact hold
        | backup =>
          refine ⟨hold.1, fun b hb => ?_⟩
          rcases List.mem_append.1 hb with hmem | hmem
          · exact hold.2 b hmem
          · obtain rfl := List.mem_singleton.1 hmem
            exact hold.1
      | offline f =>
        have hworld := (System.step_offline hs).2.1
        cases f with
        | reconcile now =>
          rw [← Option.some.inj hworld]
          exact hold
        | restore n now uuid =>
          obtain ⟨b, hb, hrestored⟩ := Option.map_eq_some_iff.1 hworld
          rw [← hrestored]
          exact ⟨hold.2 b (List.mem_of_getElem? hb), hold.2⟩

end Submit

/-! ## The moment of a call -/

/-- The call was made in the step from `c₀` to `c₁`. -/
structure MadeAt (H : Hash) (call : Call) (c₀ c₁ : Config) : Prop where
  reachable : Reachable H c₀
  thread : ∃ j k, c₀.threads[call.thread]? = some ⟨j, some (.call call.op k)⟩
  step : ∃ ω, (broker H).step c₀ (.call call.thread ω) = some c₁ ∧ (call.op.run H ω c₀.world).1 = call.answer

/-- Every call in the log, or in a snapshot of it, was made in the run. -/
theorem Reachable.made (h : Reachable H c) :
    (∀ call ∈ c.world.log, ∃ c₀ c₁, MadeAt H call c₀ c₁ ∧ (broker H).Steps (fun _ _ => True) c₁ c) ∧
      ∀ b ∈ c.world.backups, ∀ call ∈ b.2, ∃ c₀ c₁, MadeAt H call c₀ c₁ ∧
        (broker H).Steps (fun _ _ => True) c₁ c := by
  obtain ⟨uuid, hrun⟩ := h
  induction hrun with
  | refl =>
    refine ⟨fun call hc => ?_, fun b hb => ?_⟩
    · cases hc
    · cases hb
  | @tail c₁ c₂ m hrun hok hs ih =>
    have hreach : Reachable H c₁ := ⟨uuid, hrun⟩
    have hlater : ∀ {call : Call}, (∃ a b, MadeAt H call a b ∧ (broker H).Steps (fun _ _ => True) b c₁) →
        ∃ a b, MadeAt H call a b ∧ (broker H).Steps (fun _ _ => True) b c₂ := by
      rintro call ⟨a, b, hmade, hsteps⟩
      exact ⟨a, b, hmade, hsteps.tail trivial hs⟩
    have hlog : ∀ call ∈ c₁.world.log, ∃ a b, MadeAt H call a b ∧ (broker H).Steps (fun _ _ => True) b c₂ :=
      fun call hc => hlater (ih.1 call hc)
    have hbackups : ∀ b ∈ c₁.world.backups, ∀ call ∈ b.2, ∃ a b, MadeAt H call a b ∧
        (broker H).Steps (fun _ _ => True) b c₂ := fun b hb call hc => hlater (ih.2 b hb call hc)
    have hs' := hs
    cases m with
    | start j =>
      obtain rfl := Option.some.inj hs
      exact ⟨hlog, hbackups⟩
    | call i ω =>
      obtain ⟨j, o, k, hthread, hworld, -⟩ := System.step_call hs
      rw [hworld]
      refine ⟨fun call hc => ?_, hbackups⟩
      rcases List.mem_cons.1 hc with rfl | hmem
      · exact ⟨c₁, c₂, ⟨hreach, ⟨j, k, hthread⟩, ω, hs', rfl⟩, .refl⟩
      · exact hlog call hmem
    | crash i =>
      obtain ⟨-, -, -, -, hworld, -⟩ := System.step_crash hs
      rw [hworld]
      exact ⟨hlog, hbackups⟩
    | env e =>
      obtain rfl := Option.some.inj hs
      cases e with
      | reload | edit => exact ⟨hlog, hbackups⟩
      | backup =>
        refine ⟨hlog, fun b hb => ?_⟩
        rcases List.mem_append.1 hb with hmem | hmem
        · exact hbackups b hmem
        · obtain rfl := List.mem_singleton.1 hmem
          exact hlog
    | offline f =>
      have hworld := (System.step_offline hs).2.1
      cases f with
      | reconcile now =>
        rw [← Option.some.inj hworld]
        exact ⟨hlog, hbackups⟩
      | restore n now uuid =>
        obtain ⟨b, hb, hrestored⟩ := Option.map_eq_some_iff.1 hworld
        rw [← hrestored]
        exact ⟨hbackups b (List.mem_of_getElem? hb), hbackups⟩

/-- While a thread is running nobody replaces the database. -/
theorem sameDatabase_of_running {ok : Config → Move → Prop} (hrun : (broker H).Steps ok c₁ c)
    (hi : i < c₁.threads.length) (hrunning : ∀ t, c.threads[i]? = some t → t.stopped = false) : (broker H).Steps SameDatabase c₁ c := by
  induction hrun with
  | refl => exact .refl
  | @tail c₂ c₃ m hrun _ hs ih =>
    obtain ⟨t₁, ht₁⟩ : ∃ t, c₁.threads[i]? = some t := ⟨_, List.getElem?_eq_getElem hi⟩
    obtain ⟨t₂, ht₂, -⟩ := hrun.keepsJobs i t₁ ht₁
    have hbefore : t₂.stopped = false := by
      cases hstop : t₂.stopped with
      | false => rfl
      | true =>
        have hstill := hrunning t₂ (Discipline.stopped_of_step hs ht₂ hstop)
        rw [hstop] at hstill
        cases hstill
    refine (ih fun t ht => Option.some.inj (ht₂.symm.trans ht) ▸ hbefore).tail ?_ hs
    rintro n now uuid rfl
    have hall := (System.step_offline hs).1 t₂ (List.mem_of_getElem? ht₂)
    rw [hbefore] at hall
    cases hall

/-- In the life of this database thread `i` asked for a reservation, and `P` held then. -/
def AskedWhile (H : Hash) (i : Nat) (P : Db → Prop) (c : Config) : Prop :=
  ∃ c₀ j o k, Reachable H c₀ ∧ c₀.threads[i]? = some ⟨j, some (.call o k)⟩ ∧ o.reserves = true ∧
    (broker H).Steps SameDatabase c₀ c ∧ P c₀.world.db

theorem Refused.askedWhile {caller : Caller} {k : PyStr} {t : Interleave.Thread Op Op.Ret Exn Reply Job}
    (h : Reachable H c) (hs : (broker H).step c m = some c') (hthread : c'.threads[i]? = some t)
    (hrunning : ∀ t, c.threads[i]? = some t → t.stopped = false) (hrefused : Refused i caller (.str k) c'.world) :
    AskedWhile H i (Refuses caller (some k)) c' := by
  obtain ⟨corr, tool, op, arguments, reason, generation, hmem⟩ := hrefused
  have hrefuses : ∀ {c₀ : Config} {ω : Oracle}, ((Op.reserveAction caller corr tool op arguments reason generation
      (.str k)).run H ω c₀.world).1 = .error .permissionError → Refuses caller (some k) c₀.world.db := by
    intro c₀ ω hanswer
    have hrun : c₀.world.db.reserveAction H ω.now ω.hex caller corr tool op arguments reason generation (.str k) =
        (.error .permissionError, _) := Prod.ext hanswer rfl
    rcases reserveAction_error hrun with ⟨-, k', hk', hrefuses⟩ | ⟨hne, -⟩
    · simp only [Db.validateIdempotencyKey] at hk'
      split_ifs at hk'
      exact Except.ok.inj hk' ▸ hrefuses
    · cases hne
  cases hbefore : c.threads[i]? with
  | none => exact absurd rfl ((h.fresh_of_started hs hbefore hthread).log _ hmem)
  | some t₀ =>
    have hsame : SameDatabase c m := by
      rintro n now uuid rfl
      have hall := (System.step_offline hs).1 t₀ (List.mem_of_getElem? hbefore)
      rw [hrunning t₀ hbefore] at hall
      cases hall
    have hold : (⟨i, .reserveAction caller corr tool op arguments reason generation (.str k),
        .error .permissionError⟩ : Call) ∈ c.world.log → AskedWhile H i (Refuses caller (some k)) c' := by
      intro hc
      obtain ⟨c₀, c₁, ⟨hreach, ⟨j, rest, hat⟩, ω, hstep, hanswer⟩, hsteps⟩ := h.made.1 _ hc
      obtain ⟨t₁, ht₁, -⟩ := System.step_keepsJobs hstep i _ hat
      have hlater := (sameDatabase_of_running hsteps (List.getElem?_eq_some_iff.1 ht₁).1 hrunning).tail hsame hs
      have hfirst : (broker H).Steps SameDatabase c₀ c₁ := .tail .refl (fun _ _ _ heq => by cases heq) hstep
      exact ⟨c₀, j, _, rest, hreach, hat, rfl, hfirst.trans hlater, hrefuses hanswer⟩
    cases h.moved hs with
    | call i' o ω move thread requires world =>
      rw [world] at hmem
      rcases List.mem_cons.1 hmem with heq | hc
      · obtain ⟨rfl, rfl, hanswer⟩ := Call.mk.inj heq
        obtain ⟨j, rest, hat⟩ := thread
        exact ⟨c, j, _, rest, h, hat, rfl, .tail .refl hsame hs, hrefuses (eq_of_heq hanswer).symm⟩
      · exact hold hc
    | still db log => exact hold (log ▸ hmem)
    | offline f move world =>
      subst move
      have hall := (System.step_offline hs).1 t₀ (List.mem_of_getElem? hbefore)
      rw [hrunning t₀ hbefore] at hall
      cases hall

/-! ## The ledger -/

/-- The request of the caller under the key. -/
structure Keeps (callerId : Nat) (k : PyStr) (r : Nat) (row : Row) (db : Db) : Prop where
  present : db.request r = some row
  owner : row.callerId = callerId
  key : row.idempotencyKey = some k

section Keeps
variable {callerId : Nat} {k : PyStr} {row : Row} {cl : Claim}

theorem Keeps.of_claimUnder {db : Db} (h : db.claimUnder callerId k = some cl) :
    ∃ row, Keeps callerId k cl.id row db ∧ row.claim = cl := by
  obtain ⟨row, hprior, rfl⟩ := Option.map_eq_some_iff.1 h
  have hprior : db.requests.rows.find? (fun r => r.callerId = callerId && r.idempotencyKey = some k) = some row :=
    hprior
  have hfound := List.find?_some hprior
  simp only [Bool.and_eq_true, decide_eq_true_eq] at hfound
  exact ⟨row, ⟨Table.get?_of_mem (List.mem_of_find?_eq_some hprior), hfound.1, hfound.2⟩, rfl⟩

theorem Keeps.unique {r r' : Nat} {row' : Row} (h : Keeps callerId k r row w.db)
    (h' : Keeps callerId k r' row' w.db) (hs : w.Sound H) : r' = r :=
  hs.current.keys r' r row' row k h'.present h.present (h'.owner.trans h.owner.symm) h'.key h.key

theorem Keeps.claimUnder {r : Nat} (h : Keeps callerId k r row w.db) (hs : w.Sound H) :
    w.db.claimUnder callerId k = some row.claim := by
  cases hclaim : w.db.claimUnder callerId k with
  | none =>
    have hprior : w.db.priorRequest callerId (some k) = none := Option.map_eq_none_iff.1 hclaim
    have hnone := List.find?_eq_none.1 hprior row (Table.mem_of_get? h.present)
    simp [h.owner, h.key] at hnone
  | some cl =>
    obtain ⟨row', hkeeps, rfl⟩ := Keeps.of_claimUnder hclaim
    have hid := h.unique hkeeps hs
    have hrow := hkeeps.present
    rw [hid, h.present] at hrow
    rw [Option.some.inj hrow]

/-- A request under a key stays under it, with its id and what it was reserved for. -/
theorem Keeps.later {r : Nat} (h : Keeps callerId k r row c.world.db) (hreach : Reachable H c)
    (hrun : (broker H).Steps SameDatabase c c') :
    ∃ row', Keeps callerId k r row' c'.world.db ∧ row'.claim = row.claim := by
  have hid : row.id = r := Table.get?_key h.present
  obtain ⟨row', hkeeps, hclaim⟩ := Keeps.of_claimUnder (steps_claim hrun (h.claimUnder hreach.sound))
  have hr : row.claim.id = r := hid
  exact ⟨row', hr ▸ hkeeps, hclaim⟩

theorem claimUnder_sanitize (now : Time) (uuid : Text) (db : Db) :
    (db.sanitize now uuid).claimUnder callerId k = db.claimUnder callerId k := by
  have hswept : ∀ (p : Status → Bool) (s : Status) (e : String) (db : Db),
      (db.sweepStatus p s e now).claimUnder callerId k = db.claimUnder callerId k := fun p s e db =>
    Db.claimUnder_update (by intro; rfl) rfl
  exact (hswept _ _ _ _).trans (hswept _ _ _ _)

/-- A restore puts back the requests of the snapshot, with their ids and what they were reserved for. -/
theorem Keeps.of_restore {n : Nat} {now : Time} {uuid : Text} {r : Nat} (h : Reachable H c)
    (hs : (broker H).step c (.offline (.restore n now uuid)) = some c')
    (hkeeps : Keeps callerId k r row c'.world.db) :
    ∃ b row₀, c.world.backups[n]? = some b ∧ Keeps callerId k r row₀ b.1 ∧ row₀.claim = row.claim := by
  obtain ⟨b, hb, hworld⟩ := Option.map_eq_some_iff.1 (System.step_offline hs).2.1
  have hclaim := hkeeps.claimUnder (h.step hs).sound
  rw [← hworld] at hclaim
  obtain ⟨row₀, hkeeps₀, heq⟩ := Keeps.of_claimUnder ((claimUnder_sanitize now uuid b.1).symm.trans hclaim)
  have hid : row.claim.id = r := Table.get?_key hkeeps.present
  exact ⟨b, row₀, hb, hid ▸ hkeeps₀, heq⟩

end Keeps

/-- An idle call leaves the requests and the approvals alone, unless it is the lazy expiry of one. -/
theorem Call.idle_rows {o : Op} {ω : Oracle} (h : Call.idle ⟨i, o, (o.run H ω w).1⟩ = true) :
    (∃ r now, o = .finishPending r .expired .expired none none (some now) true) ∨
      ((w.exec H i o ω).2.db.requests = w.db.requests ∧ (w.exec H i o ω).2.db.approvals = w.db.approvals) := by
  rw [exec_snd]
  by_cases hq : o.quiet = true
  · have hquiet := Op.quiet_run (H := H) (i := i) (w := w) (ω := ω) hq
    exact .inr ⟨hquiet.1, hquiet.2.1⟩
  · cases o with
    | reserveAction caller corr tool op arguments reason generation key =>
      refine .inr ?_
      rcases reserveAction_cases H ω.now ω.hex caller corr tool op arguments reason generation key w.db with
        ⟨e, hdb⟩ | ⟨k, text, prior, -, -, -, -, -, hdb⟩ | ⟨k, text, bound, -, -, -, -, -, hdb⟩
      · simp only [Op.run, hdb, and_self]
      · simp only [Op.run, hdb, and_self]
      · have hcall : Call.idle ⟨i, .reserveAction caller corr tool op arguments reason generation key,
            (w.db.reserveAction H ω.now ω.hex caller corr tool op arguments reason generation key).1⟩ = true := h
        rw [hdb] at hcall
        cases hcall
    | finishPending r s as e st now only =>
      have hsweeps : Op.sweeps (.finishPending r s as e st now only) = true := h
      unfold Op.sweeps at hsweeps
      split at hsweeps
      · rename_i heq
        exact .inl ⟨_, _, heq⟩
      · cases hsweeps
    | _ => exact absurd h hq

/-- Thread `i` has changed no request and no approval since, except by expiring due ones. -/
def Spares (H : Hash) (i : Nat) (c' : Config) : Prop :=
  ∀ c₁ ω c₂, Reachable H c₁ → (broker H).step c₁ (.call i ω) = some c₂ → (broker H).Steps SameDatabase c₂ c' →
    (∃ j r now k, c₁.threads[i]? =
      some ⟨j, some (.call (.finishPending r .expired .expired none none (some now) true) k)⟩) ∨
      (c₂.world.db.requests = c₁.world.db.requests ∧ c₂.world.db.approvals = c₁.world.db.approvals)

theorem Idle.spares (h : Idle i c'.world) : Spares H i c' := by
  intro c₁ ω c₂ _ hs hlater
  obtain ⟨j, o, k, hthread, hworld, -⟩ := System.step_call hs
  obtain ⟨new, hlog⟩ := log_of_steps hlater
  have hmem : (⟨i, o, (o.run H ω c₁.world).1⟩ : Call) ∈ c'.world.log := by
    rw [← hlog, hworld]
    exact List.mem_append_right _ (List.mem_cons_self ..)
  rcases Call.idle_rows (h _ hmem rfl) with ⟨r, now, rfl⟩ | hrows
  · exact .inl ⟨j, r, now, k, hthread⟩
  · exact .inr (hworld ▸ hrows)

/-- What a retry is answered: the request under the key where it asks for the same, a conflict where it does not,
and a refusal where the caller has lost the authority or the submit is malformed. -/
inductive Retry (H : Hash) (i : Nat) (caller : Caller) (tool op : String) (arguments reason : Json) (k : PyStr)
    (r : Nat) (row : Row) (res : Reservation) (c : Config) (out : Outcome) : Prop
  | same (same : Same res tool op arguments (Lifecycle.normalReason reason)) (answer : Recognised r out)
  | different (different : ¬ Same res tool op arguments (Lifecycle.normalReason reason))
      (answer : Conflicting r out)
  | refused (answer : Unauthorised out)
      (lost : AskedWhile H i (fun db => db.live caller.id (some caller) = false ∨
        (db.policyFor caller.id).decide row.tool row.op = .deny) c)
  | malformed (malformed : ¬ WellFormed arguments reason (.str k)) (answer : out.status = .invalid)

section Ended
variable {ctx : Context} {caller : Caller} {tool op : String} {arguments : Json} {corr : Text} {reason : Json}
  {k : PyStr} {p : Action Reply}

def Ended (p : Action Reply) : Prop := (∃ a, p = .ret a) ∨ ∃ e, p = .raise e

theorem Reachable.concluded {key : Json} (h : Reachable H c) (hs : (broker H).step c m = some c')
    (hrunning : ∀ t, c.threads[i]? = some t → t.stopped = false)
    (hthread : c'.threads[i]? = some ⟨.submit ctx caller tool op arguments corr reason key, some p⟩)
    (hended : Ended p) :
    Opened i caller key c'.world ∨ ∃ out, p = .ret (.outcome out) ∧ Idle i c'.world ∧
      (key ≠ .null → KeyAnswer H i caller tool op arguments reason key out c'.world) := by
  obtain ⟨uuid, hrun⟩ := h
  have hinitial : (discipline H).Covered (⟨World.initial uuid, []⟩ : Config) :=
    .initial (World.Sound.initial uuid) fun _ => .initial uuid
  have hwp := hinitial.wp_of_step (disciplined H) (settles_program H) hrun (Nat.zero_le i) hs hrunning hthread
  rcases hended with ⟨a, rfl⟩ | ⟨e, rfl⟩
  · obtain ⟨out, rfl, hopened | ⟨hidle, hanswer⟩⟩ : Settles H i _ a c'.world := hwp
    · exact .inl hopened
    · exact .inr ⟨out, rfl, hidle, hanswer⟩
  · exact .inl hwp

theorem validate_str {k' : Option PyStr} (h : Db.validateIdempotencyKey (.str k) = .ok k') : k' = some k := by
  simp only [Db.validateIdempotencyKey] at h
  split_ifs at h
  exact (Except.ok.inj h).symm

/-- A request has one reservation, so nobody else reserves one under its key. -/
theorem Call.Opens.unique {r j : Nat} {row : Row} {res : Reservation} {call : Call} (h : call.Opens caller (.str k))
    (hmem : call ∈ w.log) (hs : w.Sound H) (hkeeps : Keeps caller.id k r row w.db)
    (hfirst : (⟨j, .reserved res⟩ : Event) ∈ (w.receipt r).events) : j = call.thread := by
  obtain ⟨r', row', res', hrow', howner', hkey', hmine⟩ := h.reserved hmem hs
  have hr : r' = r := hkeeps.unique ⟨hrow', howner', validate_str hkey'⟩ hs
  subst hr
  obtain ⟨front, i₀, res₀, hevents, hfront, -⟩ := ((hs.current.receipts r').row hkeeps.present).reserved
  have hone : ∀ {n res}, (⟨n, .reserved res⟩ : Event) ∈ (w.receipt r').events → n = i₀ := by
    intro n res hmem
    rw [show (w.receipt r').events = _ from hevents] at hmem
    rcases List.mem_append.1 hmem with hin | hin
    · have hno := hfront _ hin
      cases hno
    · exact (Event.mk.inj (List.mem_singleton.1 hin)).1
  exact (hone hfirst).trans (hone hmine).symm

theorem KeyAnswer.retry {r j : Nat} {row : Row} {res : Reservation} {out : Outcome}
    (h : KeyAnswer H i caller tool op arguments reason (.str k) out c'.world) (hs : c'.world.Sound H)
    (hkeeps : Keeps caller.id k r row c'.world.db)
    (hfirst : (⟨j, .reserved res⟩ : Event) ∈ (c'.world.receipt r).events)
    (hasked : Refused i caller (.str k) c'.world → AskedWhile H i (Refuses caller (some k)) c') :
    Retry H i caller tool op arguments reason k r row res c' out := by
  rcases h with ⟨hbad, hout⟩ | ⟨hout, hrefused⟩ | ⟨cl, same, ⟨⟨k', hk', hclaim⟩, text, htext, hsame⟩, hout⟩
  · exact .malformed hbad hout
  · refine .refused hout ?_
    obtain ⟨c₀, j₀, o, rest, hreach, hat, ho, hsteps, hrefuses⟩ := hasked hrefused
    refine ⟨c₀, j₀, o, rest, hreach, hat, ho, hsteps, hrefuses.imp_right fun ⟨prior, hprior, hdeny⟩ => ?_⟩
    have hbefore : c₀.world.db.claimUnder caller.id k = some prior.claim := by rw [Db.claimUnder, hprior]; rfl
    have hclaims := (steps_claim hsteps hbefore).symm.trans (hkeeps.claimUnder hs)
    have htool : prior.tool = row.tool := congrArg Claim.tool (Option.some.inj hclaims)
    have hop : prior.op = row.op := congrArg Claim.op (Option.some.inj hclaims)
    rwa [← htool, ← hop]
  · obtain rfl := Option.some.inj (validate_str hk')
    obtain rfl := Option.some.inj (hclaim.symm.trans (hkeeps.claimUnder hs))
    have hid : row.claim.id = r := Table.get?_key hkeeps.present
    have hreserved := ((hs.current.receipts r).row hkeeps.present).reserved_of_mem hfirst
    obtain ⟨text', htext', hdigest⟩ := hreserved.payload
    have hdigest : row.claim.digest = some (H.digest text') := hdigest
    have hiff : same = true ↔ Same res tool op arguments (Lifecycle.normalReason reason) := by
      rw [hsame, decide_eq_true_iff, hdigest, Option.some_inj, ← payload_eq_iff htext htext']
      exact ⟨fun heq => (H.injective heq).symm, fun heq => congrArg H.digest heq.symm⟩
    rw [hid] at hout
    cases same with
    | true => exact .same (hiff.1 rfl) hout
    | false => exact .different (fun hsame => by cases hiff.2 hsame) hout

end Ended

/-- The key ledger. Under each key a caller has one request, which keeps its id and what it was reserved for; a
submit of that caller under that key which did not reserve it advances nothing and is answered for it, and what
other callers have under the same key is nothing to it. -/
theorem key_ledger {ctx : Context} {caller : Caller} {tool op : String} {arguments : Json} {corr : Text}
    {reason : Json} {k : PyStr} {prog : Option (Action Reply)} (h : Reachable H c) (hs : (broker H).step c m = some c')
    (hrunning : ∀ t, c.threads[i]? = some t → t.stopped = false)
    (hthread : c'.threads[i]? = some ⟨.submit ctx caller tool op arguments corr reason (.str k), prog⟩) :
    (∀ r row j res, Keeps caller.id k r row c'.world.db →
        (⟨j, .reserved res⟩ : Event) ∈ (c'.world.receipt r).events →
      (∀ r' row', Keeps caller.id k r' row' c'.world.db → r' = r) ∧
      (∀ c₂, (broker H).Steps SameDatabase c' c₂ → ∃ row₂, Keeps caller.id k r row₂ c₂.world.db ∧
        row₂.payloadDigest = row.payloadDigest) ∧
      (j ≠ i → Idle i c'.world ∧ Spares H i c' ∧ ∀ p, prog = some p → Ended p → ∃ out, p = .ret (.outcome out) ∧
        Retry H i caller tool op arguments reason k r row res c' out)) ∧
    (∀ c₁ n now uuid c₂ r row, Reachable H c₁ → (broker H).step c₁ (.offline (.restore n now uuid)) = some c₂ →
      Keeps caller.id k r row c₂.world.db → ∃ b row₀, c₁.world.backups[n]? = some b ∧
        Keeps caller.id k r row₀ b.1 ∧ row₀.payloadDigest = row.payloadDigest) ∧
    ((∀ r row j res, Keeps caller.id k r row c'.world.db →
        (⟨j, .reserved res⟩ : Event) ∈ (c'.world.receipt r).events → j = i) →
      ∀ p, prog = some p → Ended p →
        (∃ r row res, Keeps caller.id k r row c'.world.db ∧
          (⟨i, .reserved res⟩ : Event) ∈ (c'.world.receipt r).events) ∨
        ∃ out, p = .ret (.outcome out) ∧ ((¬ WellFormed arguments reason (.str k) ∧ out.status = .invalid) ∨
          Unauthorised out ∧ AskedWhile H i (fun db => db.live caller.id (some caller) = false) c')) := by
  have hreach : Reachable H c' := h.step hs
  have hsound := hreach.sound
  have hasked : Refused i caller (.str k) c'.world → AskedWhile H i (Refuses caller (some k)) c' :=
    Refused.askedWhile h hs hthread hrunning
  refine ⟨?_, ?_, ?_⟩
  · intro r row j res hkeeps hfirst
    refine ⟨fun r' row' hkeeps' => hkeeps.unique hkeeps' hsound, fun c₂ hlater => ?_, fun hother => ?_⟩
    · obtain ⟨row₂, hkeeps₂, hclaim⟩ := hkeeps.later hreach hlater
      exact ⟨row₂, hkeeps₂, congrArg Claim.digest hclaim⟩
    · have hidle : Idle i c'.world := (hreach.ordered hthread).1.idle fun call hmem hcall hopens =>
        hother ((hopens.unique hmem hsound hkeeps hfirst).trans hcall)
      refine ⟨hidle, hidle.spares, ?_⟩
      rintro p rfl hended
      rcases h.concluded hs hrunning hthread hended with ⟨new, call, old, hlog, hcall, hopens, -⟩ |
        ⟨out, rfl, -, hanswer⟩
      · have hmem : call ∈ c'.world.log := hlog ▸ List.mem_append_right _ List.mem_cons_self
        exact absurd ((hopens.unique hmem hsound hkeeps hfirst).trans hcall) hother
      · exact ⟨out, rfl, (hanswer (by simp)).retry hsound hkeeps hfirst hasked⟩
  · intro c₁ n now uuid c₂ r row hreach₁ hrestore hkeeps
    obtain ⟨b, row₀, hb, hkeeps₀, hclaim⟩ := hkeeps.of_restore hreach₁ hrestore
    exact ⟨b, row₀, hb, hkeeps₀, congrArg Claim.digest hclaim⟩
  · rintro hmine p rfl hended
    rcases h.concluded hs hrunning hthread hended with hopened | ⟨out, rfl, hidle, hanswer⟩
    · obtain ⟨new, call, old, hlog, rfl, hopens, -⟩ := hopened
      have hmem : call ∈ c'.world.log := hlog ▸ List.mem_append_right _ List.mem_cons_self
      obtain ⟨r, row, res, hrow, howner, hkey, hevent⟩ := hopens.reserved hmem hsound
      exact .inl ⟨r, row, res, ⟨hrow, howner, validate_str hkey⟩, hevent⟩
    · have hnone : ∀ cl, c'.world.db.claimUnder caller.id k ≠ some cl := by
        intro cl hclaim
        obtain ⟨row, hkeeps, -⟩ := Keeps.of_claimUnder hclaim
        obtain ⟨front, j, res, hevents, -⟩ := ((hsound.current.receipts cl.id).row hkeeps.present).reserved
        have hevent : (⟨j, .reserved res⟩ : Event) ∈ (c'.world.receipt cl.id).events := by
          rw [show (c'.world.receipt cl.id).events = _ from hevents]
          exact List.mem_append_right _ List.mem_cons_self
        obtain rfl := hmine cl.id row j res hkeeps hevent
        exact hidle.no_event _ hevent
      refine .inr ⟨out, rfl, ?_⟩
      rcases hanswer (by simp) with hbad | ⟨hout, hrefused⟩ | ⟨cl, same, ⟨⟨k', hk', hclaim⟩, -⟩, -⟩
      · exact .inl hbad
      · obtain ⟨c₀, j₀, o, rest, hreach₀, hat, ho, hsteps, hlive | ⟨prior, hprior, -⟩⟩ := hasked hrefused
        · exact .inr ⟨hout, c₀, j₀, o, rest, hreach₀, hat, ho, hsteps, hlive⟩
        · have hbefore : c₀.world.db.claimUnder caller.id k = some prior.claim := by rw [Db.claimUnder, hprior]; rfl
          exact absurd (steps_claim hsteps hbefore) (hnone _)
      · obtain rfl := Option.some.inj (validate_str hk')
        exact absurd hclaim (hnone _)

namespace Sample

def ledgerKey : PyStr := py "k"

/-- A submit under the key for something else than the first, which has no arguments. -/
def retry : Job :=
  .submit context caller "echo" "run" (.obj [(py "x", .null)]) [] .null (.str ledgerKey)

/-- Thread 1 completes a request under the key. -/
def keyed : List Move :=
  setup ["echo.run"] [] ++ .start (submit (.str ledgerKey)) :: calls 1 { exchange := .answered answer } 17

/-- Thread 2 asks for something else under the key, and has one call left to make. -/
def clashing : List Move := keyed ++ .start retry :: calls 2 {} 3

/-- The operation is taken out of the policy before. -/
def refusing : List Move := keyed ++ .start (.storePolicy 1 {}) :: calls 2 {} 1 ++ .start retry :: calls 3 {} 4

/-- The arguments of a submit under the key, and the status it returned. -/
def keyedAnswer : BrokerThread → Option (Nat × Json × OutcomeStatus)
  | ⟨.submit _ caller _ _ arguments _ _ (.str k), some (.ret (.outcome out))⟩ =>
    if k = ledgerKey then some (caller.id, arguments, out.status) else none
  | _ => none

theorem of_keyedAnswer {t : BrokerThread} {n : Nat} {arguments : Json} {s : OutcomeStatus}
    (h : keyedAnswer t = some (n, arguments, s)) : ∃ ctx caller tool op corr reason out,
      t = ⟨.submit ctx caller tool op arguments corr reason (.str ledgerKey), some (.ret (.outcome out))⟩ ∧
        caller.id = n ∧ out.status = s := by
  unfold keyedAnswer at h
  split at h
  · split_ifs at h with hk
    obtain ⟨rfl, rfl, rfl⟩ : _ ∧ _ ∧ _ := by simpa using h
    exact ⟨_, _, _, _, _, _, _, by rw [hk], rfl, rfl⟩
  · cases h

/-- The arguments of the reservation. -/
def reservedArguments (i : Nat) : Event → Option Json
  | ⟨j, .reserved res⟩ => if j = i then some res.arguments else none
  | _ => none

theorem of_reservedArguments {es : List Event} {arguments : Json}
    (h : es.findSome? (reservedArguments i) = some arguments) :
    ∃ res, (⟨i, .reserved res⟩ : Event) ∈ es ∧ res.arguments = arguments := by
  obtain ⟨e, hmem, he⟩ := List.exists_of_findSome?_eq_some h
  unfold reservedArguments at he
  split at he
  · split_ifs at he with hj
    exact ⟨_, hj ▸ hmem, Option.some.inj he⟩
  · cases he

def keeps (row : Row) : Bool := row.callerId = 1 && row.idempotencyKey = some ledgerKey

theorem keeps_of_keeps {db : Db} {row : Row} (hrow : db.request r = some row) (h : keeps row = true) :
    Keeps 1 ledgerKey r row db := by
  simp only [keeps, Bool.and_eq_true, decide_eq_true_eq] at h
  exact ⟨hrow, h.1, h.2⟩

end Sample

/-- The submit that asks for something else is answered a conflict with the first request. -/
theorem key_ledger_clashing : ∃ c c' row j out, after Sample.hash Sample.clashing = some c ∧
    (broker Sample.hash).step c (.call 2 {}) = some c' ∧ Keeps 1 Sample.ledgerKey 1 row c'.world.db ∧
    c'.threads[2]? = some ⟨j, some (.ret (.outcome out))⟩ ∧ out.status = .conflict ∧ out.requestId = some 1 := by
  have hrun : ((after Sample.hash Sample.clashing).bind fun c =>
      ((broker Sample.hash).step c (.call 2 {})).bind fun c' =>
        (c.threads[2]?).bind fun t => (c'.threads[2]?).bind fun t' => (c'.world.db.request 1).bind fun row =>
          (Sample.keyedAnswer t').map fun answer => !t.stopped && Sample.keeps row &&
            decide (answer.1 = 1) && decide (answer.2.2 = .conflict) &&
              (c'.world.receipt 1).events.any (Sample.reserves 1)) = some true := by
    decide +kernel
  obtain ⟨c, hc, hrun⟩ := Option.bind_eq_some_iff.1 hrun
  obtain ⟨c', hs, hrun⟩ := Option.bind_eq_some_iff.1 hrun
  obtain ⟨t, ht, hrun⟩ := Option.bind_eq_some_iff.1 hrun
  obtain ⟨t', ht', hrun⟩ := Option.bind_eq_some_iff.1 hrun
  obtain ⟨row, hrow, hrun⟩ := Option.bind_eq_some_iff.1 hrun
  obtain ⟨⟨n, arguments, s⟩, hanswer, hfacts⟩ := Option.map_eq_some_iff.1 hrun
  simp only [Bool.and_eq_true, Bool.not_eq_true', decide_eq_true_eq] at hfacts
  obtain ⟨⟨⟨⟨hrunning, hkeeps⟩, rfl⟩, rfl⟩, hreserved⟩ := hfacts
  obtain ⟨ctx, caller, tool, op, corr, reason, out, rfl, hcaller, hout⟩ := Sample.of_keyedAnswer hanswer
  obtain ⟨res, hres⟩ := Sample.of_reserves hreserved
  have hrow : Keeps 1 Sample.ledgerKey 1 row c'.world.db := Sample.keeps_of_keeps hrow hkeeps
  obtain ⟨-, -, hretry⟩ := (key_ledger (.after hc) hs
    (fun t₀ ht₀ => by
      obtain rfl := Option.some.inj (ht.symm.trans ht₀)
      exact hrunning) ht').1 1 row 1 res (hcaller.symm ▸ hrow) hres
  obtain ⟨-, -, hanswered⟩ := hretry (by decide)
  obtain ⟨out', heq, hretried⟩ := hanswered _ rfl (.inl ⟨_, rfl⟩)
  obtain rfl : out = out' := Reply.outcome.inj (Interleave.Prog.ret.inj heq)
  refine ⟨c, c', row, _, out, hc, hs, hrow, ht', hout, ?_⟩
  cases hretried with
  | same same answer => exact answer.1
  | different different answer => exact answer.2.1
  | refused answer => cases hout.symm.trans answer.1
  | malformed malformed answer => cases hout.symm.trans answer

/-- A submit that asks for something else is not answered a conflict once the policy denies the operation. -/
theorem conflict_refused : ∃ c row res ctx caller tool op arguments corr reason out,
    after Sample.hash Sample.refusing = some c ∧ Keeps caller.id Sample.ledgerKey 1 row c.world.db ∧
    (⟨1, .reserved res⟩ : Event) ∈ (c.world.receipt 1).events ∧
    c.threads[3]? = some ⟨.submit ctx caller tool op arguments corr reason (.str Sample.ledgerKey),
      some (.ret (.outcome out))⟩ ∧
    ¬ Same res tool op arguments (Lifecycle.normalReason reason) ∧ out.status = .denied := by
  have hrun : ((after Sample.hash Sample.refusing).bind fun c => (c.threads[3]?).bind fun t =>
      (c.world.db.request 1).bind fun row => (Sample.keyedAnswer t).bind fun answer =>
        ((c.world.receipt 1).events.findSome? (Sample.reservedArguments 1)).map fun arguments =>
          Sample.keeps row && decide (answer.1 = 1) && decide (answer.2.2 = .denied) &&
            decide (canonical answer.2.1 ≠ canonical arguments)) = some true := by
    decide +kernel
  obtain ⟨c, hc, hrun⟩ := Option.bind_eq_some_iff.1 hrun
  obtain ⟨t, ht, hrun⟩ := Option.bind_eq_some_iff.1 hrun
  obtain ⟨row, hrow, hrun⟩ := Option.bind_eq_some_iff.1 hrun
  obtain ⟨⟨n, arguments, s⟩, hanswer, hrun⟩ := Option.bind_eq_some_iff.1 hrun
  obtain ⟨first, hfirst, hfacts⟩ := Option.map_eq_some_iff.1 hrun
  simp only [Bool.and_eq_true, decide_eq_true_eq] at hfacts
  obtain ⟨⟨⟨hkeeps, rfl⟩, rfl⟩, hdifferent⟩ := hfacts
  obtain ⟨ctx, caller, tool, op, corr, reason, out, rfl, hcaller, hout⟩ := Sample.of_keyedAnswer hanswer
  obtain ⟨res, hres, rfl⟩ := Sample.of_reservedArguments hfirst
  exact ⟨c, row, res, ctx, caller, tool, op, arguments, corr, reason, out, hc,
    hcaller.symm ▸ Sample.keeps_of_keeps hrow hkeeps, hres, ht, fun hsame => hdifferent hsame.arguments, hout⟩

end Toolstack.Broker
