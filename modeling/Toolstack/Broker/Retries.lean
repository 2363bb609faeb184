import Toolstack.Broker.Runs
import Toolstack.Broker.Framings
import Toolstack.Interleave.Cleanup

/-! A reserved request keeps what it was reserved for, whatever happens to the database, and a retry
under its key finds it again, whichever framing brought it and whichever brings the retry. -/

namespace Toolstack.Broker

open Interleave (Prog answering)
open Json (canonical)

/-! ## What a request was reserved for -/

structure Claim where
  id : Nat
  callerId : Nat
  tool : String
  op : String
  key : Option PyStr
  digest : Option Text

def Row.claim (r : Row) : Claim := ⟨r.id, r.callerId, r.tool, r.op, r.idempotencyKey, r.payloadDigest⟩

namespace Db

/-- The claim under a caller's key. -/
def claimUnder (callerId : Nat) (k : PyStr) (db : Db) : Option Claim :=
  (db.priorRequest callerId (some k)).map Row.claim

variable {H : Hash} {db db' : Db} {callerId : Nat} {k : PyStr} {cl : Claim}

theorem claimUnder_of_requests (h : db'.requests = db.requests) :
    db'.claimUnder callerId k = db.claimUnder callerId k := by
  simp only [claimUnder, priorRequest, h]

theorem claimUnder_update {p : Row → Bool} {f : Row → Row} (hclaim : ∀ r, (f r).claim = r.claim)
    (h : db'.requests = db.requests.update p f fun r => congrArg Claim.id (hclaim r)) :
    db'.claimUnder callerId k = db.claimUnder callerId k := by
  have hcaller : ∀ r, (f r).callerId = r.callerId := fun r => congrArg Claim.callerId (hclaim r)
  have hkey : ∀ r, (f r).idempotencyKey = r.idempotencyKey := fun r => congrArg Claim.key (hclaim r)
  have hfind : db'.priorRequest callerId (some k) =
      (db.priorRequest callerId (some k)).map fun r => if p r then f r else r := by
    simp only [priorRequest, Option.bind_some, h]
    exact Table.find?_update _ _ _ _ _ fun r => by rw [hcaller, hkey]
  have hsame : Row.claim ∘ (fun r => if p r then f r else r) = Row.claim := by
    funext r
    by_cases hp : p r <;> simp [hp, hclaim]
  rw [claimUnder, hfind, Option.map_map, hsame]
  rfl

theorem claimUnder_setRequest {r : Nat} {f : Row → Row} (hclaim : ∀ r, (f r).claim = r.claim) :
    (db.setRequest r f fun r => congrArg Claim.id (hclaim r)).claimUnder callerId k =
      db.claimUnder callerId k :=
  claimUnder_update hclaim rfl

theorem claimUnder_writePolicy (now : Time) (c : Nat) (policy : Policy) :
    (db.writePolicy now c policy).claimUnder callerId k = db.claimUnder callerId k :=
  claimUnder_update (f := Row.close now .denied (some "approval_invalidated")) (fun _ => rfl) rfl

/-- What a new request under the key is reserved for. -/
def Reserves (H : Hash) (callerId : Nat) (k : PyStr) (tool op : String) (arguments reason : Json) (key : Json)
    (cl : Claim) : Prop :=
  validateIdempotencyKey key = .ok (some k) ∧ ∃ id text,
    canonical (payload tool op arguments reason) = some text ∧
      cl = ⟨id, callerId, tool, op, some k, some (H.digest text)⟩

section Reserve
variable {now : Time} {fresh : PyStr} {caller : Caller} {corr : Text} {tool op : String}
  {arguments reason : Json} {generation : Text} {key : Json}

/-- A claim that stands is kept; where there was none, there is a new one under the key of an accepted
reservation, and none under any other. -/
theorem reserveAction_claimUnder (H : Hash) (db : Db) (callerId : Nat) (k : PyStr) :
    (db.reserveAction H now fresh caller corr tool op arguments reason generation key).2.claimUnder callerId k =
        db.claimUnder callerId k ∧ (db.claimUnder callerId k = none → caller.id = callerId →
          validateIdempotencyKey key = .ok (some k) → ∃ e,
            (db.reserveAction H now fresh caller corr tool op arguments reason generation key).1 = .error e) ∨
      db.claimUnder callerId k = none ∧ ∃ cl,
        (db.reserveAction H now fresh caller corr tool op arguments reason generation key).2.claimUnder
          callerId k = some cl ∧ Reserves H callerId k tool op arguments reason key cl := by
  rcases reserveAction_cases H now fresh caller corr tool op arguments reason generation key db with
    ⟨e, hdb⟩ | ⟨k', text, prior, hkey, -, -, hprior, -, hdb⟩ | ⟨k', text, bound, hkey, htext, -, -, hprior, hdb⟩
  · rw [hdb]
    exact .inl ⟨rfl, fun _ _ _ => ⟨e, rfl⟩⟩
  · rw [hdb]
    refine .inl ⟨rfl, fun hnone hcaller hkey' => ?_⟩
    obtain rfl := Except.ok.inj (hkey.symm.trans hkey')
    rw [hcaller] at hprior
    rw [claimUnder, hprior] at hnone
    cases hnone
  · rw [hdb]
    set row := reservedRow now fresh caller corr tool op arguments reason generation k'
      (db.policyFor caller.id) (H.digest bound) (H.digest text) with hrow
    have hfind : ∀ db' : Db, db'.requests.rows = db.requests.rows ++ [row db.requests.nextId] →
        db'.priorRequest callerId (some k) = (db.priorRequest callerId (some k)).or
          (if caller.id = callerId ∧ k' = some k then some (row db.requests.nextId) else none) := by
      intro db' hrows
      simp only [priorRequest, Option.bind_some, hrows, List.find?_append, List.find?_singleton,
        Bool.and_eq_true, decide_eq_true_eq]
      rfl
    have hafter := hfind { db with
      requests := db.requests.append row (reservedRow_key now fresh caller corr tool op arguments reason
        generation k' (db.policyFor caller.id) (H.digest bound) (H.digest text)) } rfl
    cases hbefore : db.priorRequest callerId (some k) with
    | some prior =>
      simp only [claimUnder, hbefore]
      rw [hbefore, Option.some_or] at hafter
      exact .inl ⟨congrArg (Option.map Row.claim) hafter, fun hnone => by cases hnone⟩
    | none =>
      rw [hbefore, Option.none_or] at hafter
      by_cases hmine : caller.id = callerId ∧ k' = some k
      · rw [if_pos hmine] at hafter
        obtain ⟨rfl, rfl⟩ := hmine
        refine .inr ⟨by simp only [claimUnder, hbefore, Option.map_none], (row db.requests.nextId).claim, ?_,
          hkey, db.requests.nextId, text, htext, rfl⟩
        exact congrArg (Option.map Row.claim) hafter
      · rw [if_neg hmine] at hafter
        simp only [claimUnder, hbefore]
        exact .inl ⟨congrArg (Option.map Row.claim) hafter, fun _ hcaller hkey' =>
          absurd ⟨hcaller, Except.ok.inj (hkey.symm.trans hkey')⟩ hmine⟩

end Reserve

theorem claimReceived_claimUnder (now : Time) (fresh : PyStr) (r : Nat) (generation : Option Text)
    (caller : Option Caller) (digest : Option Text) :
    (db.claimReceived H now fresh r generation caller digest).2.claimUnder callerId k =
      db.claimUnder callerId k := by
  cases hrow : db.request r with
  | none => simp only [claimReceived, hrow]
  | some row =>
    rcases claimReceived_cases H now fresh generation caller digest hrow with
      ⟨-, hdb⟩ | ⟨-, hdb⟩ | ⟨-, hdb⟩ <;> rw [hdb]
    · exact claimUnder_setRequest (by intro; rfl)
    · exact claimUnder_setRequest (by intro; rfl)

theorem claimApproval_claimUnder (fresh : PyStr) (r : Nat) (generation : Option Text) (state : SurfaceState)
    (now : Time) (caller : Option Caller) :
    (db.claimApproval H fresh r generation state now caller).2.claimUnder callerId k =
      db.claimUnder callerId k := by
  cases hrow : db.request r with
  | none => simp only [claimApproval, hrow]
  | some row =>
    rcases claimApproval_cases H fresh generation state now caller hrow with
      ⟨app, -, -, hdb⟩ | ⟨hstatus, happ⟩ | ⟨-, hdb⟩
    · rw [hdb]
      exact (claimUnder_of_requests rfl).trans (claimUnder_setRequest (by intro; rfl))
    · obtain ⟨s, e, as, -, -, -, hdb⟩ := claimApproval_refused state hrow happ hstatus
      rw [hdb]
      exact (claimUnder_of_requests rfl).trans (claimUnder_setRequest (by intro; rfl))
    · rw [hdb]

theorem finishPending_claimUnder (r : Nat) (s : Status) (as : ApprovalStatus) (e : Option String)
    (st : Option SurfaceState) (now : Time) (deadlineOnly : Bool) :
    (db.finishPending r s as e st now deadlineOnly).2.claimUnder callerId k = db.claimUnder callerId k := by
  rcases finishPending_eq r s as e st now deadlineOnly db with hdb | ⟨row, a, -, -, -, -, -, hdb⟩ <;> rw [hdb]
  exact (claimUnder_of_requests rfl).trans (claimUnder_setRequest (by intro; rfl))

end Db

section Calls
variable {H : Hash} {i : Nat} {w : World} {ω : Oracle} {callerId : Nat} {k : PyStr} {cl : Claim}

def Op.reserves : Op → Bool
  | reserveAction .. => true
  | _ => false

theorem exec_claimUnder {o : Op} (ho : o.reserves = false) :
    (w.exec H i o ω).2.db.claimUnder callerId k = w.db.claimUnder callerId k := by
  rw [exec_snd]
  cases hq : o.quiet with
  | true => exact Db.claimUnder_of_requests (Op.quiet_run (H := H) (i := i) (w := w) (ω := ω) hq).1
  | false =>
    cases o with
    | reserveAction => cases ho
    | claimReceived => exact Db.claimReceived_claimUnder ..
    | claimApproval => exact Db.claimApproval_claimUnder ..
    | finishPending => exact Db.finishPending_claimUnder ..
    | updateRequest r fields =>
      simp only [Op.run, Db.updateRequest]
      split_ifs
      · rfl
      · exact Db.claimUnder_setRequest (by intro; rfl)
    | createApproval r ref expiresAt digest =>
      simp only [Op.run, Db.createApproval]
      split_ifs
      · exact Db.claimUnder_of_requests rfl
      · rfl
    | setPolicy c policy =>
      simp only [Op.run, Db.setPolicy]
      split_ifs
      · exact Db.claimUnder_writePolicy ..
      · rfl
    | compareAndSetPolicy c before after operator =>
      rcases compareAndSetPolicy_cases ω.now ω.text c before after operator w.db with
        hdb | ⟨-, row, e, -, -, hdb⟩ <;> simp only [Op.run, hdb]
      exact (Db.claimUnder_of_requests rfl).trans (Db.claimUnder_writePolicy ..)
    | prunePayloads now =>
      exact Db.claimUnder_update (f := Row.prune (now.getD ω.now)) (fun _ => rfl) rfl
    | surfaceOpen | execute | http => rfl
    | _ => cases hq

/-- A claim stands, whatever is called. -/
theorem exec_claim {o : Op} (h : w.db.claimUnder callerId k = some cl) :
    (w.exec H i o ω).2.db.claimUnder callerId k = some cl := by
  cases ho : o.reserves with
  | false => exact (exec_claimUnder ho).trans h
  | true =>
    cases o with
    | reserveAction =>
      rcases Db.reserveAction_claimUnder H w.db callerId k with
        ⟨hsame, -⟩ | ⟨hnone, -⟩
      · exact hsame.trans h
      · rw [h] at hnone
        cases hnone
    | _ => cases ho

/-- A claim stands in every run of the broker over one database. -/
theorem steps_claim {c c' : Config} (hrun : (broker H).Steps SameDatabase c c')
    (h : c.world.db.claimUnder callerId k = some cl) : c'.world.db.claimUnder callerId k = some cl := by
  refine hrun.invariant (P := fun c => c.world.db.claimUnder callerId k = some cl) h
    fun c₁ m c₂ _ hok hs ih => ?_
  cases m with
  | start j =>
    obtain rfl := Option.some.inj hs
    exact ih
  | call i ω =>
    obtain ⟨j, o, k, -, hworld, -⟩ := Interleave.System.step_call hs
    rw [hworld]
    exact exec_claim ih
  | crash i =>
    obtain ⟨-, -, -, -, hworld, -⟩ := Interleave.System.step_crash hs
    rwa [hworld]
  | env e =>
    obtain rfl := Option.some.inj hs
    exact (Db.claimUnder_of_requests (congrArg Db.requests (e.apply_db c₁.world))).trans ih
  | offline f =>
    cases f with
    | reconcile now =>
      have hworld := Option.some.inj (Interleave.System.step_offline hs).2.1
      rw [← hworld]
      exact (Db.claimUnder_update (by intro; rfl) rfl).trans ih
    | restore n now uuid => exact absurd rfl (hok n now uuid)

end Calls

theorem action_of_finite {callerId : Nat} {tool op : String} {generation : Text} {arguments reason : Json}
    {fresh : PyStr} (ha : arguments.finite = true) (hr : reason.finite = true) :
    (ApprovalSummary.action callerId tool op generation arguments reason .null fresh).finite = true := by
  refine Json.finite_obj.2 fun kv hkv => ?_
  simp only [List.mem_cons, List.not_mem_nil, or_false] at hkv
  rcases hkv with rfl | rfl | rfl | rfl | rfl | rfl | rfl
  · rfl
  · rfl
  · rfl
  · rfl
  · exact ha
  · exact hr
  · rfl

namespace Framings

variable {H : Hash} {i : Nat} {ctx : Context} {caller : Caller} {s : Submission} {k : PyStr} {cl : Claim}
  {w w' : World} {corr : Text}

/-! ## The first submission -/

/-- What the submission is reserved for. -/
def Reserved (H : Hash) (callerId : Nat) (k : PyStr) (s : Submission) (cl : Claim) : Prop :=
  Db.Reserves H callerId k s.tool s.op (.obj s.arguments) (Lifecycle.normalReason (given s.reason)) (given s.key) cl

/-- Whatever stands under the key afterwards was reserved for the submission. -/
def New (H : Hash) (callerId : Nat) (k : PyStr) (s : Submission) (db : Db) : Prop :=
  db.claimUnder callerId k = none ∨ ∃ cl, db.claimUnder callerId k = some cl ∧ Reserved H callerId k s cl

theorem sweeps_reserves {o : Op} (h : o.sweeps = true) : o.reserves = false := by
  cases o with
  | reserveAction => cases h
  | _ => rfl

/-- A submission, step by step. -/
def steps (ctx : Context) (caller : Caller) (s : Submission) (corr : Text) : Action Outcome := do
  let _ ← Lifecycle.sweepExpired ctx
  let toolOp : Option ToolOp ← perform (.lookup ctx.broker s.tool s.op)
  if toolOp.isNone && given s.key matches .null then do
    Lifecycle.audit "registry" "tool_lookup_failed" "not_found" corr none (Lifecycle.names s.tool s.op)
    return { status := .notFound }
  else do
    let answer ← perform (.reserveAction caller corr s.tool s.op (.obj s.arguments)
      (Lifecycle.normalReason (given s.reason)) ((toolOp.map (·.generation)).getD []) (given s.key))
    Lifecycle.afterReservation ctx caller s.tool s.op toolOp s.arguments corr
      (Lifecycle.normalReason (given s.reason)) (given s.key) answer

def keyed (ctx : Context) (caller : Caller) (s : Submission) (corr : Text) : Action Outcome := do
  let out ← steps ctx caller s corr
  return { out with idempotencyKey := Lifecycle.keyText (given s.key) }

theorem core_of_error {e : Exn} (h : Db.validateIdempotencyKey (given s.key) = .error e) :
    core ctx caller s corr = (do
      Gateway.auditRequestTerminal { status := .invalid, error := some "invalid_idempotency_key" } corr s.tool s.op
      return { status := .invalid, error := some "invalid_idempotency_key" }) := by
  rw [core, submitted_normalReason, Mcp.submitted, Lifecycle.submit, h]
  rfl

theorem core_of_ok {key : Option PyStr} (h : Db.validateIdempotencyKey (given s.key) = .ok key) :
    core ctx caller s corr = (do
      let outcome ← keyed ctx caller s corr
      Gateway.auditRequestTerminal outcome corr s.tool s.op
      return outcome) := by
  have hvalid : Lifecycle.submitValid ctx caller s.tool s.op (.obj s.arguments) corr (given s.reason)
      (given s.key) = steps ctx caller s corr := by
    unfold Lifecycle.submitValid steps
    cases s.reason <;> rfl
  rw [core, submitted_normalReason, Mcp.submitted, Lifecycle.submit, h]
  simp only [hvalid]
  rfl

theorem quiet_auditRequestTerminal {outcome : Outcome} {tool op : String} :
    Quiet (Gateway.auditRequestTerminal outcome corr tool op) := by
  unfold Gateway.auditRequestTerminal
  split_ifs
  · exact quiet_audit
  · split
    · exact quiet_audit
    · trivial

/-- Where nothing stood under the key, what stands there afterwards was reserved for the submission. -/
theorem core_reserves (hsubmitted : s.key = some k) :
    (core ctx caller s corr).Sat (answering (calls H i)) (fun x => x.1.db.claimUnder caller.id k = none)
      (fun _ x => New H caller.id k s x.1.db) fun _ x => New H caller.id k s x.1.db := by
  have hkeep : ∀ {α : Type} {m : Action α}, (m.All fun o => o.reserves = false) →
      ∀ {I : Option Claim → Prop}, m.Sat (answering (calls H i)) (fun x => I (x.1.db.claimUnder caller.id k))
        (fun _ x => I (x.1.db.claimUnder caller.id k)) fun _ x => I (x.1.db.claimUnder caller.id k) := by
    intro α m hm I
    refine .of_all hm fun o x ho hx => ?_
    have hsame : (calls H i o (x.2 0) x.1).2.db.claimUnder caller.id k = x.1.db.claimUnder caller.id k :=
      exec_claimUnder ho
    exact hsame.symm ▸ hx
  have hquiet : ∀ {α : Type} {m : Action α}, Quiet m → m.All fun o => o.reserves = false := fun hm =>
    hm.mono fun _ ho => sweeps_reserves (Op.sweeps_of_quiet ho)
  have hstands : ∀ {α : Type} {m : Action α} {cl : Claim}, Reserved H caller.id k s cl →
      m.Sat (answering (calls H i)) (fun x => x.1.db.claimUnder caller.id k = some cl)
        (fun _ x => New H caller.id k s x.1.db) fun _ x => New H caller.id k s x.1.db := by
    intro α m cl hcl
    exact (Prog.Sat.of_all (.of_forall (fun _ => trivial) m) fun o x (_ : True) hx => exec_claim hx).conseq (fun _ h => h)
      (fun _ _ h => .inr ⟨cl, h, hcl⟩) fun _ _ h => .inr ⟨cl, h, hcl⟩
  cases hkey : Db.validateIdempotencyKey (given s.key) with
  | error e =>
    rw [core_of_error hkey]
    refine (hkeep (I := fun c => c = none) ?_).conseq (fun _ h => h) (fun _ _ h => .inl h) fun _ _ h => .inl h
    exact (hquiet quiet_auditRequestTerminal).bind fun _ => trivial
  | ok key =>
    have hkeyed : Db.validateIdempotencyKey (given s.key) = .ok (some k) := by
      rw [hsubmitted] at hkey ⊢
      simp only [given, Option.map_some, Option.getD_some, Db.validateIdempotencyKey] at hkey ⊢
      split_ifs at hkey ⊢
      rfl
    rw [core_of_ok hkey]
    have hend : ∀ {α : Type} {m : Action α}, (m.All fun o => o.reserves = false) → m.Sat (answering (calls H i))
        (fun x => New H caller.id k s x.1.db) (fun _ x => New H caller.id k s x.1.db)
        fun _ x => New H caller.id k s x.1.db := fun hm =>
      hkeep hm (I := fun c => c = none ∨ ∃ cl, c = some cl ∧ Reserved H caller.id k s cl)
    refine .bind (.bind ?_ fun out => .ret fun _ h => h) fun outcome =>
      hend ((hquiet quiet_auditRequestTerminal).bind fun _ => trivial)
    refine .bind ((hkeep (I := fun c => c = none) (Lifecycle.sweeps_sweepExpired.mono fun _ => sweeps_reserves)).conseq
      (fun _ h => h) (fun _ _ h => h) fun _ _ h => .inl h) fun _ => ?_
    refine .bind ((hkeep (I := fun c => c = none) (hquiet (.perform rfl))).conseq (fun _ h => h)
      (fun _ _ h => h) fun _ _ h => .inl h) fun toolOp => ?_
    split_ifs
    · have hlookup : (do
          Lifecycle.audit "registry" "tool_lookup_failed" "not_found" corr none (Lifecycle.names s.tool s.op)
          return { status := .notFound } : Action Outcome).All fun o => o.reserves = false :=
        (hquiet quiet_audit).bind fun _ => trivial
      exact (hkeep (I := fun c => c = none) hlookup).conseq (fun _ h => h) (fun _ _ h => .inl h)
        fun _ _ h => .inl h
    · refine .bind (.perform (Q := fun answer x => (x.1.db.claimUnder caller.id k = none ∧
        ∃ e, answer = .error e) ∨ ∃ cl, x.1.db.claimUnder caller.id k = some cl ∧ Reserved H caller.id k s cl)
        fun x hx => ?_) fun answer => ?_
      · rcases Db.reserveAction_claimUnder H x.1.db caller.id k with
          ⟨hsame, herror⟩ | h
        · exact .inl ⟨hsame.trans hx, herror hx rfl hkeyed⟩
        · exact .inr h.2
      · intro x hx
        rcases hx with ⟨hnone, e, rfl⟩ | ⟨cl, hcl, hreserved⟩
        · cases e <;> exact .inl hnone
        · exact hstands hreserved x hcl

/-! ## The retry -/

/-- What is called before a reservation. -/
def prepares : Op → Bool
  | .time | .expiredPendingApprovals _ | .surfaceCancel _ | .lookup .. | .appendAudit .. => true
  | .finishPending _ .expired .expired none none (some _) true => true
  | _ => false

theorem sweeps_of_prepares {o : Op} (h : prepares o = true) : o.sweeps = true := by
  unfold prepares at h
  split at h <;> first | rfl | cases h

theorem prepares_sweepExpired : (Lifecycle.sweepExpired ctx).All fun o => prepares o = true := by
  have haudit : ∀ {r : Option Nat} {details : List (String × Json)} {corr : Text} {a b c : String},
      (Lifecycle.audit a b c corr r details).All fun o => prepares o = true := ⟨rfl, fun _ => trivial⟩
  have hcancel : ∀ ref, (Lifecycle.cancelOnSurface ctx ref).All fun o => prepares o = true := by
    intro ref
    unfold Lifecycle.cancelOnSurface
    split_ifs
    · exact ⟨rfl, fun _ => trivial⟩
    · trivial
  have hexpire : ∀ r ref tool op corr now,
      (Lifecycle.expireApproval ctx r ref tool op corr now).All fun o => prepares o = true := by
    intro r ref tool op corr now
    refine ⟨rfl, fun changed => ?_⟩
    cases changed with
    | false => trivial
    | true => exact (hcancel ref).bind fun _ => haudit.bind fun _ => trivial
  have hrows : ∀ now rows, (Lifecycle.sweepRows ctx now rows).All fun o => prepares o = true := by
    intro now rows
    induction rows with
    | nil => trivial
    | cons row rows ih => exact (hexpire ..).bind fun _ => ih.bind fun _ => trivial
  exact ⟨rfl, fun now => ⟨rfl, fun rows => hrows now rows⟩⟩

theorem returns_sweepExpired : (Lifecycle.sweepExpired ctx).Returns := by
  have hcancel : ∀ ref, (Lifecycle.cancelOnSurface ctx ref).Returns := by
    intro ref
    unfold Lifecycle.cancelOnSurface
    split_ifs
    · exact fun _ => trivial
    · trivial
  have hexpire : ∀ r ref tool op corr now, (Lifecycle.expireApproval ctx r ref tool op corr now).Returns := by
    intro r ref tool op corr now changed
    cases changed with
    | false => trivial
    | true =>
      have haudit : (do
          Lifecycle.audit "approval" "expired" "expired" corr r (Lifecycle.names tool op)
          return true : Action Bool).Returns := fun _ => trivial
      exact (hcancel ref).bind fun _ => haudit
  have hrows : ∀ now rows, (Lifecycle.sweepRows ctx now rows).Returns := by
    intro now rows
    induction rows with
    | nil => trivial
    | cons row rows ih =>
      have hrow := hexpire row.requestId row.surfaceRef row.tool row.op row.correlationId now
      refine hrow.bind fun done => ih.bind fun count => ?_
      trivial
  exact fun now rows => hrows now rows

/-- Nobody's standing or policy has changed. -/
structure SameAuthority (db db' : Db) : Prop where
  callers : db'.callers = db.callers
  tokens : db'.tokens = db.tokens
  policies : db'.policies = db.policies

theorem SameAuthority.live {db db' : Db} (h : SameAuthority db db') (c : Nat) (caller : Option Caller) :
    db'.live c caller = db.live c caller := by
  simp only [Db.live, Db.activeTokenCount, Db.countActive, h.callers, h.tokens]
  rfl

theorem SameAuthority.policyFor {db db' : Db} (h : SameAuthority db db') (c : Nat) :
    db'.policyFor c = db.policyFor c := by
  simp only [Db.policyFor, h.policies]

theorem sameAuthority_prepares {o : Op} {ω : Oracle} {w : World} (ho : prepares o = true) :
    SameAuthority w.db (w.exec H i o ω).2.db := by
  unfold prepares at ho
  split at ho <;> try cases ho
  all_goals try exact ⟨rfl, rfl, rfl⟩
  rename_i r now
  rcases finishPending_eq r .expired .expired none none now true w.db with
    hdb | ⟨row, a, -, -, -, -, -, hdb⟩ <;>
    simp only [exec_snd, Op.run, Option.getD_some, hdb] <;> exact ⟨rfl, rfl, rfl⟩

/-- The caller of a live token is live. -/
theorem live_of_caller {sender : Sender} {db : Db} (h : sender.caller H db = some caller) :
    db.live caller.id (some caller) = true := by
  obtain ⟨token, -, hrow⟩ := Option.bind_eq_some_iff.1 h
  simp only [Db.callerByTokenHash, Option.bind_eq_bind, Option.bind_eq_some_iff] at hrow
  obtain ⟨t, ht, c, hc, hcaller⟩ := hrow
  split_ifs at hcaller with hlive
  obtain rfl := Option.some.inj hcaller
  have hid : c.id = t.callerId := Table.get?_key hc
  simp only [Bool.and_eq_true] at hlive
  simp only [Db.live, hid, hc, ht, Option.any_some, hlive.1, hlive.2, decide_true, Bool.and_self]

/-- The answer of `reserve_action` to a retry: the request that stands, or a refusal where the policy now
denies it. -/
def Recognises (cl : Claim) (denied : Prop) (c : Call) : Prop :=
  match c with
  | ⟨_, .reserveAction .., answer⟩ =>
    (denied ∧ answer = .error .permissionError) ∨
      (¬denied ∧ ∃ row : Row, answer = .ok (row, false, false) ∧ row.claim = cl)
  | _ => False

/-- What a retry does: it finds the request, and advances none. -/
def Retried (cl : Claim) (w w' : World) : Prop :=
  ∃ new, (w'.log.filter fun c => !entrance c.op) = new ++ w.log.filter (fun c => !entrance c.op) ∧
    (∀ c ∈ new, c.idle = true) ∧
    ∃ c ∈ new, Recognises cl ((w.db.policyFor cl.callerId).decide cl.tool cl.op = .deny) c

/-- The retry has not come to its reservation yet. -/
structure Preparing (callerId : Nat) (k : PyStr) (cl : Claim) (w w' : World) : Prop where
  log : ∃ new, w'.log = new ++ w.log ∧ ∀ c ∈ new, c.idle = true
  authority : SameAuthority w.db w'.db
  stands : w'.db.claimUnder callerId k = some cl

theorem Preparing.exec {callerId : Nat} {o : Op} {ω : Oracle} (h : Preparing callerId k cl w w')
    (ho : prepares o = true) : Preparing callerId k cl w (w'.exec H i o ω).2 := by
  obtain ⟨⟨new, hlog, hidle⟩, hauthority, hstands⟩ := h
  have hnext := sameAuthority_prepares (H := H) (i := i) (ω := ω) (w := w') ho
  refine ⟨⟨⟨i, o, (o.run H ω w').1⟩ :: new, ?_, ?_⟩, ?_, exec_claim hstands⟩
  · rw [exec_snd, List.cons_append, hlog]
  · exact List.forall_mem_cons.2 ⟨Call.idle_of_sweeps (sweeps_of_prepares ho) _, hidle⟩
  · exact ⟨hnext.callers.trans hauthority.callers, hnext.tokens.trans hauthority.tokens,
      hnext.policies.trans hauthority.policies⟩

/-- The retry has come past it. -/
def Answered (cl : Claim) (denied : Prop) (w w' : World) : Prop :=
  ∃ new, w'.log = new ++ w.log ∧ (∀ c ∈ new, c.idle = true) ∧ ∃ c ∈ new, Recognises cl denied c

theorem Answered.exec {denied : Prop} {o : Op} {ω : Oracle} (h : Answered cl denied w w') (ho : o.quiet = true) :
    Answered cl denied w (w'.exec H i o ω).2 := by
  obtain ⟨new, hlog, hidle, c, hc, hrecognises⟩ := h
  refine ⟨⟨i, o, (o.run H ω w').1⟩ :: new, ?_, ?_, c, List.mem_cons_of_mem _ hc, hrecognises⟩
  · rw [exec_snd, List.cons_append, hlog]
  · exact List.forall_mem_cons.2 ⟨Call.idle_of_sweeps (Op.sweeps_of_quiet ho) _, hidle⟩

theorem Answered.retried (h : Answered cl ((w.db.policyFor cl.callerId).decide cl.tool cl.op = .deny) w w') :
    Retried cl w w' := by
  obtain ⟨new, hlog, hidle, c, hc, hrecognises⟩ := h
  refine ⟨new.filter fun c => !entrance c.op, ?_, ?_, c, List.mem_filter.2 ⟨hc, ?_⟩, hrecognises⟩
  · rw [hlog, List.filter_append]
  · exact fun c hc => hidle c (List.mem_of_mem_filter hc)
  · obtain ⟨thread, o, answer⟩ := c
    cases o with
    | reserveAction => rfl
    | _ => cases hrecognises

/-- The reservation finds the request that stands, under the same digest. -/
theorem reserveAction_stands (i : Nat) (corr : Text) (db : Db) (now : Time) (fresh : PyStr) (generation : Text)
    (hreserved : Reserved H caller.id k s cl) (hlive : db.live caller.id (some caller) = true)
    (hstands : db.claimUnder caller.id k = some cl) :
    Recognises cl ((db.policyFor cl.callerId).decide cl.tool cl.op = .deny)
      ⟨i, .reserveAction caller corr s.tool s.op (.obj s.arguments) (Lifecycle.normalReason (given s.reason))
        generation (given s.key), (db.reserveAction H now fresh caller corr s.tool s.op (.obj s.arguments)
          (Lifecycle.normalReason (given s.reason)) generation (given s.key)).1⟩ := by
  obtain ⟨hkey, id, text, htext, rfl⟩ := hreserved
  obtain ⟨prior, hprior, hclaim⟩ := Option.map_eq_some_iff.1 hstands
  have hfinite : (Db.payload s.tool s.op (.obj s.arguments) (Lifecycle.normalReason (given s.reason))).finite = true := by
    rw [← Json.canonical_isSome, htext]
    rfl
  have hparts := Json.finite_obj.1 hfinite
  have hbound : ∃ text digest, ApprovalSummary.boundRequest H caller.id s.tool s.op generation (.obj s.arguments)
      (Lifecycle.normalReason (given s.reason)) .null fresh = some (text, digest) := by
    have haction : (ApprovalSummary.action caller.id s.tool s.op generation (.obj s.arguments)
        (Lifecycle.normalReason (given s.reason)) .null fresh).finite = true :=
      action_of_finite (hparts (py "arguments", _) (.tail _ (.tail _ (.head _))))
        (hparts (py "reason", _) (.tail _ (.tail _ (.tail _ (.head _)))))
    simp only [ApprovalSummary.boundRequest, ApprovalSummary.canonical_of_finite haction]
    exact ⟨_, _, rfl⟩
  obtain ⟨bound, digest, hbound⟩ := hbound
  have htool : prior.tool = s.tool := congrArg Claim.tool hclaim
  have hop : prior.op = s.op := congrArg Claim.op hclaim
  have hdigest : prior.payloadDigest = some (H.digest text) := congrArg Claim.digest hclaim
  simp only [Recognises, Db.reserveAction, hkey, htext, hbound, hlive, hprior, htool, hop, hdigest]
  by_cases hdenied : (db.policyFor caller.id).decide s.tool s.op = .deny
  · exact .inl ⟨hdenied, by simp [hdenied]⟩
  · exact .inr ⟨hdenied, prior, by simp [hdenied], hclaim⟩

theorem core_retries (hreserved : Reserved H caller.id k s cl) (hlive : w.db.live caller.id (some caller) = true)
    (hstands : w.db.claimUnder caller.id k = some cl) :
    (core ctx caller s corr).Sat (answering (calls H i)) (fun x => x.1 = w) (fun _ x => Retried cl w x.1)
      fun _ x => Retried cl w x.1 := by
  set denied := (w.db.policyFor cl.callerId).decide cl.tool cl.op = .deny with hdenied
  have hprepare : ∀ {α : Type} {m : Action α}, (m.All fun o => prepares o = true) → m.Returns →
      m.Sat (answering (calls H i)) (fun x => Preparing caller.id k cl w x.1)
        (fun _ x => Preparing caller.id k cl w x.1) fun _ x => Retried cl w x.1 := fun hm hreturns =>
    (Prog.Sat.of_all hm fun o x ho hx => hx.exec ho).of_returns hreturns
  have hfinish : ∀ {α : Type} {m : Action α}, Quiet m → m.Sat (answering (calls H i))
      (fun x => Answered cl denied w x.1) (fun _ x => Answered cl denied w x.1) fun _ x => Retried cl w x.1 :=
    fun hm => (Prog.Sat.of_all hm fun o x ho hx => hx.exec ho).conseq (fun _ h => h) (fun _ _ h => h)
      fun _ _ h => h.retried
  rw [core_of_ok hreserved.1]
  refine .bind (Q := fun _ x => Answered cl denied w x.1) ?_ fun outcome =>
    .bind (hfinish quiet_auditRequestTerminal) fun _ => .ret fun _ h => h.retried
  refine .bind (Q := fun _ x => Answered cl denied w x.1) ?_ fun out => .ret fun _ h => h
  have hstart : ∀ x : World × (Nat → Oracle), x.1 = w → Preparing caller.id k cl w x.1 := by
    rintro x rfl
    exact ⟨⟨[], rfl, fun _ h => by cases h⟩, ⟨rfl, rfl, rfl⟩, hstands⟩
  refine .bind ((hprepare prepares_sweepExpired returns_sweepExpired).conseq hstart (fun _ _ h => h)
    fun _ _ h => h) fun _ => ?_
  have hlookup := hprepare (m := perform (.lookup ctx.broker s.tool s.op)) ⟨rfl, fun _ => trivial⟩ fun _ => trivial
  refine .bind hlookup fun toolOp => ?_
  split_ifs with hunkeyed
  · cases hgiven : given s.key with
    | null =>
      have hvalid := hreserved.1
      rw [hgiven] at hvalid
      cases hvalid
    | _ =>
      rw [hgiven, Bool.and_eq_true] at hunkeyed
      cases hunkeyed.2
  · refine .bind (.perform (Q := fun answer x => Answered cl denied w x.1 ∧
      ((∃ row, answer = .ok (row, false, false)) ∨ answer = .error .permissionError)) fun x hx => ?_) fun answer => ?_
    · have hfound := reserveAction_stands i corr x.1.db (x.2 0).now (x.2 0).hex
        ((toolOp.map (·.generation)).getD []) hreserved
        ((hx.authority.live ..).trans hlive) hx.stands
      rw [hx.authority.policyFor] at hfound
      obtain ⟨⟨new, hlog, hidle⟩, -, -⟩ := hx
      have hanswer := hfound
      simp only [Recognises] at hanswer
      refine ⟨⟨_ :: new, ?_, ?_, _, List.mem_cons_self .., hfound⟩, ?_⟩
      · simp only [answering, calls, exec_snd, hlog]
        rfl
      · refine List.forall_mem_cons.2 ⟨?_, hidle⟩
        rcases hanswer with ⟨-, hanswer⟩ | ⟨-, row, hanswer, -⟩ <;> rw [hanswer] <;> rfl
      · rcases hanswer with ⟨-, hanswer⟩ | ⟨-, row, hanswer, -⟩
        · exact .inr hanswer
        · exact .inl ⟨row, hanswer⟩
    · intro x hx
      obtain ⟨hx, ⟨row, rfl⟩ | rfl⟩ := hx
      · have hread : Quiet (Lifecycle.afterReservation ctx caller s.tool s.op toolOp s.arguments corr
            (Lifecycle.normalReason (given s.reason)) (given s.key) (.ok (row, false, false))) :=
          ⟨rfl, fun _ => trivial⟩
        exact hfinish hread x hx
      · exact hx

/-! ## Two framings -/

theorem leaves_framing {f : Framing} {sender : Sender} (hf : Carries s f)
    (hcaller : sender.caller H w.db = some caller) (hnative : Native (w.registry ctx.broker) s) :
    (f.program H ctx (w.registry ctx.broker) sender).Leaves (calls H i) SameStore w w' ↔
      Comes H i ctx caller sender s w w' := by
  cases hf with
  | http hspec harguments hreason => exact leaves_http hspec harguments hreason hcaller _
  | mcp hmethod hparams hname harguments hreason hrest hkey =>
    exact leaves_mcp hmethod hparams hname harguments hreason hrest hkey hnative hcaller

theorem claimUnder_congr {db db' : Db} {callerId : Nat} (h : db.withAudit [] = db'.withAudit []) :
    db.claimUnder callerId k = db'.claimUnder callerId k :=
  Db.claimUnder_of_requests (congrArg Db.requests h :)

/-- Whichever framing a submission comes in, it leaves the store the same; and what was reserved in one of
them is found again, at any later time, by a retry in the other. -/
theorem framings_agree {f g : Framing} {sender : Sender} (hf : Carries s f) (hg : Carries s g)
    (hcaller : sender.caller H w.db = some caller) (hnative : Native (w.registry ctx.broker) s) :
    (∀ w', (f.program H ctx (w.registry ctx.broker) sender).Leaves (calls H i) SameStore w w' ↔
      (g.program H ctx (w.registry ctx.broker) sender).Leaves (calls H i) SameStore w w') ∧
    ∀ k w₁ row, s.key = some k → w.db.priorRequest caller.id (some k) = none →
      (f.program H ctx (w.registry ctx.broker) sender).Leaves (calls H i) SameStore w w₁ →
      w₁.db.priorRequest caller.id (some k) = some row →
      ∀ threads c, (broker H).Steps SameDatabase ⟨w₁, threads⟩ c →
      ∀ j ctx' sender' caller' w₂, sender'.caller H c.world.db = some caller' → caller'.id = caller.id →
        Native (c.world.registry ctx'.broker) s →
        (g.program H ctx' (c.world.registry ctx'.broker) sender').Leaves (calls H j) SameStore c.world w₂ →
        ctx'.rateLimited = true ∧ SameStore c.world w₂ ∨ Retried row.claim c.world w₂ := by
  refine ⟨fun w' => (leaves_framing hf hcaller hnative).trans (leaves_framing hg hcaller hnative).symm, ?_⟩
  intro k w₁ row hkey hfresh hfirst hrow threads c hlater j ctx' sender' caller' w₂ hcaller' hid hnative' hretry
  have hclaim : w₁.db.claimUnder caller.id k = some row.claim := by
    rw [Db.claimUnder, hrow]
    rfl
  have hnone : w.db.claimUnder caller.id k = none := by
    rw [Db.claimUnder, hfresh]
    rfl
  have hreserved : Reserved H caller.id k s row.claim := by
    rcases (leaves_framing hf hcaller hnative).1 hfirst with ⟨-, hsame⟩ | ⟨corr, -, ω, hsame⟩
    · rw [← claimUnder_congr hsame.tables, hnone] at hclaim
      cases hclaim
    · have hnew : New H caller.id k s ((core ctx caller s corr).run (answering (calls H i)) (w, ω)).world.1.db :=
        (core_reserves hkey).always hnone
      rw [New, claimUnder_congr hsame.tables, hclaim] at hnew
      rcases hnew with hnew | ⟨cl, hcl, hreserved⟩
      · cases hnew
      · exact Option.some.inj hcl ▸ hreserved
  have hstands : c.world.db.claimUnder caller'.id k = some row.claim := hid ▸ steps_claim hlater hclaim
  rcases (leaves_framing hg hcaller' hnative').1 hretry with hthrottled | ⟨corr, -, ω, hsame⟩
  · exact .inl hthrottled
  · have hretried : Retried row.claim c.world
        ((core ctx' caller' s corr).run (answering (calls H j)) (c.world, ω)).world.1 :=
      (core_retries (hid ▸ hreserved) (live_of_caller hcaller') hstands).always rfl
    obtain ⟨new, hlog, hnew⟩ := hretried
    exact .inr ⟨new, hsame.calls ▸ hlog, hnew⟩

namespace Sample

open Broker.Sample (hash context entry)

def key : PyStr := py "first-try"

def token : Sender := ⟨some "Bearer t".toList, none⟩

def ann : Caller := ⟨1, "ann", some (hash.digest "t".toList)⟩

/-- The caller may run the operation, and has a token. -/
def world : World where
  db := ((({ installationUuid := [] : Db }.addCaller 0 "ann").2.addToken 0 1 (hash.digest "t".toList)).2.setPolicy 0 1
    { tools := some [("echo", [("run", "allow")])] }).2
  registry := fun _ => [("echo", entry)]

def submission : Submission := ⟨"echo", "run", [], none, some key⟩

def overHttp : Framing := .http (some key) "echo.run".toList []

def overMcp : Framing :=
  .mcp none [(py "method", .str (py "tools/call")), (py "params", .obj [(py "name", .str (py "echo__run")),
    (py "_meta", .obj [(py "toolstack/idempotency-key", .str key)])])]

theorem carries_http : Carries submission overHttp := .http rfl rfl rfl

theorem carries_mcp : Carries submission overMcp :=
  .mcp rfl rfl rfl (.inr ⟨rfl, rfl⟩) rfl rfl rfl

/-- What is left of a world when a framing has been run in it. -/
def sent (f : Framing) (w : World) : World :=
  ((f.program hash context (w.registry 0) token).run (answering (calls hash 0)) (w, fun _ => {})).world.1

theorem sent_registry (f : Framing) (w : World) : (sent f w).registry = w.registry := by
  have hkeep : (f.program hash context (w.registry 0) token).Sat (answering (calls hash 0))
      (fun x => x.1.registry = w.registry) (fun _ x => x.1.registry = w.registry)
      fun _ x => x.1.registry = w.registry :=
    .of_all (.of_forall (fun _ => trivial) _) fun o x (_ : True) hx => hx
  exact hkeep.always rfl

theorem native : Native (world.registry 0) submission :=
  ⟨⟨entry, _, rfl, rfl, by decide⟩, rfl⟩

end Sample

/-- The operation is run over HTTP, and the same submission is sent again over MCP. -/
theorem framings_agree_sample : ∃ row,
    (Sample.sent Sample.overHttp Sample.world).db.priorRequest 1 (some Sample.key) = some row ∧
      Retried row.claim (Sample.sent Sample.overHttp Sample.world)
        (Sample.sent Sample.overMcp (Sample.sent Sample.overHttp Sample.world)) := by
  have hcaller : Sample.token.caller Broker.Sample.hash Sample.world.db = some Sample.ann := rfl
  have hfirst : (Sample.overHttp.program Broker.Sample.hash Broker.Sample.context (Sample.world.registry 0)
      Sample.token).Leaves (calls Broker.Sample.hash 0) SameStore Sample.world
        (Sample.sent Sample.overHttp Sample.world) := ⟨fun _ => {}, sameStore_equivalence.refl _⟩
  have hfound : ((Sample.sent Sample.overHttp Sample.world).db.priorRequest 1 (some Sample.key)).isSome = true := by
    decide +kernel
  have hlater : (Sample.token.caller Broker.Sample.hash (Sample.sent Sample.overHttp Sample.world).db).map
      Caller.id = some 1 := by decide +kernel
  have hregistry := Sample.sent_registry Sample.overHttp Sample.world
  generalize Sample.sent Sample.overHttp Sample.world = w₁ at *
  have hretry : (Sample.overMcp.program Broker.Sample.hash Broker.Sample.context (w₁.registry 0) Sample.token).Leaves
      (calls Broker.Sample.hash 0) SameStore w₁ (Sample.sent Sample.overMcp w₁) :=
    ⟨fun _ => {}, sameStore_equivalence.refl _⟩
  have hnative : Native (w₁.registry 0) Sample.submission := hregistry ▸ Sample.native
  obtain ⟨row, hrow⟩ := Option.isSome_iff_exists.1 hfound
  obtain ⟨caller, hcaller', hid⟩ := Option.map_eq_some_iff.1 hlater
  have hagree := (framings_agree Sample.carries_http Sample.carries_mcp hcaller Sample.native).2 Sample.key w₁ row
    rfl rfl hfirst hrow [] ⟨w₁, []⟩ .refl 0 Broker.Sample.context Sample.token caller
    (Sample.sent Sample.overMcp w₁) hcaller' hid hnative hretry
  exact ⟨row, hrow, hagree.resolve_left fun h => Bool.false_ne_true h.1⟩

end Framings

end Toolstack.Broker
