import Toolstack.Broker.Resolution

/-! Every job of the system keeps the discipline, so every reachable database is sound. -/

namespace Toolstack.Broker

open Interleave (Discipline Prog)
open Interleave.Discipline (Triple)

variable {H : Hash} {i r : Nat} {w : World}

/-! ## The operator's programs -/

namespace Operations

variable {name operator : String} {surface : Bool}

theorem free_requireCaller : Free (requireCaller name) :=
  .bind (.quiet rfl) fun caller => by cases caller <;> trivial

theorem free_recordAdminEvent {eventType : String} {details : List (String × Json)} :
    Free (recordAdminEvent operator eventType details) := .bind (.quiet rfl) fun _ => .quiet rfl

theorem free_storePolicy {c : Nat} {policy : Policy} : Free (storePolicy c policy) :=
  .bind (.perform fun _ _ => trivial) fun answer => by cases answer <;> trivial

theorem free_newToken {c : Nat} : Free (newToken H c) :=
  .bind (.quiet rfl) fun _ => .bind (.quiet rfl) fun answer => by cases answer <;> trivial

theorem free_createCaller {allow review deny : List String} :
    Free (createCaller H name allow review deny operator) := by
  refine .bind (.quiet rfl) fun answer => ?_
  cases answer with
  | error e => trivial
  | ok c =>
    exact .bind free_newToken fun _ => .bind free_storePolicy fun _ =>
      .bind free_recordAdminEvent fun _ => trivial

theorem free_cancelRow {reason : String} {row : Db.Worklist} :
    Free (cancelRow surface operator reason row) := by
  refine .bind (Lifecycle.free_finishPending (.inr rfl) (by decide)) fun changed => ?_
  cases changed with
  | false => trivial
  | true =>
    cases surface with
    | false => exact .bind (.quiet rfl) fun _ => trivial
    | true => exact .bind (.quiet rfl) fun _ => .bind (.quiet rfl) fun _ => trivial

theorem free_cancelRows {reason : String} (rows : List Db.Worklist) :
    Free (cancelRows surface operator reason rows) := by
  induction rows with
  | nil => trivial
  | cons row rows ih => exact .bind free_cancelRow fun _ => .bind ih fun _ => trivial

theorem free_cancelPendingApprovals {c : Nat} {reason : String} :
    Free (cancelPendingApprovals c surface operator reason) :=
  .bind (.quiet rfl) fun rows => free_cancelRows rows

theorem free_revokeCaller : Free (revokeCaller name operator surface) :=
  .bind free_requireCaller fun _ => .bind (.quiet rfl) fun _ =>
    .bind free_cancelPendingApprovals fun _ => .bind free_recordAdminEvent fun _ => trivial

theorem free_setPolicy {allow review deny : List String} :
    Free (setPolicy name allow review deny operator) :=
  .bind free_requireCaller fun _ => .bind (.quiet rfl) fun _ => .bind free_storePolicy fun _ =>
    free_recordAdminEvent

theorem free_setEnabledTools {enabled : List String} :
    Free (setEnabledTools name enabled operator) := by
  refine .bind free_requireCaller fun _ => .bind (.quiet rfl) fun _ => .bind (.quiet rfl)
    fun current => ?_
  cases current.disabledFunctions.isSome with
  | false => exact .bind trivial fun _ => .bind free_storePolicy fun _ => free_recordAdminEvent
  | true =>
    exact .bind (.quiet rfl) fun _ => .bind trivial fun _ => .bind free_storePolicy fun _ =>
      free_recordAdminEvent

theorem free_issueToken : Free (issueToken H name operator) :=
  .bind free_requireCaller fun _ => .bind free_newToken fun _ =>
    .bind free_recordAdminEvent fun _ => trivial

theorem free_rotateToken : Free (rotateToken H name operator) :=
  .bind free_requireCaller fun _ => .bind free_newToken fun _ => .bind (.quiet rfl) fun _ =>
    .bind free_recordAdminEvent fun _ => trivial

theorem free_cancelTokenless (callers : List Nat) :
    Free (cancelTokenless surface operator callers) := by
  induction callers with
  | nil => trivial
  | cons c rest ih =>
    refine .bind (.quiet rfl) fun active => ?_
    split_ifs
    · exact .bind free_cancelPendingApprovals fun _ => .bind ih fun _ => trivial
    · exact .bind trivial fun _ => .bind ih fun _ => trivial

theorem free_revokeToken {pre : Text} : Free (revokeToken pre operator surface) := by
  unfold revokeToken
  split_ifs
  · trivial
  · refine .bind (.quiet rfl) fun callers => ?_
    cases callers with
    | error e => trivial
    | ok callers =>
      refine .bind (.quiet rfl) fun count => ?_
      cases count with
      | error e => trivial
      | ok count =>
        simp only
        split_ifs
        · trivial
        · exact .bind (free_cancelTokenless callers) fun _ => .bind free_recordAdminEvent fun _ => trivial

end Operations

namespace CallerSettings

theorem free_snapshot {name : String} {catalog : Except Exn Catalog} : Free (snapshot H name catalog) := by
  refine .bind Operations.free_requireCaller fun caller => ?_
  split_ifs
  · trivial
  · cases catalog with
    | error e => trivial
    | ok catalog => exact .bind (.quiet rfl) fun _ => .bind (.quiet rfl) fun _ => trivial

theorem free_apply {name operator : String} {catalog : Except Exn Catalog} {data : Draft} :
    Free (apply H name catalog data operator) := by
  refine .bind free_snapshot fun current => ?_
  split_ifs
  · trivial
  · cases edit current.catalog data current.policy with
    | error e => trivial
    | ok after =>
      refine .bind Operations.free_requireCaller fun caller => .bind (.perform fun _ _ => trivial)
        fun saved => ?_
      cases saved <;> trivial

theorem free_saveCallerTools {name operator : String} {available selected : List String} :
    Free (saveCallerTools name available selected operator) :=
  .bind Operations.free_requireCaller fun _ => .bind (.quiet rfl) fun _ =>
    Operations.free_setEnabledTools

end CallerSettings

/-! ## The gateway -/

namespace Gateway

variable {ctx : Context} {caller : Caller} {corr : Text}

theorem quiet_correlation {headers : Headers} : Quiet (correlation headers) := by
  unfold correlation
  simp only
  split_ifs
  · trivial
  · exact .perform rfl

theorem quiet_authenticate {header : Option Text} : Quiet (Identity.authenticate H header) := by
  unfold Identity.authenticate
  split
  · trivial
  · exact .perform rfl

theorem quiet_requestNumber {rid : Text} : Quiet (requestNumber rid) := by
  unfold requestNumber
  split_ifs
  · trivial
  · simp only
    split_ifs <;> trivial

theorem quiet_auditRequestTerminal {out : Outcome} {tool op : String} :
    Quiet (auditRequestTerminal out corr tool op) := by
  unfold auditRequestTerminal
  split_ifs
  · exact quiet_audit
  · split
    · exact quiet_audit
    · trivial

theorem action_spec {spec : Text} {body : Json} {key : Option PyStr} :
    (discipline H).Triple i (Idle i) (action ctx caller spec body corr key)
      (fun _ _ => True) (fun _ _ => True) := by
  unfold action
  split
  · exact .ret fun _ _ _ => trivial
  · split
    · exact .bind (Lifecycle.submit_spec.conseq (fun _ _ h => h) (fun _ _ _ _ => trivial)
        fun _ _ _ _ => trivial) fun _ =>
          .bind (Free.of_quiet quiet_auditRequestTerminal).triple fun _ => .ret fun _ _ _ => trivial
    · exact .ret fun _ _ _ => trivial
  · exact .ret fun _ _ _ => trivial

theorem requestStatus_spec {rid : Text} :
    (discipline H).Triple i (fun _ => True) (requestStatus ctx caller rid corr)
      (fun _ _ => True) (fun _ _ => True) := by
  unfold requestStatus
  split_ifs
  · exact .ret fun _ _ _ => trivial
  · refine .bind (quiet_requestNumber.triple (.const True)) fun n => ?_
    refine .bind (triple_quiet (.const True) rfl) fun req => ?_
    cases req.filter fun req => req.callerId = caller.id with
    | none => exact .ret fun _ _ _ => trivial
    | some req =>
      refine .bind (triple_quiet (.const True) rfl) fun allowed => ?_
      split_ifs with hnone hpending
      · exact .ret fun _ _ _ => trivial
      all_goals
        refine .bind Lifecycle.resolveRequest_spec fun outcome => ?_
        refine .bind (triple_quiet (.const True) rfl) fun allowed => ?_
        split_ifs
        · exact .ret fun _ _ _ => trivial
      · exact .bind (Free.of_quiet quiet_auditRequestTerminal).triple fun _ => .ret fun _ _ _ => trivial
      · exact .ret fun _ _ _ => trivial

theorem limited_spec {rest : Action Response}
    (hrest : (discipline H).Triple i (Idle i) rest (fun _ _ => True) (fun _ _ => True)) :
    (discipline H).Triple i (Idle i) (do
      let allowed : Bool ← if ctx.rateLimited then perform (.rateAllow caller.id) else pure true
      if !allowed then return refuse 429 corr (error "rate_limited") else rest)
      (fun _ _ => True) (fun _ _ => True) := by
  have hpassed : ∀ allowed : Bool, (discipline H).Triple i (Idle i)
      (if !allowed then return refuse 429 corr (error "rate_limited") else rest)
      (fun _ _ => True) (fun _ _ => True) := by
    intro allowed
    cases allowed with
    | false => exact .ret fun _ _ _ => trivial
    | true => exact hrest
  cases ctx.rateLimited with
  | false => exact hpassed true
  | true => exact .bind (triple_quiet Kept.idle rfl) hpassed

theorem route_spec {headers : Headers} {request : Request} :
    (discipline H).Triple i (Idle i) (route H ctx headers request corr)
      (fun _ _ => True) (fun _ _ => True) := by
  refine .bind ((quiet_authenticate.triple Kept.idle).conseq (fun _ _ h => h) (fun _ _ _ h => h)
    fun _ _ _ _ => trivial) fun caller => ?_
  cases caller with
  | none => exact .bind (Free.of_quiet quiet_audit).triple fun _ => .ret fun _ _ _ => trivial
  | some caller =>
    refine .bind (triple_quiet Kept.idle rfl) fun _ => ?_
    refine limited_spec ?_
    cases request with
    | action spec body => exact action_spec
    | status rid =>
      exact requestStatus_spec.conseq (fun _ _ _ => trivial) (fun _ _ _ h => h) fun _ _ _ h => h

theorem handle_spec {headers : Headers} {request : Request} :
    (discipline H).Triple i (Idle i) (handle H ctx headers request)
      (fun _ _ => True) (fun _ _ => True) := by
  refine .bind ((quiet_correlation.triple Kept.idle).conseq (fun _ _ h => h) (fun _ _ _ h => h)
    fun _ _ _ _ => trivial) fun corr => ?_
  refine .bind (triple_quiet Kept.idle rfl) fun _ => ?_
  exact .bind route_spec fun _ => .bind (Free.of_quiet quiet_audit).triple fun _ =>
    .ret fun _ _ _ => trivial

end Gateway

/-! ## The system -/

theorem disciplined (H : Hash) : (discipline H).Disciplined := by
  intro i j
  have hdone : ∀ {α : Type} {p : Action α} {f : α → Action Reply}, Free p → (∀ a, Free (f a)) →
      (discipline H).Triple i ((discipline H).fresh i) (p >>= f) (fun _ _ => True) (fun _ _ => True) :=
    fun hp hf => (hp.bind hf).triple
  cases j with
  | submit ctx caller tool op arguments corr reason key =>
    exact .bind (Lifecycle.submit_spec.conseq (fun _ _ h => Fresh.idle h) (fun _ _ _ _ => trivial)
      fun _ _ _ _ => trivial) fun _ => .ret fun _ _ _ => trivial
  | resolve ctx r now c =>
    exact .bind (Lifecycle.resolveRequest_spec.conseq (fun _ _ _ => trivial) (fun _ _ _ h => h)
      fun _ _ _ h => h) fun _ => .ret fun _ _ _ => trivial
  | handle ctx headers request =>
    exact .bind (Gateway.handle_spec.conseq (fun _ _ h => Fresh.idle h) (fun _ _ _ h => h)
      fun _ _ _ h => h) fun _ => .ret fun _ _ _ => trivial
  | sweep ctx now => exact hdone (.of_sweeps Lifecycle.sweeps_sweepExpired) fun _ => trivial
  | createCaller name allow review deny operator =>
    exact hdone Operations.free_createCaller fun _ => trivial
  | issueToken name operator => exact hdone Operations.free_issueToken fun _ => trivial
  | rotateToken name operator => exact hdone Operations.free_rotateToken fun _ => trivial
  | revokeToken pre operator surface => exact hdone Operations.free_revokeToken fun _ => trivial
  | revokeCaller name operator surface => exact hdone Operations.free_revokeCaller fun _ => trivial
  | setPolicy name allow review deny operator =>
    exact hdone Operations.free_setPolicy fun _ => trivial
  | setEnabledTools name enabled operator =>
    exact hdone Operations.free_setEnabledTools fun _ => trivial
  | storePolicy c policy => exact hdone Operations.free_storePolicy fun _ => trivial
  | compareAndSetPolicy c before after operator =>
    exact hdone (.perform fun _ _ => trivial) fun _ => trivial
  | applySettings name catalog data operator => exact hdone CallerSettings.free_apply fun _ => trivial
  | saveCallerTools name available selected operator =>
    exact hdone CallerSettings.free_saveCallerTools fun _ => trivial
  | prunePayloads now => exact hdone (.perform fun _ _ => trivial) fun _ => trivial

theorem World.Sound.initial (uuid : Text) : (World.initial uuid).Sound H :=
  ⟨.initial uuid, fun _ h => by simp [World.initial] at h⟩

theorem Fresh.initial (uuid : Text) : Fresh i (World.initial uuid) :=
  ⟨fun _ h => by simp [World.initial] at h, fun _ h => by simp [World.initial] at h⟩

/-- Every reachable configuration keeps the discipline. -/
theorem Reachable.covered {c : Config} (h : Reachable H c) : (discipline H).Covered c := by
  obtain ⟨uuid, hrun⟩ := h
  exact (disciplined H).reachable (World.Sound.initial uuid) (fun _ => .initial uuid) hrun

theorem Reachable.sound {c : Config} (h : Reachable H c) : c.world.Sound H := h.covered.inv

end Toolstack.Broker
