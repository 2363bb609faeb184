import Toolstack.Broker.Mcp
import Toolstack.Interleave.Outcomes

/-! One submission reaches the request lifecycle in two framings, an HTTP action and an MCP tool
call. What either of them leaves behind is what the submission itself leaves. -/

namespace Toolstack.Broker

open Interleave (Prog Respects Silent)

instance Oracle.nonempty : Nonempty Oracle := ⟨{}⟩

/-! ## What counts -/

/-- The database with another audit trail. -/
def Db.withAudit (a : List AuditEvent) (db : Db) : Db := { db with audit := a }

namespace Framings

/-- The components that audit a request's way in and out. -/
def atEntrance (component : String) : Bool := component = "gateway" || component = "identity"

/-- The calls a framing makes around a submission. -/
def entrance : Op → Bool
  | .token | .lookup .. | .rateAllow _ | .callerByTokenHash _ => true
  | .appendAudit component .. => atEntrance component
  | _ => false

/-- Two worlds that differ in what was noted and looked up at the entrance only: every table is the
same, and so are the other audit events and the other calls, in order. -/
structure SameStore (w w' : World) : Prop where
  tables : w.db.withAudit [] = w'.db.withAudit []
  audit : (w.db.audit.filter fun e => !atEntrance e.component) =
    w'.db.audit.filter fun e => !atEntrance e.component
  calls : (w.log.filter fun c => !entrance c.op) = w'.log.filter fun c => !entrance c.op
  registry : w.registry = w'.registry
  disk : w.disk = w'.disk

theorem sameStore_equivalence : Equivalence SameStore where
  refl _ := ⟨rfl, rfl, rfl, rfl, rfl⟩
  symm h := ⟨h.tables.symm, h.audit.symm, h.calls.symm, h.registry.symm, h.disk.symm⟩
  trans h h' := ⟨h.tables.trans h'.tables, h.audit.trans h'.audit, h.calls.trans h'.calls,
    h.registry.trans h'.registry, h.disk.trans h'.disk⟩

/-! ## No call reads the audit trail -/

section Audit
variable {H : Hash} {ω : Oracle} {w : World} (a : List AuditEvent) (db : Db)

theorem reserveAction_withAudit (now : Time) (fresh : PyStr) (caller : Caller) (corr : Text)
    (tool op : String) (arguments reason : Json) (generation : Text) (key : Json) :
    (db.withAudit a).reserveAction H now fresh caller corr tool op arguments reason generation key =
      Prod.map id (Db.withAudit a)
        (db.reserveAction H now fresh caller corr tool op arguments reason generation key) := by
  have hlive : (db.withAudit a).live caller.id (some caller) = db.live caller.id (some caller) := rfl
  have hprior : ∀ k, (db.withAudit a).priorRequest caller.id k = db.priorRequest caller.id k := fun _ => rfl
  have hpolicy : (db.withAudit a).policyFor caller.id = db.policyFor caller.id := rfl
  unfold Db.reserveAction
  simp only [hlive, hprior, hpolicy]
  repeat' split
  all_goals rfl

theorem claimReceived_withAudit (now : Time) (fresh : PyStr) (r : Nat) (generation : Option Text)
    (caller : Option Caller) (digest : Option Text) :
    (db.withAudit a).claimReceived H now fresh r generation caller digest =
      Prod.map id (Db.withAudit a) (db.claimReceived H now fresh r generation caller digest) := by
  have hrequest : (db.withAudit a).request r = db.request r := rfl
  have hvalid : ∀ req, Db.receivedValid H fresh req generation caller digest (db.withAudit a) =
      Db.receivedValid H fresh req generation caller digest db := fun _ => rfl
  unfold Db.claimReceived
  simp only [hrequest, hvalid]
  repeat' split
  all_goals rfl

theorem claimApproval_withAudit (fresh : PyStr) (r : Nat) (generation : Option Text)
    (state : SurfaceState) (now : Time) (caller : Option Caller) :
    (db.withAudit a).claimApproval H fresh r generation state now caller =
      Prod.map id (Db.withAudit a) (db.claimApproval H fresh r generation state now caller) := by
  have hrequest : (db.withAudit a).request r = db.request r := rfl
  have happroval : (db.withAudit a).approvalForRequest r = db.approvalForRequest r := rfl
  have hvalid : ∀ req app, Db.approvalValid H fresh req app generation now caller (db.withAudit a) =
      Db.approvalValid H fresh req app generation now caller db := fun _ _ => rfl
  unfold Db.claimApproval
  simp only [hrequest, happroval, hvalid]
  repeat' split
  all_goals rfl

theorem finishPending_withAudit (r : Nat) (status : Status) (approvalStatus : ApprovalStatus)
    (error : Option String) (state : Option SurfaceState) (now : Time) (deadlineOnly : Bool) :
    (db.withAudit a).finishPending r status approvalStatus error state now deadlineOnly =
      Prod.map id (Db.withAudit a)
        (db.finishPending r status approvalStatus error state now deadlineOnly) := by
  have hrequest : (db.withAudit a).request r = db.request r := rfl
  have happroval : (db.withAudit a).approvalForRequest r = db.approvalForRequest r := rfl
  unfold Db.finishPending
  simp only [hrequest, happroval]
  repeat' split
  all_goals rfl

theorem addToken_withAudit (now : Time) (c : Nat) (h : Text) :
    (db.withAudit a).addToken now c h = Prod.map id (Db.withAudit a) (db.addToken now c h) := by
  unfold Db.addToken
  by_cases hfree : (∀ t ∈ db.tokens.rows, Keyed.key t ≠ h) ∧ (db.callers.get? c).isSome = true
  · rw [dif_pos hfree]
    exact dif_pos hfree
  · rw [dif_neg hfree]
    exact dif_neg hfree

/-- A call answers the same with any audit trail, and adds the same events to it. -/
theorem run_withAudit (o : Op) : ∃ (x : o.Ret × Db) (new : List AuditEvent), ∀ a,
    o.run H ω { w with db := w.db.withAudit a } = (x.1, x.2.withAudit (a ++ new)) := by
  have hplain : (∀ a, o.run H ω { w with db := w.db.withAudit a } =
      Prod.map id (Db.withAudit a) (o.run H ω w)) → ∃ (x : o.Ret × Db) (new : List AuditEvent), ∀ a,
        o.run H ω { w with db := w.db.withAudit a } = (x.1, x.2.withAudit (a ++ new)) :=
    fun h => ⟨o.run H ω w, [], fun a => by rw [h, List.append_nil]; rfl⟩
  cases o with
  | appendAudit component eventType outcome corr r details =>
    exact ⟨((), w.db), [⟨ω.now, component, eventType, outcome, corr, r, details⟩], fun a => rfl⟩
  | compareAndSetPolicy c before after operator =>
    cases hc : w.db.callers.get? c with
    | none =>
      refine hplain fun a => ?_
      have hc' : (w.db.withAudit a).callers.get? c = none := hc
      simp only [Op.run, Db.compareAndSetPolicy, hc, hc']
      rfl
    | some row =>
      have hc' : ∀ a, (w.db.withAudit a).callers.get? c = some row := fun _ => hc
      have hpolicy : ∀ a, (w.db.withAudit a).policyFor c = w.db.policyFor c := fun _ => rfl
      simp only [Op.run, Db.compareAndSetPolicy, hc', hpolicy]
      split_ifs
      · exact ⟨(false, w.db), [], fun a => by rw [List.append_nil]⟩
      · exact ⟨(true, w.db.writePolicy ω.now c after), _, fun a => rfl⟩
  | reserveAction => exact hplain fun a => reserveAction_withAudit ..
  | claimReceived => exact hplain fun a => claimReceived_withAudit ..
  | claimApproval => exact hplain fun a => claimApproval_withAudit ..
  | finishPending => exact hplain fun a => finishPending_withAudit ..
  | addToken => exact hplain fun a => addToken_withAudit ..
  | addCaller name =>
    refine hplain fun a => ?_
    simp only [Op.run, Db.addCaller, apply_ite (Prod.map id (Db.withAudit a))]
    rfl
  | revokeTokenByPrefix pre =>
    refine hplain fun a => ?_
    simp only [Op.run, Db.revokeTokenByPrefix, apply_ite (Prod.map id (Db.withAudit a))]
    rfl
  | setPolicy c policy =>
    refine hplain fun a => ?_
    simp only [Op.run, Db.setPolicy, apply_ite (Prod.map id (Db.withAudit a))]
    rfl
  | createApproval r ref t d =>
    refine hplain fun a => ?_
    simp only [Op.run, Db.createApproval, apply_ite (Prod.map id (Db.withAudit a))]
    rfl
  | updateRequest r fields =>
    refine hplain fun a => Prod.ext rfl ?_
    simp only [Op.run, Db.updateRequest, Prod.map_snd, apply_ite (Db.withAudit a)]
    rfl
  | _ => exact hplain fun a => rfl

end Audit

/-- The calls of thread `i`. -/
def calls (H : Hash) (i : Nat) (o : Op) (ω : Oracle) (w : World) : o.Ret × World := w.exec H i o ω

section Calls
variable {H : Hash} {i : Nat} {w w' : World}

/-- A call sees the database, the catalogs and the manifests. -/
theorem run_congr {ω : Oracle} {o : Op} (hdb : w.db = w'.db) (hregistry : w.registry = w'.registry)
    (hdisk : w.disk = w'.disk) : o.run H ω w = o.run H ω w' := by
  obtain ⟨db, registry, disk, log, backups⟩ := w
  obtain ⟨db', registry', disk', log', backups'⟩ := w'
  obtain rfl : db = db' := hdb
  obtain rfl : registry = registry' := hregistry
  obtain rfl : disk = disk' := hdisk
  cases o <;> rfl

theorem calls_respect : Respects (calls H i) SameStore where
  equivalence := sameStore_equivalence
  step o ω w w' h := by
    obtain ⟨x, new, hx⟩ := run_withAudit (H := H) (ω := ω) (w := { w with db := w.db.withAudit [] }) o
    have hw : o.run H ω w = (x.1, x.2.withAudit (w.db.audit ++ new)) :=
      (run_congr rfl rfl rfl).trans (hx w.db.audit)
    have hdb : w'.db = (w.db.withAudit []).withAudit w'.db.audit := by
      rw [h.tables]
      rfl
    have hsame : o.run H ω w' =
        o.run H ω { w with db := (w.db.withAudit []).withAudit w'.db.audit } :=
      run_congr hdb h.registry.symm h.disk.symm
    have hw' : o.run H ω w' = (x.1, x.2.withAudit (w'.db.audit ++ new)) := hsame.trans (hx w'.db.audit)
    simp only [calls, World.exec, hw, hw']
    refine ⟨trivial, rfl, ?_, ?_, h.registry, h.disk⟩
    · simp only [Db.withAudit, List.filter_append, h.audit]
    · simp only [List.filter_cons, h.calls]

theorem silent_entrance {o : Op} (ho : entrance o = true) : Silent (calls H i) SameStore o := by
  intro ω w
  cases o with
  | token | lookup | rateAllow | callerByTokenHash =>
    exact ⟨rfl, rfl, by simp [calls, World.exec, entrance], rfl, rfl⟩
  | appendAudit component eventType outcome corr r details =>
    have hcomponent : atEntrance component = true := ho
    refine ⟨rfl, ?_, ?_, rfl, rfl⟩
    · simp [calls, World.exec, Op.run, Db.appendAudit, hcomponent]
    · simp [calls, World.exec, entrance, hcomponent]
  | _ => cases ho

end Calls

/-! ## Submissions and their framings -/

structure Submission where
  tool : String
  op : String
  arguments : List (PyStr × Json)
  reason : Option PyStr
  key : Option PyStr

def given (v : Option PyStr) : Json := (v.map Json.str).getD .null

/-- Who sends it, under which correlation id. -/
structure Sender where
  authorization : Option Text
  correlationId : Option Text

/-- The caller whose token the sender presents. -/
def Sender.caller (H : Hash) (sender : Sender) (db : Db) : Option Caller :=
  (Identity.bearerToken sender.authorization).bind fun token => db.callerByTokenHash (H.digest token)

inductive Framing
  /-- `POST /v1/actions/<spec>` with a JSON object. -/
  | http (key : Option PyStr) (spec : Text) (body : List (PyStr × Json))
  /-- `POST /mcp` with a JSON-RPC object. -/
  | mcp (key : Option PyStr) (message : List (PyStr × Json))

def Sender.headers (sender : Sender) (key : Option PyStr) : Headers :=
  ⟨sender.authorization, sender.correlationId, key⟩

def Framing.program (H : Hash) (ctx : Context) (registry : Registry) (sender : Sender) :
    Framing → Action Unit
  | .http key spec body => do
    let _ ← Gateway.handle H ctx (sender.headers key) (.action spec (.obj body))
  | .mcp key message => do
    let _ ← Mcp.gateway H ctx registry (sender.headers key) (.obj message)

/-- The framing holds the submission: over MCP the reason is a member of the arguments, and the key
stands in the metadata, in the header, or in both. -/
inductive Carries (s : Submission) : Framing → Prop
  | http {spec : Text} {body : List (PyStr × Json)}
      (hspec : Gateway.toolAndOp spec = some (s.tool, s.op))
      (harguments : (Json.find? body (py "arguments")).getD (.obj []) = .obj s.arguments)
      (hreason : (Json.find? body (py "reason")).getD .null = given s.reason) :
      Carries s (.http s.key spec body)
  | mcp {header : Option PyStr} {message params arguments : List (PyStr × Json)}
      (hmethod : Json.find? message (py "method") = some (.str (py "tools/call")))
      (hparams : Json.find? message (py "params") = some (.obj params))
      (hname : Json.find? params (py "name") = some (.str (Mcp.joined (s.tool, s.op))))
      (harguments : Json.find? params (py "arguments") = some (.obj arguments) ∨
        (Json.find? params (py "arguments")).getD .null = .null ∧ arguments = [])
      (hreason : (Json.find? arguments Mcp.reasonKey).getD .null = given s.reason)
      (hrest : (arguments.filter fun kv => kv.1 ≠ Mcp.reasonKey) = s.arguments)
      (hkey : Mcp.keyOf params header = .ok (given s.key)) :
      Carries s (.mcp header message)

/-- The id a request is correlated under is the sender's own, where that is well formed. -/
def Correlates (sender : Sender) (corr : Text) : Prop :=
  let supplied := Identity.strip (sender.correlationId.getD [])
  1 ≤ supplied.length ∧ supplied.length ≤ 64 ∧ supplied.all Gateway.wordChar → corr = supplied

/-- What both framings come to. -/
def core (ctx : Context) (caller : Caller) (s : Submission) (corr : Text) : Action Outcome :=
  Mcp.submitted ctx caller s.tool s.op s.arguments corr (Lifecycle.normalReason (given s.reason)) (given s.key)

section Normal
variable {H : Hash} {i : Nat} {w w' : World} {ctx : Context} {caller : Caller} {sender : Sender}
  {s : Submission}

theorem leaves_correlation {key : Option PyStr} {α : Type} {k : Text → Action α} :
    (Gateway.correlation (sender.headers key) >>= k).Leaves (calls H i) SameStore w w' ↔
      ∃ corr, Correlates sender corr ∧ (k corr).Leaves (calls H i) SameStore w w' := by
  by_cases hsupplied : let supplied := Identity.strip (sender.correlationId.getD [])
      1 ≤ supplied.length ∧ supplied.length ≤ 64 ∧ supplied.all Gateway.wordChar
  · have hprogram : Gateway.correlation (sender.headers key) =
        .ret (Identity.strip (sender.correlationId.getD [])) := if_pos hsupplied
    rw [hprogram, Interleave.Prog.ret_bind]
    constructor
    · exact fun h => ⟨_, fun _ => rfl, h⟩
    · rintro ⟨corr, hcorr, h⟩
      rwa [hcorr hsupplied] at h
  · have hprogram : Gateway.correlation (sender.headers key) = perform .token := if_neg hsupplied
    rw [hprogram]
    refine (Prog.leaves_silent calls_respect (silent_entrance rfl)).trans ?_
    constructor
    · rintro ⟨ω, h⟩
      exact ⟨ω.text, fun hs => absurd hs hsupplied, h⟩
    · rintro ⟨corr, -, h⟩
      exact ⟨{ text := corr }, h⟩

theorem leaves_audit {component eventType outcome : String} {corr : Text} {r : Option Nat}
    {details : List (String × Json)} {α : Type} {k : Unit → Action α} (hc : atEntrance component = true) :
    (Lifecycle.audit component eventType outcome corr r details >>= k).Leaves (calls H i) SameStore w w' ↔
      (k ()).Leaves (calls H i) SameStore w w' := by
  have hsilent : entrance (.appendAudit component eventType outcome corr r details) = true := hc
  refine (Prog.leaves_silent calls_respect (silent_entrance hsilent)).trans ?_
  exact ⟨fun ⟨_, h⟩ => h, fun h => ⟨{}, h⟩⟩

theorem leaves_authenticate {α : Type} {k : Option Caller → Action α}
    (hcaller : sender.caller H w.db = some caller) :
    (Identity.authenticate H sender.authorization >>= k).Leaves (calls H i) SameStore w w' ↔
      (k (some caller)).Leaves (calls H i) SameStore w w' := by
  obtain ⟨token, htoken, hrow⟩ := Option.bind_eq_some_iff.1 hcaller
  simp only [Identity.authenticate, htoken]
  refine (Prog.leaves_silent calls_respect (silent_entrance rfl)).trans ?_
  have hanswer : ∀ ω, (calls H i (.callerByTokenHash (H.digest token)) ω w).1 = some caller := fun _ => hrow
  exact ⟨fun ⟨ω, h⟩ => hanswer ω ▸ h, fun h => ⟨{}, (hanswer {}).symm ▸ h⟩⟩

/-- Whatever the limiter answers, where there is one. -/
theorem leaves_throttle {α : Type} {k : Bool → Action α} :
    (if ctx.rateLimited = true then perform (.rateAllow caller.id) >>= k else pure true >>= k).Leaves
        (calls H i) SameStore w w' ↔
      (ctx.rateLimited = true ∧ (k false).Leaves (calls H i) SameStore w w') ∨
        (k true).Leaves (calls H i) SameStore w w' := by
  by_cases hlimited : ctx.rateLimited = true
  · rw [if_pos hlimited]
    refine (Prog.leaves_silent calls_respect (silent_entrance rfl)).trans ?_
    constructor
    · rintro ⟨ω, h⟩
      cases hallowed : ω.allowed with
      | false => exact .inl ⟨hlimited, hallowed ▸ h⟩
      | true => exact .inr (hallowed ▸ h)
    · rintro (⟨-, h⟩ | h)
      · exact ⟨{ allowed := false }, h⟩
      · exact ⟨{ allowed := true }, h⟩
  · rw [if_neg hlimited]
    exact ⟨.inr, fun h => h.resolve_left fun h => hlimited h.1⟩

/-- A blank reason is none, however often it is looked at. -/
theorem submit_normalReason {tool op : String} {arguments : Json} {corr : Text} {reason : Option PyStr}
    {key : Json} : Lifecycle.submit ctx caller tool op arguments corr (Lifecycle.normalReason (given reason)) key =
      Lifecycle.submit ctx caller tool op arguments corr (given reason) key := by
  cases reason with
  | none => rfl
  | some r =>
    by_cases hblank : r.all Redaction.isSpace = true
    · have hnormal : Lifecycle.normalReason (.str r) = .null := if_pos hblank
      have hgiven : given (some r) = .str r := rfl
      have hvalid : Lifecycle.submitValid ctx caller tool op arguments corr .null key =
          Lifecycle.submitValid ctx caller tool op arguments corr (.str r) key := by
        have hsame : Lifecycle.normalReason (.str r) = Lifecycle.normalReason .null := hnormal
        cases arguments with
        | obj kvs =>
          simp only [Lifecycle.submitValid]
          rw [hsame]
        | _ => rfl
      rw [hgiven, hnormal, Lifecycle.submit, Lifecycle.submit, hvalid]
    · have hnormal : Lifecycle.normalReason (given (some r)) = given (some r) := if_neg hblank
      rw [hnormal]

theorem submitted_normalReason {tool op : String} {arguments : List (PyStr × Json)} {corr : Text}
    {reason : Option PyStr} {key : Json} :
    Mcp.submitted ctx caller tool op arguments corr (Lifecycle.normalReason (given reason)) key =
      Mcp.submitted ctx caller tool op arguments corr (given reason) key := by
  rw [Mcp.submitted, Mcp.submitted, submit_normalReason]

/-- What a framing leaves: nothing but what happened at the entrance, where the caller is throttled,
or what the submission leaves. -/
def Comes (H : Hash) (i : Nat) (ctx : Context) (caller : Caller) (sender : Sender) (s : Submission)
    (w w' : World) : Prop :=
  (ctx.rateLimited = true ∧ SameStore w w') ∨
    ∃ corr, Correlates sender corr ∧ (core ctx caller s corr).Leaves (calls H i) SameStore w w'

theorem comes_iff : (∃ corr, Correlates sender corr ∧ ((ctx.rateLimited = true ∧ SameStore w w') ∨
      (core ctx caller s corr).Leaves (calls H i) SameStore w w')) ↔ Comes H i ctx caller sender s w w' := by
  constructor
  · rintro ⟨corr, hcorr, hlimited | h⟩
    · exact .inl hlimited
    · exact .inr ⟨corr, hcorr, h⟩
  · rintro (hlimited | ⟨corr, hcorr, h⟩)
    · exact ⟨Identity.strip (sender.correlationId.getD []), fun _ => rfl, .inl hlimited⟩
    · exact ⟨corr, hcorr, .inr h⟩

/-- What comes after the terminal event leaves nothing. -/
theorem leaves_submitted {α : Type} {tool op : String} {arguments : List (PyStr × Json)} {corr : Text}
    {reason key : Json} {f : Outcome → α} :
    (do
      let outcome ← Mcp.submitted ctx caller tool op arguments corr reason key
      return f outcome : Action α).Leaves (calls H i) SameStore w w' ↔
      (Mcp.submitted ctx caller tool op arguments corr reason key).Leaves (calls H i) SameStore w w' :=
  Prog.leaves_bind_silent calls_respect fun _ => trivial

section Http
variable {spec : Text} {body : List (PyStr × Json)}

theorem leaves_http (hspec : Gateway.toolAndOp spec = some (s.tool, s.op))
    (harguments : (Json.find? body (py "arguments")).getD (.obj []) = .obj s.arguments)
    (hreason : (Json.find? body (py "reason")).getD .null = given s.reason)
    (hcaller : sender.caller H w.db = some caller) (registry : Registry) :
    ((Framing.http s.key spec body).program H ctx registry sender).Leaves (calls H i) SameStore w w' ↔
      Comes H i ctx caller sender s w w' := by
  have haction : ∀ corr, (Gateway.action ctx caller spec (.obj body) corr s.key).Leaves (calls H i) SameStore w w' ↔
      (core ctx caller s corr).Leaves (calls H i) SameStore w w' := by
    intro corr
    rw [core, submitted_normalReason]
    unfold Gateway.action
    simp only [hspec, harguments, hreason]
    refine Prog.leaves_bind_congr fun outcome w => ?_
    have hleft : ∀ _ : Unit, (pure (⟨Gateway.outcomeStatus outcome.status, Gateway.outcomeBody outcome, corr⟩ :
        Response) : Action Response).All (Silent (calls H i) SameStore) := fun _ => trivial
    have hright : ∀ _ : Unit, (pure outcome : Action Outcome).All (Silent (calls H i) SameStore) := fun _ => trivial
    exact (Prog.leaves_bind_silent calls_respect hleft).trans
      (Prog.leaves_bind_silent calls_respect hright).symm
  have hroute : ∀ corr, (Gateway.route H ctx (sender.headers s.key) (.action spec (.obj body)) corr).Leaves
      (calls H i) SameStore w w' ↔ (ctx.rateLimited = true ∧ SameStore w w') ∨
        (core ctx caller s corr).Leaves (calls H i) SameStore w w' := by
    intro corr
    unfold Gateway.route
    refine (leaves_authenticate hcaller).trans ((leaves_audit rfl).trans ?_)
    exact leaves_throttle.trans (or_congr (and_congr_right fun _ => Prog.leaves_ret) (haction corr))
  have hdone : ∀ _ : Response, (pure () : Action Unit).All (Silent (calls H i) SameStore) := fun _ => trivial
  refine (Prog.leaves_bind_silent calls_respect hdone).trans ?_
  unfold Gateway.handle
  refine leaves_correlation.trans (.trans (exists_congr fun corr => and_congr_right fun _ => ?_) comes_iff)
  refine (leaves_audit rfl).trans (.trans (Prog.leaves_bind_silent calls_respect fun response => ?_) (hroute corr))
  exact ⟨silent_entrance rfl, fun _ => trivial⟩

end Http

section Rpc
variable {header : Option PyStr} {message params arguments : List (PyStr × Json)}

/-- A registered operation that MCP reaches. -/
structure Native (registry : Registry) (s : Submission) : Prop where
  entry : ∃ (e : CatalogEntry) (m : OpMeta), Dict.get registry s.tool = some e ∧
    Dict.get e.ops s.op = some m ∧ e.type ≠ .rest
  name : Mcp.resolveName registry (Mcp.joined (s.tool, s.op)) = some (s.tool, s.op)

theorem Native.lookup {registry : Registry} (h : Native registry s) (disk : Disk) :
    ((registry.lookup H disk s.tool s.op).any fun o => o.type = .rest) = false := by
  obtain ⟨e, m, he, hm, htype⟩ := h.entry
  simp only [Registry.lookup, he, hm, Option.bind_eq_bind, Option.bind_some]
  split_ifs
  · simpa using htype
  · rfl

theorem reasonOf_eq (hreason : (Json.find? arguments Mcp.reasonKey).getD .null = given s.reason) :
    Mcp.reasonOf arguments = Lifecycle.normalReason (given s.reason) := by
  unfold Mcp.reasonOf
  cases hfind : Json.find? arguments Mcp.reasonKey with
  | none =>
    rw [hfind] at hreason
    rw [← hreason]
    rfl
  | some v =>
    rw [hfind] at hreason
    obtain rfl : v = given s.reason := hreason
    cases s.reason <;> rfl

theorem leaves_withArguments (hname : Json.find? params (py "name") = some (.str (Mcp.joined (s.tool, s.op))))
    (hreason : (Json.find? arguments Mcp.reasonKey).getD .null = given s.reason)
    (hrest : (arguments.filter fun kv => kv.1 ≠ Mcp.reasonKey) = s.arguments)
    (hkey : Mcp.keyOf params header = .ok (given s.key)) (hnative : Native (w.registry ctx.broker) s) (corr : Text) :
    (Mcp.callTool.withArguments ctx (w.registry ctx.broker) caller corr params header arguments).Leaves
        (calls H i) SameStore w w' ↔
      (ctx.rateLimited = true ∧ SameStore w w') ∨ (core ctx caller s corr).Leaves (calls H i) SameStore w w' := by
  have hresolved : ((Mcp.callResolved ctx caller corr params header arguments (Mcp.joined (s.tool, s.op))
      s.tool s.op).Leaves (calls H i) SameStore w w' ↔
        (core ctx caller s corr).Leaves (calls H i) SameStore w w') := by
    simp only [Mcp.callResolved, perform, Prog.perform, Prog.call_bind, Prog.ret_bind, hkey, hrest,
      reasonOf_eq hreason]
    refine (Prog.leaves_silent calls_respect (silent_entrance rfl)).trans ?_
    have hanswer : ∀ ω, (calls H i (.lookup ctx.broker s.tool s.op) ω w).1 =
        (w.registry ctx.broker).lookup H w.disk s.tool s.op := fun _ => rfl
    have hbranch := hnative.lookup (H := H) w.disk
    simp only [hanswer, hbranch]
    refine .trans ⟨fun ⟨_, h⟩ => h, fun h => ⟨{}, h⟩⟩ ?_
    exact Prog.leaves_bind_silent calls_respect fun _ => trivial
  unfold Mcp.callTool.withArguments Mcp.throttled
  refine leaves_throttle.trans (or_congr (and_congr_right fun _ => Prog.leaves_ret) ?_)
  rw [hname, Option.getD_some, Mcp.nameOf]
  simp only [Prog.pure_eq, Prog.ret_bind, hnative.name]
  exact hresolved

theorem leaves_mcp (hmethod : Json.find? message (py "method") = some (.str (py "tools/call")))
    (hparams : Json.find? message (py "params") = some (.obj params))
    (hname : Json.find? params (py "name") = some (.str (Mcp.joined (s.tool, s.op))))
    (harguments : Json.find? params (py "arguments") = some (.obj arguments) ∨
      (Json.find? params (py "arguments")).getD .null = .null ∧ arguments = [])
    (hreason : (Json.find? arguments Mcp.reasonKey).getD .null = given s.reason)
    (hrest : (arguments.filter fun kv => kv.1 ≠ Mcp.reasonKey) = s.arguments)
    (hkey : Mcp.keyOf params header = .ok (given s.key)) (hnative : Native (w.registry ctx.broker) s)
    (hcaller : sender.caller H w.db = some caller) :
    ((Framing.mcp header message).program H ctx (w.registry ctx.broker) sender).Leaves (calls H i) SameStore w w' ↔
      Comes H i ctx caller sender s w w' := by
  have htool : ∀ corr, (Mcp.callTool ctx (w.registry ctx.broker) caller corr params header).Leaves
      (calls H i) SameStore w w' ↔ (ctx.rateLimited = true ∧ SameStore w w') ∨
        (core ctx caller s corr).Leaves (calls H i) SameStore w w' := by
    intro corr
    rw [← leaves_withArguments hname hreason hrest hkey hnative corr]
    rcases harguments with harguments | ⟨harguments, rfl⟩
    · simp only [Mcp.callTool, harguments, Option.getD_some]
    · simp only [Mcp.callTool, harguments]
  have hdispatch : ∀ corr, (Mcp.dispatch ctx (w.registry ctx.broker) caller corr (.str (py "tools/call"))
      params header).Leaves (calls H i) SameStore w w' ↔ (ctx.rateLimited = true ∧ SameStore w w') ∨
        (core ctx caller s corr).Leaves (calls H i) SameStore w w' := by
    intro corr
    have hmethods : py "tools/call" ≠ py "initialize" ∧ py "tools/call" ≠ py "ping" ∧
        py "tools/call" ≠ py "tools/list" := by decide
    simp only [Mcp.dispatch, hmethods.1, hmethods.2.1, hmethods.2.2, if_false, if_true]
    refine (Prog.leaves_bind_silent calls_respect fun answer => ?_).trans (htool corr)
    trivial
  have hgiven : (Json.obj params).truthy = true := by
    cases params with
    | nil => cases hname
    | cons kv params => rfl
  have hhandle : ∀ corr, (Mcp.handle ctx (w.registry ctx.broker) caller corr (.obj message) header).Leaves
      (calls H i) SameStore w w' ↔ (ctx.rateLimited = true ∧ SameStore w w') ∨
        (core ctx caller s corr).Leaves (calls H i) SameStore w w' := by
    intro corr
    simp only [Mcp.handle, hmethod, hparams, Option.getD_some, hgiven, if_true]
    refine (Prog.leaves_bind_silent calls_respect fun answer => ?_).trans
      (Prog.leaves_attempt.trans (hdispatch corr))
    rcases answer with e | refusal | result <;> trivial
  have hroute : ∀ corr, (Mcp.route H ctx (w.registry ctx.broker) (sender.headers header) (.obj message)
      corr).Leaves (calls H i) SameStore w w' ↔ (ctx.rateLimited = true ∧ SameStore w w') ∨
        (core ctx caller s corr).Leaves (calls H i) SameStore w w' := by
    intro corr
    unfold Mcp.route
    refine (leaves_authenticate hcaller).trans ((leaves_audit rfl).trans ?_)
    refine (Prog.leaves_bind_silent calls_respect fun answer => ?_).trans (hhandle corr)
    trivial
  have hdone : ∀ _ : Nat × Mcp.Body, (pure () : Action Unit).All (Silent (calls H i) SameStore) :=
    fun _ => trivial
  refine (Prog.leaves_bind_silent calls_respect hdone).trans ?_
  unfold Mcp.gateway
  refine leaves_correlation.trans (.trans (exists_congr fun corr => and_congr_right fun _ => ?_) comes_iff)
  refine (leaves_audit rfl).trans (.trans (Prog.leaves_bind_silent calls_respect fun response => ?_) (hroute corr))
  exact ⟨silent_entrance rfl, fun _ => trivial⟩

end Rpc

end Normal

end Framings

end Toolstack.Broker
