import Toolstack.Interleave.Related
import Toolstack.Sps.AuditHistory
import Toolstack.Sps.Connection

/-! Replies fail closed: one reply at most, no success without its audit event, no error that tells more
than its message, and nothing done for a request whose secret does not match. -/

namespace Toolstack.Sps.Connection

open Interleave (Prog Ran answering)
open Interleave.Prog (raise Sat Related Results)
open Wire (Bytes Clock ReadError)

variable {ctx : Context} {msg : Message} {operation : Operation} {incoming : Except Unread Json}

/-- A world, with what becomes of the next calls. -/
abbrev State := World × (Nat → Oracle)

abbrev exec (ctx : Context) := answering (World.exec ctx)

/-! ## What the handlers call -/

def Call.Serves : Call → Prop
  | .recordReject _ | .audit _ | .send _ => False
  | _ => True

def Call.Plugin : Call → Prop
  | .getSecret .. | .writeSecret .. => True
  | _ => False

theorem check_all {α : Type} {p : Call → Prop} (x : Except Failure α) : (check x).All p := by
  cases x <;> trivial

theorem answered_all {α : Type} {p : Call → Prop} (a : Answer α) : (answered a).All p := by
  cases a <;> trivial

theorem perform_all {p : Call → Prop} {o : Call} (h : p o) : (perform o).All p := ⟨h, fun _ => trivial⟩

theorem checkFound_all {p : Call → Prop} (msg : Message) (found : Option Registration) : (checkFound msg found).All p := by
  cases found with
  | none => trivial
  | some rec =>
    rw [checkFound]
    split_ifs <;> trivial

theorem checkEs_serves (toolId : PyStr) (msg : Message) : (checkEs toolId msg).All Call.Serves := by
  unfold checkEs
  split
  · trivial
  · exact .bind (perform_all (o := .get toolId) trivial) (checkFound_all msg)

theorem readEntries_serves (toolId : PyStr) (es : List SecretEntry) (body : Mapping PyStr Value) :
    (readEntries toolId es body).All Call.Serves := by
  induction es generalizing body with
  | nil => trivial
  | cons e es ih =>
    refine .bind (perform_all (o := .getSecret e.field (e.target toolId)) trivial) fun answer => ?_
    exact .bind (answered_all answer) fun value => ih (Mapping.set body e.name value)

theorem handler_serves (ctx : Context) (msg : Message) (operation : Operation) :
    (handler ctx msg operation).All Call.Serves := by
  cases operation with
  | ping => trivial
  | register => exact .bind (check_all _) fun r => .bind (perform_all (o := .register r.1 r.2) trivial) fun _ => trivial
  | unregister => exact .bind (check_all _) fun t => .bind (perform_all (o := .unregister t) trivial) fun _ => trivial
  | getSecrets =>
    refine .bind (check_all _) fun toolId => .bind (checkEs_serves toolId msg) fun rec => ?_
    exact .bind (readEntries_serves toolId rec.secretEntries []) fun _ => trivial
  | getSecret =>
    refine .bind (check_all _) fun toolId => .bind (check_all _) fun name => ?_
    refine .bind (checkEs_serves toolId msg) fun rec => .bind (check_all _) fun e => ?_
    refine .bind (perform_all (o := .getSecret e.field (e.target toolId)) trivial) fun answer => ?_
    exact .bind (answered_all answer) fun _ => trivial
  | writeSecret =>
    refine .bind (check_all _) fun toolId => .bind (check_all _) fun name => ?_
    refine .bind (checkEs_serves toolId msg) fun rec => .bind (check_all _) fun e => ?_
    refine .bind (check_all _) fun _ => .bind (check_all _) fun value => ?_
    refine .bind (perform_all (o := .writeSecret e.field (e.target toolId) value) trivial) fun answer => ?_
    exact .bind (answered_all answer) fun _ => trivial

theorem serve_serves (ctx : Context) (incoming : Except Unread Json) : (serve ctx incoming).All Call.Serves := by
  unfold serve
  split
  · trivial
  · refine .bind (handler_serves ctx _ _).attempt fun result => ?_
    split <;> trivial

variable (ctx incoming) in
/-- Serving a request neither writes to the log nor to the client. -/
theorem serve_quiet (s : State) :
    ((serve ctx incoming).run (exec ctx) s).world.1.log = s.1.log ∧
      replies ((serve ctx incoming).run (exec ctx) s).calls = [] := by
  have hserves := serve_serves ctx incoming
  constructor
  · refine hserves.world (I := fun s' : State => s'.1.log = s.1.log) ?_ rfl
    intro o s' ho hs'
    cases o with
    | recordReject kind => exact hs'
    | audit e => cases ho
    | send r => exact hs'
    | get toolId => exact hs'
    | register toolId rec => exact hs'
    | unregister toolId => exact hs'
    | getSecret f i => exact hs'
    | writeSecret f i v => exact hs'
  · rw [replies, List.filterMap_eq_nil_iff]
    intro c hc
    have hcall := hserves.calls s c hc
    obtain ⟨o, r⟩ := c
    cases o with
    | send r => cases hcall
    | _ => rfl

/-! ## One reply -/

/-- What is answered: a fixed error, or a reply of the operation that was asked for. -/
def Outcome.Settled (incoming : Except Unread Json) (o : Outcome) : Prop :=
  match o.response with
  | .error message => message ∈ messageSet
  | .reply r => ∃ operation, requested incoming = some (o.message, operation) ∧ o.operation = some operation ∧
    (operation = .ping → ∃ bootId pid, r = .ping bootId pid)

theorem unread_message_fixed (e : Unread) : e.message ∈ messageSet := by
  cases e with
  | osError => decide
  | wire e => cases e <;> decide

theorem failure_message_fixed (f : Failure) : f.message ∈ messageSet := by
  cases f <;> decide

theorem unserved_settled (incoming : Except Unread Json) : (unserved incoming).Settled incoming := by
  have hbad : "Bad request" ∈ messageSet := by decide
  cases incoming with
  | error e => exact unread_message_fixed e
  | ok v => cases v <;> exact hbad

/-- Whatever the program does. -/
theorem sat_any {α : Type} (m : Program α) : Sat (exec ctx) (fun _ => True) m (fun _ _ => True) fun _ _ => True :=
  .of_all (.of_forall (p := fun _ => True) (fun _ => trivial) m) fun _ _ _ _ => trivial

theorem handler_ping : Sat (exec ctx) (fun _ => True) (handler ctx msg operation)
    (fun r _ => operation = .ping → ∃ bootId pid, r = .ping bootId pid) fun _ _ => True := by
  by_cases hping : operation = .ping
  · subst hping
    exact .ret fun _ _ _ => ⟨ctx.bootId, ctx.pid, rfl⟩
  · exact (sat_any _).conseq (fun _ h => h) (fun _ _ _ h => absurd h hping) fun _ _ h => h

variable (ctx incoming) in
theorem serve_settled : Sat (exec ctx) (fun _ => True) (serve ctx incoming) (fun o _ => o.Settled incoming) fun _ _ => True := by
  unfold serve
  split
  · exact .ret fun _ _ => unserved_settled incoming
  next msg operation hrequested =>
    refine .bind (Sat.attempt handler_ping) fun result => ?_
    cases result with
    | ok reply => exact .ret fun _ hping => ⟨operation, hrequested, rfl, hping⟩
    | error e =>
      cases e with
      | failure f => exact .ret fun _ _ => failure_message_fixed f
      | exited => exact .raise fun _ _ => trivial
      | unwritable => exact .raise fun _ _ => trivial

/-- Exactly one event was appended, of this operation and as a success. -/
def Audited (operation : Operation) (before after : AuditLog.Log) : Prop :=
  ∃ e line, e.action = py (operationName operation) ∧ e.outcome = py "ok" ∧ AuditLog.Event.payload e = .ok line ∧
    after.recorded = before.recorded ++ [line] ∧ ∃ earlier, after.world.files 0 = some (earlier ++ line)

variable (ctx) in
theorem audit_appends {w : World} {ω : Oracle} {e : AuditLog.Event}
    (h : (World.exec ctx (.audit e) ω w).1 = .ok ()) :
    ∃ line, AuditLog.Event.payload { e with ts := ω.now } = .ok line ∧
      (World.exec ctx (.audit e) ω w).2.log.recorded = w.log.recorded ++ [line] ∧
      ∃ earlier, (World.exec ctx (.audit e) ω w).2.log.world.files 0 = some (earlier ++ line) := by
  obtain ⟨line, hline, hfile⟩ := AuditLog.event_appends h
  refine ⟨line, hline, ?_, ?_⟩
  · simp only [World.exec, AuditLog.Log.call]
    have hresult : ((AuditLog.event ctx.logger { e with ts := ω.now }).run (answering AuditLog.World.exec)
        (w.log.world, ω.files)).result = .ok () := h
    rw [hresult, hline]
  · simp only [World.exec, AuditLog.Log.call]
    have hresult : ((AuditLog.event ctx.logger { e with ts := ω.now }).run (answering AuditLog.World.exec)
        (w.log.world, ω.files)).result = .ok () := h
    rw [hresult, hline]
    exact hfile

/-- A response may go out: one of the fixed errors, or what a handler replied, recorded unless it is a ping's. -/
def Discloses (incoming : Except Unread Json) (before after : AuditLog.Log) : Response → Prop
  | .error message => message ∈ messageSet
  | .reply r => ∃ msg operation, requested incoming = some (msg, operation) ∧
    (operation = .ping ∧ (∃ bootId pid, r = .ping bootId pid) ∨ Audited operation before after)

theorem backend_error_fixed : "Backend error" ∈ messageSet := by decide

theorem auditEvent_fields {outcome : String} {e : AuditLog.Event} (h : auditEvent ctx operation msg outcome = some e) :
    e.action = py (operationName operation) ∧ e.outcome = py outcome := by
  unfold auditEvent at h
  simp only [Option.bind_eq_bind, Option.bind_eq_some_iff] at h
  obtain ⟨entries, -, toolId, -, secretName, -, he⟩ := h
  rw [← Option.some.inj he]
  exact ⟨rfl, rfl⟩

/-- Recording the event of an operation that is not a ping. -/
theorem record_discloses {o : Outcome} (h : o.Settled incoming) (ho : o.operation = some operation)
    (s : State) :
    ∃ response, ((record ctx operation o.message o.response).run (exec ctx) s).result = .ok response ∧
      replies ((record ctx operation o.message o.response).run (exec ctx) s).calls = [] ∧
      Discloses incoming s.1.log ((record ctx operation o.message o.response).run (exec ctx) s).world.1.log response := by
  unfold record
  cases hevent : auditEvent ctx operation o.message o.response.outcome with
  | none => exact ⟨_, rfl, rfl, backend_error_fixed⟩
  | some e =>
    simp only [perform]
    rw [Prog.run_perform_bind]
    cases hrecorded : (exec ctx (.audit e) s).1 with
    | error x => exact ⟨_, rfl, rfl, backend_error_fixed⟩
    | ok u =>
      refine ⟨o.response, rfl, rfl, ?_⟩
      obtain ⟨line, hline, hlog, hfile⟩ := audit_appends ctx (w := s.1) (ω := s.2 0) hrecorded
      unfold Outcome.Settled at h
      cases hresponse : o.response with
      | error message =>
        rw [hresponse] at h
        exact h
      | reply r =>
        rw [hresponse] at h hevent
        obtain ⟨asked, hrequested, hasked, -⟩ := h
        obtain rfl : operation = asked := Option.some.inj (ho.symm.trans hasked)
        obtain ⟨haction, houtcome⟩ := auditEvent_fields hevent
        exact ⟨o.message, operation, hrequested,
          .inr ⟨{ e with ts := (s.2 0).now }, line, haction, houtcome, hline, hlog, hfile⟩⟩

theorem reject_discloses {o : Outcome} (h : o.Settled incoming) (kind : String)
    (hping : ∀ r, o.response = .reply r → o.operation = some .ping) (s : State) :
    ∃ response, ((reject kind o.response).run (exec ctx) s).result = .ok response ∧
      replies ((reject kind o.response).run (exec ctx) s).calls = [] ∧
      Discloses incoming s.1.log ((reject kind o.response).run (exec ctx) s).world.1.log response := by
  refine ⟨o.response, rfl, rfl, ?_⟩
  unfold Outcome.Settled at h
  cases hresponse : o.response with
  | error message =>
    rw [hresponse] at h
    exact h
  | reply r =>
    rw [hresponse] at h
    obtain ⟨operation, hrequested, ho, hr⟩ := h
    obtain rfl : Operation.ping = operation := Option.some.inj ((hping r hresponse).symm.trans ho)
    exact ⟨o.message, .ping, hrequested, .inl ⟨rfl, hr rfl⟩⟩

variable (ctx) in
theorem settle_discloses {o : Outcome} (h : o.Settled incoming) (s : State) :
    ∃ response, ((settle ctx o).run (exec ctx) s).result = .ok response ∧
      replies ((settle ctx o).run (exec ctx) s).calls = [] ∧
      Discloses incoming s.1.log ((settle ctx o).run (exec ctx) s).world.1.log response := by
  have hoperation : ∀ r, o.response = .reply r → ∃ operation, o.operation = some operation := by
    intro r hr
    unfold Outcome.Settled at h
    rw [hr] at h
    obtain ⟨operation, -, ho, -⟩ := h
    exact ⟨operation, ho⟩
  unfold settle
  split
  next hnone =>
    refine reject_discloses h "invalid" (fun r hr => ?_) s
    obtain ⟨operation, ho⟩ := hoperation r hr
    rw [hnone] at ho
    cases ho
  next operation ho =>
    split_ifs with hping hrejected
    · exact reject_discloses h "ping" (fun _ _ => hping ▸ ho) s
    · refine reject_discloses h "invalid" (fun r hr => ?_) s
      rw [hr] at hrejected
      simp [Response.outcome] at hrejected
    · exact record_discloses h ho s

variable (ctx) in
theorem send_run (response : Response) (s : State) : replies ((send response).run (exec ctx) s).calls = [response] ∧
    ((send response).run (exec ctx) s).world.1 = s.1 := by
  unfold send perform
  rw [Prog.run_perform_bind]
  split_ifs
  · exact ⟨rfl, rfl⟩
  · exact ⟨rfl, rfl⟩

/-- One reply at most goes out: the one that was settled on, and only one that may. -/
theorem respond_discloses (ctx : Context) (incoming : Except Unread Json) (s : State) :
    (replies ((respond ctx incoming).run (exec ctx) s).calls = [] ∧
        ∃ e, ((serve ctx incoming).run (exec ctx) s).result = .error e) ∨
      ∃ o response, ((serve ctx incoming).run (exec ctx) s).result = .ok o ∧
        ((settle ctx o).run (exec ctx) ((serve ctx incoming).run (exec ctx) s).world).result = .ok response ∧
        replies ((respond ctx incoming).run (exec ctx) s).calls = [response] ∧
        Discloses incoming s.1.log ((respond ctx incoming).run (exec ctx) s).world.1.log response := by
  obtain ⟨hlog, hserved⟩ := serve_quiet ctx incoming s
  have hsettled := serve_settled ctx incoming
  unfold respond
  rw [Prog.run_bind]
  cases hresult : ((serve ctx incoming).run (exec ctx) s).result with
  | error e => exact .inl ⟨hserved, e, rfl⟩
  | ok o =>
    right
    obtain ⟨response, hresponse, hquiet, hdiscloses⟩ := settle_discloses ctx (hsettled.returned trivial hresult)
      ((serve ctx incoming).run (exec ctx) s).world
    obtain ⟨hreplies, hworld⟩ := send_run ctx response
      ((settle ctx o).run (exec ctx) ((serve ctx incoming).run (exec ctx) s).world).world
    refine ⟨o, response, rfl, hresponse, ?_⟩
    simp only
    rw [Prog.run_bind, hresponse]
    constructor
    · simp only [replies, List.filterMap_append] at hserved hquiet hreplies ⊢
      rw [hserved, hquiet, hreplies]
      rfl
    · simp only [hworld]
      rw [hlog] at hdiscloses
      exact hdiscloses

/-- A request that is served and settled is replied to. -/
theorem respond_replies {s : State} {o : Outcome} {response : Response}
    (hserve : ((serve ctx incoming).run (exec ctx) s).result = .ok o)
    (hsettle : ((settle ctx o).run (exec ctx) ((serve ctx incoming).run (exec ctx) s).world).result = .ok response) :
    replies ((respond ctx incoming).run (exec ctx) s).calls = [response] := by
  rcases respond_discloses ctx incoming s with ⟨-, e, he⟩ | ⟨o', response', ho', hresponse', hreplies, -⟩
  · rw [hserve] at he
    cases he
  · obtain rfl : o = o' := Except.ok.inj (hserve.symm.trans ho')
    obtain rfl : response = response' := Except.ok.inj (hsettle.symm.trans hresponse')
    exact hreplies

/-! ## Requests that are refused -/

/-- The secret that the operation asks for is the one presented. -/
def Admitted (cfg : Config) (pool : PyStr → Option Registration) (msg : Message) : Operation → Prop
  | .ping => True
  | .register | .unregister => checkSp cfg msg = .ok ()
  | .getSecrets | .getSecret | .writeSecret =>
    ∃ toolId rec, field msg "toolid" = some toolId ∧ pool toolId = some rec ∧ presents msg rec = true

/-- Nothing was registered or asked of the plugin. -/
structure Idle (pool : PyStr → Option Registration) {α : Type} (r : Ran Call Call.Ret Exn α State) : Prop where
  pool : r.world.1.pool = pool
  plugin : ∀ c ∈ r.calls, ¬c.1.Plugin

section Idle
variable {α β : Type} {s : State}

theorem Idle.stop {e : Exn} : Idle s.1.pool (⟨.error e, s, []⟩ : Ran Call Call.Ret Exn α State) :=
  ⟨rfl, by simp⟩

theorem Idle.check {x : Except Failure α} {f : α → Program β}
    (h : ∀ a, x = .ok a → Idle s.1.pool ((f a).run (exec ctx) s)) : Idle s.1.pool ((check x >>= f).run (exec ctx) s) := by
  cases x with
  | ok a => exact h a rfl
  | error e => exact .stop

theorem Idle.get {toolId : PyStr} {f : Option Registration → Program β}
    (h : Idle s.1.pool ((f (s.1.pool toolId)).run (exec ctx) (s.1, fun n => s.2 (n + 1)))) :
    Idle s.1.pool ((perform (.get toolId) >>= f).run (exec ctx) s) := by
  unfold perform
  rw [Prog.run_perform_bind]
  refine ⟨h.pool, fun c hc => ?_⟩
  rcases List.mem_cons.1 hc with rfl | hc
  · exact id
  · exact h.plugin c hc

/-- A secret that does not match stops the handler where it is checked. -/
theorem Idle.checkEs {toolId : PyStr} {f : Registration → Program β}
    (h : ¬∃ rec, s.1.pool toolId = some rec ∧ presents msg rec = true) :
    Idle s.1.pool ((Connection.checkEs toolId msg >>= f).run (exec ctx) s) := by
  unfold Connection.checkEs
  split
  · exact .stop
  · refine Idle.get (f := fun found => checkFound msg found >>= f) ?_
    unfold checkFound
    cases hrec : s.1.pool toolId with
    | none => exact ⟨rfl, by simp⟩
    | some rec =>
      have hmismatch : ¬presents msg rec = true := fun hp => h ⟨rec, hrec, hp⟩
      simp only [if_neg hmismatch]
      exact ⟨rfl, by simp⟩

/-- A request whose secret does not match reaches neither the plugin nor the registrations. -/
theorem handler_idle (h : ¬Admitted ctx.config s.1.pool msg operation) :
    Idle s.1.pool ((handler ctx msg operation).run (exec ctx) s) := by
  have hrefused : ∀ toolId, requireField msg "toolid" = .ok toolId →
      ¬(∃ toolId rec, field msg "toolid" = some toolId ∧ s.1.pool toolId = some rec ∧ presents msg rec = true) →
      ¬∃ rec, s.1.pool toolId = some rec ∧ presents msg rec = true := by
    rintro toolId htool hnone ⟨rec, hrec, hpresents⟩
    refine hnone ⟨toolId, rec, ?_, hrec, hpresents⟩
    unfold requireField at htool
    split at htool
    next v hv => exact hv.trans (congrArg some (Except.ok.inj htool))
    · cases htool
  cases operation with
  | ping => exact absurd trivial h
  | register =>
    refine .check fun r hr => absurd ?_ h
    unfold parseRegistration at hr
    cases hsp : checkSp ctx.config msg with
    | ok u => exact hsp
    | error e =>
      rw [hsp] at hr
      cases hr
  | unregister =>
    refine .check fun t ht => absurd ?_ h
    unfold parseUnregistration at ht
    cases hsp : checkSp ctx.config msg with
    | ok u => exact hsp
    | error e =>
      rw [hsp] at ht
      cases ht
  | getSecrets => exact .check fun toolId htool => .checkEs (hrefused toolId htool h)
  | getSecret => exact .check fun toolId htool => .check fun _ _ => .checkEs (hrefused toolId htool h)
  | writeSecret => exact .check fun toolId htool => .check fun _ _ => .checkEs (hrefused toolId htool h)

/-- The calls of what comes after the handler. -/
def Call.Closes : Call → Prop
  | .recordReject _ | .audit _ | .send _ => True
  | _ => False

theorem Idle.bind {m : Program α} {f : α → Program β} (hm : Idle s.1.pool (m.run (exec ctx) s))
    (hf : ∀ a, (f a).All Call.Closes) : Idle s.1.pool ((m >>= f).run (exec ctx) s) := by
  rw [Prog.run_bind]
  cases hresult : (m.run (exec ctx) s).result with
  | error e => exact ⟨hm.pool, hm.plugin⟩
  | ok a =>
    have hpool : ((f a).run (exec ctx) (m.run (exec ctx) s).world).world.1.pool = s.1.pool := by
      refine (hf a).world (I := fun s' : State => s'.1.pool = s.1.pool) (fun o s' ho hs' => ?_) hm.pool
      cases o with
      | recordReject kind => exact hs'
      | audit e => exact hs'
      | send r => exact hs'
      | _ => cases ho
    refine ⟨hpool, fun c hc => ?_⟩
    rcases List.mem_append.1 hc with hc | hc
    · exact hm.plugin c hc
    · have hcloses := (hf a).calls (m.run (exec ctx) s).world c hc
      intro hplugin
      obtain ⟨o, r⟩ := c
      cases o with
      | getSecret f i => exact hcloses
      | writeSecret f i v => exact hcloses
      | _ => exact hplugin

theorem Idle.attempt {m : Program α} (hm : Idle s.1.pool (m.run (exec ctx) s)) :
    Idle s.1.pool (m.attempt.run (exec ctx) s) := by
  rw [Prog.run_attempt]
  exact ⟨hm.pool, hm.plugin⟩

theorem settle_closes (ctx : Context) (o : Outcome) : (settle ctx o).All Call.Closes := by
  have hreject : ∀ kind response, (reject kind response).All Call.Closes := fun kind response =>
    .bind (perform_all (o := .recordReject kind) trivial) fun _ => trivial
  unfold settle
  split
  · exact hreject _ _
  · split_ifs
    · exact hreject _ _
    · exact hreject _ _
    · unfold record
      split
      · trivial
      · refine .bind (perform_all trivial) fun recorded => ?_
        split <;> trivial

theorem send_closes (response : Response) : (send response).All Call.Closes := by
  refine .bind (perform_all trivial) fun sent => ?_
  split_ifs <;> trivial

theorem respond_idle (hrequested : requested incoming = some (msg, operation))
    (h : ¬Admitted ctx.config s.1.pool msg operation) : Idle s.1.pool ((respond ctx incoming).run (exec ctx) s) := by
  have hserve : Idle s.1.pool ((serve ctx incoming).run (exec ctx) s) := by
    unfold serve
    rw [hrequested]
    refine (handler_idle h).attempt.bind fun result => ?_
    split <;> trivial
  exact hserve.bind fun o => (settle_closes ctx o).bind fun response => send_closes response

end Idle

end Toolstack.Sps.Connection
