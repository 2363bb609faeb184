import Toolstack.Broker.Stranding
import Toolstack.Broker.Retries
import Toolstack.Broker.CatalogServes
import Toolstack.Json.Unambiguous

/-! What a submit under an idempotency key is answered: it reserves a request of its own, or it is idle and
told about the one that stands under the key. -/

namespace Toolstack.Broker

open Interleave (Discipline Prog System)
open Interleave.Discipline (Triple)
open Json (canonical dumps quote)

variable {H : Hash} {i : Nat} {w w' : World}

/-! ## One payload, one text -/

theorem sort_payload {β : Type} (tool op arguments reason : β) :
    Json.sortMembers [(py "tool", tool), (py "op", op), (py "arguments", arguments), (py "reason", reason)] =
      [(py "arguments", arguments), (py "op", op), (py "reason", reason), (py "tool", tool)] := rfl

theorem dumps_payload (tool op : String) (arguments reason : Json) :
    dumps .compact (Db.payload tool op arguments reason) = "\x7b\"arguments\":".toList ++
      (dumps .compact arguments ++ (",\"op\":".toList ++ (quote (py op) ++ (",\"reason\":".toList ++
        (dumps .compact reason ++ (",\"tool\":".toList ++ (quote (py tool) ++ ['}']))))))) := by
  rw [Db.payload, Json.dumps, Json.dumpsMembers_eq_map, Json.Style.order]
  simp only [List.map_cons, List.map_nil, Json.Style.compact, if_true, sort_payload]
  have hkeys : quote (py "arguments") = "\"arguments\"".toList ∧ quote (py "op") = "\"op\"".toList ∧
      quote (py "reason") = "\"reason\"".toList ∧ quote (py "tool") = "\"tool\"".toList := by decide
  simp only [Json.join, Json.member, hkeys, List.append_assoc]
  rfl

/-- The submit asks for what the reservation was made for. -/
structure Same (res : Reservation) (tool op : String) (arguments reason : Json) : Prop where
  tool : tool = res.tool
  op : op = res.op
  arguments : canonical arguments = canonical res.arguments
  reason : canonical reason = canonical res.reason

/-- Two payloads have one text just where they agree, part by part. -/
theorem payload_eq_iff {res : Reservation} {tool op : String} {arguments reason : Json} {text text' : Text}
    (h : canonical (Db.payload tool op arguments reason) = some text)
    (h' : canonical (Db.payload res.tool res.op res.arguments res.reason) = some text') :
    text = text' ↔ Same res tool op arguments reason := by
  obtain ⟨hfin, htext⟩ := Json.canonical_eq_some.1 h
  obtain ⟨hfin', htext'⟩ := Json.canonical_eq_some.1 h'
  have hpart : ∀ {t o : String} {a b : Json}, (Db.payload t o a b).finite = true →
      canonical a = some (dumps .compact a) ∧ canonical b = some (dumps .compact b) := fun hf =>
    ⟨Json.canonical_eq_some.2 ⟨Json.finite_obj.1 hf (py "arguments", _) (by simp), rfl⟩,
      Json.canonical_eq_some.2 ⟨Json.finite_obj.1 hf (py "reason", _) (by simp), rfl⟩⟩
  rw [← htext, ← htext', dumps_payload, dumps_payload]
  constructor
  · intro heq
    rw [List.append_cancel_left_eq] at heq
    obtain ⟨harguments, heq⟩ := Json.dumps_append_inj Json.Style.clean_compact (by trivial) (by trivial) heq
    rw [List.append_cancel_left_eq] at heq
    obtain ⟨hop, heq⟩ := Json.quote_append_inj (Catalog.py_noHigh _) (Catalog.py_noHigh _) heq
    rw [List.append_cancel_left_eq] at heq
    obtain ⟨hreason, heq⟩ := Json.dumps_append_inj Json.Style.clean_compact (by trivial) (by trivial) heq
    rw [List.append_cancel_left_eq] at heq
    obtain ⟨htool, -⟩ := Json.quote_append_inj (Catalog.py_noHigh _) (Catalog.py_noHigh _) heq
    exact ⟨py_injective htool, py_injective hop, by rw [(hpart hfin).1, (hpart hfin').1, harguments],
      by rw [(hpart hfin).2, (hpart hfin').2, hreason]⟩
  · rintro ⟨rfl, rfl, harguments, hreason⟩
    rw [(hpart hfin).1, (hpart hfin').1, Option.some_inj] at harguments
    rw [(hpart hfin).2, (hpart hfin').2, Option.some_inj] at hreason
    rw [harguments, hreason]

/-! ## The answer of the store -/

/-- The submit gets as far as the store looking its key up. -/
def WellFormed (arguments reason key : Json) : Prop :=
  ∃ kvs, arguments = .obj kvs ∧ Lifecycle.Reservable kvs reason key

theorem finite_of_canonical {v : Json} {text : Text} (h : canonical v = some text) : v.finite = true :=
  (Json.canonical_eq_some.1 h).1

theorem payload_of_finite {tool op : String} {arguments reason : Json} (ha : arguments.finite = true)
    (hr : reason.finite = true) : (Db.payload tool op arguments reason).finite = true := by
  refine Json.finite_obj.2 fun kv hkv => ?_
  simp only [List.mem_cons, List.not_mem_nil, or_false] at hkv
  rcases hkv with rfl | rfl | rfl | rfl
  · rfl
  · rfl
  · exact ha
  · exact hr

theorem normalReason_finite {reason : Json} (h : reason = .null ∨ ∃ s, reason = .str s) :
    (Lifecycle.normalReason reason).finite = true := by
  rcases h with rfl | ⟨s, rfl⟩
  · rfl
  · simp only [Lifecycle.normalReason]
    split_ifs <;> rfl

/-- The store refuses a key: the caller is not live, or may not use the operation of its own request any more. -/
def Refuses (caller : Caller) (key : Option PyStr) (db : Db) : Prop :=
  db.live caller.id (some caller) = false ∨ ∃ prior, db.priorRequest caller.id key = some prior ∧
    (db.policyFor caller.id).decide prior.tool prior.op = .deny

/-- A refusal shows what the store found. -/
theorem reserveAction_error {now : Time} {fresh : PyStr} {caller : Caller} {corr : Text} {tool op : String}
    {arguments reason : Json} {generation : Text} {key : Json} {db db' : Db} {e : Exn}
    (h : db.reserveAction H now fresh caller corr tool op arguments reason generation key = (.error e, db')) :
    (e = .permissionError ∧ ∃ k, Db.validateIdempotencyKey key = .ok k ∧ Refuses caller k db) ∨
      e = .valueError ∧
        ¬ ((∃ k, Db.validateIdempotencyKey key = .ok k) ∧ arguments.finite = true ∧ reason.finite = true) := by
  unfold Db.reserveAction at h
  cases hkey : Db.validateIdempotencyKey key with
  | error e' =>
    rw [hkey] at h
    obtain rfl : e' = e := Except.error.inj (Prod.mk.inj h).1
    refine .inr ⟨?_, fun hall => by obtain ⟨⟨k, hk⟩, -⟩ := hall; cases hk⟩
    unfold Db.validateIdempotencyKey at hkey
    split at hkey
    · cases hkey
    · split_ifs at hkey
      exact (Except.error.inj hkey).symm
    · exact (Except.error.inj hkey).symm
  | ok k =>
    rw [hkey] at h
    simp only [ApprovalSummary.boundRequest] at h
    by_cases hfinite : arguments.finite = true ∧ reason.finite = true
    · rw [ApprovalSummary.canonical_of_finite (payload_of_finite hfinite.1 hfinite.2),
        ApprovalSummary.canonical_of_finite (action_of_finite hfinite.1 hfinite.2)] at h
      refine .inl ?_
      cases hlive : db.live caller.id (some caller) with
      | false =>
        simp only [hlive, Bool.not_false, if_true] at h
        exact ⟨(Except.error.inj (Prod.mk.inj h).1).symm, k, rfl, .inl hlive⟩
      | true =>
        simp only [hlive, Bool.not_true, Bool.false_eq_true, if_false] at h
        cases hprior : db.priorRequest caller.id k with
        | none =>
          rw [hprior] at h
          cases (Prod.mk.inj h).1
        | some prior =>
          simp only [hprior] at h
          split_ifs at h with hdeny
          · exact ⟨(Except.error.inj (Prod.mk.inj h).1).symm, k, rfl, .inr ⟨prior, hprior, hdeny⟩⟩
          · cases (Prod.mk.inj h).1
    · refine .inr ⟨?_, fun hall => hfinite hall.2⟩
      split at h
      · rename_i htext hbound
        have hpayload := Json.finite_obj.1 (finite_of_canonical htext)
        have ha : arguments.finite = true := hpayload (py "arguments", arguments) (by simp)
        have hr : reason.finite = true := hpayload (py "reason", reason) (by simp)
        exact absurd ⟨ha, hr⟩ hfinite
      · exact (Except.error.inj (Prod.mk.inj h).1).symm

/-! ## What a thread did before it had a request of its own -/

section Opened
variable {caller : Caller} {key : Json}

/-- The call reserved a new request for this caller under this key. -/
def Call.Opens (caller : Caller) (key : Json) (call : Call) : Prop :=
  ∃ corr tool op arguments reason generation row conflict, call = ⟨call.thread, .reserveAction caller corr tool op
    arguments reason generation key, .ok (row, true, conflict)⟩

/-- All that a thread did, but for idle calls, it did from the reservation of a new request on. -/
def Ordered (i : Nat) (caller : Caller) (key : Json) (log : List Call) : Prop :=
  ∀ new call old, log = new ++ call :: old → call.thread = i → call.idle = false →
    ∃ c ∈ call :: old, c.thread = i ∧ c.Opens caller key

/-- The thread reserved a new request, and was idle before. -/
def Opened (i : Nat) (caller : Caller) (key : Json) (w : World) : Prop :=
  ∃ new call old, w.log = new ++ call :: old ∧ call.thread = i ∧ call.Opens caller key ∧
    ∀ c ∈ old, c.thread = i → c.idle = true

theorem Ordered.of_suffix {log log' : List Call} (h : Ordered i caller key log') (hsuffix : log <:+ log') :
    Ordered i caller key log := by
  obtain ⟨front, rfl⟩ := hsuffix
  rintro new call old rfl
  exact h (front ++ new) call old (List.append_assoc ..).symm

theorem Ordered.cons {log : List Call} {c : Call} (h : Ordered i caller key log) (hc : c.thread ≠ i) :
    Ordered i caller key (c :: log) := by
  intro new call old hlog hcall hidle
  cases new with
  | nil =>
    obtain ⟨rfl, -⟩ := List.cons.inj hlog
    exact absurd hcall hc
  | cons d new => exact h new call old (List.cons.inj hlog).2 hcall hidle

theorem Idle.ordered (h : Idle i w) : Ordered i caller key w.log := by
  intro new call old hlog hcall hidle
  have hmem : call ∈ w.log := hlog ▸ List.mem_append_right _ List.mem_cons_self
  rw [h call hmem hcall] at hidle
  cases hidle

theorem Opened.ordered (h : Opened i caller key w) : Ordered i caller key w.log := by
  obtain ⟨new, first, old, hlog, hfirst, hopens, hold⟩ := h
  intro new' call old' hlog' hcall hidle
  rw [hlog] at hlog'
  rcases List.append_eq_append_iff.1 hlog' with ⟨mid, -, htail⟩ | ⟨mid, -, htail⟩
  · -- the call is the reservation or an older one, and those are idle
    cases mid with
    | nil =>
      obtain ⟨rfl, rfl⟩ := List.cons.inj htail
      exact ⟨first, List.mem_cons_self, hfirst, hopens⟩
    | cons d mid =>
      obtain ⟨-, rfl⟩ := List.cons.inj htail
      rw [hold call (List.mem_append_right _ List.mem_cons_self) hcall] at hidle
      cases hidle
  · refine ⟨first, ?_, hfirst, hopens⟩
    rw [htail]
    exact List.mem_append_right _ List.mem_cons_self

/-- A thread that reserved nothing is idle. -/
theorem Ordered.idle (h : Ordered i caller key w.log) (hnone : ∀ c ∈ w.log, c.thread = i → ¬ c.Opens caller key) :
    Idle i w := by
  intro call hmem hcall
  obtain ⟨new, old, hlog⟩ := List.append_of_mem hmem
  cases hidle : call.idle with
  | true => rfl
  | false =>
    obtain ⟨c, hc, hthread, hopens⟩ := h new call old hlog hcall hidle
    exact absurd hopens (hnone c (hlog ▸ List.mem_append_right _ hc) hthread)

theorem Opened.later (h : Opened i caller key w) (log : List Call) (hlog : w'.log = log ++ w.log) :
    Opened i caller key w' := by
  obtain ⟨new, call, old, hw, hcall, hopens, hold⟩ := h
  exact ⟨log ++ new, call, old, by rw [hlog, hw, List.append_assoc], hcall, hopens, hold⟩

theorem Lasting.opened : Lasting H i (Opened i caller key) where
  stable _ _ hothers hw := by
    obtain ⟨new, hlog, -⟩ := Others.log hothers
    exact hw.later new hlog
  exec _ _ _ _ _ hw := hw.later [_] rfl

/-- The reservation stays in the history of the request, and the row is what it asked for. -/
theorem Call.Opens.reserved {call : Call} (h : call.Opens caller key) (hmem : call ∈ w.log) (hs : w.Sound H) :
    ∃ r row res, w.db.request r = some row ∧ row.callerId = caller.id ∧
      Db.validateIdempotencyKey key = .ok row.idempotencyKey ∧
        (⟨call.thread, .reserved res⟩ : Event) ∈ (w.receipt r).events := by
  obtain ⟨corr, tool, op, arguments, reason, generation, row, conflict, heq⟩ := h
  have hevent : (⟨call.thread, .reserved ⟨caller, tool, op, arguments, reason, generation, key⟩⟩ : Event) ∈
      (w.receipt row.id).events := by
    refine List.mem_filterMap.2 ⟨call, hmem, ?_⟩
    rw [heq]
    simp [Call.about, Call.act]
  have hsound := hs.current.receipts row.id
  cases hrow : w.db.requests.get? row.id with
  | none =>
    have hnone : (w.receipt row.id).events = [] := (hsound.absent hrow).2
    rw [hnone] at hevent
    cases hevent
  | some row' =>
    have hres : Reserved H _ row' := (hsound.row hrow).reserved_of_mem hevent
    exact ⟨row.id, row', _, hrow, hres.callerId, hres.key, hevent⟩

end Opened

/-! ## The answer of a submit -/

def Recognised (requestId : Nat) (out : Outcome) : Prop := out.requestId = some requestId ∧ out.reused = true

def Conflicting (requestId : Nat) (out : Outcome) : Prop :=
  out.status = .conflict ∧ out.requestId = some requestId ∧ out.error = some "idempotency_conflict"

def Unauthorised (out : Outcome) : Prop :=
  out.status = .denied ∧ out.requestId = none ∧ out.reason = some "authority"

/-- Thread `i` asked for a reservation under the key and was refused. -/
def Refused (i : Nat) (caller : Caller) (key : Json) (w : World) : Prop :=
  ∃ corr tool op arguments reason generation, (⟨i, .reserveAction caller corr tool op arguments reason generation
    key, .error .permissionError⟩ : Call) ∈ w.log

/-- The request under the key of the submit, and whether it was reserved for this payload. -/
structure Stands (H : Hash) (caller : Caller) (tool op : String) (arguments reason key : Json) (cl : Claim)
    (same : Bool) (w : World) : Prop where
  claim : ∃ k, Db.validateIdempotencyKey key = .ok (some k) ∧ w.db.claimUnder caller.id k = some cl
  payload : ∃ text, canonical (Db.payload tool op arguments reason) = some text ∧
    same = decide (cl.digest = some (H.digest text))

/-- What a submit under a key returns that reserved no request of its own. -/
def KeyAnswer (H : Hash) (i : Nat) (caller : Caller) (tool op : String) (arguments reason key : Json)
    (out : Outcome) (w : World) : Prop :=
  (¬ WellFormed arguments reason key ∧ out.status = .invalid) ∨
  (Unauthorised out ∧ Refused i caller key w) ∨
  ∃ cl same, Stands H caller tool op arguments (Lifecycle.normalReason reason) key cl same w ∧
    if same then Recognised cl.id out else Conflicting cl.id out

theorem Kept.of_exec {P : World → Prop} (hexec : ∀ {j o w} ω, P w → P (World.exec H j o ω w).2)
    (henv : ∀ e w, P w → P (EnvMove.apply e w)) : Kept H i P :=
  ⟨(Lasting.of_exec hexec henv).stable, fun ω _ hw => hexec ω hw⟩

theorem Kept.stands {caller : Caller} {tool op : String} {arguments reason key : Json} {cl : Claim} {same : Bool} :
    Kept H i (Stands H caller tool op arguments reason key cl same) :=
  .of_exec (fun _ h => ⟨h.claim.imp fun _ hk => ⟨hk.1, exec_claim hk.2⟩, h.payload⟩) fun e w h =>
    ⟨h.claim.imp fun _ hk => ⟨hk.1, (Db.claimUnder_of_requests (congrArg Db.requests (e.apply_db w))).trans hk.2⟩,
      h.payload⟩

/-- The answer of the reservation, as thread `i` gets it. -/
def Asked (H : Hash) (i : Nat) (caller : Caller) (tool op : String) (arguments reason key : Json) (w : World) :
    Except Exn (Row × Bool × Bool) → Prop
  | .error e => Idle i w ∧ ((e = .permissionError ∧ Refused i caller key w) ∨ e = .valueError ∧
      ¬ ((∃ k, Db.validateIdempotencyKey key = .ok k) ∧ arguments.finite = true ∧ reason.finite = true))
  | .ok (req, created, conflict) =>
    if created then Opened i caller key w
    else Idle i w ∧ Stands H caller tool op arguments reason key req.claim (!conflict) w

theorem triple_asked {E : Exn → World → Prop} {caller : Caller} {corr : Text} {tool op : String}
    {arguments reason : Json} {generation : Text} {key : Json} :
    (discipline H).Triple i (Idle i) (perform (.reserveAction caller corr tool op arguments reason generation key))
      (fun answer w => Asked H i caller tool op arguments reason key w answer) E := by
  refine triple_perform Kept.idle (fun w _ hw r res => hw.no_event _) fun w ω _ hw => ?_
  have hidle : ∀ {answer : Except Exn (Row × Bool × Bool)}, ((Op.reserveAction caller corr tool op arguments reason
      generation key).run H ω w).1 = answer → Call.idle ⟨i, .reserveAction caller corr tool op arguments reason
      generation key, answer⟩ = true → Idle i (w.exec H i (.reserveAction caller corr tool op arguments reason
      generation key) ω).2 := fun hanswer hcall => hw.exec (by rw [hanswer]; exact hcall)
  have hrun : (Op.reserveAction caller corr tool op arguments reason generation key).run H ω w =
      w.db.reserveAction H ω.now ω.hex caller corr tool op arguments reason generation key := rfl
  rcases reserveAction_cases H ω.now ω.hex caller corr tool op arguments reason generation key w.db with
    ⟨e, hdb⟩ | ⟨k', text, prior, hkey, htext, -, hprior, -, hdb⟩ | ⟨k', text, bound, -, -, -, -, -, hdb⟩
  · have hanswer := congrArg Prod.fst (hrun.trans hdb)
    rw [hanswer]
    refine ⟨hidle hanswer rfl, (reserveAction_error hdb).imp (fun h => ⟨h.1, ?_⟩) fun h => h⟩
    refine ⟨corr, tool, op, arguments, reason, generation, ?_⟩
    have hlast : (⟨i, .reserveAction caller corr tool op arguments reason generation key,
        ((Op.reserveAction caller corr tool op arguments reason generation key).run H ω w).1⟩ : Call) ∈
        (w.exec H i (.reserveAction caller corr tool op arguments reason generation key) ω).2.log :=
      List.mem_cons_self ..
    rwa [hanswer, h.1] at hlast
  · have hanswer := congrArg Prod.fst (hrun.trans hdb)
    rw [hanswer]
    cases k' with
    | none => cases hprior
    | some k =>
      refine ⟨hidle hanswer rfl, ⟨k, hkey, exec_claim (by rw [Db.claimUnder, hprior]; rfl)⟩, text, htext, ?_⟩
      rw [decide_not, Bool.not_not]
      exact decide_eq_decide.2 Iff.rfl
  · have hanswer := congrArg Prod.fst (hrun.trans hdb)
    rw [hanswer]
    have hlog : (w.exec H i (.reserveAction caller corr tool op arguments reason generation key) ω).2.log =
        ⟨i, .reserveAction caller corr tool op arguments reason generation key,
          ((Op.reserveAction caller corr tool op arguments reason generation key).run H ω w).1⟩ :: w.log := rfl
    rw [hanswer] at hlog
    exact ⟨[], _, w.log, hlog, rfl, ⟨corr, tool, op, arguments, reason, generation, _, _, rfl⟩, hw⟩

/-- A program that never raises ends in its postcondition. -/
theorem triple_of_returns {α : Type} {P : World → Prop} {p : Action α} {Q : α → World → Prop}
    {E E' : Exn → World → Prop} (h : (discipline H).Triple i P p Q E) (hp : p.Returns) :
    (discipline H).Triple i P p Q E' := by
  intro w hs hw
  have hwp := h w hs hw
  clear h hw
  induction p generalizing w with
  | ret a => exact hwp
  | raise e => cases hp
  | call o k ih =>
    intro w' hothers hs'
    obtain ⟨hreq, hk⟩ := hwp w' hothers hs'
    exact ⟨hreq, fun ω => ih _ (hp _) _ ((discipline H).exec_inv ω hs' hreq) (hk ω)⟩

namespace Lifecycle

variable {ctx : Context} {caller : Caller} {tool op : String} {corr : Text} {reason key : Json}

/-- What a submit leaves: a request of its own, or an answer about the one under its key. -/
def Concludes (H : Hash) (i : Nat) (caller : Caller) (tool op : String) (arguments reason key : Json)
    (out : Outcome) (w : World) : Prop :=
  Opened i caller key w ∨ Idle i w ∧ (key ≠ .null → KeyAnswer H i caller tool op arguments reason key out w)

theorem Reservable.of_wellFormed {kvs : List (PyStr × Json)} (h : WellFormed (.obj kvs) reason key) :
    Reservable kvs reason key := by
  obtain ⟨kvs', heq, h⟩ := h
  exact Json.obj.inj heq ▸ h

theorem afterReservation_concludes {t : Option ToolOp} {kvs : List (PyStr × Json)}
    {answer : Except Exn (Row × Bool × Bool)} {valid : Option PyStr} {res : Reservation}
    (hkey : Db.validateIdempotencyKey key = .ok valid) (hreason : reason = .null ∨ ∃ s, reason = .str s)
    (htool : res.tool = tool) (hop : res.op = op) (hargs : res.arguments = .obj kvs) :
    (discipline H).Triple i
      (fun w => (Reserved.Answer i res w answer ∧ (⟨i, .lookup ctx.broker tool op, t⟩ : Call) ∈ w.log) ∧
        Asked H i caller tool op (.obj kvs) (normalReason reason) key w answer)
      (afterReservation ctx caller tool op t kvs corr (normalReason reason) key answer)
      (Concludes H i caller tool op (.obj kvs) reason key) (fun _ => Opened i caller key) := by
  cases answer with
  | error e =>
    intro w hs hw
    obtain ⟨-, hidle, ⟨rfl, hrefused⟩ | ⟨rfl, hbad⟩⟩ := hw
    · exact .inr ⟨hidle, fun _ => .inr (.inl ⟨⟨rfl, rfl, rfl⟩, hrefused⟩)⟩
    · refine .inr ⟨hidle, fun _ => .inl ⟨fun hformed => hbad ?_, rfl⟩⟩
      have hres := Reservable.of_wellFormed hformed
      exact ⟨hres.key, hres.finite, normalReason_finite hres.reason⟩
  | ok answer =>
    obtain ⟨req, created, conflict⟩ := answer
    cases created with
    | true =>
      exact (Lasting.opened.triple (afterReservation_spec hkey hreason htool hop hargs)).conseq
        (fun _ _ h => ⟨h.1, h.2⟩) (fun _ _ _ h => .inl h.2) fun _ _ _ h => h.2
    | false =>
      cases conflict with
      | true =>
        intro w hs hw
        obtain ⟨-, hidle, hstands⟩ := hw
        exact .inr ⟨hidle, fun _ => .inr (.inr ⟨_, _, hstands, rfl, rfl, rfl⟩)⟩
      | false =>
        refine .conseq (.bind (triple_quiet (Kept.idle.and Kept.stands) rfl) fun approval => .ret fun w _ h => ?_)
          (fun _ _ h => h.2) (fun _ _ _ h => h) fun _ _ _ h => h
        exact .inr ⟨h.1, fun _ => .inr (.inr ⟨_, _, h.2, rfl, rfl⟩)⟩

theorem submitValid_concludes {arguments : Json} {valid : Option PyStr}
    (hkey : Db.validateIdempotencyKey key = .ok valid) :
    (discipline H).Triple i (Idle i) (submitValid ctx caller tool op arguments corr reason key)
      (Concludes H i caller tool op arguments reason key) (fun _ => Opened i caller key) := by
  refine .bind (triple_of_returns sweepExpired_idle Framings.returns_sweepExpired) fun _ => ?_
  refine .bind (Q := fun (t : Option ToolOp) w => Idle i w ∧
    (⟨i, .lookup ctx.broker tool op, t⟩ : Call) ∈ w.log) (triple_perform Kept.idle
      (fun _ _ _ => trivial) fun w ω _ hw => ⟨Kept.idle.quiet ω rfl hw, List.mem_cons_self ..⟩)
      fun t => ?_
  split_ifs with hnull
  · refine .bind (triple_quiet (Kept.idle.and (.logged _)) rfl) fun _ => .ret fun _ _ h => .inr ⟨h.1, fun hne => ?_⟩
    rw [Bool.and_eq_true] at hnull
    split at hnull
    · exact absurd rfl hne
    · cases hnull.2
  · have hreserve : ∀ kvs, (discipline H).Triple i
        (fun w => Idle i w ∧ (⟨i, .lookup ctx.broker tool op, t⟩ : Call) ∈ w.log)
        (perform (.reserveAction caller corr tool op (.obj kvs) (normalReason reason)
          ((t.map (·.generation)).getD []) key))
        (fun answer w => (Reserved.Answer i ⟨caller, tool, op, .obj kvs, normalReason reason,
          (t.map (·.generation)).getD [], key⟩ w answer ∧ (⟨i, .lookup ctx.broker tool op, t⟩ : Call) ∈ w.log) ∧
            Asked H i caller tool op (.obj kvs) (normalReason reason) key w answer)
        (fun _ => Opened i caller key) := fun kvs =>
      (((Lasting.logged _).triple (triple_reserveAction (E := fun _ _ => False))).and
        ((triple_asked (E := fun _ _ => False)).conseq (fun _ _ h => h.1) (fun _ _ _ h => h)
          fun _ _ _ h => h)).conseq (fun _ _ h => h) (fun _ _ _ h => h) fun _ _ _ h => h.2.elim
    split
    · exact .bind (hreserve _) fun answer => afterReservation_concludes hkey (.inl rfl) rfl rfl rfl
    · exact .bind (hreserve _) fun answer => afterReservation_concludes hkey (.inr ⟨_, rfl⟩) rfl rfl rfl
    · rename_i hnot hnot'
      refine .ret fun _ _ h => .inr ⟨h.1, fun _ => .inl ⟨fun hformed => ?_, rfl⟩⟩
      obtain ⟨kvs, rfl, hres⟩ := hformed
      rcases hres.reason with rfl | ⟨s, rfl⟩
      · exact hnot kvs rfl rfl
      · exact hnot' kvs s rfl rfl

theorem submit_concludes {arguments : Json} :
    (discipline H).Triple i (Idle i) (submit ctx caller tool op arguments corr reason key)
      (Concludes H i caller tool op arguments reason key) (fun _ => Opened i caller key) := by
  unfold submit
  cases hkey : Db.validateIdempotencyKey key with
  | error e =>
    refine .ret fun _ _ h => .inr ⟨h, fun _ => .inl ⟨fun hformed => ?_, rfl⟩⟩
    obtain ⟨kvs, -, hres⟩ := hformed
    obtain ⟨k, hk⟩ := hres.key
    cases hkey.symm.trans hk
  | ok k => exact .bind (submitValid_concludes hkey) fun _ => .ret fun _ _ h => h

end Lifecycle

end Toolstack.Broker
