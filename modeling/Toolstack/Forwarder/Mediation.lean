import Toolstack.Forwarder.Confinement
import Toolstack.Forwarder.RuleErrors
import Toolstack.Forwarder.Secrets
import Toolstack.Forwarder.Server

/-! What a POST to the forwarder can do: in whose name, in which order, and what its reply says. -/

namespace Toolstack.Forwarder.Server

open Url
open Interleave (Prog Answered)
open Interleave.Prog
open Rules

variable (netlocOk : PyStr → Bool) (H : Host)

abbrev Calls := List (Answered Op Op.Ret)

/-! ## Who is heard -/

/-- The request is for the one path and presents the channel credential, which is set and ASCII. -/
structure Admitted (S : Setup) (req : Request) : Prop where
  path : req.path = py "/sendrequest"
  set : S.channelSecret ≠ []
  ascii : isAscii S.channelSecret = true
  presented : ∃ text, req.header? H (py "x-toolstack-secret") = some text ∧ strip text = S.channelSecret

/-- The operation and the arguments that the bytes of a body ask for. -/
def Asked (raw : Bytes) (opName : PyStr) (arguments : Json) : Prop :=
  ∃ kvs, H.loadsBytes raw = .ok (.obj kvs) ∧ Json.find? kvs (py "op") = some (.str opName) ∧
    arguments = (Json.find? kvs (py "arguments")).getD (.obj [])

/-! ## What is received -/

/-- The bytes that the calls brought from upstream. -/
def received : Calls → Bytes
  | [] => []
  | ⟨.recv _, .ok chunk⟩ :: calls => chunk ++ received calls
  | _ :: calls => received calls

/-- Reads of at least one byte that never ask past `maxBody + 1`; what they give is all that arrived. -/
structure Received (maxBody : Nat) (sofar : Bytes) (result : Except Uncaught (Option Bytes)) (calls : Calls) : Prop where
  asks : ∀ pre c post, calls = pre ++ c :: post → ∃ size, c.1 = .recv size ∧ 0 < size ∧ size ≤ 65536 ∧
    (sofar ++ received pre).length + size ≤ maxBody + 1
  whole : ∀ body, result = .ok (some body) → body = sofar ++ received calls ∧ body.length ≤ maxBody
  excess : result = .ok none → maxBody < (sofar ++ received calls).length

/-! ## What is written -/

def accepted (write : PyStr × PyStr) : Answered Op Op.Ret := ⟨.writeback write, .ok ()⟩

/-- The ways the rules of an operation end on a response: not one write, where a rule gives no value or
a spec is no number; the writes of all matching rules in their order; or these up to the first that fails. -/
inductive Updated (op : Operation) (r : Response) : Except Uncaught (Except RuleError Unit) → Calls → Prop
  | unreadable (e : Exc) :
    (¬∀ rule ∈ op.secretUpdateRules, Readable H.toLibraries r.status (rule.matchStatus.splitOn (ch '|'))) →
    Updated op r (.error (.exc e)) []
  | refused (e : RuleError) (rule : SecretUpdateRule) : rule ∈ matched H.toLibraries op r.status →
    (¬∃ write, Extracts H.toLibraries r.body rule write) → Explains H.toLibraries rule e →
    Updated op r (.ok (.error e)) []
  | done (writes : List (PyStr × PyStr)) :
    List.Forall₂ (Extracts H.toLibraries r.body) (matched H.toLibraries op r.status) writes →
    Updated op r (.ok (.ok ())) (writes.map accepted)
  | stopped (pre : List (PyStr × PyStr)) (write : PyStr × PyStr) (post : List (PyStr × PyStr)) (e : Exc) :
    List.Forall₂ (Extracts H.toLibraries r.body) (matched H.toLibraries op r.status) (pre ++ write :: post) →
    Updated op r (.ok (.error ⟨"secret_update_failed", e.name, some write.1⟩))
      (pre.map accepted ++ [⟨.writeback write, .error e⟩])

/-! ## What goes out -/

/-- The method and the URL are the operation's, and a loaded configuration confines the URL. -/
structure Addressed (S : Setup) (op : Operation) (args : Table) (out : OutboundRequest) : Prop where
  method : out.method = op.verb.name
  url : buildUrl netlocOk S.config op args = .ok out.url
  confined : ∀ data, loadConfig netlocOk data = .ok S.config →
    Confined netlocOk S.config op (callerVariables args) out.url

/-- The read of a secret that the operation refers to and allows. -/
def MayGet (op : Operation) (c : Answered Op Op.Ret) : Prop := ∃ name, c.1 = .get name ∧ op.MayRead ⟨name⟩

/-- The reply after the rules. -/
def conclude (op : Operation) (r : Response) : Except Uncaught (Except RuleError Unit) → Except Uncaught Reply
  | .ok (.ok ()) => .ok ⟨200, (redactResponse H op r).envelope⟩
  | .ok (.error e) => .ok ⟨502, ruleEnvelope e⟩
  | .error e => .error e

/-- A call of an operation: the secrets, one request, the response in bounded reads, the writebacks. -/
inductive Forwarded (S : Setup) (op : Operation) (args : Table) : Except Uncaught Reply → Calls → Prop
  | unbuilt (gets : Calls) (result : Except Uncaught Reply) : (∀ c ∈ gets, MayGet op c) →
    (∀ reply, result = .ok reply → reply.status ∈ [400, 404]) → Forwarded S op args result gets
  | unanswered (gets : Calls) (out : OutboundRequest) (opened : Opened) (result : Except Uncaught Reply) :
    (∀ c ∈ gets, MayGet op c) → Addressed netlocOk S op args out →
    (∀ status headers, opened ≠ .response status headers) →
    (∀ reply, result = .ok reply → ∃ reason host, opened = .unreachable reason ∧
      hostname netlocOk H out.url = .ok host ∧ reply = ⟨502, unreachable host reason⟩) →
    Forwarded S op args result (gets ++ [⟨.send out, opened⟩])
  | cutOff (gets : Calls) (out : OutboundRequest) (status : Int) (headers : List (PyStr × PyStr)) (recvs : Calls)
    (got : Except Uncaught (Option Bytes)) (result : Except Uncaught Reply) :
    (∀ c ∈ gets, MayGet op c) → Addressed netlocOk S op args out → Received S.maxBody [] got recvs →
    (∀ body, got ≠ .ok (some body)) → (∀ reply, result = .ok reply → reply = ⟨502, tooLarge S.maxBody⟩) →
    Forwarded S op args result (gets ++ ⟨.send out, .response status headers⟩ :: recvs)
  | answered (gets : Calls) (out : OutboundRequest) (status : Int) (headers : List (PyStr × PyStr)) (recvs : Calls)
    (body : Bytes) (updated : Except Uncaught (Except RuleError Unit)) (writes : Calls) :
    (∀ c ∈ gets, MayGet op c) → Addressed netlocOk S op args out → Received S.maxBody [] (.ok (some body)) recvs →
    Updated H op ⟨status, cleanHeaders H headers, H.decodeReplace body⟩ updated writes →
    Forwarded S op args (conclude H op ⟨status, cleanHeaders H headers, H.decodeReplace body⟩ updated)
      (gets ++ ⟨.send out, .response status headers⟩ :: (recvs ++ writes))

/-- Every run of a POST: nothing is called for a caller that is not admitted; a body that asks for nothing
is read at most; a refresh is the one call that is asked for; all else is a call of an operation. -/
inductive Handled (S : Setup) (req : Request) : Except Uncaught Reply → Calls → Prop
  | denied (reply : Reply) : ¬Admitted H S req → reply.status ∈ [401, 404] → Handled S req (.ok reply) []
  | malformed (reads : Calls) (result : Except Uncaught Reply) : Admitted H S req → reads.length ≤ 1 →
    (∀ c ∈ reads, ∃ n ≤ S.envelopeMax, c.1 = .read n) →
    (∀ reply, result = .ok reply → reply.status ∈ [400, 404, 413]) → Handled S req result reads
  | refreshedAll (n : Nat) (raw : Bytes) (arguments : Json) (r : Except Exc Unit) (result : Except Uncaught Reply) :
    Admitted H S req → n ≤ S.envelopeMax → Asked H raw (py "refresh") arguments →
    (∀ reply, result = .ok reply → reply = statusOk ∧ r = .ok ()) →
    Handled S req result [⟨.read n, .ok raw⟩, ⟨.refreshAll, r⟩]
  | refreshed (n : Nat) (raw : Bytes) (args : Table) (name : PyStr) (r : Except Exc Unit)
    (result : Except Uncaught Reply) : Admitted H S req → n ≤ S.envelopeMax →
    Asked H raw (py "refresh_one") (.obj args) → Json.find? args (py "name") = some (.str name) →
    (∀ reply, result = .ok reply → reply = statusOk ∧ r = .ok () ∨ reply.status = 404 ∧ r ≠ .ok ()) →
    Handled S req result [⟨.read n, .ok raw⟩, ⟨.refresh name, r⟩]
  | forwarded (n : Nat) (raw : Bytes) (opName : PyStr) (args : Table) (op : Operation)
    (result : Except Uncaught Reply) (calls : Calls) : Admitted H S req → n ≤ S.envelopeMax →
    Asked H raw opName (.obj args) → S.config.operation? opName = some op → Forwarded netlocOk H S op args result calls →
    Handled S req result (⟨.read n, .ok raw⟩ :: calls)

/-! ## The reads -/

theorem trace_readCapped {maxBody : Nat} (body : Bytes) (hbody : body.length ≤ maxBody) :
    (readCapped maxBody body).Trace (Received maxBody body) := by
  induction hn : maxBody + 1 - body.length using Nat.strong_induction_on generalizing body with
  | _ n ih =>
    rw [readCapped]
    have hfirst : ∀ r : Except Exc Bytes, ∀ pre c post,
        [(⟨.recv (min 65536 (maxBody + 1 - body.length)), r⟩ : Answered Op Op.Ret)] = pre ++ c :: post →
        ∃ size, c.1 = .recv size ∧ 0 < size ∧ size ≤ 65536 ∧ (body ++ received pre).length + size ≤ maxBody + 1 := by
      intro r pre c post heq
      cases pre with
      | nil =>
        obtain ⟨rfl, -⟩ := List.cons.inj heq
        exact ⟨_, rfl, by omega, by omega, by simp only [received, List.append_nil]; omega⟩
      | cons _ pre => simp at heq
    intro r
    cases r with
    | error e => exact ⟨hfirst _, (fun _ h => by cases h), (fun h => by cases h)⟩
    | ok chunk =>
      cases chunk with
      | nil =>
        refine ⟨hfirst _, fun out h => ?_, fun h => by cases h⟩
        obtain rfl := Option.some.inj (Except.ok.inj h)
        exact ⟨by simp [received], hbody⟩
      | cons b chunk =>
        show Trace (if maxBody < (body ++ b :: chunk).length then _ else _) _
        split_ifs with hover
        · refine ⟨hfirst _, (fun _ h => by cases h), fun _ => ?_⟩
          simpa [received] using hover
        · have hle : (body ++ b :: chunk).length ≤ maxBody := Nat.le_of_not_lt hover
          have hless : maxBody + 1 - (body ++ b :: chunk).length < n := by
            rw [List.length_append, List.length_cons] at *
            omega
          refine (ih _ hless _ hle rfl).mono fun result calls h => ?_
          refine ⟨fun pre c post heq => ?_, fun out hout => ?_, fun hnone => ?_⟩
          · cases pre with
            | nil => exact hfirst _ [] c [] (by rw [(List.cons.inj heq).1]; rfl)
            | cons d pre =>
              obtain ⟨rfl, hcalls⟩ := List.cons.inj heq
              have hask := h.asks pre c post hcalls
              rwa [List.append_assoc] at hask
          · have hwhole := h.whole out hout
            rwa [List.append_assoc] at hwhole
          · have hlong := h.excess hnone
            rwa [List.append_assoc] at hlong

/-! ## The writes -/

theorem trace_writeEach (writes : List (PyStr × PyStr)) : (writeEach writes).Trace fun result calls =>
    (result = .ok (.ok ()) ∧ calls = writes.map accepted) ∨ ∃ pre write post e, writes = pre ++ write :: post ∧
      result = .ok (.error ⟨"secret_update_failed", e.name, some write.1⟩) ∧
      calls = pre.map accepted ++ [⟨.writeback write, .error e⟩] := by
  induction writes with
  | nil => exact .inl ⟨rfl, rfl⟩
  | cons write writes ih =>
    intro r
    cases r with
    | error e => exact .inr ⟨[], write, writes, e, rfl, rfl, rfl⟩
    | ok u =>
      refine ih.mono fun result calls h => ?_
      rcases h with ⟨hresult, hcalls⟩ | ⟨pre, w, post, e, rfl, hresult, hcalls⟩
      · exact .inl ⟨hresult, by rw [hcalls]; rfl⟩
      · exact .inr ⟨write :: pre, w, post, e, rfl, hresult, by rw [hcalls]; rfl⟩

theorem trace_applySecretUpdateRules (op : Operation) (r : Response) :
    (applySecretUpdateRules H op r).Trace (Updated H op r) := by
  unfold applySecretUpdateRules
  rcases matching_eq H.toLibraries r.status op.secretUpdateRules with ⟨-, hmatching⟩ | ⟨hunread, hmatching⟩
  · have hmatched : matching H.toLibraries r.status op.secretUpdateRules = .ok (matched H.toLibraries op r.status) :=
      hmatching
    rw [hmatched]
    dsimp only
    cases hextract : (matched H.toLibraries op r.status).mapM (extractOne H.toLibraries r.body) with
    | error e =>
      obtain ⟨rule, hrule, hfail⟩ := Fallible.mapM_error hextract
      have hno : ¬∃ write, Extracts H.toLibraries r.body rule write := by
        rintro ⟨write, hwrite⟩
        rw [(extractOne_ok _).2 hwrite] at hfail
        cases hfail
      have htells := fails_extractOne r.body rule e hfail
      cases e with
      | rule e => exact .refused e rule hrule hno htells
      | exc e => exact .refused _ rule hrule hno ⟨rfl, .inr ⟨e, htells, rfl⟩, .inl rfl⟩
    | ok writes =>
      have hwrites := Fallible.mapM_ok (R := Extracts H.toLibraries r.body) (fun _ _ hx => (extractOne_ok _).1 hx) hextract
      refine (trace_writeEach writes).mono fun result calls h => ?_
      rcases h with ⟨rfl, rfl⟩ | ⟨pre, write, post, e, rfl, rfl, rfl⟩
      · exact .done writes hwrites
      · exact .stopped pre write post e hwrites
  · rw [hmatching]
    exact .unreadable _ hunread

/-! ## The request -/

theorem trace_pureStep {α : Type} (x : Except BuildError α) :
    (pureStep x).Trace fun result calls => result = x ∧ calls = [] := by
  cases x <;> exact ⟨rfl, rfl⟩

theorem trace_buildRequest {config : RestConfig} {opName : PyStr} {op : Operation}
    (hop : config.operation? opName = some op) (args : Table) (maxBody : Nat) :
    (buildRequest netlocOk config opName (.obj args) maxBody).Trace fun result calls =>
      (∀ c ∈ calls, op.MayRead c.1) ∧ ∀ out, result = .ok out →
        out.method = op.verb.name ∧ buildUrl netlocOk config op args = .ok out.url := by
  refine (all_buildRequest hop (.obj args) maxBody).trace ?_
  unfold buildRequest
  dsimp only
  rw [hop]
  refine (trace_pureStep (buildUrl netlocOk config op args)).bind (fun e _ _ out hout => by cases hout) ?_
  rintro url calls ⟨hurl, -⟩
  refine (Trace.always (buildHeaders op args)).bind (fun e _ _ out hout => by cases hout) fun headers _ _ => ?_
  refine (Trace.always (buildBody op args maxBody)).bind (fun e _ _ out hout => by cases hout) fun body _ _ => ?_
  intro out hout
  obtain rfl := Except.ok.inj hout
  exact ⟨rfl, hurl.symm⟩

/-- The calls of the builder, as the handler makes them. -/
def asGets (calls : List (Answered Get fun _ => Option PyStr)) : Calls :=
  calls.map fun c => ⟨.get c.1.name, c.2⟩

theorem trace_build {S : Setup} {opName : PyStr} {op : Operation} (hop : S.config.operation? opName = some op)
    (args : Table) :
    ((buildRequest netlocOk S.config opName (.obj args) S.maxBody).handle fun o => ask (.get o.name)).Trace
      fun result gets => (∀ c ∈ gets, MayGet op c) ∧ ∃ r, result = .ok r ∧
        ∀ out, r = .ok out → Addressed netlocOk S op args out := by
  refine ((trace_buildRequest netlocOk hop args S.maxBody).handle (T := fun calls gets => gets = asGets calls) rfl ?_).mono ?_
  · intro o r
    refine ⟨r, rfl, ?_⟩
    rintro calls after rfl
    rfl
  · rintro result gets ⟨r, calls, hresult, ⟨hreads, hout⟩, rfl⟩
    refine ⟨fun c hc => ?_, r, hresult, fun out hr => ?_⟩
    · obtain ⟨o, ho, rfl⟩ := List.mem_map.1 hc
      exact ⟨o.1.name, rfl, hreads o ho⟩
    · obtain ⟨hmethod, hurl⟩ := hout out hr
      refine ⟨hmethod, hurl, fun data hload => ?_⟩
      obtain ⟨⟨base, hbase, hproper, -⟩, hops⟩ := loadConfig_ok hload
      exact buildUrl_confined hbase hproper (hops op (List.mem_of_find?_eq_some hop)) hurl

/-! ## One operation -/

theorem trace_send (out : OutboundRequest) (maxBody : Nat) : (send netlocOk H out maxBody).Trace fun result calls =>
    (∃ opened, (∀ status headers, opened ≠ .response status headers) ∧ calls = [⟨.send out, opened⟩] ∧
      ∀ r, result = .ok r → ∃ reason host, opened = .unreachable reason ∧ hostname netlocOk H out.url = .ok host ∧
        r = .error (unreachable host reason)) ∨
    ∃ status headers recvs got, calls = ⟨.send out, .response status headers⟩ :: recvs ∧ Received maxBody [] got recvs ∧
      ((∃ body, got = .ok (some body) ∧ result = .ok (.ok ⟨status, cleanHeaders H headers, H.decodeReplace body⟩)) ∨
        (∀ body, got ≠ .ok (some body)) ∧ ∀ r, result = .ok r → r = .error (tooLarge maxBody)) := by
  intro opened
  cases opened with
  | raised e => exact .inl ⟨_, (fun _ _ h => by cases h), rfl, fun _ h => by cases h⟩
  | unreachable reason =>
    dsimp only
    cases hhost : hostname netlocOk H out.url with
    | error e => exact .inl ⟨_, (fun _ _ h => by cases h), rfl, fun _ h => by cases h⟩
    | ok host =>
      refine .inl ⟨_, (fun _ _ h => by cases h), rfl, fun r h => ⟨reason, host, rfl, rfl, ?_⟩⟩
      exact (Except.ok.inj h).symm
  | response status headers =>
    refine (trace_readCapped [] (Nat.zero_le _)).bind ?_ ?_
    · intro e calls h
      exact .inr ⟨status, headers, calls, _, rfl, h, .inr ⟨(fun _ hb => by cases hb), fun _ hr => by cases hr⟩⟩
    · intro body calls h
      refine .inr ⟨status, headers, calls, _, by rw [List.append_nil], h, ?_⟩
      cases body with
      | none => exact .inr ⟨(fun _ hb => by cases hb), fun _ hr => (Except.ok.inj hr).symm⟩
      | some body => exact .inl ⟨body, rfl, rfl⟩

theorem trace_forward {S : Setup} {opName : PyStr} {op : Operation} (hop : S.config.operation? opName = some op)
    (args : Table) : (forward netlocOk H S opName (.obj args)).Trace (Forwarded netlocOk H S op args) := by
  unfold forward
  refine (trace_build netlocOk hop args).bind ?_ ?_
  · rintro e gets ⟨-, r, hr, -⟩
    cases hr
  · rintro r gets ⟨hgets, r', hr, hout⟩
    obtain rfl := Except.ok.inj hr
    rcases r with e | out
    · have hunbuilt : ∀ result : Except Uncaught Reply, (∀ reply, result = .ok reply → reply.status ∈ [400, 404]) →
          Forwarded netlocOk H S op args result (gets ++ []) := by
        intro result h
        rw [List.append_nil]
        exact .unbuilt gets result hgets h
      cases e with
      | request code detail fields =>
        refine hunbuilt _ fun reply hreply => ?_
        obtain rfl := Except.ok.inj hreply
        by_cases hcode : code = "unknown_op" <;> simp [hcode]
      | unicodeEncode => exact hunbuilt _ fun _ h => by cases h
      | badUrl => exact hunbuilt _ fun _ h => by cases h
    · have haddressed := hout out rfl
      refine (trace_send netlocOk H out S.maxBody).bind ?_ ?_
      · rintro e calls (⟨opened, hopened, rfl, -⟩ | ⟨status, headers, recvs, got, rfl, hrecvs, hcase⟩)
        · exact .unanswered gets out opened _ hgets haddressed hopened fun _ h => by cases h
        · rcases hcase with ⟨body, -, h⟩ | ⟨hgot, -⟩
          · cases h
          · exact .cutOff gets out status headers recvs got _ hgets haddressed hrecvs hgot fun _ h => by cases h
      · rintro sent calls (⟨opened, hopened, rfl, hsent⟩ | ⟨status, headers, recvs, got, rfl, hrecvs, hcase⟩)
        · obtain ⟨reason, host, rfl, hhost, rfl⟩ := hsent sent rfl
          refine .unanswered gets out _ _ hgets haddressed hopened fun reply h => ⟨reason, host, rfl, hhost, ?_⟩
          exact (Except.ok.inj h).symm
        · rcases hcase with ⟨body, rfl, h⟩ | ⟨hgot, hsent⟩
          · obtain rfl := Except.ok.inj h
            dsimp only
            rw [hop]
            refine (trace_applySecretUpdateRules H op _).bind ?_ ?_
            · intro e writes h
              exact .answered gets out status headers recvs body _ writes hgets haddressed hrecvs h
            · intro updated writes h
              have hdone := Forwarded.answered gets out status headers recvs body _ writes hgets haddressed hrecvs h
              rw [← List.append_nil writes] at hdone
              cases updated <;> exact hdone
          · obtain rfl := hsent sent rfl
            have hcut := Forwarded.cutOff gets out status headers recvs got (.ok ⟨502, tooLarge S.maxBody⟩) hgets
              haddressed hrecvs hgot (H := H) fun reply h => (Except.ok.inj h).symm
            rw [← List.append_nil recvs] at hcut
            exact hcut

/-! ## One POST -/

theorem admitted_iff {S : Setup} {req : Request} :
    Admitted H S req ↔ req.path = py "/sendrequest" ∧ verifyChannelSecret H S req = none := by
  unfold verifyChannelSecret
  constructor
  · rintro ⟨hpath, hset, hascii, text, htext, hstrip⟩
    refine ⟨hpath, ?_⟩
    dsimp only
    rw [htext, if_neg hset, Option.getD_some, hstrip, hascii]
    have hsame : decide (S.channelSecret ≠ S.channelSecret) = false := decide_eq_false fun h => h rfl
    rw [hsame]
    rfl
  · rintro ⟨hpath, hverify⟩
    dsimp only at hverify
    split_ifs at hverify with hset hbad
    simp only [Bool.not_eq_true', decide_eq_true_eq, Bool.or_eq_true, not_or, ne_eq, Decidable.not_not,
      Bool.not_eq_false] at hbad
    obtain ⟨⟨-, hascii⟩, hsame⟩ := hbad
    refine ⟨hpath, hset, hascii, ?_⟩
    cases hheader : req.header? H (py "x-toolstack-secret") with
    | some text => exact ⟨text, rfl, by rw [hheader] at hsame; exact hsame⟩
    | none =>
      rw [hheader] at hsame
      exact absurd hsame.symm hset

theorem contentLength_ok {S : Setup} {req : Request} {n : Nat} (h : contentLength H S req = .ok n) :
    n ≤ S.envelopeMax := by
  unfold contentLength at h
  dsimp only at h
  split at h
  · cases h
  · split_ifs at h with hbad
    obtain rfl := Except.ok.inj h
    omega

theorem contentLength_error {S : Setup} {req : Request} {reply : Reply} (h : contentLength H S req = .error reply) :
    reply.status ∈ [400, 404, 413] := by
  unfold contentLength at h
  dsimp only at h
  split at h
  · obtain rfl := Except.error.inj h
    exact List.mem_cons_self ..
  · split_ifs at h with hbad
    obtain rfl := Except.error.inj h
    show 413 ∈ [400, 404, 413]
    decide

theorem trace_readBody (length : Nat) : (readBody length).Trace fun result calls =>
    (result = .ok [] ∧ calls = []) ∨
      ∃ r, calls = [⟨.read length, r⟩] ∧ ∀ raw, result = .ok raw → r = .ok raw := by
  unfold readBody
  split_ifs
  · exact .inl ⟨rfl, rfl⟩
  · intro r
    cases r with
    | ok raw =>
      refine .inr ⟨_, rfl, fun raw' h => ?_⟩
      obtain rfl := Except.ok.inj h
      rfl
    | error e => exact .inr ⟨_, rfl, fun _ h => by cases h⟩

theorem Handled.unasked {S : Setup} {req : Request} {n : Nat} {r : Except Exc Bytes} {result : Except Uncaught Reply}
    (hadmitted : Admitted H S req) (hn : n ≤ S.envelopeMax)
    (h : ∀ reply, result = .ok reply → reply.status ∈ [400, 404, 413]) :
    Handled netlocOk H S req result [⟨.read n, r⟩] := by
  refine .malformed _ result hadmitted (Nat.le_refl 1) (fun c hc => ?_) h
  obtain rfl := List.mem_singleton.1 hc
  exact ⟨n, hn, rfl⟩

theorem Handled.invalid {S : Setup} {req : Request} {n : Nat} {r : Except Exc Bytes} (hadmitted : Admitted H S req)
    (hn : n ≤ S.envelopeMax) (error : String) (fields : Table) :
    Handled netlocOk H S req (.ok (refused 400 error fields)) [⟨.read n, r⟩] := by
  refine .unasked netlocOk H hadmitted hn fun reply h => ?_
  obtain rfl := Except.ok.inj h
  exact List.mem_cons_self ..

/-- What an admitted caller's body leads to, after the call that read it. -/
theorem trace_dispatch {S : Setup} {req : Request} {n : Nat} {raw : Bytes} {opName : PyStr} {arguments : Json}
    (hadmitted : Admitted H S req) (hn : n ≤ S.envelopeMax) (hasked : Asked H raw opName arguments) :
    (dispatch netlocOk H S opName arguments).Trace fun result calls =>
      Handled netlocOk H S req result (⟨.read n, .ok raw⟩ :: calls) := by
  unfold dispatch
  split_ifs with hall hone
  · subst hall
    intro r
    cases r with
    | ok u =>
      refine Handled.refreshedAll n raw arguments (.ok u) (.ok statusOk) hadmitted hn hasked fun reply h => ?_
      exact ⟨(Except.ok.inj h).symm, rfl⟩
    | error e =>
      exact Handled.refreshedAll n raw arguments (.error e) (.error (.exc e)) hadmitted hn hasked fun _ h => by cases h
  · subst hone
    unfold refreshOne
    dsimp only
    split
    · rename_i args
      split
      · rename_i c s hname
        intro r
        cases r with
        | ok u =>
          refine Handled.refreshed n raw args (c :: s) (.ok u) (.ok statusOk) hadmitted hn hasked hname fun reply h => ?_
          exact .inl ⟨(Except.ok.inj h).symm, rfl⟩
        | error e =>
          show Trace (if e.name = py "KeyError" then _ else _) _
          split_ifs
          · refine Handled.refreshed n raw args (c :: s) (.error e) _ hadmitted hn hasked hname fun reply h => .inr ?_
            obtain rfl := Except.ok.inj h
            exact ⟨rfl, fun h => by cases h⟩
          · exact Handled.refreshed n raw args (c :: s) (.error e) _ hadmitted hn hasked hname fun reply h => by cases h
      · exact .invalid netlocOk H hadmitted hn _ _
    · exact .invalid netlocOk H hadmitted hn _ _
  · have hrefused : ∀ code detail fields, Handled netlocOk H S req
        (.ok ⟨if code = "unknown_op" then 404 else 400, envelope code detail fields⟩) [⟨.read n, .ok raw⟩] := by
      intro code detail fields
      refine .unasked netlocOk H hadmitted hn fun reply h => ?_
      obtain rfl := Except.ok.inj h
      by_cases hcode : code = "unknown_op" <;> simp [hcode]
    cases arguments with
    | obj args =>
      cases hop : S.config.operation? opName with
      | some op => exact (trace_forward netlocOk H hop args).mono fun result calls h =>
          .forwarded n raw opName args op result calls hadmitted hn hasked hop h
      | none =>
        unfold forward buildRequest
        dsimp only
        rw [hop]
        exact hrefused _ _ _
    | null | bool | int | float | str | arr => exact hrefused _ _ _

theorem trace_handleBody {S : Setup} {req : Request} {n : Nat} (raw : Bytes) (hadmitted : Admitted H S req)
    (hn : n ≤ S.envelopeMax) : (handleBody netlocOk H S raw).Trace fun result calls =>
      Handled netlocOk H S req result (⟨.read n, .ok raw⟩ :: calls) := by
  unfold handleBody
  split
  · exact .invalid netlocOk H hadmitted hn _ _
  · exact .unasked netlocOk H hadmitted hn fun _ h => by cases h
  · rename_i kvs hloads
    split
    · rename_i opName hopName
      refine trace_dispatch netlocOk H hadmitted hn ⟨kvs, ?_, hopName, rfl⟩
      split_ifs at hloads with hempty
      · obtain rfl := Json.obj.inj (Except.ok.inj hloads)
        cases hopName
      · exact hloads
    · exact .invalid netlocOk H hadmitted hn _ _
  · exact .invalid netlocOk H hadmitted hn _ _

theorem trace_doPost (S : Setup) (req : Request) : (doPost netlocOk H S req).Trace (Handled netlocOk H S req) := by
  unfold doPost
  split_ifs with hpath
  · exact .denied _ (fun h => hpath h.path) (List.mem_cons_of_mem _ (List.mem_singleton_self _))
  · have hpath : req.path = py "/sendrequest" := Decidable.not_not.1 hpath
    cases hverify : verifyChannelSecret H S req with
    | some why =>
      refine .denied _ (fun h => ?_) (List.mem_cons_self ..)
      rw [((admitted_iff H).1 h).2] at hverify
      cases hverify
    | none =>
      have hadmitted : Admitted H S req := (admitted_iff H).2 ⟨hpath, hverify⟩
      cases hlength : contentLength H S req with
      | error reply =>
        refine .malformed [] _ hadmitted (Nat.zero_le 1) (fun c hc => absurd hc List.not_mem_nil) fun r h => ?_
        obtain rfl := Except.ok.inj h
        exact contentLength_error H hlength
      | ok length =>
        have hn := contentLength_ok H hlength
        refine (trace_readBody length).bind ?_ ?_
        · rintro e calls (⟨h, -⟩ | ⟨r, rfl, -⟩)
          · cases h
          · exact .unasked netlocOk H hadmitted hn fun _ h => by cases h
        · rintro raw calls (⟨h, rfl⟩ | ⟨r, rfl, hraw⟩)
          · obtain rfl := Except.ok.inj h
            refine Handled.malformed [] (.ok (refused 400 "invalid_envelope" _)) hadmitted (Nat.zero_le 1) ?_ ?_
            · exact fun c hc => absurd hc List.not_mem_nil
            · intro reply h
              obtain rfl := Except.ok.inj h
              exact List.mem_cons_self ..
          · rw [hraw raw rfl]
            exact trace_handleBody netlocOk H raw hadmitted hn

/-- Whatever the client, the secret provider and the upstream answer, a POST does what an admitted caller
asks for, and lets out what the operator has configured. -/
theorem mediated {World : Type} (exec : (o : Op) → World → o.Ret × World) (S : Setup) (req : Request) (w : World) :
    Handled netlocOk H S req ((doPost netlocOk H S req).run exec w).result ((doPost netlocOk H S req).run exec w).calls :=
  (trace_doPost netlocOk H S req).run exec w

end Toolstack.Forwarder.Server
