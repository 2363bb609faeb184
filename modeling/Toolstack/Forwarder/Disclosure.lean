import Toolstack.Forwarder.Mediation

/-! What a reply tells of a request that went out: of a redacted response neither the body nor the
headers, and of a rule that failed not what it failed on. -/

namespace Toolstack.Forwarder.Server

open Url
open Interleave (Prog)
open Rules

variable (netlocOk : PyStr → Bool) (H : Host)

def Op.isSend : Op → Bool
  | .send _ => true
  | _ => false

/-- The replies to a call of an operation: the response with its placeholders, or an error in fixed words,
with the upstream's host, a reason of the network, the class of an exception or the name of a secret. -/
inductive Disclosed (S : Setup) (op : Operation) (calls : Calls) : Except Uncaught Reply → Prop
  | raised (e : Uncaught) : Disclosed S op calls (.error e)
  | answered (status : Int) (headers : List (PyStr × PyStr)) (body : PyStr) :
    (op.redactResponseHeaders = true → headers = redactedHeaders) →
    (op.redactResponseBody = true → body = redactedBodyJson ∨ body = redactedBodyText) →
    Disclosed S op calls (.ok ⟨200, (Response.mk status headers body).envelope⟩)
  | unreachable (out : OutboundRequest) (reason host : PyStr) : ⟨.send out, .unreachable reason⟩ ∈ calls →
    hostname netlocOk H out.url = .ok host → Disclosed S op calls (.ok ⟨502, Server.unreachable host reason⟩)
  | tooLarge : Disclosed S op calls (.ok ⟨502, Server.tooLarge S.maxBody⟩)
  | extraction (rule : SecretUpdateRule) (e : RuleError) : rule ∈ op.secretUpdateRules →
    Explains H.toLibraries rule e → Disclosed S op calls (.ok ⟨502, ruleEnvelope e⟩)
  | writeback (rule : SecretUpdateRule) (value : PyStr) (e : Exc) : rule ∈ op.secretUpdateRules →
    ⟨.writeback (rule.secretName, value), .error e⟩ ∈ calls →
    Disclosed S op calls (.ok ⟨502, ruleEnvelope ⟨"secret_update_failed", e.name, some rule.secretName⟩⟩)

variable {netlocOk H} {S : Setup} {op : Operation}

theorem Disclosed.redacted (r : Response) (calls : Calls) :
    Disclosed netlocOk H S op calls (.ok ⟨200, (redactResponse H op r).envelope⟩) := by
  refine .answered _ _ _ (fun h => if_pos h) fun h => ?_
  rw [if_pos h]
  by_cases hjson : r.isJson H
  · exact .inl (if_pos hjson)
  · exact .inr (if_neg hjson)

theorem matched_mem {L : Libraries} {status : Int} {rule : SecretUpdateRule} (h : rule ∈ matched L op status) :
    rule ∈ op.secretUpdateRules := (List.mem_filter.1 h).1

/-- The rules leave a reply that tells nothing but which of them failed, and how. -/
theorem Updated.disclosed {r : Response} {updated : Except Uncaught (Except RuleError Unit)} {writes calls : Calls}
    (h : Updated H op r updated writes) (hcalls : writes ⊆ calls) :
    Disclosed netlocOk H S op calls (conclude H op r updated) := by
  cases h with
  | unreadable e => exact .raised _
  | refused e rule hrule _ hexplains => exact .extraction rule e (matched_mem hrule) hexplains
  | done _ _ => exact .redacted r calls
  | stopped pre write post e hwrites =>
    obtain ⟨rule, hrule, hextracts⟩ := Fallible.exists_of_mem_right hwrites
      (List.mem_append_right pre (List.mem_cons_self ..))
    have hfailed : (⟨.writeback write, .error e⟩ : Interleave.Answered Op Op.Ret) ∈ calls :=
      hcalls (List.mem_append_right _ (List.mem_singleton_self _))
    obtain ⟨name, value⟩ := write
    obtain rfl : name = rule.secretName := hextracts.1
    exact .writeback rule value e (matched_mem hrule) hfailed

theorem Forwarded.disclosed {args : Table} {result : Except Uncaught Reply} {calls : Calls}
    (h : Forwarded netlocOk H S op args result calls) (hsent : (calls.any fun c => c.1.isSend) = true) :
    Disclosed netlocOk H S op calls result := by
  cases h with
  | unbuilt gets result hgets _ =>
    obtain ⟨c, hc, hsend⟩ := List.any_eq_true.1 hsent
    obtain ⟨name, hname, -⟩ := hgets c hc
    rw [hname] at hsend
    cases hsend
  | unanswered gets out opened result _ _ _ hreply =>
    cases result with
    | error e => exact .raised e
    | ok reply =>
      obtain ⟨reason, host, rfl, hhost, rfl⟩ := hreply reply rfl
      exact .unreachable out reason host (List.mem_append_right _ (List.mem_singleton_self _)) hhost
  | cutOff gets out status headers recvs got result _ _ _ _ hreply =>
    cases result with
    | error e => exact .raised e
    | ok reply =>
      obtain rfl := hreply reply rfl
      exact .tooLarge
  | answered gets out status headers recvs body updated writes _ _ _ hupdated =>
    apply hupdated.disclosed
    intro c hc
    exact List.mem_append_right _ (List.mem_cons_of_mem _ (List.mem_append_right _ hc))

theorem Disclosed.mono {calls calls' : Calls} {result : Except Uncaught Reply} (hsub : calls ⊆ calls')
    (h : Disclosed netlocOk H S op calls result) : Disclosed netlocOk H S op calls' result := by
  cases h with
  | raised e => exact .raised e
  | answered status headers body hheaders hbody => exact .answered status headers body hheaders hbody
  | unreachable out reason host hsend hhost => exact .unreachable out reason host (hsub hsend) hhost
  | tooLarge => exact .tooLarge
  | extraction rule e hrule hexplains => exact .extraction rule e hrule hexplains
  | writeback rule value e hrule hfailed => exact .writeback rule value e hrule (hsub hfailed)

/-- The reply to a request that went out is one of its operation's, with what that redacts left out. -/
theorem reply_disclosed {World : Type} (exec : (o : Op) → World → o.Ret × World) (req : Request) (w : World)
    (hsent : (((doPost netlocOk H S req).run exec w).calls.any fun c => c.1.isSend) = true) :
    ∃ n raw opName args op, ⟨.read n, .ok raw⟩ ∈ ((doPost netlocOk H S req).run exec w).calls ∧
      Asked H raw opName (.obj args) ∧ S.config.operation? opName = some op ∧
      Disclosed netlocOk H S op ((doPost netlocOk H S req).run exec w).calls
        ((doPost netlocOk H S req).run exec w).result := by
  have hhandled := (trace_doPost netlocOk H S req).run exec w
  generalize ((doPost netlocOk H S req).run exec w).calls = calls at hhandled hsent ⊢
  generalize ((doPost netlocOk H S req).run exec w).result = result at hhandled ⊢
  cases hhandled with
  | denied => cases hsent
  | malformed reads result _ _ hreads _ =>
    obtain ⟨c, hc, hsend⟩ := List.any_eq_true.1 hsent
    obtain ⟨n, -, hn⟩ := hreads c hc
    rw [hn] at hsend
    cases hsend
  | refreshedAll => cases hsent
  | refreshed => cases hsent
  | forwarded n raw opName args op result calls _ _ hasked hop hforwarded =>
    have hsent' : (calls.any fun c => c.1.isSend) = true := hsent
    refine ⟨n, raw, opName, args, op, List.mem_cons_self .., hasked, hop, ?_⟩
    exact (hforwarded.disclosed hsent').mono (List.subset_cons_self ..)

namespace Sample

def renew : Operation :=
  { Forwarder.Sample.login with
    redactResponseBody := true
    redactResponseHeaders := true
    secretUpdateRules := [⟨py "auth_token", .form, py "token", py "2xx"⟩] }

def setup : Setup where
  config := { Forwarder.Sample.loginConfig with operations := [renew] }
  channelSecret := py "c0ffee"
  maxBody := 1024

def post : Request :=
  ⟨py "/sendrequest", [(py "X-Toolstack-Secret", py "c0ffee"), (py "Content-Length", py "43")]⟩

def text (s : String) : Bytes := (py s).flatMap Url.utf8

def sent : Bytes := text "\x7b\"op\":\"login\",\"arguments\":\x7b\"body\":\"token\"\x7d\x7d"

def answer : Bytes := text "token=s3cret"

def host : Host where
  toLibraries := { Rules.libraries with parseQs := fun _ => .ok [(py "token", [py "s3cret"])] }
  headerInt s := if s.all Url.isDigit then some (Broker.Registry.decimal s) else none
  loadsBytes raw :=
    if raw = sent then .ok (.obj [(py "op", .str (py "login")), (py "arguments", .obj [(py "body", .str (py "token"))])])
    else .error .jsonDecodeError
  decodeReplace _ := py "token=s3cret"

/-- The upstream answers once, and every secret is known. -/
def exec : (o : Op) → Bool → o.Ret × Bool
  | .read _, w => (.ok sent, w)
  | .recv _, w => (.ok (if w then [] else answer), true)
  | .get _, w => (some (py "k"), w)
  | .refreshAll, w => (.ok (), w)
  | .refresh _, w => (.ok (), w)
  | .writeback _, w => (.ok (), w)
  | .send _, w => (.response 200 [(py "X-Session", py "s3cret")], w)

def ran : Interleave.Ran Op Op.Ret Uncaught Reply Bool := (doPost (fun _ => true) host setup post).run exec false

end Sample

theorem reply_disclosed_renew : ∃ n raw opName args op, ⟨.read n, .ok raw⟩ ∈ Sample.ran.calls ∧
    Asked Sample.host raw opName (.obj args) ∧ Sample.setup.config.operation? opName = some op ∧
    Disclosed (fun _ => true) Sample.host Sample.setup op Sample.ran.calls Sample.ran.result :=
  reply_disclosed Sample.exec Sample.post false (by decide +kernel)

end Toolstack.Forwarder.Server
