import Toolstack.Forwarder.RequestBuilder

/-! Secrets reach a request only through the operator's templates: what is read, and what a
request depends on, is fixed by the operation's header and body templates. -/

namespace Toolstack.Forwarder

open Template Url
open Interleave (Prog)

/-- The templates of an operation that may refer to secrets. -/
def secretTemplates (op : Operation) : List PyStr := op.headers.map Prod.snd ++ op.bodyTemplate.toList

/-- The secret names these templates refer to. -/
def secretNames (op : Operation) : List PyStr :=
  (secretTemplates op).flatMap fun template => names (pieces secretRef template)

/-! ## What is read -/

/-- A read of a secret that the operation refers to and allows. -/
def Operation.MayRead (op : Operation) (o : Get) : Prop :=
  o.name ∈ secretNames op ∧ o.name ∈ op.allowedSecrets

theorem all_pureStep {α : Type} (p : Get → Prop) (x : Except BuildError α) : (pureStep x).All p := by
  cases x <;> trivial

theorem all_sub {p : Get → Prop} {f : PyStr → Build PyStr} {ps : List Piece}
    (hf : ∀ name ∈ names ps, (f name).All p) : (sub f ps).All p := by
  induction ps with
  | nil => trivial
  | cons piece ps ih =>
    cases piece with
    | chr c => exact (ih hf).bind fun _ => trivial
    | hole name =>
      refine (hf name (List.mem_cons_self ..)).bind fun _ => ?_
      exact (ih fun n hn => hf n (List.mem_cons_of_mem _ hn)).bind fun _ => trivial

theorem all_substituteSecrets {op : Operation} {template : PyStr} (h : template ∈ secretTemplates op) :
    (substituteSecrets template op.allowedSecrets).All op.MayRead := by
  refine Prog.All.bind (all_sub fun name hname => ?_) fun out => ?_
  · split_ifs with hallowed
    · have hread : op.MayRead ⟨name⟩ := ⟨List.mem_flatMap.2 ⟨template, h, hname⟩, hallowed⟩
      refine ⟨hread, fun answer => ?_⟩
      cases answer <;> trivial
    · trivial
  · split_ifs <;> trivial

theorem all_operatorHeaders {op : Operation} {hs : List (PyStr × PyStr)}
    (h : ∀ x ∈ hs, x.2 ∈ secretTemplates op) (headers : List (PyStr × PyStr)) :
    (hs.foldlM (fun headers x => operatorHeader op headers x.1 x.2) headers).All op.MayRead := by
  induction hs generalizing headers with
  | nil => trivial
  | cons x hs ih =>
    rw [List.foldlM_cons]
    refine Prog.All.bind (Prog.All.bind (all_substituteSecrets (h x (List.mem_cons_self ..)))
      fun out => ?_) fun headers => ih (fun y hy => h y (List.mem_cons_of_mem _ hy)) headers
    split_ifs <;> trivial

theorem all_buildHeaders (op : Operation) (arguments : Table) :
    (buildHeaders op arguments).All op.MayRead :=
  (all_pureStep _ _).bind fun headers => all_operatorHeaders
    (fun _ hx => List.mem_append_left _ (List.mem_map_of_mem hx)) headers

theorem all_bodyText (op : Operation) (present : Bool) (given : Option PyStr) :
    (bodyText op present given).All op.MayRead := by
  unfold bodyText
  cases htemplate : op.bodyTemplate with
  | none => trivial
  | some template =>
    simp only
    split_ifs
    · trivial
    · refine Prog.All.bind (all_substituteSecrets ?_) fun _ => trivial
      simp [secretTemplates, htemplate]

theorem all_buildBody (op : Operation) (arguments : Table) (maxBody : Nat) :
    (buildBody op arguments maxBody).All op.MayRead := by
  refine (all_pureStep _ _).bind fun given => (all_bodyText ..).bind fun body => ?_
  split_ifs
  · trivial
  · exact all_pureStep _ _

/-- Whatever the caller sends, only the operation's own references are read. -/
theorem all_buildRequest {netlocOk : PyStr → Bool} {config : RestConfig} {opName : PyStr} {op : Operation}
    (hop : config.operation? opName = some op) (arguments : Json) (maxBody : Nat) :
    (buildRequest netlocOk config opName arguments maxBody).All op.MayRead := by
  unfold buildRequest
  split
  · rw [hop]
    refine (all_pureStep _ _).bind fun url => (all_buildHeaders ..).bind fun headers => ?_
    exact (all_buildBody ..).bind fun body => trivial
  · trivial

/-! ## What a request is made of -/

/-- A template with the secrets in its references. -/
def substituted (secrets : PyStr → Option PyStr) (template : PyStr) : PyStr :=
  fill (fun name => (secrets name).getD []) (pieces secretRef template)

section Run
variable {secrets : PyStr → Option PyStr}

theorem run_world {α : Type} (m : Build α) : (m.run resolve secrets).world = secrets := by
  have hall : m.All fun _ => True := by
    induction m with
    | ret a | raise e => trivial
    | call o k ih => exact ⟨trivial, ih⟩
  exact hall.world (I := fun s => s = secrets) (fun _ _ _ hs => hs) rfl

theorem run_step {α β : Type} {m : Build α} {f : α → Build β} {b : β} :
    ((m >>= f).run resolve secrets).result = .ok b ↔
      ∃ a, (m.run resolve secrets).result = .ok a ∧ ((f a).run resolve secrets).result = .ok b := by
  rw [Prog.run_bind_ok, run_world]

theorem step_ok {α β : Type} {m : Build α} {f : α → Build β} {b : β}
    (h : ((m >>= f).run resolve secrets).result = .ok b) :
    ∃ a, (m.run resolve secrets).result = .ok a ∧ ((f a).run resolve secrets).result = .ok b :=
  run_step.1 h

theorem run_sub_ok {f : PyStr → Build PyStr} {g : PyStr → PyStr} {ps : List Piece} {out : PyStr}
    (hf : ∀ name v, ((f name).run resolve secrets).result = .ok v → v = g name)
    (h : ((sub f ps).run resolve secrets).result = .ok out) : out = fill g ps := by
  induction ps generalizing out with
  | nil => exact (Except.ok.inj h).symm
  | cons piece ps ih =>
    cases piece with
    | chr c =>
      obtain ⟨rest, hrest, h⟩ := step_ok h
      rw [fill, ← ih hrest]
      exact (Except.ok.inj h).symm
    | hole name =>
      obtain ⟨v, hv, h⟩ := step_ok h
      obtain ⟨rest, hrest, h⟩ := step_ok h
      rw [fill, ← ih hrest, ← hf name v hv]
      exact (Except.ok.inj h).symm

theorem substituteSecrets_ok {template out : PyStr} {allowed : List PyStr}
    (h : ((substituteSecrets template allowed).run resolve secrets).result = .ok out) :
    out = substituted secrets template := by
  obtain ⟨text, htext, h⟩ := step_ok h
  have hout := run_sub_ok (g := fun name => (secrets name).getD []) (fun name v hv => ?_) htext
  · split_ifs at h
    · cases h
    · rw [substituted, ← hout]
      exact (Except.ok.inj h).symm
  · split_ifs at hv
    · cases hsecret : secrets name with
      | none =>
        simp only [readSecret, Prog.run_perform_bind, resolve, hsecret] at hv
        cases hv
      | some value =>
        simp only [readSecret, Prog.run_perform_bind, resolve, hsecret] at hv
        exact (Except.ok.inj hv).symm
    · cases hv

theorem operatorHeaders_ok {op : Operation} {hs headers out : List (PyStr × PyStr)}
    (h : ((hs.foldlM (fun headers x => operatorHeader op headers x.1 x.2) headers).run resolve
      secrets).result = .ok out) :
    out = hs.foldl (fun headers x => assign headers x.1 (substituted secrets x.2)) headers := by
  induction hs generalizing headers with
  | nil => exact (Except.ok.inj h).symm
  | cons x hs ih =>
    rw [List.foldlM_cons] at h
    obtain ⟨headers', hstep, hrest⟩ := step_ok h
    obtain ⟨value, hvalue, hstep⟩ := step_ok hstep
    obtain rfl := substituteSecrets_ok hvalue
    split_ifs at hstep
    · cases hstep
    · obtain rfl := Except.ok.inj hstep
      exact ih hrest

/-- The text a body is made from. -/
def bodySource (secrets : PyStr → Option PyStr) (op : Operation) (given : Option PyStr) : Option PyStr :=
  match op.bodyTemplate with
  | some template => some (substituted secrets template)
  | none => given

theorem bodyText_ok {op : Operation} {present : Bool} {given text : Option PyStr}
    (h : ((bodyText op present given).run resolve secrets).result = .ok text) :
    text = bodySource secrets op given := by
  unfold bodyText at h
  unfold bodySource
  cases htemplate : op.bodyTemplate with
  | none =>
    rw [htemplate] at h
    exact (Except.ok.inj h).symm
  | some template =>
    rw [htemplate] at h
    simp only at h
    split_ifs at h
    · cases h
    · obtain ⟨out, hout, h⟩ := step_ok h
      obtain rfl := substituteSecrets_ok hout
      exact (Except.ok.inj h).symm

/-- A request is its operation's URL, the caller's headers under the operator's, and the body. -/
theorem build_ok {netlocOk : PyStr → Bool} {config : RestConfig} {opName : PyStr} {op : Operation}
    (hop : config.operation? opName = some op) {arguments : Json} {maxBody : Nat} {req : OutboundRequest}
    (h : (build netlocOk config opName arguments maxBody secrets).result = .ok req) :
    ∃ args headers, arguments = .obj args ∧ buildUrl netlocOk config op args = .ok req.url ∧
      callerHeaders op args = .ok headers ∧ req.method = op.verb.name ∧
      req.headers = withContentType op req.body
        (op.headers.foldl (fun hs x => assign hs x.1 (substituted secrets x.2)) headers) ∧
      ∃ given, callerBody args = .ok given ∧
        bodyBytes op.bodyKind (bodySource secrets op given) maxBody = .ok req.body := by
  simp only [build, buildRequest, hop] at h
  split at h
  · rename_i args
    obtain ⟨url, hurl, h⟩ := step_ok h
    obtain ⟨headers, hheaders, h⟩ := step_ok h
    obtain ⟨body, hbody, h⟩ := step_ok h
    cases h
    obtain ⟨caller, hcaller, hheaders⟩ := step_ok hheaders
    obtain rfl := operatorHeaders_ok hheaders
    refine ⟨args, caller, rfl, run_pureStep.1 hurl, run_pureStep.1 hcaller, rfl, rfl, ?_⟩
    obtain ⟨given, hgiven, hbody⟩ := step_ok hbody
    obtain ⟨text, htext, hbody⟩ := step_ok hbody
    split_ifs at hbody
    · cases hbody
    obtain rfl := bodyText_ok htext
    exact ⟨given, run_pureStep.1 hgiven, run_pureStep.1 hbody⟩
  · cases h

end Run

/-! ## Noninterference -/

/-- The headers that no operator template sets. -/
def callerOwned (op : Operation) (headers : List (PyStr × PyStr)) : List (PyStr × PyStr) :=
  headers.filter fun h => h.1 ∉ op.headers.map Prod.fst

theorem callerOwned_replace (op : Operation) (headers : List (PyStr × PyStr)) (name value : PyStr) :
    callerOwned op (headers.map fun h => if h.1 = name then (name, value) else h) =
      if name ∈ op.headers.map Prod.fst then callerOwned op headers
      else (callerOwned op headers).map fun h => if h.1 = name then (name, value) else h := by
  unfold callerOwned
  induction headers with
  | nil => simp
  | cons h headers ih =>
    rw [List.map_cons, List.filter_cons, List.filter_cons, ih]
    by_cases hh : h.1 = name
    · rw [hh]
      by_cases hname : name ∈ op.headers.map Prod.fst <;> simp [hh, hname]
    · by_cases hown : h.1 ∈ op.headers.map Prod.fst <;>
        by_cases hname : name ∈ op.headers.map Prod.fst <;> simp [hh, hown, hname]

theorem callerOwned_assign (op : Operation) (headers : List (PyStr × PyStr)) (name value : PyStr) :
    callerOwned op (assign headers name value) =
      if name ∈ op.headers.map Prod.fst then callerOwned op headers
      else assign (callerOwned op headers) name value := by
  have hany : name ∉ op.headers.map Prod.fst →
      ((callerOwned op headers).any fun h => h.1 = name) = headers.any fun h => h.1 = name := by
    intro hname
    rw [callerOwned, List.any_filter]
    congr 1
    funext h
    by_cases hh : h.1 = name
    · simp [hh, hname]
    · simp [hh]
  unfold assign
  by_cases hname : name ∈ op.headers.map Prod.fst
  · rw [if_pos hname]
    split_ifs
    · rw [callerOwned_replace, if_pos hname]
    · simp [callerOwned, List.filter_append, hname]
  · rw [if_neg hname, hany hname]
    split_ifs
    · rw [callerOwned_replace, if_neg hname]
    · simp [callerOwned, List.filter_append, hname]

theorem callerOwned_foldl (op : Operation) (secrets : PyStr → Option PyStr)
    {hs : List (PyStr × PyStr)} (h : hs ⊆ op.headers) (headers : List (PyStr × PyStr)) :
    callerOwned op (hs.foldl (fun hs x => assign hs x.1 (substituted secrets x.2)) headers) =
      callerOwned op headers := by
  induction hs generalizing headers with
  | nil => rfl
  | cons x hs ih =>
    rw [List.foldl_cons, ih (List.subset_of_cons_subset h), callerOwned_assign, if_pos]
    exact List.mem_map_of_mem (h (List.mem_cons_self ..))

theorem bodyBytes_isSome {kind : BodyKind} {body : Option PyStr} {maxBody : Nat} {out : Option Bytes}
    (h : bodyBytes kind body maxBody = .ok out) : out.isSome = !decide (kind = .none) := by
  simp only [bodyBytes, throw, throwThe, MonadExceptOf.throw, bind, Except.bind] at h
  repeat' split at h
  all_goals cases h
  all_goals simp_all

theorem callerOwned_withContentType {op : Operation} {body body' : Option Bytes}
    (hsome : body.isSome = body'.isSome) {hs hs' : List (PyStr × PyStr)}
    (h : callerOwned op hs = callerOwned op hs') :
    callerOwned op (withContentType op body hs) = callerOwned op (withContentType op body' hs') := by
  cases body with
  | none =>
    cases body' with
    | none => exact h
    | some _ => cases hsome
  | some _ =>
    cases body' with
    | none => cases hsome
    | some _ =>
      unfold withContentType
      rcases op.bodyContentType with _ | _ | ⟨c, s⟩
      · exact h
      · exact h
      · simp only [callerOwned_assign, h]

/-- What a request carries of the caller's own is the same under any two secret maps. -/
theorem build_caller_eq {netlocOk : PyStr → Bool} {config : RestConfig} {opName : PyStr} {op : Operation}
    (hop : config.operation? opName = some op) {arguments : Json} {maxBody : Nat}
    {secrets secrets' : PyStr → Option PyStr} {req req' : OutboundRequest}
    (h : (build netlocOk config opName arguments maxBody secrets).result = .ok req)
    (h' : (build netlocOk config opName arguments maxBody secrets').result = .ok req') :
    req.method = req'.method ∧ req.url = req'.url ∧
      callerOwned op req.headers = callerOwned op req'.headers ∧
      (op.bodyTemplate = none → req.body = req'.body) := by
  obtain ⟨args, headers, rfl, hurl, hheaders, hmethod, hall, given, hgiven, hbody⟩ := build_ok hop h
  obtain ⟨args', headers', hargs, hurl', hheaders', hmethod', hall', given', hgiven', hbody'⟩ :=
    build_ok hop h'
  obtain rfl := Json.obj.inj hargs
  rw [hurl] at hurl'
  rw [hheaders] at hheaders'
  rw [hgiven] at hgiven'
  obtain rfl := Except.ok.inj hheaders'
  obtain rfl := Except.ok.inj hgiven'
  have hsome : req.body.isSome = req'.body.isSome := by
    rw [bodyBytes_isSome hbody, bodyBytes_isSome hbody']
  refine ⟨by rw [hmethod, hmethod'], Except.ok.inj hurl', ?_, fun htemplate => ?_⟩
  · rw [hall, hall']
    refine callerOwned_withContentType hsome ?_
    rw [callerOwned_foldl op _ (List.Subset.refl _), callerOwned_foldl op _ (List.Subset.refl _)]
  · simp only [bodySource, htemplate] at hbody hbody'
    rw [hbody] at hbody'
    exact Except.ok.inj hbody'

/-- A caller can neither read a secret the operation does not refer to nor make one show. -/
theorem secret_noninterference {netlocOk : PyStr → Bool} {config : RestConfig} {opName : PyStr}
    {op : Operation} (hop : config.operation? opName = some op) (arguments : Json) (maxBody : Nat) :
    let run := build netlocOk config opName arguments maxBody
    (∀ secrets secrets', (∀ name ∈ secretNames op, secrets name = secrets' name) →
      (run secrets).result = (run secrets').result) ∧
    (∀ secrets secrets' req req', (run secrets).result = .ok req → (run secrets').result = .ok req' →
      req.method = req'.method ∧ req.url = req'.url ∧
      callerOwned op req.headers = callerOwned op req'.headers ∧
      (op.bodyTemplate = none → req.body = req'.body)) ∧
    ∀ secrets, ∀ call ∈ (run secrets).calls,
      call.1.name ∈ secretNames op ∧ call.1.name ∈ op.allowedSecrets := by
  intro run
  have hall : (buildRequest netlocOk config opName arguments maxBody).All op.MayRead :=
    all_buildRequest hop arguments maxBody
  refine ⟨fun secrets secrets' hagree => ?_, fun _ _ _ _ h h' => build_caller_eq hop h h',
    fun secrets => hall.calls secrets⟩
  refine hall.result_congr (R := fun s s' => ∀ name ∈ secretNames op, s name = s' name) ?_ hagree
  intro o s s' ho hs
  exact ⟨hs o.name ho.1, hs⟩

namespace Sample

def login : Operation where
  name := py "login"
  risk := py "write"
  description := []
  verb := .post
  path := py "/login"
  allowedHeaders := [py "x-trace"]
  bodyKind := .text
  bodyContentType := some (py "application/json")
  bodySubstitution := false
  headers := [(py "Authorization", py "Bearer \x7b\x7bsecret:auth_token\x7d\x7d")]
  allowedSecrets := [py "auth_token"]

def loginConfig : RestConfig where
  toolId := py "jira"
  port := none
  baseUrl := py "https://api.example.test/v1"
  operations := [login]
  secrets := [⟨py "auth_token", py "AUTH_TOKEN", false⟩]

def everySecret (_ : PyStr) : Option PyStr := some (py "k")

def authToken (name : PyStr) : Option PyStr := if name = py "auth_token" then some (py "k") else none

end Sample

/-- The request does not depend on the secrets other than the one its header names. -/
theorem secret_noninterference_login :
    (build (fun _ => true) Sample.loginConfig (py "login") (.obj [(py "body", .str (py "\x7b\x7d"))]) 1024
      Sample.everySecret).result =
    (build (fun _ => true) Sample.loginConfig (py "login") (.obj [(py "body", .str (py "\x7b\x7d"))]) 1024
      Sample.authToken).result :=
  (secret_noninterference rfl _ 1024).1 _ _ (by decide +kernel)

end Toolstack.Forwarder
