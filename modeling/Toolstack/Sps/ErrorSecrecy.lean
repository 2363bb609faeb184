import Toolstack.Interleave.Related
import Toolstack.Sps.FailClosed

/-! Two requests that differ in secrets only, and pass the same checks of them, are answered by the same
error if either is. -/

namespace Toolstack.Sps.Connection

open Interleave (Prog Likeness answering)
open Interleave.Prog (raise Related Results)
open Wire (Bytes)

/-! ## Requests that differ in secrets -/

/-- The members of a message that hold a credential or a secret value. -/
def secretMembers : List String := ["spsecret", "esecret", "value"]

/-- The same answer but for what it holds: another value, another text. -/
def SameKind {α : Type} : Answer α → Answer α → Prop
  | .value _, .value _ | .raised _, .raised _ | .exited, .exited => True
  | _, _ => False

structure Oracle.Alike (ω ω' : Oracle) : Prop where
  value : SameKind ω.value ω'.value
  done : SameKind ω.done ω'.done
  now : ω.now = ω'.now
  files : ω.files = ω'.files

/-- The same entries, under secrets that match their messages alike. -/
def SameEntries (msg msg' : Message) (rec rec' : Registration) : Prop :=
  rec.secretEntries = rec'.secretEntries ∧ presents msg rec = presents msg' rec'

/-- The messages, configurations and registrations differ in secrets, and each check of them comes out the same. -/
structure Alike (cfg cfg' : Config) (pool pool' : PyStr → Option Registration) (msg msg' : Message) : Prop where
  members : ∀ key, key ∉ secretMembers → Json.find? msg (py key) = Json.find? msg' (py key)
  grants : cfg.grants = cfg'.grants
  sp : (checkSp cfg msg).isOk = (checkSp cfg' msg').isOk
  presented : (field msg "esecret").isSome = (field msg' "esecret").isSome
  registrable : (parseEsecret msg).isOk = (parseEsecret msg').isOk
  accepted : (acceptedValue cfg msg).isOk = (acceptedValue cfg' msg').isOk
  pools : ∀ toolId, Option.Rel (SameEntries msg msg') (pool toolId) (pool' toolId)

/-! ## The same path -/

/-- Checks that agree. -/
def Agree {α β : Type} (R : α → β → Prop) : Except Failure α → Except Failure β → Prop
  | .ok a, .ok b => R a b
  | .error e, .error e' => e = e'
  | _, _ => False

def sameCall (msg msg' : Message) : Call → Call → Prop
  | .get t, .get t' => t = t'
  | .register t rec, .register t' rec' => t = t' ∧ SameEntries msg msg' rec rec'
  | .unregister t, .unregister t' => t = t'
  | .getSecret f i, .getSecret f' i' => f = f' ∧ i = i'
  | .writeSecret f i _, .writeSecret f' i' _ => f = f' ∧ i = i'
  | .recordReject kind, .recordReject kind' => kind = kind'
  | .audit e, .audit e' => e = e'
  | _, _ => False

def sameAnswer (msg msg' : Message) : (o o' : Call) → o.Ret → o'.Ret → Prop
  | .get _, .get _, found, found' => Option.Rel (SameEntries msg msg') found found'
  | .getSecret .., .getSecret .., a, a' => SameKind a a'
  | .writeSecret .., .writeSecret .., a, a' => SameKind a a'
  | .audit _, .audit _, r, r' => r = r'
  | _, _, _, _ => True

def sameExn : Exn → Exn → Prop
  | .failure f, .failure f' => f = f'
  | .exited, .exited | .unwritable, .unwritable => True
  | _, _ => False

def likeness (msg msg' : Message) : Likeness Call Call.Ret Exn Call Call.Ret Exn where
  call := sameCall msg msg'
  answer := sameAnswer msg msg'
  exn := sameExn

/-- The same error, or two replies. -/
def SameError : Response → Response → Prop
  | .error m, .error m' => m = m'
  | .reply _, .reply _ => True
  | _, _ => False

structure World.Alike (msg msg' : Message) (s s' : State) : Prop where
  log : s.1.log = s'.1.log
  pools : ∀ toolId, Option.Rel (SameEntries msg msg') (s.1.pool toolId) (s'.1.pool toolId)
  oracles : ∀ n, (s.2 n).Alike (s'.2 n)

section Runs
variable {msg msg' : Message} {s s' : State}

theorem World.Alike.tail (h : World.Alike msg msg' s s') :
    World.Alike msg msg' (s.1, fun n => s.2 (n + 1)) (s'.1, fun n => s'.2 (n + 1)) :=
  ⟨h.log, h.pools, fun n => h.oracles (n + 1)⟩

theorem rel_update {pool pool' : PyStr → Option Registration} {r r' : Option Registration}
    (h : ∀ toolId, Option.Rel (SameEntries msg msg') (pool toolId) (pool' toolId))
    (hr : Option.Rel (SameEntries msg msg') r r') (t toolId : PyStr) :
    Option.Rel (SameEntries msg msg') (Function.update pool t r toolId) (Function.update pool' t r' toolId) := by
  by_cases htool : toolId = t
  · subst htool
    rw [Function.update_self, Function.update_self]
    exact hr
  · rw [Function.update_of_ne htool, Function.update_of_ne htool]
    exact h toolId

/-- Calls that are alike are answered alike, and leave worlds that are. -/
theorem exec_alike {ctx : Context} {cfg' : Config} {o o' : Call} (hcall : sameCall msg msg' o o')
    (h : World.Alike msg msg' s s') :
    sameAnswer msg msg' o o' (exec ctx o s).1 (exec { ctx with config := cfg' } o' s').1 ∧
      World.Alike msg msg' (exec ctx o s).2 (exec { ctx with config := cfg' } o' s').2 := by
  cases o with
  | get t =>
    cases o' with
    | get t' =>
      obtain rfl : t = t' := hcall
      exact ⟨h.pools t, h.tail⟩
    | _ => cases hcall
  | register t rec =>
    cases o' with
    | register t' rec' =>
      obtain ⟨rfl, hrec⟩ : t = t' ∧ SameEntries msg msg' rec rec' := hcall
      exact ⟨trivial, h.log, rel_update h.pools (.some hrec) t, fun n => h.oracles (n + 1)⟩
    | _ => cases hcall
  | unregister t =>
    cases o' with
    | unregister t' =>
      obtain rfl : t = t' := hcall
      exact ⟨trivial, h.log, rel_update h.pools .none t, fun n => h.oracles (n + 1)⟩
    | _ => cases hcall
  | getSecret f i =>
    cases o' with
    | getSecret f' i' => exact ⟨(h.oracles 0).value, h.tail⟩
    | _ => cases hcall
  | writeSecret f i v =>
    cases o' with
    | writeSecret f' i' v' => exact ⟨(h.oracles 0).done, h.tail⟩
    | _ => cases hcall
  | recordReject kind =>
    cases o' with
    | recordReject kind' => exact ⟨trivial, h.tail⟩
    | _ => cases hcall
  | audit e =>
    cases o' with
    | audit e' =>
      obtain rfl : e = e' := hcall
      have hnow := (h.oracles 0).now
      have hfiles := (h.oracles 0).files
      refine ⟨?_, ?_, h.pools, fun n => h.oracles (n + 1)⟩
      · show ((AuditLog.event ctx.logger _).run _ _).result = ((AuditLog.event ctx.logger _).run _ _).result
        rw [h.log, hnow, hfiles]
      · show s.1.log.call ctx.logger _ = s'.1.log.call ctx.logger _
        rw [h.log, hnow, hfiles]
    | _ => cases hcall
  | send r => cases o' <;> cases hcall

end Runs

/-! ## The handlers -/

section Handlers
variable {ctx : Context} {cfg' : Config} {msg msg' : Message} {pool pool' : PyStr → Option Registration}
  {α β : Type} {R : α → β → Prop}

theorem related_check {x : Except Failure α} {x' : Except Failure β} (h : Agree R x x') :
    Related (likeness msg msg') R (check x) (check x') := by
  cases x with
  | ok a =>
    cases x' with
    | ok a' => exact h
    | error e' => cases h
  | error e =>
    cases x' with
    | ok a' => cases h
    | error e' => exact h

theorem related_answered {a a' : Answer α} (h : SameKind a a') :
    Related (likeness msg msg') (fun _ _ => True) (answered a) (answered a') := by
  cases a with
  | value v =>
    cases a' with
    | value v' => trivial
    | _ => cases h
  | raised text =>
    cases a' with
    | raised text' => exact rfl
    | _ => cases h
  | exited =>
    cases a' with
    | exited => trivial
    | _ => cases h

/-- Checks that come out alike, with one error. -/
theorem agree_of_isOk {x : Except Failure α} {x' : Except Failure β} {e₀ : Failure} (h : x.isOk = x'.isOk)
    (hx : ∀ e, x = .error e → e = e₀) (hx' : ∀ e, x' = .error e → e = e₀)
    (hR : ∀ a a', x = .ok a → x' = .ok a' → R a a') : Agree R x x' := by
  cases x with
  | ok a =>
    cases x' with
    | ok a' => exact hR a a' rfl rfl
    | error e' => cases h
  | error e =>
    cases x' with
    | ok a' => cases h
    | error e' => exact (hx e rfl).trans (hx' e' rfl).symm

theorem checkSp_error {cfg : Config} {e : Failure} (h : checkSp cfg msg = .error e) : e = .authError := by
  unfold checkSp at h
  split at h
  · exact (Except.error.inj h).symm
  · split_ifs at h
    exact (Except.error.inj h).symm

theorem parseEsecret_error {e : Failure} (h : parseEsecret msg = .error e) : e = .badRegistration := by
  unfold parseEsecret at h
  split at h
  · split_ifs at h
    exact (Except.error.inj h).symm
  · exact (Except.error.inj h).symm

theorem acceptedValue_error {cfg : Config} {e : Failure} (h : acceptedValue cfg msg = .error e) : e = .badRegistration := by
  unfold acceptedValue at h
  split at h
  · split_ifs at h
    exact (Except.error.inj h).symm
  · exact (Except.error.inj h).symm

/-- A secret that was just registered is the one of its own message. -/
theorem presents_registered {secret : PyStr} (h : parseEsecret msg = .ok secret) (entries : List SecretEntry) :
    presents msg ⟨secret, entries⟩ = true := by
  unfold parseEsecret at h
  split at h
  next s hs =>
    split_ifs at h with hhex
    obtain rfl := Except.ok.inj h
    rw [Bool.and_eq_true, decide_eq_true_eq] at hhex
    have hencodable : encodable s = true := by
      rw [encodable, List.all_eq_true]
      intro c hc
      have hdigit := List.all_eq_true.1 hhex.1 c hc
      simp only [hexChar, Bool.or_eq_true, Bool.and_eq_true, decide_eq_true_eq] at hdigit
      have hlow : ¬0xD800 ≤ c.val := by omega
      simp [CodePoint.isSurrogate, hlow]
    cases s with
    | nil => exact absurd hhex.2 (by decide)
    | cons c s =>
      rw [presents, field, hs]
      simp [constantTimeEq, hencodable]
  · cases h

theorem agree_bind {γ δ : Type} {S : γ → δ → Prop} {x : Except Failure α} {x' : Except Failure β}
    {f : α → Except Failure γ} {f' : β → Except Failure δ} (hx : Agree R x x') (hf : ∀ a a', R a a' → Agree S (f a) (f' a')) :
    Agree S (x >>= f) (x' >>= f') := by
  cases x with
  | ok a =>
    cases x' with
    | ok a' => exact hf a a' hx
    | error e' => cases hx
  | error e =>
    cases x' with
    | ok a' => cases hx
    | error e' => exact hx

theorem agree_self {x : Except Failure α} : Agree Eq x x := by
  cases x <;> rfl

theorem readEntries_related (toolId : PyStr) (es : List SecretEntry) (body body' : Mapping PyStr Value) :
    Related (likeness msg msg') (fun _ _ => True) (readEntries toolId es body) (readEntries toolId es body') := by
  induction es generalizing body body' with
  | nil => trivial
  | cons e es ih =>
    refine Related.call (L := likeness msg msg') (.getSecret e.field (e.target toolId)) (.getSecret e.field (e.target toolId)) ⟨rfl, rfl⟩ fun answer answer' hanswer => ?_
    exact .bind (related_answered hanswer) fun value value' _ => ih _ _

theorem SameError.outcome {r r' : Response} (h : SameError r r') : r.outcome = r'.outcome := by
  cases r with
  | reply a =>
    cases r' with
    | reply a' => rfl
    | error m' => cases h
  | error m =>
    cases r' with
    | reply a' => cases h
    | error m' =>
      obtain rfl : m = m' := h
      rfl

theorem related_reject (kind : String) {r r' : Response} (hr : SameError r r') :
    Related (likeness msg msg') SameError (reject kind r) (reject kind r') :=
  Related.call (L := likeness msg msg') (.recordReject kind) (.recordReject kind) rfl fun _ _ _ => hr

section Alike
variable (h : Alike ctx.config cfg' pool pool' msg msg')
include h

theorem Alike.field {key : String} (hkey : key ∉ secretMembers) : field msg key = field msg' key := by
  rw [Sps.field, Sps.field, h.members key hkey]

theorem Alike.requireField {key : String} (hkey : key ∉ secretMembers) :
    Agree Eq (requireField msg key) (requireField msg' key) := by
  rw [Sps.requireField, Sps.requireField, h.field hkey]
  split
  · exact rfl
  · exact rfl

theorem Alike.checkSp : Agree (fun _ _ => True) (checkSp ctx.config msg) (Sps.checkSp cfg' msg') :=
  agree_of_isOk h.sp (fun _ => checkSp_error) (fun _ => checkSp_error) fun _ _ _ _ => trivial

theorem Alike.parseEsecret : Agree (fun a a' => ∀ entries, SameEntries msg msg' ⟨a, entries⟩ ⟨a', entries⟩)
    (parseEsecret msg) (Sps.parseEsecret msg') :=
  agree_of_isOk h.registrable (fun _ => parseEsecret_error) (fun _ => parseEsecret_error) fun _ _ ha ha' entries =>
    ⟨rfl, (presents_registered ha entries).trans (presents_registered ha' entries).symm⟩

theorem Alike.acceptedValue : Agree (fun _ _ => True) (acceptedValue ctx.config msg) (Connection.acceptedValue cfg' msg') :=
  agree_of_isOk h.accepted (fun _ => acceptedValue_error) (fun _ => acceptedValue_error) fun _ _ _ _ => trivial

theorem Alike.parseRegistration : Agree (fun r r' => r.1 = r'.1 ∧ SameEntries msg msg' r.2 r'.2)
    (parseRegistration ctx.config msg) (Sps.parseRegistration cfg' msg') := by
  have hsecrets : Json.find? msg (py "secrets") = Json.find? msg' (py "secrets") := h.members "secrets" (by decide)
  unfold Sps.parseRegistration
  refine agree_bind h.checkSp fun _ _ _ => ?_
  refine agree_bind (h.requireField (by decide)) fun toolId toolId' htool => ?_
  obtain rfl := htool
  refine agree_bind h.parseEsecret fun secret secret' hsecret => ?_
  rw [hsecrets]
  refine agree_bind agree_self fun entries entries' hentries => ?_
  obtain rfl := hentries
  have hgranted : granted ctx.config toolId = granted cfg' toolId := by
    funext e
    rw [granted, granted, h.grants]
  rw [hgranted]
  split_ifs
  · exact rfl
  · exact ⟨rfl, hsecret entries⟩

theorem Alike.parseUnregistration : Agree Eq (parseUnregistration ctx.config msg) (Sps.parseUnregistration cfg' msg') := by
  unfold Sps.parseUnregistration
  exact agree_bind h.checkSp fun _ _ _ => h.requireField (by decide)

theorem Alike.checkEs (toolId : PyStr) : Related (likeness msg msg') (SameEntries msg msg')
    (checkEs toolId msg) (Connection.checkEs toolId msg') := by
  have hpresented := h.presented
  unfold Connection.checkEs
  cases hsecret : Sps.field msg "esecret" with
  | none =>
    cases hsecret' : Sps.field msg' "esecret" with
    | none => exact rfl
    | some v' =>
      rw [hsecret, hsecret'] at hpresented
      cases hpresented
  | some v =>
    cases hsecret' : Sps.field msg' "esecret" with
    | none =>
      rw [hsecret, hsecret'] at hpresented
      cases hpresented
    | some v' =>
      refine Related.call (L := likeness msg msg') (.get toolId) (.get toolId) rfl fun found found' hfound => ?_
      cases hfound with
      | none => exact rfl
      | some hrec =>
        rw [checkFound, checkFound, hrec.2]
        split_ifs
        · exact hrec
        · exact rfl

/-- The handlers take the same path. -/
theorem Alike.handler (operation : Operation) : Related (likeness msg msg') (fun _ _ => True)
    (handler ctx msg operation) (Connection.handler { ctx with config := cfg' } msg' operation) := by
  have htool : Related (likeness msg msg') Eq (check (Sps.requireField msg "toolid")) (check (Sps.requireField msg' "toolid")) :=
    related_check (h.requireField (by decide))
  have hname : Related (likeness msg msg') Eq (check (Sps.requireField msg "name")) (check (Sps.requireField msg' "name")) :=
    related_check (h.requireField (by decide))
  cases operation with
  | ping => trivial
  | register =>
    refine .bind (related_check h.parseRegistration) fun r r' hr => ?_
    exact Related.call (L := likeness msg msg') (.register r.1 r.2) (.register r'.1 r'.2) hr fun _ _ _ => trivial
  | unregister =>
    refine .bind (related_check h.parseUnregistration) fun t t' ht => ?_
    exact Related.call (L := likeness msg msg') (.unregister t) (.unregister t') ht fun _ _ _ => trivial
  | getSecrets =>
    refine .bind htool fun toolId toolId' ht => ?_
    obtain rfl := ht
    refine .bind (h.checkEs toolId) fun rec rec' hrec => ?_
    rw [hrec.1]
    exact .bind (readEntries_related toolId rec'.secretEntries [] []) fun _ _ _ => trivial
  | getSecret =>
    refine .bind htool fun toolId toolId' ht => ?_
    obtain rfl := ht
    refine .bind hname fun name name' hn => ?_
    obtain rfl := hn
    refine .bind (h.checkEs toolId) fun rec rec' hrec => ?_
    have hentry : entryOf rec name = entryOf rec' name := by
      rw [entryOf, entryOf, Registration.entry, Registration.entry, hrec.1]
    rw [hentry]
    refine .bind (related_check agree_self) fun e e' he => ?_
    obtain rfl := he
    refine Related.call (L := likeness msg msg') (.getSecret e.field (e.target toolId)) (.getSecret e.field (e.target toolId)) ⟨rfl, rfl⟩ fun answer answer' hanswer => ?_
    exact .bind (related_answered hanswer) fun _ _ _ => trivial
  | writeSecret =>
    refine .bind htool fun toolId toolId' ht => ?_
    obtain rfl := ht
    refine .bind hname fun name name' hn => ?_
    obtain rfl := hn
    refine .bind (h.checkEs toolId) fun rec rec' hrec => ?_
    have hentry : entryOf rec name = entryOf rec' name := by
      rw [entryOf, entryOf, Registration.entry, Registration.entry, hrec.1]
    rw [hentry]
    refine .bind (related_check agree_self) fun e e' he => ?_
    obtain rfl := he
    refine .bind (related_check agree_self) fun _ _ _ => ?_
    refine .bind (related_check h.acceptedValue) fun value value' _ => ?_
    refine Related.call (L := likeness msg msg') (.writeSecret e.field (e.target toolId) value) (.writeSecret e.field (e.target toolId) value') ⟨rfl, rfl⟩ fun answer answer' hanswer => ?_
    exact .bind (related_answered hanswer) fun _ _ _ => trivial

/-! ## The whole request -/

theorem Alike.auditEvent (operation : Operation) (outcome : String) :
    auditEvent ctx operation msg outcome = Connection.auditEvent { ctx with config := cfg' } operation msg' outcome := by
  have hdeclared : declared msg = declared msg' := by
    rw [declared, declared, h.members "secrets" (by decide)]
  have hentry : digestEntry ctx msg = digestEntry { ctx with config := cfg' } msg' := by
    funext e
    unfold digestEntry
    rw [h.field (by decide)]
    rfl
  have hidentity : ∀ key, key ∉ secretMembers → identity ctx msg key = identity { ctx with config := cfg' } msg' key := by
    intro key hkey
    unfold identity
    rw [h.field hkey]
    rfl
  have hentries : auditEntries ctx operation msg outcome =
      auditEntries { ctx with config := cfg' } operation msg' outcome := by
    unfold auditEntries
    rw [hdeclared, hentry]
  unfold Connection.auditEvent
  rw [hentries, hidentity "toolid" (by decide), hidentity "name" (by decide), hdeclared]

/-- Outcomes of the one operation, with the same error or with two replies. -/
def SameOutcome (msg msg' : Message) (o o' : Outcome) : Prop :=
  o.operation = o'.operation ∧ o.message = msg ∧ o'.message = msg' ∧ SameError o.response o'.response

theorem Alike.serve : Related (likeness msg msg') (SameOutcome msg msg')
    (serve ctx (.ok (.obj msg))) (Connection.serve { ctx with config := cfg' } (.ok (.obj msg'))) := by
  have hrequested : (requested (.ok (.obj msg)) = none ∧ requested (.ok (.obj msg')) = none) ∨
      ∃ operation, requested (.ok (.obj msg)) = some (msg, operation) ∧ requested (.ok (.obj msg')) = some (msg', operation) := by
    have hop : Json.find? msg (py "op") = Json.find? msg' (py "op") := h.members "op" (by decide)
    simp only [requested, hop]
    split
    next name _ =>
      cases hnamed : Operation.named name with
      | none => exact .inl ⟨rfl, rfl⟩
      | some operation => exact .inr ⟨operation, rfl, rfl⟩
    · exact .inl ⟨rfl, rfl⟩
  unfold Connection.serve
  rcases hrequested with ⟨hnone, hnone'⟩ | ⟨operation, hsome, hsome'⟩
  · rw [hnone, hnone']
    exact ⟨rfl, rfl, rfl, rfl⟩
  · rw [hsome, hsome']
    refine .bind (h.handler operation).attempt fun result result' hresult => ?_
    cases result with
    | ok r =>
      cases result' with
      | ok r' => exact ⟨rfl, rfl, rfl, trivial⟩
      | error e' => cases hresult
    | error e =>
      cases result' with
      | ok r' => cases hresult
      | error e' =>
        have hexn : sameExn e e' := hresult
        cases e with
        | failure f =>
          cases e' with
          | failure f' =>
            obtain rfl : f = f' := hexn
            exact ⟨rfl, rfl, rfl, rfl⟩
          | _ => cases hexn
        | exited =>
          cases e' with
          | exited => trivial
          | _ => cases hexn
        | unwritable =>
          cases e' with
          | unwritable => trivial
          | _ => cases hexn

theorem Alike.settle {o o' : Outcome} (ho : SameOutcome msg msg' o o') : Related (likeness msg msg') SameError
    (settle ctx o) (Connection.settle { ctx with config := cfg' } o') := by
  obtain ⟨hoperation, rfl, rfl, hresponse⟩ := ho
  unfold Connection.settle
  rw [hoperation]
  cases o'.operation with
  | none => exact related_reject "invalid" hresponse
  | some operation =>
    simp only [hresponse.outcome]
    split_ifs
    · exact related_reject "ping" hresponse
    · exact related_reject "invalid" hresponse
    · unfold record
      rw [hresponse.outcome, h.auditEvent]
      cases hevent : Connection.auditEvent { ctx with config := cfg' } operation o'.message o'.response.outcome with
      | none => exact rfl
      | some e =>
        refine Related.call (L := likeness o.message o'.message) (.audit e) (.audit e) rfl fun r r' hr => ?_
        obtain rfl : r = r' := hr
        cases r with
        | ok u => exact hresponse
        | error x => exact rfl

/-- What is written, of two requests that differ in secrets. -/
theorem Alike.respond {s s' : State} (hpool : s.1.pool = pool) (hpool' : s'.1.pool = pool') (hlog : s.1.log = s'.1.log)
    (hω : ∀ n, (s.2 n).Alike (s'.2 n)) {message : String}
    (herror : replies ((respond ctx (.ok (.obj msg))).run (exec ctx) s).calls = [.error message]) :
    replies ((Connection.respond { ctx with config := cfg' } (.ok (.obj msg'))).run
      (exec { ctx with config := cfg' }) s').calls = [.error message] := by
  have hworld : World.Alike msg msg' s s' := ⟨hlog, hpool ▸ hpool' ▸ h.pools, hω⟩
  have hexec : ∀ (o o' : Call) (w w' : State), sameCall msg msg' o o' → World.Alike msg msg' w w' →
      sameAnswer msg msg' o o' (exec ctx o w).1 (exec { ctx with config := cfg' } o' w').1 ∧
        World.Alike msg msg' (exec ctx o w).2 (exec { ctx with config := cfg' } o' w').2 :=
    fun _ _ _ _ hcall hw => exec_alike hcall hw
  obtain ⟨hserved, hafter, -⟩ := h.serve.run hexec hworld
  rcases respond_discloses ctx (.ok (.obj msg)) s with ⟨hnone, -⟩ | ⟨o, response, ho, hresponse, hreplies, -⟩
  · rw [hnone] at herror
    cases herror
  · obtain rfl : response = .error message := List.singleton_inj.1 (hreplies.symm.trans herror)
    rw [ho] at hserved
    cases ho' : ((Connection.serve { ctx with config := cfg' } (.ok (.obj msg'))).run
        (exec { ctx with config := cfg' }) s').result with
    | error e =>
      rw [ho'] at hserved
      cases hserved
    | ok o' =>
      rw [ho'] at hserved
      obtain ⟨hsettled, -, -⟩ := (h.settle hserved).run hexec hafter
      rw [hresponse] at hsettled
      cases hresponse' : ((Connection.settle { ctx with config := cfg' } o').run (exec { ctx with config := cfg' })
          ((Connection.serve { ctx with config := cfg' } (.ok (.obj msg'))).run
            (exec { ctx with config := cfg' }) s').world).result with
      | error e =>
        rw [hresponse'] at hsettled
        cases hsettled
      | ok response' =>
        rw [hresponse'] at hsettled
        rw [respond_replies ho' hresponse']
        cases response' with
        | reply r => cases hsettled
        | error m =>
          obtain rfl : message = m := hsettled
          rfl

end Alike

end Handlers

/-! ## A connection -/

/-- Whatever a client sends, the plugin does and the audit log fails at: one reply at most goes out, a fixed
error or a success that is recorded; no error tells of a secret; and a request whose secret does not match
reaches neither the plugin nor the registrations. -/
theorem replies_fail_closed (ctx : Context) (limits : Json.Limits) (client : Client) (s : State) :
    let ran := (handle ctx limits client).run (exec ctx) s
    (replies ran.calls = [] ∨ ∃ response, replies ran.calls = [response] ∧
      Discloses (client.read limits) s.1.log ran.world.1.log response) ∧
    (∀ msg, client.read limits = .ok (.obj msg) → ∀ cfg' client' msg' s', client'.read limits = .ok (.obj msg') →
      Alike ctx.config cfg' s.1.pool s'.1.pool msg msg' → s.1.log = s'.1.log → (∀ n, (s.2 n).Alike (s'.2 n)) →
      ∀ message, replies ran.calls = [.error message] →
        replies ((handle { ctx with config := cfg' } limits client').run (exec { ctx with config := cfg' }) s').calls =
          [.error message]) ∧
    (∀ msg operation, requested (client.read limits) = some (msg, operation) →
      ¬Admitted ctx.config s.1.pool msg operation → ran.world.1.pool = s.1.pool ∧ ∀ c ∈ ran.calls, ¬c.1.Plugin) := by
  intro ran
  refine ⟨?_, ?_, ?_⟩
  · rcases respond_discloses ctx (client.read limits) s with ⟨hnone, -⟩ | ⟨-, response, -, -, hreplies, hdiscloses⟩
    · exact .inl hnone
    · exact .inr ⟨response, hreplies, hdiscloses⟩
  · intro msg hmsg cfg' client' msg' s' hmsg' halike hlog hω message herror
    have herror' : replies ((respond ctx (.ok (.obj msg))).run (exec ctx) s).calls = [.error message] := by
      rw [← hmsg]
      exact herror
    rw [handle, hmsg']
    exact halike.respond rfl rfl hlog hω herror'
  · intro msg operation hrequested hadmitted
    have hidle := respond_idle hrequested hadmitted
    exact ⟨hidle.pool, hidle.plugin⟩

namespace Sample

def config (secret : String) : Config := ⟨py secret, fun _ => [], 100⟩

def context (secret : String) : Context := ⟨config secret, AuditLog.Sample.logger, fun _ => [], py "boot", 1⟩

/-- A request under a wrong secret. -/
def unregister (secret : String) : Message :=
  [(py "op", .str (py "unregister")), (py "spsecret", .str (py secret)), (py "toolid", .str (py "t"))]

def client (payload : Bytes) : Client := ⟨[payload], ⟨fun _ => 0, fun _ => 0⟩, false⟩

def state : State := (⟨fun _ => none, {}⟩, fun _ => ⟨.exited, .exited, 0, fun _ => none, false⟩)

theorem client_read {msg : Message} {payload : Bytes} (hloadable : Json.Loadable Wire.Sample.limits (.obj msg))
    (hpayload : Wire.writeOneJson Wire.Sample.limits (.obj msg) = .ok payload)
    (hcap : payload.length ≤ Wire.maxBodyBytes) : (client payload).read Wire.Sample.limits = .ok (.obj msg) := by
  have hread := ((Wire.framing Wire.Sample.limits).1 _ _ hloadable hpayload hcap).2 (client payload).clock bodyTimeout
    (client payload).packets (fun _ => ⟨by simp [client, bodyTimeout], by simp [client, bodyTimeout]⟩) (by simp [client])
  rw [Client.read, hread]
  rfl

theorem alike : Alike (config "s") (config "t") (fun _ => none) (fun _ => none) (unregister "a") (unregister "b") where
  members := by
    intro key hkey
    have hne : ¬py "spsecret" = py key := by
      rw [py_injective.eq_iff]
      rintro rfl
      exact hkey (by decide)
    simp [Json.find?, unregister, List.find?, hne]
  grants := rfl
  sp := rfl
  presented := rfl
  registrable := rfl
  accepted := rfl
  pools := fun _ => .none

/-- What the server reads of the request. -/
theorem written (secret : String) (h : secret = "a" ∨ secret = "b") : ∃ payload,
    Wire.writeOneJson Wire.Sample.limits (.obj (unregister secret)) = .ok payload ∧
    (client payload).read Wire.Sample.limits = .ok (.obj (unregister secret)) := by
  obtain ⟨payload, hpayload, hlength⟩ : ∃ payload,
      Wire.writeOneJson Wire.Sample.limits (.obj (unregister secret)) = .ok payload ∧ payload.length = 53 := by
    rcases h with rfl | rfl
    · exact ⟨_, rfl, rfl⟩
    · exact ⟨_, rfl, rfl⟩
  have hloadable : Json.Loadable Wire.Sample.limits (.obj (unregister secret)) := by
    rcases h with rfl | rfl
    · exact ⟨by decide, by decide, rfl, by decide, rfl, by decide, rfl, trivial⟩
    · exact ⟨by decide, by decide, rfl, by decide, rfl, by decide, rfl, trivial⟩
  exact ⟨payload, hpayload, client_read hloadable hpayload (by rw [hlength]; decide)⟩

end Sample

open Sample in
theorem replies_fail_closed_unregister : ∃ payload payload',
    Wire.writeOneJson Wire.Sample.limits (.obj (unregister "a")) = .ok payload ∧
    Wire.writeOneJson Wire.Sample.limits (.obj (unregister "b")) = .ok payload' ∧
    replies ((handle (context "t") Wire.Sample.limits (client payload')).run (exec (context "t")) state).calls =
      [.error "Unauthorized"] := by
  obtain ⟨payload, hpayload, hread⟩ := written "a" (.inl rfl)
  obtain ⟨payload', hpayload', hread'⟩ := written "b" (.inr rfl)
  refine ⟨payload, payload', hpayload, hpayload', ?_⟩
  have hreply : replies ((handle (context "s") Wire.Sample.limits (client payload)).run (exec (context "s")) state).calls =
      [.error "Unauthorized"] := by
    rw [handle, hread]
    rfl
  exact (replies_fail_closed (context "s") Wire.Sample.limits (client payload) state).2.1 _ hread (config "t") (client payload')
    _ state hread' alike rfl (fun _ => ⟨trivial, trivial, rfl, rfl⟩) _ hreply

end Toolstack.Sps.Connection
