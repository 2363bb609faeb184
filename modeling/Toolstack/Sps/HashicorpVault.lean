import Toolstack.Interleave.Rely
import Toolstack.Sps.Localfile
import Toolstack.Url

/-! `sps/plugins/hashicorp_vault.py`: a write reads the whole item, sets one field, and posts
the item back with the version it read as compare-and-set. -/

namespace Toolstack.Sps.HashicorpVault

open Interleave (Prog System Discipline)
open Localfile (dictGet dictSet dictGet_dictSet)

abbrev Fields := List (PyStr × Json)

structure Plugin where
  base : PyStr
  mount : PyStr

inductive Exn
  | keyError
  | valueError
  | httpError (code : Nat)
  | runtimeError
  | other
  deriving DecidableEq

/-- Why an HTTP request has no answer: a status that is no success, or an exception. -/
inductive Refusal
  | status (code : Nat)
  | raised
  deriving DecidableEq

inductive Op
  | get (url : PyStr)
  | post (url : PyStr) (body : Json)

abbrev Op.Ret : Op → Type := fun _ => Except Refusal Json

/-! ## The client -/

/-- Only ASCII characters are looked for in what `unquote` makes of a part. -/
def unsafePart (part : PyStr) : Bool :=
  let decoded := Url.decode part
  part = [] || decoded = py "." || decoded = py ".." || decoded.any (· ∈ py "?#/\\")

def encode (path : PyStr) : Except Exn PyStr :=
  let parts := path.splitOn (Url.ch '/')
  if parts.any unsafePart then .error .valueError
  else if path.any CodePoint.isSurrogate then .error .valueError
  else .ok (List.intercalate (py "/") (parts.map Url.quote))

def path (plugin : Plugin) (item : PyStr) : Except Exn PyStr := do
  let mount ← encode plugin.mount
  let item ← encode item
  return plugin.base ++ py "/v1/" ++ mount ++ py "/data/" ++ item

/-- `v[key]`. -/
def subscript (v : Json) (key : String) : Except Exn Json :=
  match v with
  | .obj kvs => match Json.find? kvs (py key) with
    | some v => .ok v
    | none => .error .keyError
  | _ => .error .other

def readVersion (body : Json) : Except Exn (Fields × Int) := do
  let current ← subscript body "data"
  let data ← match ← subscript current "data" with
    | .obj data => .ok data
    | _ => .error .other
  match ← subscript (← subscript current "metadata") "version" with
  | .int version => if version < 1 then .error .valueError else .ok (data, version)
  | _ => .error .valueError

/-- What the item holds and its version; a missing item is empty and of version 0. -/
def readCurrent : Except Refusal Json → Except Exn (Fields × Int)
  | .ok body => readVersion body
  | .error (.status code) => if code = 404 then .ok ([], 0) else .error (.httpError code)
  | .error .raised => .error .other

def payload (data : Fields) (version : Int) : Json :=
  .obj [(py "data", .obj data), (py "options", .obj [(py "cas", .int version)])]

def lift {α : Type} : Except Exn α → Prog Op Op.Ret Exn α
  | .ok a => .ret a
  | .error e => .raise e

def perform (o : Op) : Prog Op Op.Ret Exn (Except Refusal Json) := Prog.perform o

def writeSecretBody (plugin : Plugin) (field item value : PyStr) : Prog Op Op.Ret Exn Unit := do
  let url ← lift (path plugin item)
  let answer ← perform (.get url)
  let (data, version) ← lift (readCurrent answer)
  let written ← perform (.post url (payload (dictSet data field (.str value)) version))
  match written with
  | .ok _ => return ()
  | .error (.status _) => .raise .runtimeError
  | .error .raised => .raise .other

/-- What `transport.operation` makes of an exception. -/
def Exn.reported : Exn → Exn
  | keyError => keyError
  | valueError => valueError
  | _ => runtimeError

def operation {α : Type} (m : Prog Op Op.Ret Exn α) : Prog Op Op.Ret Exn α := do
  match ← m.attempt with
  | .ok a => return a
  | .error e => .raise e.reported

def writeSecret (plugin : Plugin) (field item value : PyStr) : Prog Op Op.Ret Exn Unit :=
  operation (writeSecretBody plugin field item value)

/-! ## The server -/

structure Version where
  data : Fields
  deleted : Bool := false

/-- `created` is numbered from 1. -/
inductive Event
  | created (thread : Nat) (url : PyStr) (version : Nat)
  | conflict (thread : Nat) (url : PyStr)
  deriving DecidableEq

def Event.thread : Event → Nat
  | created thread _ _ | conflict thread _ => thread

/-- The versions of every item, oldest first, and what the writes came to. -/
structure Vault where
  items : PyStr → List Version
  log : List Event := []

/-- What becomes of a request: it is answered, it is served and the answer is lost, it never
arrives, or it is refused for a reason of its own. -/
inductive Delivery
  | answered
  | unanswered
  | lost
  | refused (code : Nat)

def Version.body (v : Version) (number : Nat) : Json :=
  .obj [(py "data", .obj [(py "data", .obj v.data),
    (py "metadata", .obj [(py "version", .int number)])])]

/-- A missing item and one whose latest version is deleted are not found. -/
def Vault.read (w : Vault) (url : PyStr) : Except Refusal Json :=
  match (w.items url).getLast? with
  | none => .error (.status 404)
  | some v => if v.deleted then .error (.status 404) else .ok (v.body (w.items url).length)

/-- The posted data and its `cas` option. -/
def posted : Json → Option (Fields × Int)
  | .obj kvs => match Json.find? kvs (py "data"), Json.find? kvs (py "options") with
    | some (.obj data), some (.obj options) => match Json.find? options (py "cas") with
      | some (.int cas) => some (data, cas)
      | _ => none
    | _, _ => none
  | _ => none

/-- Check-and-set: a version is created when the one supplied is the current one. -/
def Vault.write (i : Nat) (w : Vault) (url : PyStr) (body : Json) : Except Refusal Json × Vault :=
  match posted body with
  | none => (.error (.status 400), w)
  | some (data, cas) =>
    if cas = ((w.items url).length : Int) then
      (.ok (.obj []), {
        items := Function.update w.items url (w.items url ++ [⟨data, false⟩])
        log := .created i url ((w.items url).length + 1) :: w.log })
    else (.error (.status 400), { w with log := .conflict i url :: w.log })

def Vault.exec (i : Nat) : (o : Op) → Delivery → Vault → o.Ret × Vault
  | _, .lost, w => (.error .raised, w)
  | _, .refused code, w => (.error (.status code), w)
  | .get url, .answered, w => (w.read url, w)
  | .get _, .unanswered, w => (.error .raised, w)
  | .post url body, .answered, w => w.write i url body
  | .post url body, .unanswered, w => (.error .raised, (w.write i url body).2)

/-- One `write_secret` call. -/
structure Job where
  field : PyStr
  item : PyStr
  value : PyStr

/-- Any number of clients over one server. -/
def vault (plugin : Plugin) : System Op Op.Ret Exn Unit Job Vault Delivery Empty Empty where
  exec := Vault.exec
  program j := writeSecret plugin j.field j.item j.value
  env e := e.elim
  offline e := e.elim

/-! ## What a write goes by -/

variable {plugin : Plugin} {i : Nat} {w w' : Vault} {url : PyStr} {data : Fields} {version : Int}

theorem posted_payload : posted (payload data version) = some (data, version) := rfl

theorem readVersion_body {v : Version} {n : Nat} (hn : 1 ≤ n) :
    readVersion (v.body n) = .ok (v.data, (n : Int)) := by
  have hnot : ¬(n : Int) < 1 := by omega
  have hbody : readVersion (v.body n) =
      if (n : Int) < 1 then .error .valueError else .ok (v.data, (n : Int)) := rfl
  rw [hbody, if_neg hnot]

/-- The data that version `k + 1` is written over: nothing for the first. -/
def Preceding (versions : List Version) : Nat → Fields → Prop
  | 0, data => data = []
  | k + 1, data => versions[k]? = some ⟨data, false⟩

theorem getElem?_of_prefix {vs vs' : List Version} (hle : vs <+: vs') {k : Nat} {v : Version}
    (h : vs[k]? = some v) : vs'[k]? = some v := by
  obtain ⟨rest, rfl⟩ := hle
  rw [List.getElem?_append_left (List.getElem?_eq_some_iff.1 h).1, h]

theorem Preceding.mono {vs vs' : List Version} (hle : vs <+: vs') {k : Nat}
    (h : Preceding vs k data) : Preceding vs' k data := by
  cases k with
  | zero => exact h
  | succ k => exact getElem?_of_prefix hle h

/-- Whatever the read answers, what the client takes for current is a version of the item. -/
theorem readCurrent_read (h : readCurrent (w.read url) = .ok (data, version)) :
    ∃ k : Nat, version = k ∧ Preceding (w.items url) k data := by
  unfold Vault.read at h
  cases hlast : (w.items url).getLast? with
  | none =>
    rw [hlast] at h
    obtain ⟨rfl, rfl⟩ := Prod.mk.inj (Except.ok.inj h)
    exact ⟨0, rfl, rfl⟩
  | some v =>
    simp only [hlast] at h
    cases hdeleted : v.deleted with
    | true =>
      rw [hdeleted, if_pos rfl] at h
      obtain ⟨rfl, rfl⟩ := Prod.mk.inj (Except.ok.inj h)
      exact ⟨0, rfl, rfl⟩
    | false =>
      have hne : w.items url ≠ [] := by
        rintro hnil
        rw [hnil] at hlast
        cases hlast
      obtain ⟨k, hk⟩ : ∃ k, (w.items url).length = k + 1 :=
        Nat.exists_eq_add_one.2 (List.length_pos_of_ne_nil hne)
      rw [hdeleted, if_neg Bool.false_ne_true, readCurrent, readVersion_body (by omega)] at h
      obtain ⟨rfl, rfl⟩ := Prod.mk.inj (Except.ok.inj h)
      refine ⟨k + 1, by rw [hk], ?_⟩
      rw [List.getLast?_eq_getElem?, hk, Nat.add_sub_cancel] at hlast
      obtain ⟨data, deleted⟩ := v
      obtain rfl : deleted = false := hdeleted
      exact hlast

theorem readCurrent_refused {e : Refusal} (h : readCurrent (.error e) = .ok (data, version)) :
    ∃ k : Nat, version = k ∧ Preceding (w.items url) k data := by
  cases e with
  | raised => cases h
  | status code =>
    by_cases hcode : code = 404
    · subst hcode
      obtain ⟨rfl, rfl⟩ := Prod.mk.inj (Except.ok.inj h)
      exact ⟨0, rfl, rfl⟩
    · simp [readCurrent, hcode] at h

/-! ## What others may do -/

def Vault.eventsOf (w : Vault) (i : Nat) : List Event := w.log.filter fun e => e.thread = i

/-- The versions that were created, one for each event. -/
def Event.version? : Event → Option (PyStr × Nat)
  | created _ url n => some (url, n)
  | conflict _ _ => none

structure Sound (w : Vault) : Prop where
  present : ∀ url n, (url, n) ∈ w.log.filterMap Event.version? → n ≤ (w.items url).length
  once : (w.log.filterMap Event.version?).Nodup

/-- Versions stay, and thread `i` is the only one that does what it does. -/
structure Rely (i : Nat) (w w' : Vault) : Prop where
  items : ∀ url, w.items url <+: w'.items url
  events : w'.eventsOf i = w.eventsOf i

theorem Rely.refl (i : Nat) (w : Vault) : Rely i w w := ⟨fun _ => List.prefix_rfl, rfl⟩

theorem Rely.trans {w'' : Vault} (h : Rely i w w') (h' : Rely i w' w'') : Rely i w w'' :=
  ⟨fun url => (h.items url).trans (h'.items url), h'.events.trans h.events⟩

theorem write_payload : w.write i url (payload data version) =
    if version = ((w.items url).length : Int) then
      (.ok (.obj []), {
        items := Function.update w.items url (w.items url ++ [⟨data, false⟩])
        log := .created i url ((w.items url).length + 1) :: w.log })
    else (.error (.status 400), { w with log := .conflict i url :: w.log }) := rfl

/-- A write creates one version, or it is refused and at most logged. -/
theorem write_cases (i : Nat) (w : Vault) (url : PyStr) (body : Json) :
    (w.write i url body).2 = w ∨ (w.write i url body).2 = { w with log := .conflict i url :: w.log } ∨
      ∃ data, (w.write i url body).2 = {
        items := Function.update w.items url (w.items url ++ [⟨data, false⟩])
        log := .created i url ((w.items url).length + 1) :: w.log } := by
  unfold Vault.write
  split
  · exact .inl rfl
  · split_ifs
    · exact .inr (.inr ⟨_, rfl⟩)
    · exact .inr (.inl rfl)

/-- A request either changes nothing, or it is a write that was served. -/
theorem exec_cases (i : Nat) (o : Op) (ω : Delivery) (w : Vault) :
    (w.exec i o ω).2 = w ∨ ∃ url body, (w.exec i o ω).2 = (w.write i url body).2 := by
  cases o with
  | get url => cases ω <;> exact .inl rfl
  | post url body =>
    cases ω with
    | answered => exact .inr ⟨url, body, rfl⟩
    | unanswered => exact .inr ⟨url, body, rfl⟩
    | lost => exact .inl rfl
    | refused code => exact .inl rfl

theorem prefix_update (items : PyStr → List Version) (url url' : PyStr) (v : Version) :
    items url' <+: Function.update items url (items url ++ [v]) url' := by
  by_cases hurl : url' = url
  · subst hurl
    rw [Function.update_self]
    exact List.prefix_append ..
  · have hsame : Function.update items url (items url ++ [v]) url' = items url' :=
      Function.update_of_ne hurl ..
    exact hsame.symm ▸ List.prefix_rfl

theorem Sound.write (h : Sound w) (url : PyStr) (body : Json) : Sound (w.write i url body).2 := by
  rcases write_cases i w url body with hw | hw | ⟨data, hw⟩ <;> rw [hw]
  · exact h
  · exact ⟨h.present, h.once⟩
  · refine ⟨fun url' n hn => ?_, ?_⟩
    · rcases List.mem_cons.1 hn with heq | hold
      · obtain ⟨rfl, rfl⟩ := Prod.mk.inj heq
        show _ ≤ (Function.update w.items url' (w.items url' ++ [⟨data, false⟩]) url').length
        rw [Function.update_self, List.length_append, List.length_singleton]
      · exact (h.present url' n hold).trans (prefix_update ..).length_le
    · -- The new number is larger than every number of this item.
      refine List.nodup_cons.2 ⟨fun hold => ?_, h.once⟩
      have hle := h.present url _ hold
      omega

theorem rely_write {j : Nat} (hne : i ≠ j) (url : PyStr) (body : Json) :
    Rely j w (w.write i url body).2 := by
  rcases write_cases i w url body with hw | hw | ⟨data, hw⟩ <;> rw [hw]
  · exact .refl j w
  · exact ⟨fun _ => List.prefix_rfl, by simp [Vault.eventsOf, Event.thread, hne]⟩
  · exact ⟨fun _ => prefix_update .., by simp [Vault.eventsOf, Event.thread, hne]⟩

def discipline (plugin : Plugin) : Discipline (vault plugin) where
  inv := Sound
  rely := Rely
  requires _ _ _ := True
  fresh i w := w.eventsOf i = []
  rely_refl := Rely.refl
  rely_trans := Rely.trans
  fresh_rely h hr := hr.events.trans h
  exec_inv {i o w} ω h _ := by
    show Sound (w.exec i o ω).2
    rcases exec_cases i o ω w with hw | ⟨url, body, hw⟩ <;> rw [hw]
    · exact h
    · exact h.write url body
  exec_rely {i j o w} ω _ _ hne := by
    show Rely j w (w.exec i o ω).2
    rcases exec_cases i o ω w with hw | ⟨url, body, hw⟩ <;> rw [hw]
    · exact .refl j w
    · exact rely_write hne url body
  env_inv e := e.elim
  env_rely e := e.elim
  offline_inv f := f.elim
  offline_fresh f := f.elim

/-! ## One write -/

/-- The call of thread `i` created one version of its item: the preceding one with its field
set to its value. -/
def Wrote (plugin : Plugin) (i : Nat) (j : Job) (w : Vault) : Prop :=
  ∃ url k before after, path plugin j.item = .ok url ∧
    w.eventsOf i = [.created i url (k + 1)] ∧ (w.items url)[k]? = some ⟨after, false⟩ ∧
    Preceding (w.items url) k before ∧
    ∀ f, dictGet after f = if f = j.field then some (.str j.value) else dictGet before f

theorem Wrote.mono {j : Job} (hr : Rely i w w') (h : Wrote plugin i j w) : Wrote plugin i j w' := by
  obtain ⟨url, k, before, after, hpath, hevents, hafter, hbefore, hfields⟩ := h
  exact ⟨url, k, before, after, hpath, hr.events.trans hevents,
    getElem?_of_prefix (hr.items url) hafter, hbefore.mono (hr.items url), hfields⟩

/-- What a client knows once it has read: it has written nothing, and its data is a version. -/
structure Ready (i : Nat) (url : PyStr) (data : Fields) (version : Int) (w : Vault) : Prop where
  quiet : w.eventsOf i = []
  base : ∃ k : Nat, version = k ∧ Preceding (w.items url) k data

theorem Ready.mono (hr : Rely i w w') (h : Ready i url data version w) : Ready i url data version w' := by
  obtain ⟨k, hk, hbase⟩ := h.base
  exact ⟨hr.events.trans h.quiet, k, hk, hbase.mono (hr.items url)⟩

/-- A served post of what was read is a write, or a conflict. -/
theorem Ready.posted {j : Job} (h : Ready i url data version w) (hpath : path plugin j.item = .ok url) :
    Wrote plugin i j (w.write i url (payload (dictSet data j.field (.str j.value)) version)).2 ∧
        version = ((w.items url).length : Int) ∨
      (w.write i url (payload (dictSet data j.field (.str j.value)) version)).2.eventsOf i =
          [.conflict i url] ∧ version ≠ ((w.items url).length : Int) := by
  rw [write_payload]
  obtain ⟨k, rfl, hbase⟩ := h.base
  split_ifs with hcurrent
  · refine .inl ⟨?_, hcurrent⟩
    obtain rfl : k = (w.items url).length := by exact_mod_cast hcurrent
    refine ⟨url, _, data, dictSet data j.field (.str j.value), hpath, ?_, ?_,
      hbase.mono (prefix_update ..), fun f => dictGet_dictSet ..⟩
    · have hquiet := h.quiet
      simp only [Vault.eventsOf] at hquiet ⊢
      rw [List.filter_cons_of_pos (by simp [Event.thread]), hquiet]
    · simp
  · refine .inr ⟨?_, hcurrent⟩
    have hquiet := h.quiet
    simp only [Vault.eventsOf] at hquiet ⊢
    rw [List.filter_cons_of_pos (by simp [Event.thread]), hquiet]

theorem writeSecretBody_triple (j : Job) : (discipline plugin).Triple i (fun w => w.eventsOf i = [])
    (writeSecretBody plugin j.field j.item j.value) (fun _ w => Wrote plugin i j w)
    (fun _ w => (w.eventsOf i).length ≤ 1) := by
  have hfew : ∀ w : Vault, w.eventsOf i = [] → (w.eventsOf i).length ≤ 1 := fun w hw => by simp [hw]
  unfold writeSecretBody
  cases hpath : path plugin j.item with
  | error e => exact .raise fun w _ hw => hfew w hw
  | ok url =>
    have hread : (discipline plugin).Triple i (fun w => w.eventsOf i = []) (perform (.get url))
        (fun answer w => w.eventsOf i = [] ∧ ∀ data version,
          readCurrent answer = .ok (data, version) → Ready i url data version w)
        (fun _ w => (w.eventsOf i).length ≤ 1) := by
      refine .perform (fun _ _ hr hw => hr.events.trans hw) (fun _ _ _ => trivial) fun w ω _ hw => ?_
      refine ⟨by cases ω <;> exact hw, fun data version hcurrent => ⟨by cases ω <;> exact hw, ?_⟩⟩
      cases ω with
      | answered => exact readCurrent_read hcurrent
      | unanswered => exact readCurrent_refused hcurrent
      | lost => exact readCurrent_refused hcurrent
      | refused code => exact readCurrent_refused hcurrent
    show (discipline plugin).Triple i _ (perform (.get url) >>= _) _ _
    refine .bind hread fun answer => ?_
    cases hcurrent : readCurrent answer with
    | error e => exact .raise fun w _ hw => hfew w hw.1
    | ok current =>
      obtain ⟨data, version⟩ := current
      have hwrite : (discipline plugin).Triple i (Ready i url data version)
          (perform (.post url (payload (dictSet data j.field (.str j.value)) version)))
          (fun written w => match written with
            | .ok _ => Wrote plugin i j w
            | .error _ => (w.eventsOf i).length ≤ 1)
          (fun _ w => (w.eventsOf i).length ≤ 1) := by
        refine .perform (fun _ _ hr hw => hw.mono hr) (fun _ _ _ => trivial) fun w ω _ hw => ?_
        have hcount : ∀ {w' : Vault}, Wrote plugin i j w' → (w'.eventsOf i).length ≤ 1 :=
          fun ⟨_, _, _, _, _, hevents, _⟩ => by simp [hevents]
        have hposted := Ready.posted (j := j) hw hpath
        cases ω with
        | lost => exact hfew w hw.quiet
        | refused code => exact hfew w hw.quiet
        | unanswered =>
          rcases hposted with ⟨hwrote, -⟩ | ⟨hevents, -⟩
          · exact hcount hwrote
          · exact le_of_eq (congrArg List.length hevents)
        | answered =>
          rcases hposted with ⟨hwrote, hversion⟩ | ⟨hevents, hversion⟩
          · have hanswer : (w.write i url
                (payload (dictSet data j.field (.str j.value)) version)).1 = .ok (.obj []) := by
              rw [write_payload, if_pos hversion]
            show match (w.write i url _).1 with
              | .ok _ => _
              | .error _ => _
            rw [hanswer]
            exact hwrote
          · have hanswer : (w.write i url
                (payload (dictSet data j.field (.str j.value)) version)).1 = .error (.status 400) := by
              rw [write_payload, if_neg hversion]
            show match (w.write i url _).1 with
              | .ok _ => _
              | .error _ => _
            rw [hanswer]
            exact le_of_eq (congrArg List.length hevents)
      show (discipline plugin).Triple i _ (perform (.post url _) >>= _) _ _
      refine .bind (hwrite.conseq (fun w _ hw => hw.2 data version rfl) (fun _ _ _ h => h)
        fun _ _ _ h => h) fun written => ?_
      cases written with
      | ok _ => exact .ret fun _ _ h => h
      | error e =>
        cases e with
        | status code => exact .raise fun _ _ h => h
        | raised => exact .raise fun _ _ h => h

theorem writeSecret_triple (i : Nat) (j : Job) : (discipline plugin).Triple i
    ((discipline plugin).fresh i) ((vault plugin).program j) (fun _ w => Wrote plugin i j w)
    (fun _ w => (w.eventsOf i).length ≤ 1) := by
  refine .bind (writeSecretBody_triple j).attempt fun x => ?_
  cases x with
  | ok a => exact .ret fun _ _ h => h
  | error e => exact .raise fun _ _ h => h

theorem vault_disciplined : (discipline plugin).Disciplined := fun i j =>
  (writeSecret_triple i j).conseq (fun _ _ h => h) (fun _ _ _ _ => trivial) fun _ _ _ _ => trivial

/-! ## Runs -/

theorem rely_of_steps {ok c c'} (hcovered : (discipline plugin).Covered c)
    (hrun : (vault plugin).Steps ok c c') {t} (ht : c.threads[i]? = some t) (hstop : t.stopped = true) :
    Rely i c.world c'.world := by
  refine hrun.invariant (P := fun c' => Rely i c.world c'.world) (.refl i _)
    fun c₁ m c₂ hrun₁ _ hs ih => ih.trans ?_
  refine (hcovered.steps vault_disciplined hrun₁).step_rely hs (fun f => f.elim) ?_
  rintro ω rfl
  obtain ⟨j, o, k, ht', -, -⟩ := System.step_call hs
  obtain rfl := Option.some.inj ((Discipline.stopped_of_steps hrun₁ ht hstop).symm.trans ht')
  cases hstop

/-- In every run of any number of writes, from any state of the server: a write that returned
created a version of its own, in which its field has its value and every other field is as in
the version before; and a write that failed over a conflict created none. -/
theorem writes_lose_no_field (plugin : Plugin) (items : PyStr → List Version) {c}
    (h : (vault plugin).Reachable ⟨items, []⟩ c) :
    (∀ i j, c.threads[i]? = some ⟨j, some (.ret ())⟩ → Wrote plugin i j c.world) ∧
    (∀ i j e url, c.threads[i]? = some ⟨j, some (.raise e)⟩ → .conflict i url ∈ c.world.log →
      ∀ url n, .created i url n ∉ c.world.log) ∧
    (c.world.log.filterMap Event.version?).Nodup := by
  have hinitial : (discipline plugin).Covered ⟨⟨items, []⟩, []⟩ :=
    .initial ⟨fun _ _ hn => absurd hn List.not_mem_nil, List.nodup_nil⟩ fun _ => rfl
  have hprogress : ∀ i t, c.threads[i]? = some t → (discipline plugin).Progress (fun _ _ => True) i
      t.job (fun _ w => Wrote plugin i t.job w) (fun _ w => (w.eventsOf i).length ≤ 1)
      ⟨⟨items, []⟩, []⟩ c := fun i t ht =>
    hinitial.progress vault_disciplined writeSecret_triple h (Nat.zero_le i) ht
  refine ⟨fun i j ht => ?_, fun i j e url ht hconflict url' n hcreated => ?_,
    (hinitial.steps vault_disciplined h).inv.once⟩
  · cases hprogress i _ ht with
    | running o k thread _ => cases ht.symm.trans thread
    | killed thread => cases ht.symm.trans thread
    | raised e c' _ after thread _ =>
      cases ht.symm.trans (Discipline.stopped_of_steps after thread rfl)
    | returned a c' before after thread post =>
      exact post.mono (rely_of_steps (hinitial.steps vault_disciplined before) after thread rfl)
  · cases hprogress i _ ht with
    | running o k thread _ => cases ht.symm.trans thread
    | killed thread => cases ht.symm.trans thread
    | returned a c' _ after thread _ =>
      cases ht.symm.trans (Discipline.stopped_of_steps after thread rfl)
    | raised e c' before after thread post =>
      -- A call that raised has at most one event, and the conflict is one.
      have hrely := rely_of_steps (hinitial.steps vault_disciplined before) after thread rfl
      rw [← hrely.events] at post
      have hmem : ∀ ev ∈ c.world.log, ev.thread = i → ev ∈ c.world.eventsOf i := fun ev hev hi =>
        List.mem_filter.2 ⟨hev, decide_eq_true hi⟩
      have hconflict := hmem _ hconflict rfl
      have hcreated := hmem _ hcreated rfl
      cases hevents : c.world.eventsOf i with
      | nil => exact absurd (hevents ▸ hconflict) List.not_mem_nil
      | cons ev rest =>
        rw [hevents] at post hconflict hcreated
        obtain rfl : rest = [] := List.length_eq_zero_iff.1 (by simpa using post)
        cases (List.mem_singleton.1 hconflict).trans (List.mem_singleton.1 hcreated).symm

namespace Sample

def kv : Plugin := ⟨py "http://vault", py "secret"⟩

def item : List Version := [⟨[(py "a", .str (py "1"))], false⟩]

def setB : Job := ⟨py "b", py "app", py "2"⟩

def setA : Job := ⟨py "a", py "app", py "3"⟩

/-- Both read version 1; the second to start is the first to write. -/
def moves : List (Interleave.Move Job Delivery Empty Empty) :=
  [.start setB, .start setA, .call 0 .answered, .call 1 .answered, .call 1 .answered,
    .call 0 .answered]

end Sample

theorem writes_lose_no_field_race : ∃ c,
    (vault Sample.kv).run ⟨⟨fun _ => Sample.item, []⟩, []⟩ Sample.moves = some c ∧
      Wrote Sample.kv 1 Sample.setA c.world ∧ ∀ url n, .created 0 url n ∉ c.world.log := by
  obtain ⟨c, hrun⟩ : ∃ c, (vault Sample.kv).run ⟨⟨fun _ => Sample.item, []⟩, []⟩ Sample.moves =
      some c := Option.isSome_iff_exists.1 rfl
  obtain ⟨hwrote, hfailed, -⟩ := writes_lose_no_field Sample.kv _ (System.Steps.of_run hrun)
  have hend : ((vault Sample.kv).run ⟨⟨fun _ => Sample.item, []⟩, []⟩ Sample.moves).map (fun c =>
      (c.threads[1]?, c.threads[0]?, c.world.log.head?)) =
      some (some ⟨Sample.setA, some (.ret ())⟩, some ⟨Sample.setB, some (.raise .runtimeError)⟩,
        some (.conflict 0 (py "http://vault/v1/secret/data/app"))) := rfl
  rw [hrun, Option.map_some, Option.some_inj, Prod.mk.injEq, Prod.mk.injEq] at hend
  obtain ⟨hone, hzero, hlog⟩ := hend
  exact ⟨c, hrun, hwrote 1 _ hone,
    hfailed 0 _ _ _ hzero (List.mem_of_head? hlog)⟩

end Toolstack.Sps.HashicorpVault
