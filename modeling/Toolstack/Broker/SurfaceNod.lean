import Toolstack.Broker.Bounds
import Toolstack.Broker.Schema

/-! `surface_nod.py`: what the broker reads out of a decision that the approval surface returns. -/

namespace Toolstack.Broker.SurfaceNod

open Bounds (Bytes)

/-- `re.fullmatch(r"[A-Za-z0-9_-]{1,128}", ref)`. -/
def refChar (c : CodePoint) : Bool :=
  (0x41 ≤ c.val && c.val ≤ 0x5A) || (0x61 ≤ c.val && c.val ≤ 0x7A) || (0x30 ≤ c.val && c.val ≤ 0x39) ||
    c.val = 0x5F || c.val = 0x2D

def validRef (ref : PyStr) : Bool := ref.all refChar && 1 ≤ ref.length && ref.length ≤ 128

/-- `value == ref`, which no value of another type is. -/
def isRef (ref : PyStr) : Json → Bool
  | .str s => s = ref
  | _ => false

/-- `isinstance(child, dict) and "id" in child and child["id"] != ref`. -/
def otherRequest (ref : PyStr) : Json → Bool
  | .obj members =>
    match Json.find? members (py "id") with
    | some id => !isRef ref id
    | none => false
  | _ => false

mutual
/-- `_matching_ids`. -/
def matchingIds (ref : PyStr) : Json → Bool
  | .obj kvs => matchingMembers ref kvs
  | .arr xs => matchingAll ref xs
  | _ => true

def matchingMembers (ref : PyStr) : List (PyStr × Json) → Bool
  | [] => true
  | (key, child) :: kvs =>
    if key = py "request_id" && !isRef ref child then false
    else if key = py "request" && otherRequest ref child then false
    else if !matchingIds ref child then false
    else matchingMembers ref kvs

def matchingAll (ref : PyStr) : List Json → Bool
  | [] => true
  | x :: xs => matchingIds ref x && matchingAll ref xs
end

/-- A surface's answer as it is handed to the broker, with whatever the document holds. -/
structure Decision where
  outcome : ApprovalStatus
  approver : Json := .null
  note : Json := .null
  decidedAt : Json := .null

def get (kvs : List (PyStr × Json)) (key : String) : Json := (Json.find? kvs (py key)).getD .null

def isText (text : String) : Json → Bool := isRef (py text)

def toState (data : List (PyStr × Json)) : Decision :=
  let status := (Json.find? data (py "status")).getD (.str (py "pending"))
  if isText "expired" status then { outcome := .expired }
  else if isText "cancelled" status then { outcome := .cancelled }
  else
    match get data "decision" with
    | .obj decision =>
      if !isText "resolved" status then { outcome := .pending }
      else if isText "approve" (get decision "option_id") && isText "approve" (get decision "option_kind") then
        ⟨.approved, get decision "actor_user_id", get decision "text", get decision "resolved_at"⟩
      else if isText "reject" (get decision "option_id") && isText "reject_with_text" (get decision "option_kind") then
        ⟨.rejected, get decision "actor_user_id", get decision "text", get decision "resolved_at"⟩
      else { outcome := .pending }
    | _ => { outcome := .pending }

/-- What a request to the surface comes to. -/
inductive Answer
  | httpError (code : Nat)
  | urlError
  | raised
  | body (raw : Bytes)

inductive Exn
  | valueError (text : String)
  | runtimeError (text : String)
  | transport

section
variable (loads : Bytes → Option Json)

/-- The end of `_call`: `json.loads(raw) if raw else {}`, which has to be a dict. -/
def loadBody (raw : Bytes) : Except Exn (List (PyStr × Json)) :=
  if raw = [] then .ok []
  else
    match loads raw with
    | some (.obj kvs) => .ok kvs
    | some _ => .error (.valueError "invalid Nod response")
    | none => .error (.valueError "invalid JSON")

def poll (ref : PyStr) (answer : Answer) : Except Exn Decision :=
  if !validRef ref then .error (.valueError "invalid Nod request identifier")
  else
    match answer with
    | .httpError code =>
      if code = 404 then .ok { outcome := .expired } else .error (.runtimeError "nod poll failed")
    | .urlError => .error (.runtimeError "nod unreachable")
    | .raised => .error .transport
    | .body raw => do
      let data ← loadBody loads raw
      if !isRef ref (get data "request_id") || !matchingIds ref (.obj data) then
        .error (.valueError "Nod returned mismatched request identifiers")
      else return toState data

end

/-! ## Identifiers at any depth -/

/-- A value at some depth of a document. -/
inductive Inside (v : Json) : Json → Prop
  | here : Inside v v
  | item {xs x} (hx : x ∈ xs) (h : Inside v x) : Inside v (.arr xs)
  | member {kvs key child} (hmem : (key, child) ∈ kvs) (h : Inside v child) : Inside v (.obj kvs)

/-- The members of one object name no other request. -/
def Names (ref : PyStr) (kvs : List (PyStr × Json)) : Prop :=
  (∀ child, (py "request_id", child) ∈ kvs → child = .str ref) ∧
    ∀ members id, (py "request", .obj members) ∈ kvs → Json.find? members (py "id") = some id → id = .str ref

/-- No object at any depth of a document names another request. -/
def Consistent (ref : PyStr) (doc : Json) : Prop := ∀ kvs, Inside (.obj kvs) doc → Names ref kvs

section
variable {ref : PyStr}

theorem isRef_iff {v : Json} : isRef ref v = true ↔ v = .str ref := by
  cases v with
  | str s => simp [isRef]
  | null | bool | int | float | arr | obj => simp [isRef]

theorem consistent_arr {xs : List Json} : Consistent ref (.arr xs) ↔ ∀ x ∈ xs, Consistent ref x := by
  constructor
  · intro h x hx kvs hinside
    exact h kvs (.item hx hinside)
  · intro h kvs hinside
    cases hinside with
    | item hx hinside => exact h _ hx kvs hinside

theorem consistent_obj {kvs : List (PyStr × Json)} :
    Consistent ref (.obj kvs) ↔ Names ref kvs ∧ ∀ kv ∈ kvs, Consistent ref kv.2 := by
  constructor
  · intro h
    refine ⟨h kvs .here, fun kv hmem members hinside => h members (@Inside.member _ _ kv.1 _ hmem hinside)⟩
  · rintro ⟨hnames, hmembers⟩ members hinside
    cases hinside with
    | here => exact hnames
    | member hmem hinside => exact hmembers _ hmem members hinside

theorem consistent_scalar {v : Json} (harr : ∀ xs, v ≠ .arr xs) (hobj : ∀ kvs, v ≠ .obj kvs) :
    Consistent ref v := by
  intro kvs hinside
  cases hinside with
  | here => exact absurd rfl (hobj kvs)
  | item hx => exact absurd rfl (harr _)
  | member hmem => exact absurd rfl (hobj _)

theorem otherRequest_eq_false {child : Json} : otherRequest ref child = false ↔
    ∀ members id, child = .obj members → Json.find? members (py "id") = some id → id = .str ref := by
  cases child with
  | obj members =>
    rw [otherRequest]
    cases hid : Json.find? members (py "id") with
    | none =>
      refine iff_of_true rfl ?_
      rintro _ _ ⟨rfl⟩ hid'
      rw [hid] at hid'
      cases hid'
    | some id =>
      simp only [Bool.not_eq_false', isRef_iff]
      constructor
      · rintro h _ _ ⟨rfl⟩ hid'
        exact Option.some.inj (hid'.symm.trans hid) ▸ h
      · exact fun h => h members id rfl hid
  | null | bool | int | float | str | arr => simp [otherRequest]

theorem names_nil : Names ref [] := ⟨fun _ h => absurd h List.not_mem_nil, fun _ _ h => absurd h List.not_mem_nil⟩

theorem names_cons {key : PyStr} {child : Json} {kvs : List (PyStr × Json)} : Names ref ((key, child) :: kvs) ↔
    (key = py "request_id" → isRef ref child = true) ∧ (key = py "request" → otherRequest ref child = false) ∧
      Names ref kvs := by
  simp only [isRef_iff, otherRequest_eq_false]
  constructor
  · rintro ⟨hids, hrequests⟩
    refine ⟨?_, ?_, fun c hc => hids c (List.mem_cons_of_mem _ hc),
      fun m i hm => hrequests m i (List.mem_cons_of_mem _ hm)⟩
    · rintro rfl
      exact hids child (List.mem_cons_self ..)
    · rintro rfl members id rfl
      exact hrequests members id (List.mem_cons_self ..)
  · rintro ⟨hid, hrequest, hids, hrequests⟩
    constructor
    · intro c hc
      rcases List.mem_cons.1 hc with heq | hmem
      · obtain ⟨hkey, rfl⟩ := Prod.mk.inj heq
        exact hid hkey.symm
      · exact hids c hmem
    · intro members id hm
      rcases List.mem_cons.1 hm with heq | hmem
      · obtain ⟨hkey, hchild⟩ := Prod.mk.inj heq
        exact hrequest hkey.symm members id hchild.symm
      · exact hrequests members id hmem

theorem matchingMembers_cons {key : PyStr} {child : Json} {kvs : List (PyStr × Json)} :
    matchingMembers ref ((key, child) :: kvs) = true ↔ (key = py "request_id" → isRef ref child = true) ∧
      (key = py "request" → otherRequest ref child = false) ∧ matchingIds ref child = true ∧
        matchingMembers ref kvs = true := by
  rw [matchingMembers]
  cases isRef ref child <;> cases otherRequest ref child <;> cases matchingIds ref child <;>
    by_cases hid : key = py "request_id" <;> by_cases hrequest : key = py "request" <;> simp [hid, hrequest]

mutual
theorem matchingIds_iff : ∀ doc : Json, matchingIds ref doc = true ↔ Consistent ref doc
  | .null | .bool _ | .int _ | .float _ | .str _ =>
    iff_of_true (by rw [matchingIds] <;> nofun) (consistent_scalar nofun nofun)
  | .arr xs => by rw [matchingIds, matchingAll_iff xs, consistent_arr]
  | .obj kvs => by rw [matchingIds, matchingMembers_iff kvs, consistent_obj]

theorem matchingAll_iff : ∀ xs : List Json, matchingAll ref xs = true ↔ ∀ x ∈ xs, Consistent ref x
  | [] => iff_of_true rfl fun _ h => absurd h List.not_mem_nil
  | x :: xs => by
    rw [matchingAll, Bool.and_eq_true, matchingIds_iff x, matchingAll_iff xs, List.forall_mem_cons]

theorem matchingMembers_iff : ∀ kvs : List (PyStr × Json),
    matchingMembers ref kvs = true ↔ Names ref kvs ∧ ∀ kv ∈ kvs, Consistent ref kv.2
  | [] => iff_of_true rfl ⟨names_nil, fun _ h => absurd h List.not_mem_nil⟩
  | (key, child) :: kvs => by
    rw [matchingMembers_cons, names_cons, List.forall_mem_cons, matchingIds_iff child, matchingMembers_iff kvs]
    constructor
    · rintro ⟨hid, hrequest, hchild, hnames, hrest⟩
      exact ⟨⟨hid, hrequest, hnames⟩, hchild, hrest⟩
    · rintro ⟨⟨hid, hrequest, hnames⟩, hchild, hrest⟩
      exact ⟨hid, hrequest, hchild, hnames, hrest⟩
end

end

/-! ## What is believed -/

/-- A resolved document whose decision is exactly this option of this kind. -/
def Decided (data : List (PyStr × Json)) (option kind : String) : Prop :=
  Json.find? data (py "status") = some (.str (py "resolved")) ∧
    ∃ decision, Json.find? data (py "decision") = some (.obj decision) ∧
      Json.find? decision (py "option_id") = some (.str (py option)) ∧
      Json.find? decision (py "option_kind") = some (.str (py kind))

theorem isText_get {kvs : List (PyStr × Json)} {key text : String} :
    isText text (get kvs key) = true ↔ Json.find? kvs (py key) = some (.str (py text)) := by
  rw [isText, isRef_iff, get]
  cases Json.find? kvs (py key) with
  | none => simp
  | some v => simp

theorem isText_status {data : List (PyStr × Json)} {text : String} (h : py text ≠ py "pending") :
    isText text ((Json.find? data (py "status")).getD (.str (py "pending"))) = true ↔
      Json.find? data (py "status") = some (.str (py text)) := by
  rw [isText, isRef_iff]
  cases Json.find? data (py "status") with
  | none => simp [h.symm]
  | some v => simp

theorem decided_status {data : List (PyStr × Json)} {option kind : String} (h : Decided data option kind) :
    isText "expired" ((Json.find? data (py "status")).getD (.str (py "pending"))) = false ∧
      isText "cancelled" ((Json.find? data (py "status")).getD (.str (py "pending"))) = false ∧
      isText "resolved" ((Json.find? data (py "status")).getD (.str (py "pending"))) = true := by
  rw [h.1]
  decide

theorem get_obj {kvs members : List (PyStr × Json)} {key : String} :
    get kvs key = .obj members ↔ Json.find? kvs (py key) = some (.obj members) := by
  rw [get]
  cases Json.find? kvs (py key) with
  | none => simp
  | some v => simp

/-- A resolved document with a decision is decided by the pair of its option. -/
theorem decided_iff {data decision : List (PyStr × Json)} {option kind : String}
    (hstatus : isText "resolved" ((Json.find? data (py "status")).getD (.str (py "pending"))) = true)
    (hdecision : get data "decision" = .obj decision) : Decided data option kind ↔
      (isText option (get decision "option_id") && isText kind (get decision "option_kind")) = true := by
  rw [Bool.and_eq_true, isText_get, isText_get]
  constructor
  · rintro ⟨-, decision', hfind, hid, hkind⟩
    obtain rfl : decision = decision' := by
      have heq := hdecision.symm.trans (get_obj.2 hfind)
      injection heq
    exact ⟨hid, hkind⟩
  · rintro ⟨hid, hkind⟩
    exact ⟨(isText_status (by decide)).1 hstatus, decision, get_obj.1 hdecision, hid, hkind⟩

/-- A document is approved or rejected exactly where it is decided with the issued option. -/
theorem toState_outcome (data : List (PyStr × Json)) :
    ((toState data).outcome = .approved ↔ Decided data "approve" "approve") ∧
      ((toState data).outcome = .rejected ↔ Decided data "reject" "reject_with_text") := by
  have hundecided : ∀ {outcome : ApprovalStatus}, outcome ≠ .approved → outcome ≠ .rejected →
      (∀ option kind, ¬ Decided data option kind) →
      (outcome = .approved ↔ Decided data "approve" "approve") ∧
        (outcome = .rejected ↔ Decided data "reject" "reject_with_text") :=
    fun happroved hrejected hnot => ⟨iff_of_false happroved (hnot _ _), iff_of_false hrejected (hnot _ _)⟩
  rw [toState]
  by_cases hexpired : isText "expired" ((Json.find? data (py "status")).getD (.str (py "pending"))) = true
  · rw [if_pos hexpired]
    exact hundecided (by decide) (by decide) fun _ _ h => Bool.eq_false_iff.1 (decided_status h).1 hexpired
  by_cases hcancelled : isText "cancelled" ((Json.find? data (py "status")).getD (.str (py "pending"))) = true
  · rw [if_neg hexpired, if_pos hcancelled]
    exact hundecided (by decide) (by decide) fun _ _ h => Bool.eq_false_iff.1 (decided_status h).2.1 hcancelled
  rw [if_neg hexpired, if_neg hcancelled]
  cases hdecision : get data "decision" with
  | obj decision =>
    cases hresolved : isText "resolved" ((Json.find? data (py "status")).getD (.str (py "pending"))) with
    | false =>
      refine @hundecided .pending (by decide) (by decide) fun _ _ h => ?_
      rw [(decided_status h).2.2] at hresolved
      cases hresolved
    | true =>
      rw [decided_iff hresolved hdecision, decided_iff hresolved hdecision]
      have hexclusive : isText "approve" (get decision "option_id") = true →
          isText "reject" (get decision "option_id") = false := by
        intro happrove
        rw [isText, isRef_iff.1 happrove]
        decide
      cases happrove : isText "approve" (get decision "option_id") with
      | true =>
        cases hkind : isText "approve" (get decision "option_kind") <;>
          simp [hexclusive happrove, happrove, hkind]
      | false =>
        cases hreject : isText "reject" (get decision "option_id") <;>
          cases hkind : isText "reject_with_text" (get decision "option_kind") <;>
            simp [happrove, hreject, hkind]
  | null | bool | int | float | str | arr =>
    refine @hundecided .pending (by decide) (by decide) fun _ _ h => ?_
    obtain ⟨-, decision, hfind, -⟩ := h
    rw [get_obj.2 hfind] at hdecision
    cases hdecision

/-- The document in an answer that `poll` takes for the request. -/
def Document (loads : Bytes → Option Json) (ref : PyStr) (answer : Answer) (data : List (PyStr × Json)) : Prop :=
  ∃ raw, answer = .body raw ∧ raw ≠ [] ∧ loads raw = some (.obj data) ∧
    Json.find? data (py "request_id") = some (.str ref) ∧ Consistent ref (.obj data)

theorem loadBody_ok {loads : Bytes → Option Json} {raw : Bytes} {data : List (PyStr × Json)} :
    loadBody loads raw = .ok data ↔ raw = [] ∧ data = [] ∨ raw ≠ [] ∧ loads raw = some (.obj data) := by
  rw [loadBody]
  by_cases hnil : raw = []
  · rw [if_pos hnil]
    simp [hnil, eq_comm]
  · rw [if_neg hnil]
    cases loads raw with
    | none => simp [hnil]
    | some v => cases v <;> simp [hnil]

/-- A document is taken where its identifiers, at every depth, are those of the request. -/
theorem accepted_iff {loads : Bytes → Option Json} {ref : PyStr} {raw : Bytes} {data : List (PyStr × Json)} :
    Document loads ref (.body raw) data ↔ loadBody loads raw = .ok data ∧
      (!isRef ref (get data "request_id") || !matchingIds ref (.obj data)) = false := by
  have hid : isRef ref (get data "request_id") = true ↔ Json.find? data (py "request_id") = some (.str ref) := by
    rw [isRef_iff, get]
    cases Json.find? data (py "request_id") with
    | none => simp
    | some v => simp
  rw [Bool.or_eq_false_iff, Bool.not_eq_false', Bool.not_eq_false', hid, matchingIds_iff, loadBody_ok]
  constructor
  · rintro ⟨raw', hraw, hne, hloads, hdoc⟩
    obtain rfl := Answer.body.inj hraw
    exact ⟨.inr ⟨hne, hloads⟩, hdoc⟩
  · rintro ⟨⟨-, rfl⟩ | ⟨hne, hloads⟩, hfind, hdoc⟩
    · cases hfind
    · exact ⟨raw, rfl, hne, hloads, hfind, hdoc⟩

/-- A state comes from a document about the request, or says that the request is gone. -/
theorem poll_ok {loads : Bytes → Option Json} {ref : PyStr} {answer : Answer} {state : Decision} :
    poll loads ref answer = .ok state ↔ validRef ref = true ∧
      (answer = .httpError 404 ∧ state = { outcome := .expired } ∨
        ∃ data, Document loads ref answer data ∧ state = toState data) := by
  unfold poll
  cases hvalid : validRef ref with
  | false => simp
  | true =>
    cases answer with
    | httpError code => by_cases hcode : code = 404 <;> simp [Document, hcode, eq_comm]
    | urlError => simp [Document]
    | raised => simp [Document]
    | body raw =>
      have hbody : (loadBody loads raw >>= fun data =>
          if !isRef ref (get data "request_id") || !matchingIds ref (.obj data) then
            .error (.valueError "Nod returned mismatched request identifiers")
          else .ok (toState data)) = .ok state ↔
          ∃ data, Document loads ref (.body raw) data ∧ state = toState data := by
        simp only [accepted_iff]
        cases loadBody loads raw with
        | error e => exact iff_of_false nofun (by simp)
        | ok data =>
          show (if _ then _ else _) = _ ↔ _
          split
          case isTrue hdiffer =>
            refine iff_of_false nofun ?_
            rintro ⟨_, ⟨⟨rfl⟩, hsame⟩, -⟩
            rw [hdiffer] at hsame
            cases hsame
          case isFalse hsame =>
            constructor
            · rintro ⟨rfl⟩
              exact ⟨data, ⟨rfl, Bool.eq_false_iff.2 hsame⟩, rfl⟩
            · rintro ⟨_, ⟨⟨rfl⟩, -⟩, rfl⟩
              rfl
      exact hbody.trans (by simp)

/-- An approval or a rejection is believed exactly where a document about no other request, at any
depth, carries the issued option; whatever else a surface returns leaves the request undecided. -/
theorem approval_believed (loads : Bytes → Option Json) (ref : PyStr) (answer : Answer) :
    ((∃ state, poll loads ref answer = .ok state ∧ state.outcome = .approved) ↔
      validRef ref = true ∧ ∃ data, Document loads ref answer data ∧ Decided data "approve" "approve") ∧
    ((∃ state, poll loads ref answer = .ok state ∧ state.outcome = .rejected) ↔
      validRef ref = true ∧ ∃ data, Document loads ref answer data ∧ Decided data "reject" "reject_with_text") := by
  have hdecided : ∀ {outcome : ApprovalStatus} {option kind : String}, outcome ≠ .expired →
      (∀ data, (toState data).outcome = outcome ↔ Decided data option kind) →
      ((∃ state, poll loads ref answer = .ok state ∧ state.outcome = outcome) ↔
        validRef ref = true ∧ ∃ data, Document loads ref answer data ∧ Decided data option kind) := by
    intro outcome option kind hne hoption
    constructor
    · rintro ⟨state, hpoll, houtcome⟩
      obtain ⟨hvalid, ⟨-, rfl⟩ | ⟨data, hdoc, rfl⟩⟩ := poll_ok.1 hpoll
      · exact absurd houtcome.symm hne
      · exact ⟨hvalid, data, hdoc, (hoption data).1 houtcome⟩
    · rintro ⟨hvalid, data, hdoc, hdec⟩
      exact ⟨toState data, poll_ok.2 ⟨hvalid, .inr ⟨data, hdoc, rfl⟩⟩, (hoption data).2 hdec⟩
  exact ⟨hdecided (by decide) fun data => (toState_outcome data).1,
    hdecided (by decide) fun data => (toState_outcome data).2⟩

end Toolstack.Broker.SurfaceNod
