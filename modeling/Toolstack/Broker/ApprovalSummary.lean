import Toolstack.Json.Value

/-! `broker/approval_summary.py`: the canonical action a request is bound to, and the summary of
its arguments an approver is shown. A `none` result is a `ValueError` of `canonical`. -/

namespace Toolstack.Broker

/-- SHA-256 as a hex digest: never empty, and assumed injective. -/
structure Hash where
  digest : Text → Text
  injective : Function.Injective digest
  nonempty : ∀ t, digest t ≠ []

namespace Hash

theorem mark_injective : Function.Injective fun t : Text => 'h' :: t := fun _ _ h => List.tail_eq_of_cons_eq h

theorem mark_ne_nil (t : Text) : 'h' :: t ≠ [] := List.cons_ne_nil _ _

/-- A digest that keeps the whole text. -/
def marked : Hash := ⟨fun t => 'h' :: t, mark_injective, mark_ne_nil⟩

end Hash

namespace ApprovalSummary

open Json

/-- The private action of a request. `fresh` is what `secrets.token_hex` returns where the
caller passes no nonce. -/
def action (callerId : Nat) (tool op : String) (generation : Text) (arguments reason nonce : Json)
    (fresh : PyStr) : Json :=
  .obj [(py "caller_id", .int callerId), (py "tool", .str (py tool)), (py "op", .str (py op)),
    (py "operation_generation", .str (py (String.ofList generation))), (py "arguments", arguments),
    (py "reason", reason), (py "nonce", match nonce with | .null => .str fresh | n => n)]

def boundRequest (H : Hash) (callerId : Nat) (tool op : String) (generation : Text)
    (arguments reason nonce : Json) (fresh : PyStr) : Option (Text × Text) := do
  let text ← canonical (action callerId tool op generation arguments reason nonce fresh)
  return (text, H.digest text)

/-- `"".replace`-style substitution of a two-character escape. -/
def replaceEscape (code : Nat) (by' : Nat) : PyStr → PyStr
  | a :: b :: s =>
    if a.val = 0x7E ∧ b.val = code then Fin.ofNat _ by' :: replaceEscape code by' s
    else a :: replaceEscape code by' (b :: s)
  | s => s

def splitOn (sep : Nat) : PyStr → List PyStr
  | [] => [[]]
  | c :: s =>
    if c.val = sep then [] :: splitOn sep s
    else
      match splitOn sep s with
      | part :: parts => (c :: part) :: parts
      | [] => [[c]]

/-- The reference tokens of an RFC 6901 pointer. -/
def parts (pointer : PyStr) : List PyStr :=
  (splitOn 0x2F (pointer.drop 1)).map fun p => replaceEscape 0x30 0x7E (replaceEscape 0x31 0x2F p)

/-- `re.search(r"~(?![01])", p)`. -/
def danglingTilde : PyStr → Bool
  | [] => false
  | a :: s =>
    (a.val = 0x7E && !(s.head?.any fun b => b.val = 0x30 || b.val = 0x31)) || danglingTilde s

def validField (p : PyStr) : Bool :=
  p.head?.any (fun c => c.val = 0x2F) && !p.any (fun c => c.val = 0x2A) && p.length ≤ 256 &&
    !danglingTilde p

def validateFields (fields : List PyStr) : Option (List PyStr) :=
  if fields.length ≤ 32 ∧ fields.all validField ∧ fields.Nodup then some fields else none

/-! ## Masking -/

/-- The letters and digits of `name.lower()`; two code points from outside ASCII lower to an
ASCII letter. -/
def lowerAlnum (name : PyStr) : Text :=
  name.filterMap fun c =>
    let n := c.val
    if 0x41 ≤ n ∧ n ≤ 0x5A then some (Char.ofNat (n + 0x20))
    else if (0x61 ≤ n ∧ n ≤ 0x7A) ∨ (0x30 ≤ n ∧ n ≤ 0x39) then some (Char.ofNat n)
    else if n = 0x212A then some 'k'
    else if n = 0x130 then some 'i'
    else none

def sensitiveParts : List Text :=
  ["password", "passwd", "passphrase", "secret", "token", "credential", "apikey", "authorization",
    "cookie", "privatekey", "session", "bearer"].map String.toList

def sensitiveNames : List Text :=
  ["pwd", "auth", "accesskey", "key", "pin", "otp", "ssn", "reason", "justification"].map
    String.toList

def isInfix (part name : Text) : Bool := name.tails.any part.isPrefixOf

def sensitive (name : PyStr) : Bool :=
  let name := lowerAlnum name
  sensitiveParts.any (fun part => isInfix part name) || sensitiveNames.contains name

def masked : Json := .str (py "[MASKED]")

/-- `result[key] = v`. -/
def setItem (kvs : List (PyStr × Json)) (k : PyStr) (v : Json) : List (PyStr × Json) :=
  if kvs.any fun kv => kv.1 = k then kvs.map fun kv => if kv.1 = k then (k, v) else kv
  else kvs ++ [(k, v)]

def maskString (s : PyStr) : PyStr :=
  if s.length > 256 then s.take 256 ++ py "[TRUNCATED: remaining text omitted]" else s

/-- `_mask` with `left = 4 - depth` levels to go. -/
def mask : (left : Nat) → Json → Json
  | 0, .obj _ | 0, .arr _ => .str (py "[OMITTED: nesting limit]")
  | left + 1, .obj kvs =>
    let result := (kvs.take 16).foldl (fun result kv =>
      if kv.1.length > 64 then setItem result (py "[OMITTED: long field name]") masked
      else setItem result kv.1 (if sensitive kv.1 then masked else mask left kv.2)) []
    .obj (if kvs.length > 16 then
      setItem result (py "[OMITTED]") (.str (py s!"{kvs.length - 16} additional fields"))
    else result)
  | left + 1, .arr xs =>
    .arr ((xs.take 16).map (mask left) ++
      if xs.length > 16 then [.str (py s!"[OMITTED: {xs.length - 16} additional items]")] else [])
  | _, .str s => .str (maskString s)
  | _, v => v

/-! ## The summary -/

/-- `re.fullmatch(r"0|[1-9][0-9]*", part)` and its value. -/
def index? (part : PyStr) : Option Nat :=
  if part.all (fun c => 0x30 ≤ c.val && c.val ≤ 0x39) && part ≠ [] &&
      (part.length = 1 || part.head?.any fun c => c.val ≠ 0x30) then
    some (part.foldl (fun n c => 10 * n + (c.val - 0x30)) 0)
  else none

/-- The value a pointer selects; every way the lookup can raise is caught by `summarize`. -/
def select : Json → List PyStr → Option Json
  | v, [] => some v
  | .arr xs, part :: rest => do select (← xs[← index? part]?) rest
  | .obj kvs, part :: rest => do select (← find? kvs part) rest
  | _, _ :: _ => none

def entry (pointer : PyStr) (value : Json) : Json :=
  .obj [(py "field", .str pointer), (py "value", value)]

def safeValue (arguments : Json) (pointer : PyStr) : Json :=
  match select arguments (parts pointer) with
  | some v => if (parts pointer).any sensitive then masked else mask 4 v
  | none => .str (py "[OMITTED: configured field not present]")

/-- One turn of the loop over the fields: the entries so far and how many were too large. -/
def addField (arguments : Json) (acc : List Json × Nat) (pointer : PyStr) :
    Option (List Json × Nat) := do
  let (entries, sizeOmitted) := acc
  let shown := entry pointer (safeValue arguments pointer)
  let large := (← canonical shown).length > 1000 || (← canonical (.arr (entries ++ [shown]))).length > 3600
  let shown := if large then entry pointer (.str (py "[OMITTED: summary size limit]")) else shown
  let fits := (← canonical (.arr (entries ++ [shown]))).length ≤ 3600
  return (if fits then entries ++ [shown] else entries, if large then sizeOmitted + 1 else sizeOmitted)

def omissions (fields sizeOmitted : Nat) : List String :=
  (if fields = 0 then ["ALL arguments omitted: no approval_fields configured."] else []) ++
    ["Fields outside configured pointers are omitted.", "Agent justification is omitted."] ++
    (if sizeOmitted = 0 then [] else
      [s!"Configured fields: {fields}; values shown: {fields - sizeOmitted}; " ++
        s!"omitted for summary size: {sizeOmitted} (labels included where space permits)."] ++
      if sizeOmitted = fields then
        ["ALL configured field values omitted: summary size limit; 0 shown."] else [])

def summarize (arguments : Json) (fields : List PyStr) : Option Text := do
  let (entries, sizeOmitted) ← fields.foldlM (addField arguments) ([], 0)
  canonical (.obj [(py "selected_fields", .arr entries),
    (py "omissions", .arr ((omissions fields.length sizeOmitted).map fun o => .str (py o)))])

/-! ## A summary of finite arguments always exists -/

theorem setItem_finite {kvs : List (PyStr × Json)} {k : PyStr} {v : Json}
    (hkvs : ∀ kv ∈ kvs, kv.2.finite = true) (hv : v.finite = true) :
    ∀ kv ∈ setItem kvs k v, kv.2.finite = true := by
  intro kv hkv
  unfold setItem at hkv
  split_ifs at hkv
  · obtain ⟨kv', hmem, rfl⟩ := List.mem_map.1 hkv
    split_ifs
    · exact hv
    · exact hkvs kv' hmem
  · rcases List.mem_append.1 hkv with hold | hnew
    · exact hkvs kv hold
    · obtain rfl := List.mem_singleton.1 hnew
      exact hv

theorem mask_finite (left : Nat) (v : Json) (hv : v.finite = true) : (mask left v).finite = true := by
  induction left generalizing v with
  | zero =>
    cases v with
    | obj | arr | str => rfl
    | _ => exact hv
  | succ left ih =>
    cases v with
    | obj kvs =>
      have hkvs := finite_obj.1 hv
      have hfold : ∀ (l acc : List (PyStr × Json)), (∀ kv ∈ l, kv ∈ kvs) →
          (∀ kv ∈ acc, kv.2.finite = true) → ∀ kv ∈ l.foldl (fun result kv =>
            if kv.1.length > 64 then setItem result (py "[OMITTED: long field name]") masked
            else setItem result kv.1 (if sensitive kv.1 then masked else mask left kv.2)) acc,
            kv.2.finite = true := by
        intro l
        induction l with
        | nil => exact fun acc _ hacc => hacc
        | cons kv l ihl =>
          intro acc hl hacc
          refine ihl _ (fun kv' hkv' => hl kv' (List.mem_cons_of_mem _ hkv')) ?_
          beta_reduce
          split_ifs
          · exact setItem_finite hacc rfl
          · exact setItem_finite hacc rfl
          · exact setItem_finite hacc (ih _ (hkvs kv (hl kv (List.mem_cons_self ..))))
      have hresult := hfold (kvs.take 16) [] (fun _ h => List.mem_of_mem_take h) (by simp)
      simp only [mask]
      split_ifs
      · exact finite_obj.2 (setItem_finite hresult rfl)
      · exact finite_obj.2 hresult
    | arr xs =>
      have hxs := finite_arr.1 hv
      refine finite_arr.2 fun x hx => ?_
      rcases List.mem_append.1 hx with hshown | hrest
      · obtain ⟨y, hy, rfl⟩ := List.mem_map.1 hshown
        exact ih y (hxs y (List.mem_of_mem_take hy))
      · split_ifs at hrest
        · obtain rfl := List.mem_singleton.1 hrest
          rfl
        · cases hrest
    | str => rfl
    | null | bool | int | float => exact hv

theorem select_finite {path : List PyStr} {v v' : Json} (hv : v.finite = true)
    (h : select v path = some v') : v'.finite = true := by
  induction path generalizing v with
  | nil =>
    obtain rfl : v = v' := by cases v <;> simpa [select] using h
    exact hv
  | cons part path ih =>
    cases v with
    | arr xs =>
      simp only [select, Option.bind_eq_bind, Option.bind_eq_some_iff] at h
      obtain ⟨n, -, x, hx, hsel⟩ := h
      exact ih (finite_arr.1 hv x (List.mem_of_getElem? hx)) hsel
    | obj kvs =>
      simp only [select, Option.bind_eq_bind, Option.bind_eq_some_iff] at h
      obtain ⟨x, hx, hsel⟩ := h
      obtain ⟨kv, hkv, rfl⟩ := Option.map_eq_some_iff.1 hx
      exact ih (finite_obj.1 hv kv (List.mem_of_find?_eq_some hkv)) hsel
    | null | bool | int | float | str => simp [select] at h

theorem entry_finite {pointer : PyStr} {v : Json} (hv : v.finite = true) :
    (entry pointer v).finite = true :=
  finite_obj.2 (by simp [hv, finite])

theorem safeValue_finite {arguments : Json} (h : arguments.finite = true) (pointer : PyStr) :
    (safeValue arguments pointer).finite = true := by
  unfold safeValue
  split
  · rename_i v hsel
    split_ifs
    · rfl
    · exact mask_finite 4 v (select_finite h hsel)
  · rfl

theorem canonical_of_finite {v : Json} (h : v.finite = true) :
    canonical v = some (dumps .compact v) := canonical_eq_some.2 ⟨h, rfl⟩

theorem addField_finite {arguments : Json} (h : arguments.finite = true) (acc : List Json × Nat)
    (hacc : ∀ e ∈ acc.1, e.finite = true) (pointer : PyStr) :
    ∃ acc', addField arguments acc pointer = some acc' ∧ ∀ e ∈ acc'.1, e.finite = true := by
  have harr : ∀ e : Json, e.finite = true → (Json.arr (acc.1 ++ [e])).finite = true :=
    fun e he => finite_arr.2 fun x hx => by
      rcases List.mem_append.1 hx with hold | hnew
      · exact hacc x hold
      · obtain rfl := List.mem_singleton.1 hnew
        exact he
  have hshown : (entry pointer (safeValue arguments pointer)).finite = true :=
    entry_finite (safeValue_finite h pointer)
  have hshort : (entry pointer (.str (py "[OMITTED: summary size limit]"))).finite = true :=
    entry_finite rfl
  simp only [addField, canonical_of_finite hshown, canonical_of_finite (harr _ hshown),
    Option.bind_eq_bind, Option.bind_some]
  split_ifs <;> simp only [canonical_of_finite (harr _ hshown), canonical_of_finite (harr _ hshort),
    Option.bind_some] <;> refine ⟨_, rfl, ?_⟩ <;> split_ifs
  · exact finite_arr.1 (harr _ hshort)
  · exact hacc
  · exact finite_arr.1 (harr _ hshown)
  · exact hacc

/-- `summarize` never raises on arguments that have a canonical form. -/
theorem summarize_isSome {arguments : Json} (h : arguments.finite = true) (fields : List PyStr) :
    (summarize arguments fields).isSome := by
  have hfold : ∀ (l : List PyStr) (acc : List Json × Nat), (∀ e ∈ acc.1, e.finite = true) →
      ∃ acc', l.foldlM (addField arguments) acc = some acc' ∧ ∀ e ∈ acc'.1, e.finite = true := by
    intro l
    induction l with
    | nil => exact fun acc hacc => ⟨acc, rfl, hacc⟩
    | cons pointer l ih =>
      intro acc hacc
      obtain ⟨acc₁, hacc₁, hfin₁⟩ := addField_finite h acc hacc pointer
      obtain ⟨acc₂, hacc₂, hfin₂⟩ := ih acc₁ hfin₁
      exact ⟨acc₂, by rw [List.foldlM_cons, hacc₁]; exact hacc₂, hfin₂⟩
  obtain ⟨acc, hacc, hfin⟩ := hfold fields ([], 0) (by simp)
  have htext : (Json.obj [(py "selected_fields", .arr acc.1), (py "omissions",
      .arr ((omissions fields.length acc.2).map fun o => .str (py o)))]).finite = true := by
    have homit : ∀ x ∈ (omissions fields.length acc.2).map fun o => Json.str (py o),
        x.finite = true := by
      intro x hx
      obtain ⟨o, -, rfl⟩ := List.mem_map.1 hx
      rfl
    refine finite_obj.2 fun kv hkv => ?_
    rcases List.mem_cons.1 hkv with rfl | hkv
    · exact finite_arr.2 hfin
    · obtain rfl := List.mem_singleton.1 hkv
      exact finite_arr.2 homit
  simp only [summarize, hacc, Option.bind_eq_bind, Option.bind_some, canonical_of_finite htext,
    Option.isSome_some]

end ApprovalSummary

end Toolstack.Broker
