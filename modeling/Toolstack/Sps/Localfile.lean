import Mathlib.Logic.Function.Basic
import Toolstack.Json.Value
import Toolstack.Mapping

/-! `sps/plugins/localfile.py`: vaults over one encrypted file. A call takes the mutex of its
vault object and then the lock of the file; every step between two system calls, and every step
that can raise, is a step of its own. -/

namespace Toolstack.Sps.Localfile

abbrev Fields := List (PyStr × PyStr)

/-- `{item: {field: value}}`. -/
abbrev Data := List (PyStr × Fields)

section Dict
variable {α : Type}

def dictGet (d : List (PyStr × α)) (k : PyStr) : Option α :=
  (d.find? fun kv => kv.1 = k).map Prod.snd

/-- `d[k] = v`: an existing key keeps its place. -/
def dictSet (d : List (PyStr × α)) (k : PyStr) (v : α) : List (PyStr × α) :=
  if d.any fun kv => kv.1 = k then d.map fun kv => if kv.1 = k then (k, v) else kv
  else d ++ [(k, v)]

theorem dictGet_dictSet (d : List (PyStr × α)) (k : PyStr) (v : α) (k' : PyStr) :
    dictGet (dictSet d k v) k' = if k' = k then some v else dictGet d k' :=
  Mapping.get_set d k v k'

end Dict

/-- `self._data.get(tool_id, {}).get(field)`. -/
def Data.lookup (d : Data) (toolId field : PyStr) : Option PyStr :=
  (dictGet d toolId).bind (dictGet · field)

/-- `candidate.setdefault(tool_id, {})[field] = value` on a copy. -/
def Data.assign (d : Data) (toolId field value : PyStr) : Data :=
  dictSet d toolId (dictSet ((dictGet d toolId).getD []) field value)

/-- An assignment is seen where it was made and nowhere else. -/
theorem Data.lookup_assign (d : Data) (t fld value t' fld' : PyStr) :
    (d.assign t fld value).lookup t' fld' =
      if t' = t ∧ fld' = fld then some value else d.lookup t' fld' := by
  unfold lookup assign
  rw [dictGet_dictSet]
  by_cases ht : t' = t
  · subst ht
    rw [if_pos rfl, Option.bind_some, dictGet_dictSet]
    by_cases hf : fld' = fld
    · simp [hf]
    · rw [if_neg hf, if_neg fun h => hf h.2]
      cases dictGet d t' <;> rfl
  · rw [if_neg ht, if_neg fun h => ht h.1]

/-! ## The file -/

/-- The authenticated encryption of the vault: a token decrypts to what was encrypted, under the
key it was encrypted with and no other. `iv` is the random part of a token. -/
structure Fernet (Key Token : Type) where
  encrypt : Key → Nat → Data → Token
  decrypt : Key → Token → Option Data
  decrypt_encrypt : ∀ k iv d, decrypt k (encrypt k iv d) = some d
  authentic : ∀ k k' t d d', decrypt k t = some d → decrypt k' t = some d' → k = k'

/-- What the ciphertext is stored with. -/
structure Header where
  version : Nat
  salt : PyStr
  params : Nat × Nat × Nat
  deriving DecidableEq

structure Envelope (Token : Type) where
  header : Header
  ciphertext : Token

/-- A `_Vault` object: what it was opened with, and its copy of the data. -/
structure Vault (Key : Type) where
  header : Header
  key : Key
  data : Data

/-! ## Calls -/

inductive Request
  | get (toolId field : PyStr)
  | set (toolId field value : PyStr)
  deriving DecidableEq

/-- One critical section, as it went. `before` is the vault's copy when the lock was taken,
`renamed` whether the rename took effect, and `result` how the call ended. -/
structure Section where
  thread : Nat
  request : Request
  before : Data
  renamed : Bool := false
  result : Option (Except Unit (Option PyStr)) := none

/-- How far a thread has got with its call. -/
inductive Pc
  | idle
  | entering (r : Request)
  | locking (r : Request)
  | locked (r : Request)
  | loaded (r : Request)
  | writing (previous : Data)
  | syncing (previous : Data)
  | leaving
  | unlocked

/-- The thread is between `flock` and the close that releases it. -/
def Pc.critical : Pc → Bool
  | locked _ | loaded _ | writing _ | syncing _ | leaving => true
  | _ => false

structure Thread where
  vault : Nat := 0
  pc : Pc := .idle

/-- `sections` are newest first. -/
structure State (Key Token : Type) where
  file : Envelope Token
  lock : Option Nat := none
  mutex : Nat → Option Nat := fun _ => none
  vaults : Nat → Vault Key
  threads : Nat → Thread := fun _ => {}
  sections : List Section := []

inductive Act
  /-- A call on vault object `v`. -/
  | call (v : Nat) (r : Request)
  | enter
  /-- Validating or opening the lock file raises. -/
  | lockRaises
  | lock
  /-- The file is read and decrypted. -/
  | reload
  /-- Reading the file raises. -/
  | readRaises
  /-- `get` takes its answer, or `set` puts the candidate in place. -/
  | proceed
  /-- Writing the temporary file, checking the path or the rename raises. -/
  | writeRaises
  | rename (iv : Nat)
  /-- Syncing the directory, after the rename, raises. -/
  | syncRaises
  | synced
  | unlock
  | exit

section Steps
variable {Key Token : Type} (f : Fernet Key Token)

namespace State
variable (s : State Key Token) (i : Nat)

def go (pc : Pc) : State Key Token :=
  { s with threads := Function.update s.threads i { s.threads i with pc := pc } }

def setData (v : Nat) (d : Data) : State Key Token :=
  { s with vaults := Function.update s.vaults v { s.vaults v with data := d } }

/-- Change the section that is under way. -/
def note (g : Section → Section) : State Key Token :=
  { s with sections := match s.sections with
      | [] => []
      | c :: cs => g c :: cs }

/-- `_reload`, from reading the envelope on: the header must be the vault's, and the vault's key
must decrypt it. -/
def reloaded (v : Nat) : Option Data :=
  if s.file.header = (s.vaults v).header then f.decrypt (s.vaults v).key s.file.ciphertext else none

/-- One step of thread `i`; `none` where the thread cannot take it. -/
def step (a : Act) : Option (State Key Token) :=
  let v := (s.threads i).vault
  match (s.threads i).pc, a with
  | .idle, .call v r => some { s with threads := Function.update s.threads i ⟨v, .entering r⟩ }
  | .entering r, .enter =>
    if s.mutex v = none then
      some ({ s with mutex := Function.update s.mutex v (some i) }.go i (.locking r))
    else none
  | .locking _, .lockRaises => some (s.go i .unlocked)
  | .locking r, .lock =>
    if s.lock = none then
      some ({ s with lock := some i, sections := ⟨i, r, (s.vaults v).data, false, none⟩ :: s.sections }.go
        i (.locked r))
    else none
  | .locked r, .reload =>
    match s.reloaded f v with
    | some d => some ((s.setData v d).go i (.loaded r))
    | none => some ((s.note fun c => { c with result := some (.error ()) }).go i .leaving)
  | .locked _, .readRaises =>
    some ((s.note fun c => { c with result := some (.error ()) }).go i .leaving)
  | .loaded (.get toolId field), .proceed =>
    some ((s.note fun c => { c with result := some (.ok ((s.vaults v).data.lookup toolId field)) }).go
      i .leaving)
  | .loaded (.set toolId field value), .proceed =>
    some ((s.setData v ((s.vaults v).data.assign toolId field value)).go i (.writing (s.vaults v).data))
  | .writing previous, .writeRaises =>
    some (((s.setData v previous).note fun c => { c with result := some (.error ()) }).go i .leaving)
  | .writing previous, .rename iv =>
    some (({ s with file := ⟨(s.vaults v).header, f.encrypt (s.vaults v).key iv (s.vaults v).data⟩ }.note
      fun c => { c with renamed := true }).go i (.syncing previous))
  | .syncing previous, .syncRaises =>
    some (((s.setData v previous).note fun c => { c with result := some (.error ()) }).go i .leaving)
  | .syncing _, .synced =>
    some ((s.note fun c => { c with result := some (.ok none) }).go i .leaving)
  | .leaving, .unlock => some ({ s with lock := none }.go i .unlocked)
  | .unlocked, .exit => some ({ s with mutex := Function.update s.mutex v none }.go i .idle)
  | _, _ => none

def run (s : State Key Token) (acts : List (Nat × Act)) : Option (State Key Token) :=
  acts.foldlM (fun s a => s.step f a.1 a.2) s

end State

/-- The sets whose rename took effect, applied in the order the lock was held. -/
def replay (d : Data) : List Section → Data
  | [] => d
  | c :: cs =>
    match c.request, c.renamed with
    | .set toolId field value, true => (replay d cs).assign toolId field value
    | _, _ => replay d cs

/-- The vault before any call: some file, and any number of vault objects opened at some time. -/
def State.start (file : Envelope Token) (vaults : Nat → Vault Key) : State Key Token :=
  { file := file, vaults := vaults }

end Steps

end Toolstack.Sps.Localfile
