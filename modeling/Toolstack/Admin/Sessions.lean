import Toolstack.Mapping
import Toolstack.Toml.Layout

/-! `admin/auth.py` and `admin/settings.py`: signed sessions, their bounded revocation list, and the
rotation of the secret they are signed with. -/

namespace Toolstack.Admin.Sessions

open Url (ch)

def lowerHex (c : CodePoint) : Bool := (0x30 ≤ c.val && c.val ≤ 0x39) || (0x61 ≤ c.val && c.val ≤ 0x66)

/-- The libraries: Base64 over UTF-8 and back, however a text spells it; `int`; and the hex digest
of HMAC-SHA-256 under a secret. -/
structure Library where
  encode : PyStr → Option PyStr
  decode : PyStr → Option PyStr
  decode_encode : ∀ raw token, encode raw = some token → decode token = some raw
  decode_nil : decode [] = some []
  int : PyStr → Option Int
  int_repr : ∀ n : Int, int (py n.repr) = some n
  mac : PyStr → PyStr → PyStr
  mac_hex : ∀ secret message, (mac secret message).all lowerHex = true

variable (L : Library)

/-! ## Tokens -/

structure Session where
  username : PyStr
  expiresAt : Int
  sessionId : PyStr
  signature : PyStr

def isSessionId (id : PyStr) : Bool := id.length = 32 && id.all lowerHex

/-- `f"{username}|{expires_at}|{session_id}"`. -/
def message (username : PyStr) (expiresAt : Int) (sessionId : PyStr) : PyStr :=
  username ++ ch '|' :: (py expiresAt.repr ++ ch '|' :: sessionId)

def sign (secret message : PyStr) : PyStr := L.mac secret (py "session|" ++ message)

/-- `sign_session`, where `token_hex` gives the session id. -/
def signSession (now : Int) (username secret : PyStr) (ttl : Int) (sessionId : PyStr) : Option PyStr :=
  let message := message username (now + ttl) sessionId
  L.encode (message ++ ch '|' :: sign L secret message)

def parse (cookie : PyStr) : Option Session :=
  if cookie = [] then none
  else
    match (L.decode cookie).map fun decoded => decoded.splitOn (ch '|') with
    | some [username, rawExpires, sessionId, signature] => do
      let expiresAt ← L.int rawExpires
      if isSessionId sessionId then some ⟨username, expiresAt, sessionId, signature⟩ else none
    | _ => none

/-- `signature.isascii()` and `hmac.compare_digest`. -/
def authentic (secret : PyStr) (s : Session) : Bool :=
  s.signature.all (fun c => c.val < 0x80) &&
    s.signature = sign L secret (message s.username s.expiresAt s.sessionId)

/-! ## Calls -/

/-- The secret file and `revoked-sessions.json`. -/
structure State where
  secret : PyStr
  revoked : Mapping PyStr Int

def verifySession (now : Int) (st : State) (cookie : PyStr) : Option PyStr := do
  let s ← parse L cookie
  if s.expiresAt < now then none
  else if !authentic L st.secret s then none
  else if (st.revoked.get s.sessionId).isSome then none
  else some s.username

/-- `rotate_session_secret`, where `token_urlsafe` gives the secret. -/
def rotateSessionSecret (st : State) (fresh : PyStr) : State := { st with secret := fresh }

def revokeSession (now : Int) (st : State) (token fresh : PyStr) : State :=
  match verifySession L now st token, parse L token with
  | some _, some s =>
    let revoked := st.revoked.filter fun kv => now ≤ kv.2
    if 4096 ≤ revoked.length then { rotateSessionSecret st fresh with revoked := [] }
    else { st with revoked := Mapping.set revoked s.sessionId s.expiresAt }
  | _, _ => st

inductive Call
  | sign (username : PyStr) (ttl : Int) (sessionId : PyStr)
  | verify (cookie : PyStr)
  | revoke (token fresh : PyStr)
  | rotate (fresh : PyStr)

def step (now : Int) (st : State) : Call → State
  | .revoke token fresh => revokeSession L now st token fresh
  | .rotate fresh => rotateSessionSecret st fresh
  | _ => st

/-! ## Runs -/

/-- A call, and the state it found. -/
structure Entry where
  state : State
  now : Int
  call : Call

/-- The session id a call brings up: a new one, or that of the token it is given. -/
def Call.sessionId : Call → Option PyStr
  | .sign _ _ sessionId => some sessionId
  | .verify cookie => (parse L cookie).map Session.sessionId
  | .revoke token _ => (parse L token).map Session.sessionId
  | .rotate _ => none

/-- No signature under the secret but those of the calls before. -/
def Unforged (log : List Entry) (secret cookie : PyStr) : Prop :=
  ∀ s, parse L cookie = some s → authentic L secret s = true →
    ∃ e ∈ log, ∃ username ttl sessionId, e.call = .sign username ttl sessionId ∧ e.state.secret = secret ∧
      message username (e.now + ttl) sessionId = message s.username s.expiresAt s.sessionId

def FreshSecret (log : List Entry) (st : State) (fresh : PyStr) : Prop :=
  fresh ≠ st.secret ∧ ∀ e ∈ log, e.state.secret ≠ fresh

/-- A call as it may come: `secrets` gives ids and secrets that have not been seen, a username has no
separator, and a signature is not forged. -/
def Allowed (log : List Entry) (st : State) : Call → Prop
  | .sign username _ sessionId => ch '|' ∉ username ∧ isSessionId sessionId = true ∧
      ∀ e ∈ log, e.call.sessionId L ≠ some sessionId
  | .verify cookie => Unforged L log st.secret cookie
  | .revoke token fresh => Unforged L log st.secret token ∧ FreshSecret log st fresh
  | .rotate fresh => FreshSecret log st fresh

/-- Calls one after another, at times that do not decrease, from an empty revocation list. -/
inductive Run : List Entry → State → Prop
  | nil (secret : PyStr) : Run [] ⟨secret, []⟩
  | call {log : List Entry} {st : State} (now : Int) (c : Call) : Run log st → (∀ e ∈ log, e.now ≤ now) →
    Allowed L log st c → Run (log ++ [⟨st, now, c⟩]) (step L now st c)

end Toolstack.Admin.Sessions
