import Toolstack.Admin.Sessions

/-! A revoked session stays revoked, in every run of the calls that sign, check, revoke and rotate. -/

namespace Toolstack.Admin.Sessions

open Url (ch)

variable {L : Library}

/-! ## Tokens -/

theorem not_mem_of_lowerHex {s : PyStr} (h : s.all lowerHex = true) : ch '|' ∉ s :=
  fun hmem => absurd (List.all_eq_true.1 h _ hmem) (by decide)

theorem not_mem_repr (n : Int) : ch '|' ∉ py n.repr := fun hmem => absurd (Toml.bareChar_repr n _ hmem) (by decide)

theorem not_mem_sessionId {id : PyStr} (h : isSessionId id = true) : ch '|' ∉ id := by
  rw [isSessionId, Bool.and_eq_true] at h
  exact not_mem_of_lowerHex h.2

theorem splitOn_message {username sessionId : PyStr} (husername : ch '|' ∉ username) (expiresAt : Int)
    (hid : ch '|' ∉ sessionId) :
    (message username expiresAt sessionId).splitOn (ch '|') = [username, py expiresAt.repr, sessionId] := by
  rw [message, List.splitOn_append_cons_self_of_not_mem husername,
    List.splitOn_append_cons_self_of_not_mem (not_mem_repr expiresAt), List.splitOn_eq_singleton hid]

/-- A message tells its parts. -/
theorem message_inj {username username' sessionId sessionId' : PyStr} {expiresAt expiresAt' : Int}
    (husername : ch '|' ∉ username) (husername' : ch '|' ∉ username') (hid : ch '|' ∉ sessionId)
    (hid' : ch '|' ∉ sessionId') (h : message username expiresAt sessionId = message username' expiresAt' sessionId') :
    expiresAt = expiresAt' ∧ sessionId = sessionId' := by
  have hsplit := splitOn_message husername expiresAt hid
  rw [h, splitOn_message husername' expiresAt' hid'] at hsplit
  simp only [List.cons.injEq, and_true] at hsplit
  obtain ⟨-, hrepr, hids⟩ := hsplit
  exact ⟨Toml.repr_injective hrepr.symm, hids.symm⟩

theorem parse_parts {cookie : PyStr} {s : Session} (h : parse L cookie = some s) :
    ch '|' ∉ s.username ∧ ch '|' ∉ s.sessionId := by
  unfold parse at h
  split_ifs at h
  split at h
  · rename_i username rawExpires sessionId signature hsplit
    obtain ⟨decoded, -, hdecoded⟩ := Option.map_eq_some_iff.1 hsplit
    have hmem : username ∈ decoded.splitOn (ch '|') := by
      rw [hdecoded]
      exact List.mem_cons_self ..
    simp only [Option.bind_eq_bind, Option.bind_eq_some_iff] at h
    obtain ⟨expiresAt, -, h⟩ := h
    split_ifs at h with hid
    obtain rfl := Option.some.inj h
    exact ⟨Template.not_mem_of_mem_splitOn hmem, not_mem_sessionId hid⟩
  · cases h

/-- A token is parsed alike in all its spellings. -/
theorem parse_congr {cookie token : PyStr} (h : L.decode cookie = L.decode token) : parse L cookie = parse L token := by
  have hnil : ∀ t, L.decode t = some [] → parse L t = none := by
    intro t ht
    unfold parse
    rw [ht]
    split_ifs <;> rfl
  by_cases hcookie : cookie = []
  · rw [hcookie, L.decode_nil] at h
    rw [hnil token h.symm, hcookie, hnil [] L.decode_nil]
  · by_cases htoken : token = []
    · rw [htoken, L.decode_nil] at h
      rw [hnil cookie h, htoken, hnil [] L.decode_nil]
    · rw [parse, parse, if_neg hcookie, if_neg htoken, h]

/-- A signed token is parsed as what was signed. -/
theorem parse_signed {now ttl : Int} {username secret sessionId token : PyStr} (husername : ch '|' ∉ username)
    (hid : isSessionId sessionId = true) (h : signSession L now username secret ttl sessionId = some token) :
    parse L token = some ⟨username, now + ttl, sessionId, sign L secret (message username (now + ttl) sessionId)⟩ := by
  have hdecode := L.decode_encode _ _ h
  have hne : token ≠ [] := by
    rintro rfl
    rw [L.decode_nil] at hdecode
    have hnil := (Option.some.inj hdecode).symm
    simp at hnil
  have hsignature : ch '|' ∉ sign L secret (message username (now + ttl) sessionId) :=
    not_mem_of_lowerHex (L.mac_hex _ _)
  have hsplit : (message username (now + ttl) sessionId ++
      ch '|' :: sign L secret (message username (now + ttl) sessionId)).splitOn (ch '|') =
      [username, py (now + ttl).repr, sessionId, sign L secret (message username (now + ttl) sessionId)] := by
    generalize sign L secret (message username (now + ttl) sessionId) = signature at hsignature
    rw [message, List.append_assoc, List.cons_append, List.append_assoc, List.cons_append,
      List.splitOn_append_cons_self_of_not_mem husername,
      List.splitOn_append_cons_self_of_not_mem (not_mem_repr _),
      List.splitOn_append_cons_self_of_not_mem (not_mem_sessionId hid), List.splitOn_eq_singleton hsignature]
  rw [parse, if_neg hne, hdecode, Option.map_some, hsplit]
  simp only [L.int_repr, Option.bind_eq_bind, Option.bind_some, hid, if_true]

theorem authentic_sign (secret username sessionId : PyStr) (expiresAt : Int) :
    authentic L secret ⟨username, expiresAt, sessionId, sign L secret (message username expiresAt sessionId)⟩ = true := by
  rw [authentic, Bool.and_eq_true]
  refine ⟨List.all_eq_true.2 fun c hc => ?_, decide_eq_true rfl⟩
  have hhex := List.all_eq_true.1 (L.mac_hex _ _) c hc
  simp only [lowerHex, Bool.or_eq_true, Bool.and_eq_true, decide_eq_true_eq] at hhex
  rw [decide_eq_true_eq]
  omega

theorem verifySession_eq_some {now : Int} {st : State} {cookie username : PyStr} :
    verifySession L now st cookie = some username ↔ ∃ s, parse L cookie = some s ∧ now ≤ s.expiresAt ∧
      authentic L st.secret s = true ∧ st.revoked.get s.sessionId = none ∧ s.username = username := by
  unfold verifySession
  cases parse L cookie with
  | none => simp
  | some s =>
    simp only [Option.bind_eq_bind, Option.bind_some, Option.some.injEq, exists_eq_left']
    split_ifs with hexpired hforged hrevoked
    · simp [hexpired]
    · simp only [Bool.not_eq_true'] at hforged
      simp [hforged]
    · rw [Option.isSome_iff_ne_none] at hrevoked
      simp [hrevoked]
    · simp only [Bool.not_eq_true', Bool.not_eq_false] at hforged
      rw [Option.not_isSome_iff_eq_none] at hrevoked
      simp [hforged, hrevoked, not_lt.1 hexpired]

/-! ## Runs -/

theorem split_last {α : Type} {log pre post : List α} {x r : α} (h : log ++ [x] = pre ++ r :: post) :
    (post = [] ∧ log = pre ∧ x = r) ∨ ∃ mid, post = mid ++ [x] ∧ log = pre ++ r :: mid := by
  rcases List.eq_nil_or_concat post with rfl | ⟨mid, last, rfl⟩
  · obtain ⟨rfl, hlast⟩ := List.append_inj' h rfl
    exact .inl ⟨rfl, rfl, List.singleton_inj.1 hlast⟩
  · rw [List.concat_eq_append, ← List.cons_append, ← List.append_assoc] at h
    obtain ⟨rfl, hlast⟩ := List.append_inj' h rfl
    obtain rfl := List.singleton_inj.1 hlast
    exact .inr ⟨mid, List.concat_eq_append, rfl⟩

/-- An entry was allowed after those before it, which are a run of their own. -/
theorem Run.entry {log : List Entry} {st : State} (h : Run L log st) : ∀ {pre post : List Entry} {e : Entry},
    log = pre ++ e :: post → Run L pre e.state ∧ Allowed L pre e.state e.call ∧ ∀ x ∈ pre, x.now ≤ e.now := by
  induction h with
  | nil => exact fun heq => by simp at heq
  | @call log st now c hrun htimes hallowed ih =>
    intro pre post e heq
    rcases split_last heq with ⟨-, rfl, rfl⟩ | ⟨mid, -, rfl⟩
    · exact ⟨hrun, hallowed, htimes⟩
    · exact ih rfl

/-- A call of `sign_session` for the session id, until the time. -/
def Signs (e : Entry) (sessionId : PyStr) (expiresAt : Int) : Prop :=
  ∃ username ttl, e.call = .sign username ttl sessionId ∧ e.now + ttl = expiresAt

theorem Signs.call_sessionId {e : Entry} {sessionId : PyStr} {expiresAt : Int} (h : Signs e sessionId expiresAt) :
    e.call.sessionId L = some sessionId := by
  obtain ⟨username, ttl, hcall, -⟩ := h
  rw [hcall]
  rfl

/-- The session id of a signing is in no call before it. -/
theorem Run.sign_fresh {log pre post : List Entry} {st : State} {e : Entry} (h : Run L log st)
    (hlog : log = pre ++ e :: post) {sessionId : PyStr} {expiresAt : Int} (hsigns : Signs e sessionId expiresAt) :
    ∀ x ∈ pre, x.call.sessionId L ≠ some sessionId := by
  obtain ⟨-, hallowed, -⟩ := h.entry hlog
  obtain ⟨username, ttl, hcall, -⟩ := hsigns
  rw [hcall] at hallowed
  exact hallowed.2.2

/-- A session id is signed once. -/
theorem Run.signs_unique {log : List Entry} {st : State} (h : Run L log st) {e e' : Entry} (he : e ∈ log) (he' : e' ∈ log)
    {sessionId : PyStr} {t t' : Int} (hsigns : Signs e sessionId t) (hsigns' : Signs e' sessionId t') : t = t' := by
  obtain ⟨pre, post, hlog⟩ := List.mem_iff_append.1 he
  obtain ⟨pre', post', hlog'⟩ := List.mem_iff_append.1 he'
  have hne := h.sign_fresh hlog hsigns
  have hne' := h.sign_fresh hlog' hsigns'
  rcases List.append_eq_append_iff.1 (hlog.symm.trans hlog') with ⟨mid, hpre, hmid⟩ | ⟨mid, hpre, hmid⟩
  · cases mid with
    | nil =>
      obtain ⟨rfl, -⟩ := List.cons.inj hmid
      obtain ⟨username, ttl, hcall, ht⟩ := hsigns
      obtain ⟨username', ttl', hcall', ht'⟩ := hsigns'
      rw [hcall] at hcall'
      obtain ⟨-, rfl, -⟩ := Call.sign.inj hcall'
      exact ht.symm.trans ht'
    | cons x mid =>
      obtain ⟨rfl, -⟩ := List.cons.inj hmid
      have hmem : e ∈ pre' := by
        rw [hpre]
        exact List.mem_append_right _ (List.mem_cons_self ..)
      exact absurd hsigns.call_sessionId (hne' e hmem)
  · cases mid with
    | nil =>
      obtain ⟨rfl, -⟩ := List.cons.inj hmid
      obtain ⟨username, ttl, hcall, ht⟩ := hsigns
      obtain ⟨username', ttl', hcall', ht'⟩ := hsigns'
      rw [hcall] at hcall'
      obtain ⟨-, rfl, -⟩ := Call.sign.inj hcall'
      exact ht.symm.trans ht'
    | cons x mid =>
      obtain ⟨rfl, -⟩ := List.cons.inj hmid
      have hmem : e' ∈ pre := by
        rw [hpre]
        exact List.mem_append_right _ (List.mem_cons_self ..)
      exact absurd hsigns'.call_sessionId (hne e' hmem)

/-- An authentic token was signed before, under the same secret. -/
theorem signed_of_unforged {log : List Entry} {st : State} (h : Run L log st) {secret token : PyStr}
    (hunforged : Unforged L log secret token) {s : Session} (hparse : parse L token = some s)
    (hauthentic : authentic L secret s = true) : ∃ e ∈ log, e.state.secret = secret ∧ Signs e s.sessionId s.expiresAt := by
  obtain ⟨e, he, username, ttl, sessionId, hcall, hsecret, hmessage⟩ := hunforged s hparse hauthentic
  obtain ⟨pre, post, hlog⟩ := List.mem_iff_append.1 he
  obtain ⟨-, hallowed, -⟩ := h.entry hlog
  rw [hcall] at hallowed
  obtain ⟨husername, hid⟩ := parse_parts hparse
  obtain ⟨hexpires, rfl⟩ := message_inj hallowed.1 husername (not_mem_sessionId hallowed.2.1) hid hmessage
  exact ⟨e, he, hsecret, username, ttl, hcall, hexpires⟩

/-! ## The revocation list -/

/-- What `revoke_session` does: nothing, a new secret and an empty list, or one more entry beside
those that have not expired. -/
theorem revokeSession_cases (now : Int) (st : State) (token fresh : PyStr) :
    (verifySession L now st token = none ∧ revokeSession L now st token fresh = st) ∨
      ∃ s, parse L token = some s ∧ authentic L st.secret s = true ∧ st.revoked.get s.sessionId = none ∧
        ((4096 ≤ (st.revoked.filter fun kv => now ≤ kv.2).length ∧ revokeSession L now st token fresh = ⟨fresh, []⟩) ∨
          ((st.revoked.filter fun kv => now ≤ kv.2).length < 4096 ∧ revokeSession L now st token fresh =
            ⟨st.secret, Mapping.set (st.revoked.filter fun kv => now ≤ kv.2) s.sessionId s.expiresAt⟩)) := by
  unfold revokeSession
  cases hverify : verifySession L now st token with
  | none => exact .inl ⟨rfl, rfl⟩
  | some username =>
    obtain ⟨s, hparse, -, hauthentic, hnew, -⟩ := verifySession_eq_some.1 hverify
    refine .inr ⟨s, hparse, hauthentic, hnew, ?_⟩
    rw [hparse]
    dsimp only
    split_ifs with hfull
    · exact .inl ⟨hfull, rfl⟩
    · exact .inr ⟨Nat.lt_of_not_le hfull, rfl⟩

theorem Run.revoked_le {log : List Entry} {st : State} (h : Run L log st) : st.revoked.length ≤ 4096 := by
  induction h with
  | nil => exact Nat.zero_le _
  | @call log st now c _ _ _ ih =>
    cases c with
    | sign | verify | rotate => exact ih
    | revoke token fresh =>
      rw [step]
      rcases revokeSession_cases (L := L) now st token fresh with ⟨-, hsame⟩ | ⟨s, -, -, -, ⟨-, hfull⟩ | ⟨hroom, hset⟩⟩
      · rw [hsame]
        exact ih
      · rw [hfull]
        exact Nat.zero_le _
      · rw [hset]
        exact Nat.le_trans (Mapping.length_set_le _ _ _) hroom

/-- An entry of the list came from a call that revoked an authentic token. -/
theorem Run.revoked_signed {log : List Entry} {st : State} (h : Run L log st) : ∀ kv ∈ st.revoked,
    ∃ e ∈ log, ∃ token fresh s, e.call = .revoke token fresh ∧ parse L token = some s ∧
      authentic L e.state.secret s = true ∧ s.sessionId = kv.1 ∧ s.expiresAt = kv.2 := by
  induction h with
  | nil => exact fun _ hkv => (List.not_mem_nil hkv).elim
  | @call log st now c _ _ _ ih =>
    have hold : ∀ kv ∈ st.revoked, ∃ e ∈ log ++ [⟨st, now, c⟩], ∃ token fresh s, e.call = .revoke token fresh ∧
        parse L token = some s ∧ authentic L e.state.secret s = true ∧ s.sessionId = kv.1 ∧ s.expiresAt = kv.2 := by
      intro kv hkv
      obtain ⟨e, he, hrest⟩ := ih kv hkv
      exact ⟨e, List.mem_append_left _ he, hrest⟩
    cases c with
    | sign | verify | rotate => exact hold
    | revoke token fresh =>
      rw [step]
      rcases revokeSession_cases (L := L) now st token fresh with
        ⟨-, hsame⟩ | ⟨s, hparse, hauthentic, -, ⟨-, hfull⟩ | ⟨-, hset⟩⟩
      · rw [hsame]
        exact hold
      · rw [hfull]
        exact fun _ hkv => (List.not_mem_nil hkv).elim
      · rw [hset]
        intro kv hkv
        rcases Mapping.mem_set hkv with rfl | hkv
        · exact ⟨_, List.mem_append_right _ (List.mem_singleton_self _), token, fresh, s, rfl, hparse, hauthentic, rfl, rfl⟩
        · exact hold kv (List.mem_of_mem_filter hkv)

/-- The list holds an authentic token's session until the token's own expiry. -/
theorem Run.revoked_expiry {log : List Entry} {st : State} (h : Run L log st) {secret token : PyStr} {s : Session}
    (hunforged : Unforged L log secret token) (hparse : parse L token = some s)
    (hauthentic : authentic L secret s = true) {v : Int} (hget : st.revoked.get s.sessionId = some v) : v = s.expiresAt := by
  obtain ⟨e, he, -, hsigns⟩ := signed_of_unforged h hunforged hparse hauthentic
  obtain ⟨r, hr, token', fresh, s', hcall, hparse', hauthentic', hid, hexpires⟩ := h.revoked_signed _ (Mapping.mem_of_get hget)
  obtain ⟨pre, post, hlog⟩ := List.mem_iff_append.1 hr
  obtain ⟨hrun, hallowed, -⟩ := h.entry hlog
  rw [hcall] at hallowed
  obtain ⟨e', he', -, hsigns'⟩ := signed_of_unforged hrun hallowed.1 hparse' hauthentic'
  have hmem : e' ∈ log := by
    rw [hlog]
    exact List.mem_append_left _ he'
  rw [hid, hexpires] at hsigns'
  exact h.signs_unique hmem he hsigns' hsigns

/-! ## Permanence -/

/-- The token cannot come back under the present secret: it expired, its signature is of another
secret, or it is on the list. -/
def Settled (log : List Entry) (st : State) (s : Session) : Prop :=
  authentic L st.secret s = false ∨ (∃ e ∈ log, s.expiresAt < e.now) ∨ st.revoked.get s.sessionId = some s.expiresAt

/-- What holds from the revocation `r` on: its secret is still the present one and the token is
settled, or the present secret is younger than the revocation. -/
def Barred (pre : List Entry) (r : Entry) (log : List Entry) (st : State) (s : Session) : Prop :=
  (st.secret = r.state.secret ∧ Settled (L := L) log st s) ∨ ∀ e ∈ pre ++ [r], e.state.secret ≠ st.secret

theorem Settled.mono {log : List Entry} {st : State} {s : Session} (h : Settled (L := L) log st s) (e : Entry) :
    Settled (L := L) (log ++ [e]) st s := by
  rcases h with h | ⟨x, hx, h⟩ | h
  · exact .inl h
  · exact .inr (.inl ⟨x, List.mem_append_left _ hx, h⟩)
  · exact .inr (.inr h)

/-- A revocation bars its token. -/
theorem barred_revoke {pre : List Entry} {r : Entry} (hrun : Run L pre r.state) {token fresh : PyStr}
    (hcall : r.call = .revoke token fresh) (hallowed : Allowed L pre r.state r.call) {s : Session}
    (hparse : parse L token = some s) :
    Barred (L := L) pre r (pre ++ [r]) (step L r.now r.state r.call) s := by
  rw [hcall] at hallowed ⊢
  obtain ⟨hunforged, hfresh, hfreshOld⟩ := hallowed
  rw [step]
  rcases revokeSession_cases (L := L) r.now r.state token fresh with
    ⟨hrefused, hsame⟩ | ⟨s', hparse', hauthentic, -, ⟨-, hfull⟩ | ⟨-, hset⟩⟩
  · rw [hsame]
    refine .inl ⟨rfl, ?_⟩
    cases hauthentic : authentic L r.state.secret s with
    | false => exact .inl hauthentic
    | true =>
      cases hget : r.state.revoked.get s.sessionId with
      | some v =>
        rw [hrun.revoked_expiry hunforged hparse hauthentic hget] at hget
        exact .inr (.inr hget)
      | none =>
        refine .inr (.inl ⟨r, List.mem_append_right _ (List.mem_singleton_self _), ?_⟩)
        by_contra hlive
        have hverify := verifySession_eq_some.2 ⟨s, hparse, Int.not_lt.1 hlive, hauthentic, hget, rfl⟩
        rw [hrefused] at hverify
        cases hverify
  · rw [hfull]
    refine .inr fun e he => ?_
    rcases List.mem_append.1 he with he | he
    · exact hfreshOld e he
    · rw [List.mem_singleton.1 he]
      exact hfresh.symm
  · obtain rfl := Option.some.inj (hparse.symm.trans hparse')
    rw [hset]
    refine .inl ⟨rfl, .inr (.inr ?_)⟩
    rw [Mapping.get_set, if_pos rfl]

/-- A barred token stays barred. -/
theorem Barred.step {pre : List Entry} {r : Entry} {log : List Entry} {st : State} {s : Session}
    (h : Barred (L := L) pre r log st s) (hpre : ∀ e ∈ pre ++ [r], e ∈ log) {now : Int} {c : Call}
    (hallowed : Allowed L log st c) :
    Barred (L := L) pre r (log ++ [⟨st, now, c⟩]) (step L now st c) s := by
  -- A new secret is younger than every call so far.
  have hrotated : ∀ fresh revoked, FreshSecret log st fresh →
      Barred (L := L) pre r (log ++ [⟨st, now, c⟩]) ⟨fresh, revoked⟩ s :=
    fun fresh revoked hfresh => .inr fun e he => hfresh.2 e (hpre e he)
  have hkept : Barred (L := L) pre r (log ++ [⟨st, now, c⟩]) st s := by
    rcases h with ⟨hsecret, hsettled⟩ | h
    · exact .inl ⟨hsecret, hsettled.mono _⟩
    · exact .inr h
  cases c with
  | sign | verify => exact hkept
  | rotate fresh => exact hrotated fresh _ hallowed
  | revoke token fresh =>
    rw [Sessions.step]
    rcases revokeSession_cases (L := L) now st token fresh with
      ⟨-, hsame⟩ | ⟨s', -, -, hnew, ⟨-, hfull⟩ | ⟨-, hset⟩⟩
    · rw [hsame]
      exact hkept
    · rw [hfull]
      exact hrotated fresh [] hallowed.2
    · rw [hset]
      rcases h with ⟨hsecret, hforged | ⟨e, he, hexpired⟩ | hget⟩ | h
      · exact .inl ⟨hsecret, .inl hforged⟩
      · exact .inl ⟨hsecret, .inr (.inl ⟨e, List.mem_append_left _ he, hexpired⟩)⟩
      · refine .inl ⟨hsecret, ?_⟩
        by_cases hlive : now ≤ s.expiresAt
        · have hother : s.sessionId ≠ s'.sessionId := by
            intro heq
            rw [heq, hnew] at hget
            cases hget
          refine .inr (.inr ?_)
          rw [Mapping.get_set, if_neg hother]
          exact Mapping.get_filter hget (decide_eq_true hlive)
        · exact .inr (.inl ⟨_, List.mem_append_right _ (List.mem_singleton_self _), Int.not_le.1 hlive⟩)
      · exact .inr h

theorem Run.barred {log : List Entry} {st : State} (h : Run L log st) : ∀ {pre mid : List Entry} {r : Entry},
    log = pre ++ r :: mid → ∀ {token fresh : PyStr} {s : Session}, r.call = .revoke token fresh →
      parse L token = some s → Barred (L := L) pre r log st s := by
  induction h with
  | nil => exact fun heq => by simp at heq
  | @call log st now c hrun _ hallowed ih =>
    intro pre mid r heq token fresh s hcall hparse
    rcases split_last heq with ⟨-, rfl, rfl⟩ | ⟨mid', -, rfl⟩
    · exact barred_revoke hrun hcall hallowed hparse
    · refine (ih rfl hcall hparse).step (fun e he => ?_) hallowed
      rcases List.mem_append.1 he with he | he
      · exact List.mem_append_left _ he
      · rw [List.mem_singleton.1 he]
        exact List.mem_append_right _ (List.mem_cons_self ..)

/-- No check after the revocation of a token lets it in. -/
theorem Run.revoked_refused {log pre mid post : List Entry} {st : State} {r v : Entry} (h : Run L log st)
    (hlog : log = pre ++ r :: (mid ++ v :: post)) {token fresh cookie : PyStr} (hr : r.call = .revoke token fresh)
    (hv : v.call = .verify cookie) (hspelling : L.decode cookie = L.decode token) :
    verifySession L v.now v.state cookie = none := by
  have hsplit : log = (pre ++ r :: mid) ++ v :: post := by rw [hlog, List.append_assoc, List.cons_append]
  obtain ⟨hrun, hunforged, htimes⟩ := h.entry hsplit
  rw [hv] at hunforged
  cases hverify : verifySession L v.now v.state cookie with
  | none => rfl
  | some username =>
    obtain ⟨s, hparse, hlive, hauthentic, hget, -⟩ := verifySession_eq_some.1 hverify
    have htoken : parse L token = some s := by rw [← parse_congr hspelling, hparse]
    rcases hrun.barred rfl hr htoken with ⟨-, hforged | ⟨e, he, hexpired⟩ | hlisted⟩ | hyounger
    · rw [hauthentic] at hforged
      cases hforged
    · have := htimes e he
      omega
    · rw [hget] at hlisted
      cases hlisted
    · obtain ⟨e, he, hsecret, hsigns⟩ := signed_of_unforged hrun hunforged hparse hauthentic
      rcases List.mem_append.1 he with he | he
      · exact absurd hsecret (hyounger e (List.mem_append_left _ he))
      · rcases List.mem_cons.1 he with rfl | he
        · exact absurd hsecret (hyounger e (List.mem_append_right _ (List.mem_singleton_self _)))
        · -- Signed after the revocation, which already had its id.
          obtain ⟨a, b, rfl⟩ := List.mem_iff_append.1 he
          have hearlier : pre ++ r :: (a ++ e :: b) = (pre ++ r :: a) ++ e :: b := by
            rw [List.append_assoc, List.cons_append]
          have hid := hrun.sign_fresh hearlier hsigns r (List.mem_append_right _ (List.mem_cons_self ..))
          rw [hr, Call.sessionId, htoken] at hid
          exact absurd rfl hid

/-- A session that is signed under the present secret, has not expired and was in no revocation is let in. -/
theorem Run.signed_accepted {log pre mid post : List Entry} {st : State} {e v : Entry} (h : Run L log st)
    (hlog : log = pre ++ e :: (mid ++ v :: post)) {username sessionId token cookie : PyStr} {ttl : Int}
    (he : e.call = .sign username ttl sessionId)
    (hsigned : signSession L e.now username e.state.secret ttl sessionId = some token)
    (hspelling : L.decode cookie = L.decode token) (hlive : v.now ≤ e.now + ttl)
    (hsecret : v.state.secret = e.state.secret)
    (hkept : ∀ x ∈ mid, ∀ revoked fresh, x.call = .revoke revoked fresh → x.call.sessionId L ≠ some sessionId) :
    verifySession L v.now v.state cookie = some username := by
  have hsplit : log = (pre ++ e :: mid) ++ v :: post := by rw [hlog, List.append_assoc, List.cons_append]
  obtain ⟨hrun, -, -⟩ := h.entry hsplit
  obtain ⟨-, hallowed, -⟩ := h.entry hlog
  rw [he] at hallowed
  obtain ⟨husername, hid, hfresh⟩ := hallowed
  have hparse := parse_signed husername hid hsigned
  rw [← parse_congr hspelling] at hparse
  refine verifySession_eq_some.2 ⟨_, hparse, hlive, by rw [hsecret]; exact authentic_sign _ _ _ _, ?_, rfl⟩
  cases hget : v.state.revoked.get sessionId with
  | none => rfl
  | some expiresAt =>
    obtain ⟨x, hx, revoked, fresh, s, hcall, hparsed, -, hsame, -⟩ := hrun.revoked_signed _ (Mapping.mem_of_get hget)
    have hxid : x.call.sessionId L = some sessionId := by
      rw [hcall, Call.sessionId, hparsed, Option.map_some, hsame]
    rcases List.mem_append.1 hx with hx | hx
    · exact absurd hxid (hfresh x hx)
    · rcases List.mem_cons.1 hx with rfl | hx
      · rw [he] at hcall
        cases hcall
      · exact absurd hxid (hkept x hx revoked fresh hcall)

/-- In every run the revocation list stays bounded, a revoked token is refused from then on in every
spelling, and a session stays valid until it expires, is revoked or the secret is rotated. -/
theorem revocation_permanent {log : List Entry} {st : State} (h : Run L log st) :
    st.revoked.length ≤ 4096 ∧
    (∀ pre r mid v post token fresh cookie, log = pre ++ r :: (mid ++ v :: post) → r.call = .revoke token fresh →
      v.call = .verify cookie → L.decode cookie = L.decode token → verifySession L v.now v.state cookie = none) ∧
    ∀ pre e mid v post username ttl sessionId token cookie, log = pre ++ e :: (mid ++ v :: post) →
      e.call = .sign username ttl sessionId →
      signSession L e.now username e.state.secret ttl sessionId = some token → v.call = .verify cookie →
      L.decode cookie = L.decode token → v.now ≤ e.now + ttl → v.state.secret = e.state.secret →
      (∀ x ∈ mid, ∀ revoked fresh, x.call = .revoke revoked fresh → x.call.sessionId L ≠ some sessionId) →
      verifySession L v.now v.state cookie = some username :=
  ⟨h.revoked_le, fun _ _ _ _ _ _ _ _ hlog hr hv hspelling => h.revoked_refused hlog hr hv hspelling,
    fun _ _ _ _ _ _ _ _ _ _ hlog he hsigned _ hspelling hlive hsecret hkept =>
      h.signed_accepted hlog he hsigned hspelling hlive hsecret hkept⟩

/-! ## A login, a logout and the old cookie -/

/-- Six hexadecimal digits for every code point. -/
def hexText (s : PyStr) : PyStr :=
  s.flatMap fun c => [16 ^ 5, 16 ^ 4, 16 ^ 3, 16 ^ 2, 16, 1].map fun p =>
    (py "0123456789abcdef").getD (c.val / p % 16) 0

theorem hexText_hex (s : PyStr) : (hexText s).all lowerHex = true := by
  have hdigit : ∀ n < 16, lowerHex ((py "0123456789abcdef").getD n 0) = true := by decide
  refine List.all_eq_true.2 fun d hd => ?_
  obtain ⟨c, -, hd⟩ := List.mem_flatMap.1 hd
  obtain ⟨p, -, rfl⟩ := List.mem_map.1 hd
  exact hdigit _ (Nat.mod_lt _ (by decide))

def parseInt (s : PyStr) : Option Int := (Toml.integer s).bind fun r => if r.2 = [] then some r.1 else none

theorem parseInt_repr (n : Int) : parseInt (py n.repr) = some n := by
  have hend : ([] : PyStr).head?.any Toml.clings = false := rfl
  have hread := Toml.integer_int n hend
  rw [List.append_nil] at hread
  rw [parseInt, hread]
  rfl

theorem plain_decode (raw token : PyStr) (h : some raw = some token) : some token = some raw := h.symm

/-- Texts as they are, and a signature that spells out what it signs. -/
def plainLibrary : Library where
  encode := some
  decode := some
  decode_encode := plain_decode
  decode_nil := rfl
  int := parseInt
  int_repr := parseInt_repr
  mac secret message := hexText (secret ++ ch '/' :: message)
  mac_hex _ _ := hexText_hex _

def sessionId : PyStr := List.replicate 32 (ch 'a')

def token : PyStr :=
  message (py "ann") 60 sessionId ++ ch '|' :: sign plainLibrary (py "k") (message (py "ann") 60 sessionId)

def login : Entry := ⟨⟨py "k", []⟩, 0, .sign (py "ann") 60 sessionId⟩

def logout : Entry := ⟨⟨py "k", []⟩, 1, .revoke token (py "l")⟩

def comeBack : Entry := ⟨⟨py "k", [(sessionId, 60)]⟩, 2, .verify token⟩

theorem logout_run : Run plainLibrary [login, logout, comeBack] ⟨py "k", [(sessionId, 60)]⟩ := by
  have hid : isSessionId sessionId = true := by decide
  have hname : ch '|' ∉ py "ann" := by decide
  have htoken : signSession plainLibrary 0 (py "ann") (py "k") 60 sessionId = some token := rfl
  have hparse := parse_signed hname hid htoken
  have hunforged : ∀ log, login ∈ log → Unforged plainLibrary log (py "k") token := by
    intro log hmem s hs _
    obtain rfl := Option.some.inj (hparse.symm.trans hs)
    exact ⟨login, hmem, py "ann", 60, sessionId, rfl, rfl, rfl⟩
  have hsign : Run plainLibrary [login] ⟨py "k", []⟩ := Run.call 0 (.sign (py "ann") 60 sessionId)
    (.nil (py "k")) (fun _ he => (List.not_mem_nil he).elim) ⟨hname, hid, fun _ he => (List.not_mem_nil he).elim⟩
  have hfresh : FreshSecret [login] ⟨py "k", []⟩ (py "l") := by
    refine ⟨by decide, fun e he => ?_⟩
    rw [List.mem_singleton.1 he]
    exact show py "k" ≠ py "l" by decide
  have hlisted : step plainLibrary 1 ⟨py "k", []⟩ (.revoke token (py "l")) = ⟨py "k", [(sessionId, 60)]⟩ := by
    have hverify : verifySession plainLibrary 1 ⟨py "k", []⟩ token = some (py "ann") :=
      verifySession_eq_some.2 ⟨_, hparse, by decide, authentic_sign _ _ _ _, rfl, rfl⟩
    rw [step, revokeSession, hverify, hparse]
    rfl
  have hrevoke : Run plainLibrary [login, logout] ⟨py "k", [(sessionId, 60)]⟩ := by
    rw [← hlisted]
    refine hsign.call 1 (.revoke token (py "l")) (fun e he => ?_) ⟨hunforged _ (List.mem_singleton_self _), hfresh⟩
    rw [List.mem_singleton.1 he]
    exact show (0 : Int) ≤ 1 by decide
  refine hrevoke.call 2 (.verify token) (fun e he => ?_) (hunforged _ (List.mem_cons_self ..))
  rcases List.mem_cons.1 he with rfl | he
  · exact show (0 : Int) ≤ 2 by decide
  · rw [List.mem_singleton.1 he]
    exact show (1 : Int) ≤ 2 by decide

theorem revocation_permanent_sample :
    verifySession plainLibrary comeBack.now comeBack.state token = none :=
  (revocation_permanent logout_run).2.1 [login] logout [] comeBack [] token (py "l") token rfl rfl rfl rfl

end Toolstack.Admin.Sessions
