import Mathlib.Algebra.Order.Ring.Rat
import Mathlib.Tactic.Linarith
import Toolstack.Json.Value

/-! `admin/loginguard.py` and the login routes of `admin/server.py` and `admin/api.py`. A
request asks the guard, waits for its body, and only then checks the password; between two
waits it runs alone. -/

namespace Toolstack.Admin

abbrev Seconds := Rat

abbrev Ip := PyStr

/-- A missing entry of `_ip_fails` is an empty list. -/
structure LoginGuard where
  maxPerIp : Nat := 5
  lockout : Seconds := 300
  globalMax : Nat := 50
  globalWindow : Seconds := 300
  ipFails : Ip → List Seconds := fun _ => []
  globalFails : List Seconds := []

namespace LoginGuard

def prune (now : Seconds) (g : LoginGuard) : LoginGuard :=
  { g with
    ipFails := fun ip => (g.ipFails ip).filter fun t => now - g.lockout ≤ t
    globalFails := g.globalFails.filter fun t => now - g.globalWindow ≤ t }

/-- `max(0.0, window - (now - min(fails)))`; the minimum of no failures raises. -/
def remaining (window now : Seconds) (fails : List Seconds) : Option Seconds :=
  fails.min?.map fun oldest => max 0 (window - (now - oldest))

/-- The pruned guard and the wait, `none` when it raises. -/
def retryAfter (now : Seconds) (ip : Ip) (g : LoginGuard) : Option Seconds × LoginGuard :=
  let g := g.prune now
  let recent := g.ipFails ip
  if g.maxPerIp ≤ recent.length then (remaining g.lockout now recent, g)
  else if g.globalMax ≤ g.globalFails.length then (remaining g.globalWindow now g.globalFails, g)
  else (some 0, g)

def recordFailure (now : Seconds) (ip : Ip) (g : LoginGuard) : LoginGuard :=
  { g with
    ipFails := fun a => if a = ip then g.ipFails a ++ [now] else g.ipFails a
    globalFails := g.globalFails ++ [now] }

def recordSuccess (ip : Ip) (g : LoginGuard) : LoginGuard :=
  { g with ipFails := fun a => if a = ip then [] else g.ipFails a }

end LoginGuard

/-! ## Login requests -/

/-- A login request and what its body parses to, `none` when reading it raises: the form of
`/login`, or the JSON object of `/api/login`. -/
inductive Login
  | login (data : Option (List (PyStr × PyStr)))
  | apiLogin (data : Option (List (PyStr × Json)))

inductive Answer
  | tooMany (retryAfter : Int)
  | invalid
  | signedIn
  | failed
  deriving DecidableEq

section Routes
variable (adminUsername : PyStr) (verify : PyStr → PyStr → Bool)

/-- `auth.verify_password` on any JSON value: what is not a string never verifies. -/
def verifyPassword (password : Json) (stored : PyStr) : Bool :=
  match password with
  | .str password => verify password stored
  | _ => false

/-- Whether the username and the password are right, `none` when the body cannot be read. -/
def Login.correct (stored : Option PyStr) : Login → Option Bool
  | login none | apiLogin none => none
  | login (some data) =>
    let username := (data.lookup (py "username")).getD []
    let password := (data.lookup (py "password")).getD []
    some (username = adminUsername && stored.any fun hash => verify password hash)
  | apiLogin (some data) =>
    let username := match data.lookup (py "username") with
      | some v => if v.truthy then v else .str adminUsername
      | none => .str adminUsername
    let password := (data.lookup (py "password")).getD (.str [])
    some ((match username with
      | .str username => decide (username = adminUsername)
      | _ => false) && stored.any fun hash => !hash.isEmpty && verifyPassword verify password hash)

structure Request where
  ip : Ip
  login : Login
  answer : Option Answer := none

/-- A checked password: when it was verified, and when the guard was told of a failure. -/
structure Attempt where
  ip : Ip
  verified : Seconds
  recorded : Seconds
  correct : Bool

/-- `clock` is the last reading of the clock, `attempts` are newest first. -/
structure Panel where
  guard : LoginGuard
  clock : Seconds := 0
  requests : List Request := []
  attempts : List Attempt := []

inductive Act
  /-- A request arrives and asks the guard. -/
  | arrive (ip : Ip) (login : Login) (now : Seconds)
  /-- The body of a waiting request is there, or reading it raises. -/
  | resume (i : Nat) (stored : Option PyStr) (verified recorded : Seconds)

namespace Panel

def answer (i : Nat) (r : Request) (a : Answer) (s : Panel) : Panel :=
  { s with requests := s.requests.set i { r with answer := some a } }

def step (s : Panel) : Act → Option Panel
  | .arrive ip login now =>
    if now < s.clock then none
    else
      let (wait, guard) := s.guard.retryAfter now ip
      let answer := match wait with
        | none => some .failed
        | some wait => if 0 < wait then some (.tooMany (wait.floor + 1)) else none
      some { s with guard := guard, clock := now, requests := s.requests ++ [⟨ip, login, answer⟩] }
  | .resume i stored verified recorded =>
    match s.requests[i]? with
    | some r =>
      if r.answer.isSome || verified < s.clock || recorded < verified then none
      else match r.login.correct adminUsername verify stored with
        | none => some (s.answer i r .failed)
        | some false => some ({ s with
            guard := s.guard.recordFailure recorded r.ip
            clock := recorded
            attempts := ⟨r.ip, verified, recorded, false⟩ :: s.attempts }.answer i r .invalid)
        | some true => some ({ s with
            guard := s.guard.recordSuccess r.ip
            clock := recorded
            attempts := ⟨r.ip, verified, recorded, true⟩ :: s.attempts }.answer i r .signedIn)
    | none => none

end Panel

/-- Runs all of whose steps satisfy `ok`. -/
inductive Panel.Run (ok : Panel → Act → Prop) (s : Panel) : Panel → Prop
  | refl : Run ok s s
  | tail {s₁ s₂ a} : Run ok s s₁ → ok s₁ a → s₁.step adminUsername verify a = some s₂ → Run ok s s₂

end Routes

/-! ## Attempts in a window -/

namespace Attempt
variable (p reset : Attempt → Bool)

/-- When the attempts in `p` that no later attempt in `reset` clears were recorded. -/
def tally : List Attempt → List Seconds
  | [] => []
  | e :: es => if reset e then [] else if p e then e.recorded :: tally es else tally es

def within (a b : Seconds) (e : Attempt) : Bool := a ≤ e.verified && e.verified ≤ b

/-- In every interval shorter than `w` that has no attempt in `reset`, at most `limit` attempts
in `p` were verified. -/
def Bounded (limit : Nat) (w : Seconds) (es : List Attempt) : Prop :=
  ∀ a b, b - a < w → (∀ e ∈ es, reset e = true → e.within a b = false) →
    es.countP (fun e => p e && e.within a b) ≤ limit

/-- The guard's list has every tallied failure that still counts from `now` on. -/
def Covered (w now : Seconds) (fails : List Seconds) (es : List Attempt) : Prop :=
  ∀ t, now ≤ t → ((tally p reset es).filter fun x => t - w < x).length ≤
    (fails.filter fun x => t - w < x).length

variable {p reset} {limit : Nat} {w now : Seconds} {fails : List Seconds} {es : List Attempt}
  {e : Attempt}

/-- What lies before a reset lies before the interval. -/
theorem countP_le_tally {a b : Seconds} (hsorted : es.Pairwise fun e e' => e'.verified ≤ e.verified)
    (hrecorded : ∀ e ∈ es, e.verified ≤ e.recorded) (hlast : ∀ e ∈ es, e.verified ≤ b)
    (hreset : ∀ e ∈ es, reset e = true → e.within a b = false) :
    es.countP (fun e => p e && e.within a b) ≤
      ((tally p reset es).filter fun x => a ≤ x).length := by
  induction es with
  | nil => exact Nat.le_refl _
  | cons e es ih =>
    have hle : e.verified ≤ b := hlast e (List.mem_cons_self ..)
    rw [List.pairwise_cons] at hsorted
    unfold tally
    split_ifs with hr hp
    · have hbefore : e.verified < a := by
        have hout := hreset e (List.mem_cons_self ..) hr
        simpa [within, hle] using hout
      have hnone : (e :: es).countP (fun e => p e && e.within a b) = 0 := by
        rw [List.countP_eq_zero]
        intro e' he'
        have hlt : e'.verified < a := by
          rcases List.mem_cons.1 he' with rfl | hmem
          · exact hbefore
          · exact (hsorted.1 e' hmem).trans_lt hbefore
        simp [within, not_le.2 hlt]
      omega
    all_goals
      have hrest := ih hsorted.2 (fun e' he' => hrecorded e' (List.mem_cons_of_mem _ he'))
        (fun e' he' => hlast e' (List.mem_cons_of_mem _ he'))
        fun e' he' => hreset e' (List.mem_cons_of_mem _ he')
    · by_cases ha : a ≤ e.verified
      · have hkept : a ≤ e.recorded := ha.trans (hrecorded e (List.mem_cons_self ..))
        rw [List.countP_cons_of_pos (by simp [hp, within, ha, hle]),
          List.filter_cons_of_pos (by simpa using hkept), List.length_cons]
        omega
      · rw [List.countP_cons_of_neg (by simp [within, ha])]
        refine hrest.trans ?_
        rw [List.filter_cons]
        split_ifs <;> simp
    · rw [List.countP_cons_of_neg (by simp [hp])]
      exact hrest

theorem Bounded.nil : Bounded p reset limit w [] := fun _ _ _ _ => Nat.zero_le _

/-- An attempt that is not counted changes no count. -/
theorem Bounded.skip (h : Bounded p reset limit w es) (hp : p e = false) :
    Bounded p reset limit w (e :: es) := by
  intro a b hshort hreset
  rw [List.countP_cons_of_neg (by simp [hp])]
  exact h a b hshort fun e' he' => hreset e' (List.mem_cons_of_mem _ he')

/-- One more attempt in `p` is within the bound when fewer than `limit` still count. -/
theorem Bounded.count (h : Bounded p reset limit w es)
    (hsorted : es.Pairwise fun e e' => e'.verified ≤ e.verified)
    (hrecorded : ∀ e ∈ es, e.verified ≤ e.recorded) (hlast : ∀ e' ∈ es, e'.verified ≤ e.verified)
    (hroom : ((tally p reset es).filter fun x => e.verified - w < x).length < limit) :
    Bounded p reset limit w (e :: es) := by
  intro a b hshort hreset
  have hrest : ∀ e' ∈ es, reset e' = true → e'.within a b = false :=
    fun e' he' => hreset e' (List.mem_cons_of_mem _ he')
  by_cases hin : (p e && e.within a b) = true
  · rw [List.countP_cons_of_pos (by exact hin)]
    simp only [within, Bool.and_eq_true, decide_eq_true_eq] at hin
    have hcount := countP_le_tally (p := p) hsorted hrecorded (fun e' he' => (hlast e' he').trans hin.2.2)
      hrest
    have hwindow : ((tally p reset es).filter fun x => a ≤ x).length ≤
        ((tally p reset es).filter fun x => e.verified - w < x).length := by
      apply List.Sublist.length_le
      apply List.monotone_filter_right
      intro x hx
      simp only [decide_eq_true_eq] at hx ⊢
      linarith
    omega
  · rw [List.countP_cons_of_neg (by exact hin)]
    exact h a b hshort hrest

theorem Covered.nil : Covered p reset w now fails [] := fun _ _ => Nat.zero_le _

theorem Covered.mono {now' : Seconds} (h : Covered p reset w now fails es) (hle : now ≤ now') :
    Covered p reset w now' fails es := fun t ht => h t (hle.trans ht)

/-- Pruning drops only what no longer counts. -/
theorem Covered.prune {now' : Seconds} (h : Covered p reset w now fails es) (hle : now ≤ now') :
    Covered p reset w now' (fails.filter fun t => now' - w ≤ t) es := by
  intro t ht
  have hsame : (fails.filter fun t => now' - w ≤ t).filter (fun x => t - w < x) =
      fails.filter fun x => t - w < x := by
    rw [List.filter_filter]
    apply List.filter_congr
    intro x _
    have himp : t - w < x → now' - w ≤ x := fun hx => by linarith
    simpa using himp
  rw [hsame]
  exact h t (hle.trans ht)

theorem Covered.record (h : Covered p reset w now fails es) (hr : reset e = false) (hp : p e = true) :
    Covered p reset w now (fails ++ [e.recorded]) (e :: es) := by
  intro t ht
  have hrest := h t ht
  simp only [tally, hr, hp, Bool.false_eq_true, if_false, if_true, List.filter_append, List.length_append,
    List.filter_cons, List.filter_nil]
  split_ifs
  · rw [List.length_cons, List.length_singleton]
    omega
  · simpa using hrest

theorem Covered.skip (h : Covered p reset w now fails es) (hr : reset e = false) (hp : p e = false) :
    Covered p reset w now fails (e :: es) := by
  intro t ht
  simpa only [tally, hr, hp, Bool.false_eq_true, if_false] using h t ht

theorem Covered.cleared (hr : reset e = true) : Covered p reset w now [] (e :: es) := by
  intro t _
  simp [tally, hr]

end Attempt

/-! ## Asking the guard -/

namespace LoginGuard
variable {g : LoginGuard} {now : Seconds} {ip : Ip}

/-- Asked now, the guard lets the address through. -/
def Admits (now : Seconds) (ip : Ip) (g : LoginGuard) : Prop := (g.retryAfter now ip).1 = some 0

/-- No failure is exactly as old as its window: pruning keeps it, and it leaves nothing to wait. -/
def Untied (now : Seconds) (ip : Ip) (g : LoginGuard) : Prop :=
  now - g.lockout ∉ g.ipFails ip ∧ now - g.globalWindow ∉ g.globalFails

theorem remaining_ne_zero {w : Seconds} {fails : List Seconds} (h : ∀ t ∈ fails, now - w < t) :
    remaining w now fails ≠ some 0 := by
  intro hzero
  obtain ⟨oldest, hmin, hwait⟩ := Option.map_eq_some_iff.1 hzero
  have hlt := h oldest (List.min?_mem hmin)
  have hle : w - (now - oldest) ≤ max 0 (w - (now - oldest)) := le_max_right ..
  linarith

theorem filter_untied {w : Seconds} {fails : List Seconds} (h : now - w ∉ fails) :
    fails.filter (fun t => now - w ≤ t) = fails.filter fun t => now - w < t := by
  apply List.filter_congr
  intro t ht
  have hne : now - w ≠ t := fun he => h (he ▸ ht)
  simp [le_iff_lt_or_eq, hne]

/-- An untied guard that admits has room in both windows. -/
theorem Admits.room (h : g.Admits now ip) (hu : g.Untied now ip) :
    ((g.ipFails ip).filter fun t => now - g.lockout < t).length < g.maxPerIp ∧
      (g.globalFails.filter fun t => now - g.globalWindow < t).length < g.globalMax := by
  have hzero : ∀ {w : Seconds} {fails : List Seconds}, now - w ∉ fails →
      remaining w now (fails.filter fun t => now - w ≤ t) ≠ some 0 := fun hne => by
    rw [filter_untied hne]
    exact remaining_ne_zero fun t ht => of_decide_eq_true (List.mem_filter.1 ht).2
  rw [← filter_untied hu.1, ← filter_untied hu.2]
  unfold Admits retryAfter at h
  simp only at h
  by_cases hip : (g.prune now).maxPerIp ≤ ((g.prune now).ipFails ip).length
  · rw [if_pos hip] at h
    exact absurd h (hzero hu.1)
  · rw [if_neg hip] at h
    by_cases hglobal : (g.prune now).globalMax ≤ (g.prune now).globalFails.length
    · rw [if_pos hglobal] at h
      exact absurd h (hzero hu.2)
    · exact ⟨not_le.1 hip, not_le.1 hglobal⟩

theorem retryAfter_guard : (g.retryAfter now ip).2 = g.prune now := by
  unfold retryAfter
  simp only
  split_ifs <;> rfl

/-- The limits of a guard never change. -/
structure SameLimits (g g' : LoginGuard) : Prop where
  maxPerIp : g'.maxPerIp = g.maxPerIp
  lockout : g'.lockout = g.lockout
  globalMax : g'.globalMax = g.globalMax
  globalWindow : g'.globalWindow = g.globalWindow

end LoginGuard

/-! ## Runs -/

namespace Attempt

def failedFrom (ip : Ip) (e : Attempt) : Bool := e.ip = ip && !e.correct

def signedInFrom (ip : Ip) (e : Attempt) : Bool := e.ip = ip && e.correct

def failed (e : Attempt) : Bool := !e.correct

end Attempt

namespace Panel
variable {adminUsername : PyStr} {verify : PyStr → PyStr → Bool} {s s' s₀ : Panel} {a : Act}

/-- When a wrong password is checked, the guard would still let its address through. -/
def Current (adminUsername : PyStr) (verify : PyStr → PyStr → Bool) (s : Panel) : Act → Prop
  | .arrive .. => True
  | .resume i stored verified _ => ∀ r, s.requests[i]? = some r →
      r.login.correct adminUsername verify stored = some false →
      s.guard.Admits verified r.ip ∧ s.guard.Untied verified r.ip

/-- The admin process has started. -/
structure Started (s : Panel) : Prop where
  requests : s.requests = []
  attempts : s.attempts = []

structure Inv (s : Panel) : Prop where
  recorded : ∀ e ∈ s.attempts, e.verified ≤ e.recorded ∧ e.recorded ≤ s.clock
  sorted : s.attempts.Pairwise fun e e' => e'.verified ≤ e.verified
  ipCovered : ∀ ip, Attempt.Covered (Attempt.failedFrom ip) (Attempt.signedInFrom ip) s.guard.lockout
    s.clock (s.guard.ipFails ip) s.attempts
  globalCovered : Attempt.Covered Attempt.failed (fun _ => false) s.guard.globalWindow s.clock
    s.guard.globalFails s.attempts
  ipBounded : ∀ ip, Attempt.Bounded (Attempt.failedFrom ip) (Attempt.signedInFrom ip) s.guard.maxPerIp
    s.guard.lockout s.attempts
  globalBounded : Attempt.Bounded Attempt.failed (fun _ => false) s.guard.globalMax
    s.guard.globalWindow s.attempts

theorem Started.inv (h : s.Started) : s.Inv := by
  refine ⟨?_, ?_, fun ip => ?_, ?_, fun ip => ?_, ?_⟩ <;> rw [h.attempts]
  · simp
  · exact .nil
  · exact .nil
  · exact .nil
  · exact .nil
  · exact .nil

theorem Inv.last (h : s.Inv) {now : Seconds} (hnow : s.clock ≤ now) :
    ∀ e ∈ s.attempts, e.verified ≤ now := fun e he =>
  ((h.recorded e he).1.trans (h.recorded e he).2).trans hnow

/-- What a step did: it asked the guard, it only answered, or it checked a password. -/
inductive Stepped (adminUsername : PyStr) (verify : PyStr → PyStr → Bool) (s : Panel) (a : Act) :
    Panel → Prop
  | asked (now : Seconds) (later : s.clock ≤ now) {rs} : Stepped adminUsername verify s a
      { s with guard := s.guard.prune now, clock := now, requests := rs }
  | answered {rs} : Stepped adminUsername verify s a { s with requests := rs }
  | refused (i : Nat) (r : Request) (stored : Option PyStr) (verified recorded : Seconds)
      (act : a = .resume i stored verified recorded) (present : s.requests[i]? = some r)
      (wrong : r.login.correct adminUsername verify stored = some false)
      (later : s.clock ≤ verified) (after : verified ≤ recorded) {rs} :
      Stepped adminUsername verify s a { s with
        guard := s.guard.recordFailure recorded r.ip
        clock := recorded
        attempts := ⟨r.ip, verified, recorded, false⟩ :: s.attempts
        requests := rs }
  | admitted (ip : Ip) (verified recorded : Seconds) (later : s.clock ≤ verified)
      (after : verified ≤ recorded) {rs} : Stepped adminUsername verify s a { s with
        guard := s.guard.recordSuccess ip
        clock := recorded
        attempts := ⟨ip, verified, recorded, true⟩ :: s.attempts
        requests := rs }

theorem step_cases (h : s.step adminUsername verify a = some s') :
    Stepped adminUsername verify s a s' := by
  cases a with
  | arrive ip login now =>
    simp only [step, LoginGuard.retryAfter_guard] at h
    split_ifs at h with hnow
    obtain rfl := Option.some.inj h
    exact .asked now (not_lt.1 hnow)
  | resume i stored verified recorded =>
    simp only [step] at h
    cases hr : s.requests[i]? with
    | none => simp [hr] at h
    | some r =>
      simp only [hr] at h
      split_ifs at h with hbad
      simp only [Bool.or_eq_true, decide_eq_true_eq, not_or, not_lt] at hbad
      obtain ⟨⟨-, hlater⟩, hafter⟩ := hbad
      cases hcorrect : r.login.correct adminUsername verify stored with
      | none =>
        rw [hcorrect] at h
        obtain rfl := Option.some.inj h
        exact .answered
      | some correct =>
        rw [hcorrect] at h
        cases correct with
        | false =>
          obtain rfl := Option.some.inj h
          exact .refused i r stored verified recorded rfl hr hcorrect hlater hafter
        | true =>
          obtain rfl := Option.some.inj h
          exact .admitted r.ip verified recorded hlater hafter

theorem Inv.attempted (h : s.Inv) {e : Attempt} {guard : LoginGuard} {rs : List Request}
    (hlater : s.clock ≤ e.verified) (hafter : e.verified ≤ e.recorded)
    (hlimits : s.guard.SameLimits guard)
    (hip : ∀ ip, Attempt.Covered (Attempt.failedFrom ip) (Attempt.signedInFrom ip) s.guard.lockout
      s.clock (guard.ipFails ip) (e :: s.attempts))
    (hglobal : Attempt.Covered Attempt.failed (fun _ => false) s.guard.globalWindow s.clock
      guard.globalFails (e :: s.attempts))
    (hroom : e.correct = false → s.guard.Admits e.verified e.ip ∧ s.guard.Untied e.verified e.ip) :
    Inv { s with guard := guard, clock := e.recorded, attempts := e :: s.attempts, requests := rs } := by
  have hrecorded : ∀ e' ∈ s.attempts, e'.verified ≤ e'.recorded := fun e' he' => (h.recorded e' he').1
  have hclock : s.clock ≤ e.recorded := hlater.trans hafter
  refine ⟨fun e' he' => ?_, List.pairwise_cons.2 ⟨h.last hlater, h.sorted⟩, fun ip => ?_, ?_,
    fun ip => ?_, ?_⟩
  · rcases List.mem_cons.1 he' with rfl | hmem
    · exact ⟨hafter, le_refl _⟩
    · exact ⟨hrecorded e' hmem, (h.recorded e' hmem).2.trans hclock⟩
  · show Attempt.Covered _ _ guard.lockout _ _ _
    rw [hlimits.lockout]
    exact (hip ip).mono hclock
  · show Attempt.Covered _ _ guard.globalWindow _ _ _
    rw [hlimits.globalWindow]
    exact hglobal.mono hclock
  · show Attempt.Bounded _ _ guard.maxPerIp guard.lockout _
    rw [hlimits.lockout, hlimits.maxPerIp]
    by_cases hfrom : Attempt.failedFrom ip e = true
    · simp only [Attempt.failedFrom, Bool.and_eq_true, decide_eq_true_eq, Bool.not_eq_true'] at hfrom
      obtain ⟨hadmits, huntied⟩ := hroom hfrom.2
      have hfew := (hadmits.room huntied).1
      rw [hfrom.1] at hfew
      have hcovered := h.ipCovered ip e.verified hlater
      exact (h.ipBounded ip).count h.sorted hrecorded (h.last hlater) (hcovered.trans_lt hfew)
    · exact (h.ipBounded ip).skip (Bool.not_eq_true _ ▸ hfrom)
  · show Attempt.Bounded _ _ guard.globalMax guard.globalWindow _
    rw [hlimits.globalWindow, hlimits.globalMax]
    cases hcorrect : e.correct with
    | false =>
      obtain ⟨hadmits, huntied⟩ := hroom hcorrect
      have hfew := (hadmits.room huntied).2
      have hcovered := h.globalCovered e.verified hlater
      exact h.globalBounded.count h.sorted hrecorded (h.last hlater) (hcovered.trans_lt hfew)
    | true => exact h.globalBounded.skip (by simp [Attempt.failed, hcorrect])

theorem Inv.step (h : s.Inv) (hcurrent : s.Current adminUsername verify a)
    (hs : s.step adminUsername verify a = some s') : s'.Inv := by
  cases step_cases hs with
  | asked now later =>
    refine ⟨fun e he => ?_, h.sorted, fun ip => ?_, ?_, h.ipBounded, h.globalBounded⟩
    · exact ⟨(h.recorded e he).1, (h.recorded e he).2.trans later⟩
    · exact (h.ipCovered ip).prune later
    · exact h.globalCovered.prune later
  | answered => exact ⟨h.recorded, h.sorted, h.ipCovered, h.globalCovered, h.ipBounded, h.globalBounded⟩
  | refused i r stored verified recorded act present wrong later after =>
    subst act
    refine h.attempted (e := ⟨r.ip, verified, recorded, false⟩) later after ⟨rfl, rfl, rfl, rfl⟩
      (fun ip => ?_) ?_ fun _ => hcurrent r present wrong
    · have hnot : Attempt.signedInFrom ip ⟨r.ip, verified, recorded, false⟩ = false := by
        simp [Attempt.signedInFrom]
      by_cases hip : r.ip = ip
      · have hfails : (s.guard.recordFailure recorded r.ip).ipFails ip =
            s.guard.ipFails ip ++ [recorded] := by simp [LoginGuard.recordFailure, hip]
        rw [hfails]
        exact (h.ipCovered ip).record hnot (by simp [Attempt.failedFrom, hip])
      · have hfails : (s.guard.recordFailure recorded r.ip).ipFails ip = s.guard.ipFails ip := by
          simp [LoginGuard.recordFailure, Ne.symm hip]
        rw [hfails]
        exact (h.ipCovered ip).skip hnot (by simp [Attempt.failedFrom, hip])
    · exact h.globalCovered.record rfl rfl
  | admitted ip verified recorded later after =>
    refine h.attempted (e := ⟨ip, verified, recorded, true⟩) later after ⟨rfl, rfl, rfl, rfl⟩
      (fun ip' => ?_) (h.globalCovered.skip rfl rfl) nofun
    by_cases hip : ip = ip'
    · have hfails : (s.guard.recordSuccess ip).ipFails ip' = [] := by
        simp [LoginGuard.recordSuccess, hip]
      rw [hfails]
      exact .cleared (by simp [Attempt.signedInFrom, hip])
    · have hfails : (s.guard.recordSuccess ip).ipFails ip' = s.guard.ipFails ip' := by
        simp [LoginGuard.recordSuccess, Ne.symm hip]
      rw [hfails]
      exact (h.ipCovered ip').skip (by simp [Attempt.signedInFrom, hip]) (by simp [Attempt.failedFrom])

theorem step_limits (hs : s.step adminUsername verify a = some s') : s.guard.SameLimits s'.guard := by
  cases step_cases hs <;> exact ⟨rfl, rfl, rfl, rfl⟩

/-- The limits are those the process started with. -/
theorem Run.limits {ok : Panel → Act → Prop} (h : Run adminUsername verify ok s₀ s) :
    s₀.guard.SameLimits s.guard := by
  induction h with
  | refl => exact ⟨rfl, rfl, rfl, rfl⟩
  | tail _ _ hs ih =>
    have hstep := step_limits hs
    exact ⟨hstep.maxPerIp.trans ih.maxPerIp, hstep.lockout.trans ih.lockout,
      hstep.globalMax.trans ih.globalMax, hstep.globalWindow.trans ih.globalWindow⟩

theorem Run.inv (h₀ : s₀.Started) (h : Run adminUsername verify (Current adminUsername verify) s₀ s) :
    s.Inv := by
  induction h with
  | refl => exact h₀.inv
  | tail _ hok hs ih => exact ih.step hok hs

/-- In every interval shorter than its window, the guard lets at most its limit of wrong logins
be checked: per address, as long as none of its logins succeeds in the interval, and over all. -/
structure Locked (g : LoginGuard) (attempts : List Attempt) : Prop where
  perIp : ∀ ip, Attempt.Bounded (Attempt.failedFrom ip) (Attempt.signedInFrom ip) g.maxPerIp g.lockout
    attempts
  overall : Attempt.Bounded Attempt.failed (fun _ => false) g.globalMax g.globalWindow attempts

/-- In every run in which no wrong password is checked that the guard, asked then, would refuse,
the lockout holds. -/
theorem lockout_holds (h₀ : s₀.Started)
    (h : Run adminUsername verify (Current adminUsername verify) s₀ s) :
    Locked s₀.guard s.attempts := by
  have hinv := Run.inv h₀ h
  have hlimits := h.limits
  refine ⟨fun ip => ?_, ?_⟩
  · have hip := hinv.ipBounded ip
    rwa [hlimits.maxPerIp, hlimits.lockout] at hip
  · have hglobal := hinv.globalBounded
    rwa [hlimits.globalMax, hlimits.globalWindow] at hglobal

/-! ### Sample runs -/

def run (adminUsername : PyStr) (verify : PyStr → PyStr → Bool) (s : Panel) (acts : List Act) :
    Option Panel :=
  acts.foldlM (fun s a => s.step adminUsername verify a) s

theorem Run.head {ok : Panel → Act → Prop} (hok : ok s₀ a)
    (hs : s₀.step adminUsername verify a = some s) (h : Run adminUsername verify ok s s') :
    Run adminUsername verify ok s₀ s' := by
  induction h with
  | refl => exact .tail .refl hok hs
  | tail _ hok' hs' ih => exact .tail ih hok' hs'

theorem Run.of_run {acts : List Act} (h : run adminUsername verify s acts = some s') :
    Run adminUsername verify (fun _ _ => True) s s' := by
  induction acts generalizing s with
  | nil =>
    obtain rfl : s = s' := by simpa [run] using h
    exact .refl
  | cons a acts ih =>
    obtain ⟨s₁, hs, hrest⟩ : ∃ s₁, s.step adminUsername verify a = some s₁ ∧
        run adminUsername verify s₁ acts = some s' := by
      simpa [run, List.foldlM_cons, Option.bind_eq_some_iff] using h
    exact .head trivial hs (ih hrest)

namespace Sample

def guess : Login := .login (some [(py "username", py "admin"), (py "password", py "guess")])

/-- Six guesses from one address pass the guard before the first of them is checked. -/
def together : List Act :=
  List.replicate 6 (.arrive [] guess 0) ++
    (List.range 6).map fun i => .resume i (some (py "hash")) 0 0

/-- One guess, checked before the next request arrives. -/
def alone (i : Nat) (t : Seconds) : List Act :=
  [.arrive [] guess t, .resume i (some (py "hash")) t t]

/-- The first failure is exactly as old as the lockout when the sixth and seventh guess arrive. -/
def aged : List Act :=
  ([0, 1, 1, 1, 1, 300, 300].zipIdx.map fun guess => alone guess.2 guess.1).flatten

end Sample

/-- All six are checked, although the guard allows an address five. -/
theorem simultaneous_guesses_checked : ∃ s, Run (py "admin") (fun _ _ => false) (fun _ _ => True)
    { guard := {} } s ∧ ¬Locked {} s.attempts := by
  obtain ⟨s, hrun⟩ : ∃ s, run (py "admin") (fun _ _ => false) { guard := {} } Sample.together = some s :=
    Option.isSome_iff_exists.1 rfl
  have hattempts : some s.attempts = some (List.replicate 6 ⟨[], 0, 0, false⟩) := by
    rw [← Option.map_some, ← hrun]
    rfl
  refine ⟨s, .of_run hrun, fun hlocked => ?_⟩
  rw [Option.some.inj hattempts] at hlocked
  exact absurd (hlocked.perIp [] 0 0 (by decide +kernel) (by decide)) (by decide +kernel)

/-- One after the other, six guesses are checked between the seconds 1 and 300. -/
example : (run (py "admin") (fun _ _ => false) { guard := {} } Sample.aged).map (fun s =>
    s.attempts.countP fun e => e.within 1 300) = some 6 := by decide +kernel

theorem lockout_holds_one_guess : Locked {} [⟨[], 1, 1, false⟩] := by
  have harrived : Panel.step (py "admin") (fun _ _ => false) { guard := {} } (.arrive [] Sample.guess 0) =
      some ⟨.prune 0 {}, 0, [⟨[], Sample.guess, none⟩], []⟩ := rfl
  have hchecked : Panel.step (py "admin") (fun _ _ => false)
      ⟨.prune 0 {}, 0, [⟨[], Sample.guess, none⟩], []⟩ (.resume 0 (some (py "hash")) 1 1) =
      some ⟨.recordFailure 1 [] (.prune 0 {}), 1, [⟨[], Sample.guess, some .invalid⟩],
        [⟨[], 1, 1, false⟩]⟩ := rfl
  have hasked : Current (py "admin") (fun _ _ => false) { guard := {} } (.arrive [] Sample.guess 0) :=
    trivial
  have hcurrent : Current (py "admin") (fun _ _ => false)
      ⟨.prune 0 {}, 0, [⟨[], Sample.guess, none⟩], []⟩ (.resume 0 (some (py "hash")) 1 1) := by
    intro r hr _
    obtain rfl := Option.some.inj hr
    exact ⟨rfl, by decide +kernel, by decide +kernel⟩
  exact lockout_holds ⟨rfl, rfl⟩ (.head hasked harrived (.head hcurrent hchecked .refl))

end Panel

end Toolstack.Admin
