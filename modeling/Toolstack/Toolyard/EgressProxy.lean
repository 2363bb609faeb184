import Toolstack.Broker.Manifest
import Toolstack.Toml.Layout

/-! `toolyard/egress_proxy.py`: a tool's outbound requests, and the destinations they reach. -/

namespace Toolstack.Toolyard.EgressProxy

open Url
open Broker.Registry (hostinfo)

/-! ## The destination of a target -/

/-- `str.lower` of a character of a request line, which is Latin-1 text. -/
def lowerLatin (c : CodePoint) : CodePoint :=
  if 0xC0 ≤ c.val ∧ c.val ≤ 0xDE ∧ c.val ≠ 0xD7 then byte (c.val + 0x20) else lower c

/-- `.hostname`, empty where it is not set: a zone keeps its case. -/
def hostname (u : SplitUrl) : PyStr :=
  let host := (hostinfo u).1
  (host.takeWhile (· ≠ ch '%')).map lowerLatin ++ host.dropWhile (· ≠ ch '%')

/-- `.port`, or `none` where it raises; `int` takes at most 4300 digits. -/
def port (u : SplitUrl) : Option (Option Nat) :=
  if (hostinfo u).2.length ≤ 4300 then Broker.Registry.port u else none

/-- `.username` and `.password`, each empty where it is not set. -/
def userinfo (u : SplitUrl) : PyStr × PyStr :=
  cut (ch ':') (u.netloc.reverse.dropWhile (· ≠ ch '@')).tail.reverse

def authority (host : PyStr) (port : Nat) : PyStr :=
  if ch ':' ∈ host then ch '[' :: host ++ ch ']' :: ch ':' :: py port.repr
  else host ++ ch ':' :: py port.repr

/-! ## The two paths -/

/-- How a request ends: `connect` where the upstream's address is resolved and dialled. -/
inductive Answer
  | connect (host : PyStr) (port : Nat)
  | denied (shown : PyStr)
  | error (status : Nat) (message : String)
  | raised
  deriving DecidableEq

variable (netlocOk : PyStr → Bool)

/-- `_connect`: `late` says that the deadline of the request is over. -/
def connect (late : Bool) (host : PyStr) (port : Nat) : Answer :=
  if late then .error 502 "upstream failed" else .connect host port

def doConnect (allow : List PyStr) (late : Bool) (path : PyStr) : Answer :=
  match urlsplit netlocOk (py "//" ++ path) with
  | none => .denied (py "invalid destination")
  | some target =>
    let host := hostname target
    match port target with
    | none => .denied (py "invalid destination")
    | some port =>
      let port := port.getD 443
      if host = [] ∨ ¬(1 ≤ port ∧ port ≤ 65535) ∨ target.hasUser ∨ target.path ≠ [] ∨
          target.query ≠ [] ∨ target.fragment ≠ [] then .denied (py "invalid destination")
      else if ¬(authority host port ∈ allow ∨ (port = 443 ∧ host ∈ allow)) then
        .denied (authority host port)
      else connect late host port

/-- What `_forward` reads of a request: `body` is what arrives of it, `none` where reading fails. -/
structure Request where
  path : PyStr
  contentLengths : List PyStr := []
  transferEncoding : PyStr := []
  body : Option Nat := some 0
  late : Bool := false

def maxBody : Nat := 1024 * 1024

/-- The checks of a request's framing, with the answer of the first that fails. -/
def framing (req : Request) : Option Answer :=
  if req.transferEncoding ≠ [] ∨ 1 < req.contentLengths.length then
    some (.error 400 "unsupported request framing")
  else
    let rawLength := req.contentLengths.headD (py "0")
    if rawLength = [] ∨ !rawLength.all isDigit then some (.error 400 "invalid content length")
    else
      let length := Broker.Registry.decimal rawLength
      if 10 < rawLength.length ∨ maxBody < length then some (.error 413 "request too large")
      else if length = 0 then none
      else match req.body with
        | none => some .raised
        | some body => if body < length then some (.error 400 "incomplete request body") else none

/-- A character that `http.client` refuses in a host. -/
def controlOrSpace (c : CodePoint) : Bool := c.val ≤ 0x20 || c.val == 0x7F

def upstream (parts : SplitUrl) (late : Bool) : Answer :=
  match port parts with
  | none => .error 502 "upstream failed"
  | some port =>
    if late ∨ (hostname parts).any controlOrSpace then .error 502 "upstream failed"
    else .connect (hostname parts) (if port.getD 0 = 0 then 80 else port.getD 0)

def forward (allow : List PyStr) (req : Request) : Answer :=
  match urlsplit netlocOk req.path with
  | none => .raised
  | some parts =>
    let host := hostname parts
    if host = [] ∨ host ∉ allow then .denied (if host = [] then py "?" else host)
    else match framing req with
      | some answer => answer
      | none =>
        if parts.scheme ≠ py "http" ∨ (userinfo parts).1 ≠ [] ∨ (userinfo parts).2 ≠ [] then
          .error 400 "HTTP absolute URL required"
        else upstream parts req.late

/-! ## The destinations a target names -/

/-- A target of `CONNECT` that names `host` and `port`, which is 443 where it is left out. -/
def Tunnel (path host : PyStr) (p : Nat) : Prop :=
  ∃ target o, urlsplit netlocOk (py "//" ++ path) = some target ∧ port target = some o ∧
    hostname target = host ∧ o.getD 443 = p ∧ host ≠ [] ∧ (1 ≤ p ∧ p ≤ 65535) ∧
    target.hasUser = false ∧ target.path = [] ∧ target.query = [] ∧ target.fragment = []

/-- A well-framed request in time whose target is an absolute `http` URL without credentials that
names `host` and `port`, which is 80 where it is left out. -/
def Absolute (req : Request) (host : PyStr) (p : Nat) : Prop :=
  ∃ parts o, urlsplit netlocOk req.path = some parts ∧ port parts = some o ∧
    hostname parts = host ∧ (if o.getD 0 = 0 then 80 else o.getD 0) = p ∧ host ≠ [] ∧
    framing req = none ∧ parts.scheme = py "http" ∧ userinfo parts = ([], []) ∧
    req.late = false ∧ host.any controlOrSpace = false

/-- What an allowlist says of a tunnel: an explicit entry, or a bare one for the port of HTTPS. -/
def TunnelAllowed (allow : List PyStr) (host : PyStr) (p : Nat) : Prop :=
  authority host p ∈ allow ∨ (p = 443 ∧ host ∈ allow)

variable {netlocOk}

theorem connect_iff {late : Bool} {h host : PyStr} {p q : Nat} :
    connect late h p = .connect host q ↔ late = false ∧ h = host ∧ p = q := by
  cases late
  · simp [connect]
  · simp [connect]

theorem doConnect_iff {allow : List PyStr} {late : Bool} {path host : PyStr} {p : Nat} :
    doConnect netlocOk allow late path = .connect host p ↔
      Tunnel netlocOk path host p ∧ late = false ∧ TunnelAllowed allow host p := by
  rw [doConnect]
  constructor
  · intro h
    split at h
    · cases h
    next target htarget =>
      simp only at h
      split at h
      · cases h
      next o ho =>
        split_ifs at h with hform hallow
        obtain ⟨hlate, rfl, rfl⟩ := connect_iff.1 h
        simp only [not_or, not_not, ne_eq, Bool.not_eq_true] at hform
        obtain ⟨hhost, hport, huser, hpath, hquery, hfragment⟩ := hform
        exact ⟨⟨target, o, htarget, ho, rfl, rfl, hhost, hport, huser, hpath, hquery, hfragment⟩, hlate,
          hallow⟩
  · rintro ⟨⟨target, o, htarget, ho, rfl, rfl, hhost, hport, huser, hpath, hquery, hfragment⟩, rfl, hallow⟩
    have hform : ¬(hostname target = [] ∨ ¬(1 ≤ o.getD 443 ∧ o.getD 443 ≤ 65535) ∨ target.hasUser ∨
        target.path ≠ [] ∨ target.query ≠ [] ∨ target.fragment ≠ []) := by
      simp [hhost, hport, huser, hpath, hquery, hfragment]
    simp only [htarget, ho]
    rw [if_neg hform, if_neg]
    · exact connect_iff.2 ⟨rfl, rfl, rfl⟩
    · exact not_not.2 hallow

theorem upstream_iff {parts : SplitUrl} {late : Bool} {host : PyStr} {p : Nat} :
    upstream parts late = .connect host p ↔ ∃ o, port parts = some o ∧ hostname parts = host ∧
      (if o.getD 0 = 0 then 80 else o.getD 0) = p ∧ late = false ∧ host.any controlOrSpace = false := by
  rw [upstream]
  constructor
  · intro h
    split at h
    · cases h
    next o ho =>
      split_ifs at h with hlate hzero
      · rw [not_or, Bool.not_eq_true, Bool.not_eq_true] at hlate
        obtain ⟨rfl, rfl⟩ := Answer.connect.inj h
        exact ⟨o, ho, rfl, if_pos hzero, hlate⟩
      · rw [not_or, Bool.not_eq_true, Bool.not_eq_true] at hlate
        obtain ⟨rfl, rfl⟩ := Answer.connect.inj h
        exact ⟨o, ho, rfl, if_neg hzero, hlate⟩
  · rintro ⟨o, ho, rfl, rfl, rfl, hchars⟩
    simp [ho, hchars]

/-- No framing error dials. -/
theorem framing_ne_connect {req : Request} {host : PyStr} {p : Nat} :
    framing req ≠ some (.connect host p) := by
  intro h
  simp only [framing] at h
  split_ifs at h
  · simp at h
  · simp at h
  · simp at h
  · split at h
    · simp at h
    · split_ifs at h
      simp at h

theorem forward_iff {allow : List PyStr} {req : Request} {host : PyStr} {p : Nat} :
    forward netlocOk allow req = .connect host p ↔ Absolute netlocOk req host p ∧ host ∈ allow := by
  rw [forward]
  constructor
  · intro h
    split at h
    · cases h
    next parts hparts =>
      simp only at h
      by_cases hknown : hostname parts = [] ∨ hostname parts ∉ allow
      · rw [if_pos hknown] at h
        cases h
      rw [if_neg hknown] at h
      rw [not_or, not_not] at hknown
      split at h
      next answer hframing => exact absurd (h ▸ hframing) framing_ne_connect
      next hframing =>
        split_ifs at h with hform
        obtain ⟨o, ho, rfl, hp, hlate, hchars⟩ := upstream_iff.1 h
        simp only [not_or, not_not, ne_eq] at hform
        exact ⟨⟨parts, o, hparts, ho, rfl, hp, hknown.1, hframing, hform.1,
          Prod.ext hform.2.1 hform.2.2, hlate, hchars⟩, hknown.2⟩
  · rintro ⟨⟨parts, o, hparts, ho, rfl, hp, hhost, hframing, hscheme, huser, hlate, hchars⟩, hallow⟩
    have hknown : ¬(hostname parts = [] ∨ hostname parts ∉ allow) := by simp [hhost, hallow]
    have hform : ¬(parts.scheme ≠ py "http" ∨ (userinfo parts).1 ≠ [] ∨ (userinfo parts).2 ≠ []) := by
      simp [hscheme, huser]
    simp only [hparts]
    rw [if_neg hknown, hframing]
    simp only
    rw [if_neg hform]
    exact upstream_iff.2 ⟨o, ho, rfl, hp, hlate, hchars⟩

/-! ## An explicit entry is one destination -/

/-- A host has no `]`, or it was written without brackets and has no `[` and no `:`. -/
def HostText (host : PyStr) : Prop := ch ']' ∉ host ∨ (ch '[' ∉ host ∧ ch ':' ∉ host)

theorem lowerLatin_eq {c d : CodePoint} (hd : d.val < 0x61) (h : lowerLatin c = d) : c = d := by
  subst h
  rw [lowerLatin] at hd ⊢
  split_ifs at hd ⊢ with hc
  · have hval : (byte (c.val + 0x20)).val = c.val + 0x20 := by
      simp only [byte, Fin.val_ofNat]
      exact Nat.mod_eq_of_lt (by omega)
    omega
  · apply Fin.ext
    rw [lower_val] at hd ⊢
    split_ifs at hd ⊢
    · omega
    · rfl

/-- Lowering brings in no separator. -/
theorem mem_hostname {u : SplitUrl} {d : CodePoint} (hd : d.val < 0x61) (h : d ∈ hostname u) :
    d ∈ (hostinfo u).1 := by
  rw [hostname, List.mem_append] at h
  rcases h with h | h
  · obtain ⟨c, hc, hlower⟩ := List.mem_map.1 h
    rw [lowerLatin_eq hd hlower] at hc
    exact (List.takeWhile_prefix _).subset hc
  · exact (List.dropWhile_suffix _).subset h

theorem hostText (u : SplitUrl) : HostText (hostname u) := by
  have hinfo : HostText (hostinfo u).1 := by
    simp only [hostinfo]
    split_ifs with hbracket
    · exact .inl (not_mem_cut _ _)
    · exact .inr ⟨fun h => hbracket (mem_of_mem_cut (.inl h)), not_mem_cut _ _⟩
  rcases hinfo with hclose | ⟨hopen, hcolon⟩
  · exact .inl fun h => hclose (mem_hostname (by decide) h)
  · exact .inr ⟨fun h => hopen (mem_hostname (by decide) h), fun h => hcolon (mem_hostname (by decide) h)⟩

theorem not_mem_repr {c : CodePoint} (hc : isDigit c = false) (p : Nat) : c ∉ py p.repr := by
  intro h
  rw [(Toml.repr_digits p).1 c h] at hc
  cases hc

theorem repr_inj {p p' : Nat} (h : py p.repr = py p'.repr) : p = p' :=
  Int.ofNat.inj (Toml.repr_injective (m := p) (n := p') h)

/-- A bracketed authority is not one without brackets. -/
theorem bracketed_ne {h h' : PyStr} (hh' : HostText h') (hcolon : ch ':' ∉ h') (p p' : Nat) :
    ch '[' :: h ++ ch ']' :: ch ':' :: py p.repr ≠ h' ++ ch ':' :: py p'.repr := by
  intro heq
  have hclose : ch ']' ∈ h' := by
    have hmem : ch ']' ∈ h' ++ ch ':' :: py p'.repr := heq ▸ by simp
    rcases List.mem_append.1 hmem with hmem | hmem
    · exact hmem
    · rcases List.mem_cons.1 hmem with hmem | hmem
      · exact absurd hmem (by decide)
      · exact absurd hmem (not_mem_repr (by decide) p')
  rcases hh' with hnot | ⟨hopen, -⟩
  · exact hnot hclose
  · cases h' with
    | nil => simp at hclose
    | cons c h' =>
      have hhead : ch '[' = c := (List.cons.inj heq).1
      exact hopen (hhead ▸ List.mem_cons_self)

theorem authority_injective {h h' : PyStr} {p p' : Nat} (hh : HostText h) (hh' : HostText h')
    (heq : authority h p = authority h' p') : h = h' ∧ p = p' := by
  rw [authority, authority] at heq
  split_ifs at heq with hcolon hcolon' hcolon'
  · have hclose : ch ']' ∉ h := hh.resolve_right fun hopen => hopen.2 hcolon
    have hclose' : ch ']' ∉ h' := hh'.resolve_right fun hopen => hopen.2 hcolon'
    rw [List.cons_append, List.cons_append] at heq
    have hrest := congrArg (cut (ch ']')) (List.cons.inj heq).2
    rw [cut_append hclose, cut_append hclose'] at hrest
    have hport := (List.cons.inj (congrArg Prod.snd hrest)).2
    exact ⟨congrArg Prod.fst hrest, repr_inj hport⟩
  · exact absurd heq (bracketed_ne hh' hcolon' p p')
  · exact absurd heq.symm (bracketed_ne hh hcolon p' p)
  · have hrest := congrArg (cut (ch ':')) heq
    rw [cut_append hcolon, cut_append hcolon'] at hrest
    exact ⟨congrArg Prod.fst hrest, repr_inj (congrArg Prod.snd hrest)⟩

theorem Tunnel.hostText {path host : PyStr} {p : Nat} (h : Tunnel netlocOk path host p) : HostText host := by
  obtain ⟨target, o, -, -, rfl, -⟩ := h
  exact EgressProxy.hostText target

/-! ## The policy -/

/-- `CONNECT` reaches what an explicit entry names, and port 443 of a bare one; an explicit entry
names one destination. A plain request is checked by its host alone. -/
theorem destination_policy (netlocOk : PyStr → Bool) (allow : List PyStr) :
    (∀ late path host p, doConnect netlocOk allow late path = .connect host p ↔
      Tunnel netlocOk path host p ∧ late = false ∧ TunnelAllowed allow host p) ∧
    (∀ path path' host host' p p', Tunnel netlocOk path host p → Tunnel netlocOk path' host' p' →
      authority host p = authority host' p' → host = host' ∧ p = p') ∧
    ∀ req host p, forward netlocOk allow req = .connect host p ↔
      Absolute netlocOk req host p ∧ host ∈ allow := by
  refine ⟨fun _ _ _ _ => doConnect_iff, ?_, fun _ _ _ => forward_iff⟩
  intro path path' host host' p p' h h' heq
  exact authority_injective h.hostText h'.hostText heq

/-- A bare entry opens every port of its host to plain requests, and an explicit one none of them. -/
theorem destination_policy_plain_port :
    let ok := fun _ => true
    let target := py "http://h.example:8080/"
    forward ok [py "h.example"] { path := target } = .connect (py "h.example") 8080 ∧
    ¬(authority (py "h.example") 8080 ∈ [py "h.example"] ∨ (8080 = 80 ∧ py "h.example" ∈ [py "h.example"])) ∧
    forward ok [py "h.example:8080"] { path := target } = .denied (py "h.example") ∧
    doConnect ok [py "h.example:8080"] false (py "H.Example:8080") = .connect (py "h.example") 8080 := by
  decide +kernel

end Toolstack.Toolyard.EgressProxy
