import Toolstack.Json.Reader

/-! `sps/wire.py`: one JSON value per line, read from a file or straight from a socket. -/

namespace Toolstack.Sps.Wire

open Json (Limits)
open Url (ch)

abbrev Bytes := List UInt8

def maxBodyBytes : Nat := 1048576

def readlineLimit : Nat := maxBodyBytes + 1

/-- `OversizedBodyError`, any other `ValueError`, `RecursionError` and `TimeoutError`. -/
inductive ReadError
  | oversized
  | invalid
  | recursion
  | timeout
  deriving DecidableEq, Repr

def newline : UInt8 := 0x0A

/-! ## Text -/

def continues (b : UInt8) : Bool := 0x80 ≤ b && b < 0xC0

/-- The lead and second byte of a form of three bytes: neither overlong nor a surrogate. -/
def leadsThree (a b : UInt8) : Bool :=
  0xE0 ≤ a && a < 0xF0 && continues b && (a ≠ 0xE0 || 0xA0 ≤ b) && (a ≠ 0xED || b < 0xA0)

def leadsFour (a b : UInt8) : Bool :=
  0xF0 ≤ a && a < 0xF5 && continues b && (a ≠ 0xF0 || 0x90 ≤ b) && (a ≠ 0xF4 || b < 0x90)

def low (b : UInt8) : Nat := b.toNat % 0x40

/-- `raw.decode("utf-8")`. -/
def decode : Bytes → Option PyStr
  | [] => some []
  | a :: s =>
    if a < 0x80 then (decode s).map (Fin.ofNat _ a.toNat :: ·)
    else
      match s with
      | [] => none
      | b :: s =>
        if 0xC2 ≤ a && a < 0xE0 && continues b then
          (decode s).map (Fin.ofNat _ (a.toNat % 0x20 * 0x40 + low b) :: ·)
        else
          match s with
          | [] => none
          | c :: s =>
            if leadsThree a b && continues c then
              (decode s).map (Fin.ofNat _ ((a.toNat % 0x10 * 0x40 + low b) * 0x40 + low c) :: ·)
            else
              match s with
              | [] => none
              | d :: s =>
                if leadsFour a b && continues c && continues d then
                  (decode s).map
                    (Fin.ofNat _ (((a.toNat % 8 * 0x40 + low b) * 0x40 + low c) * 0x40 + low d) :: ·)
                else none

/-- `text.encode("utf-8")` of text without surrogates. -/
def encode (text : Text) : Bytes := text.flatMap String.utf8EncodeChar

/-! ## Readers and writer -/

/-- `infile.readline(limit)`. -/
def readline : Nat → Bytes → Bytes
  | 0, _ | _, [] => []
  | n + 1, b :: s => if b = newline then [b] else b :: readline n s

/-- What `bytes.strip` takes away. -/
def isSpace (b : UInt8) : Bool := b = 0x20 || (0x09 ≤ b && b ≤ 0x0D)

def loads (L : Limits) (text : PyStr) : Except ReadError Json :=
  match Json.loads L text with
  | .ok v => .ok v
  | .error .recursion => .error .recursion
  | .error .invalid => .error .invalid

def readOneJson (L : Limits) (infile : Bytes) : Except ReadError Json :=
  let raw := readline readlineLimit infile
  if raw = [] then .ok (.obj [])
  else if maxBodyBytes < raw.length then .error .oversized
  else if raw.getLast? ≠ some newline then .error .invalid
  else if raw.all isSpace then .ok (.obj [])
  else
    match decode raw with
    | none => .error .invalid
    | some text => loads L text

/-- `sock.recv(n)`: what has arrived of one packet, or nothing at the end. -/
def recv (n : Nat) : List Bytes → Bytes × List Bytes
  | [] => ([], [])
  | [] :: packets => recv n packets
  | packet :: packets =>
    if packet.length ≤ n then (packet, packets) else (packet.take n, packet.drop n :: packets)

/-- `time.monotonic()` at the head of each turn, and when the turn's `recv` has something. -/
structure Clock where
  now : Nat → Int
  arrival : Nat → Int

/-- What is left is in time. -/
def Clock.Timely (clock : Clock) (deadline : Int) : Prop :=
  ∀ turn, clock.now turn < deadline ∧ clock.arrival turn ≤ deadline

theorem recv_flatten (n : Nat) (packets : List Bytes) :
    (recv n packets).1 ++ (recv n packets).2.flatten = packets.flatten := by
  fun_induction recv n packets with
  | case1 => rfl
  | case2 packets ih => exact ih
  | case3 packet packets hne hle => rfl
  | case4 packet packets hne hgt =>
    rw [List.flatten_cons, ← List.append_assoc, List.take_append_drop]
    rfl

/-- The loop of `read_socket_json`. -/
def receive (clock : Clock) (deadline : Int) (turn : Nat) (raw : Bytes) (packets : List Bytes) :
    Except ReadError Bytes :=
  if _hcap : raw.length ≤ maxBodyBytes then
    if deadline - clock.now turn ≤ 0 then .error .timeout
    else if deadline < clock.arrival turn then .error .timeout
    else
      let got := recv (min 65536 (readlineLimit - raw.length)) packets
      if _hend : got.1 = [] then .ok raw
      else
        let line := got.1.takeWhile (· ≠ newline)
        if _hline : newline ∈ got.1 then .ok (raw ++ line ++ [newline])
        else receive clock deadline (turn + 1) (raw ++ line) got.2
  else .ok raw
termination_by readlineLimit - raw.length
decreasing_by
  have hall : got.1.takeWhile (· ≠ newline) = got.1 := by
    rw [List.takeWhile_eq_self_iff]
    intro b hb
    exact decide_eq_true fun he => _hline (he ▸ hb)
  have hpos : 0 < got.1.length := List.length_pos_iff.2 _hend
  rw [hall, List.length_append]
  unfold readlineLimit
  omega

def readSocketJson (L : Limits) (clock : Clock) (timeout : Int) (packets : List Bytes) : Except ReadError Json := do
  let raw ← receive clock (clock.now 0 + timeout) 1 [] packets
  if maxBodyBytes < raw.length then .error .oversized else readOneJson L raw

/-- What `write_one_json` writes to a binary file. -/
def writeOneJson (L : Limits) (v : Json) : Except ReadError Bytes :=
  match Json.dumpsWithin L v with
  | .ok text => .ok (encode (text ++ ['\n']))
  | .error .recursion => .error .recursion
  | .error .invalid => .error .invalid

/-! ## What the readers take -/

section Lines
variable {n : Nat} {line s : Bytes}

theorem readline_append (h : newline ∉ line) (hn : line.length ≤ n) :
    readline n (line ++ s) = line ++ readline (n - line.length) s := by
  induction line generalizing n with
  | nil => rfl
  | cons b line ih =>
    obtain ⟨n, rfl⟩ : ∃ m, n = m + 1 := ⟨n - 1, by simp at hn; omega⟩
    rw [List.mem_cons, not_or] at h
    rw [List.length_cons] at hn ⊢
    rw [List.cons_append, readline, if_neg (Ne.symm h.1), ih h.2 (by omega), Nat.add_sub_add_right]
    rfl

theorem readline_line (h : newline ∉ line) (hn : line.length < n) :
    readline n (line ++ newline :: s) = line ++ [newline] := by
  obtain ⟨m, hm⟩ : ∃ m, n - line.length = m + 1 := ⟨n - line.length - 1, by omega⟩
  rw [readline_append h (Nat.le_of_lt hn), hm, readline, if_pos rfl]

theorem readline_idem (n : Nat) (s : Bytes) : readline n (readline n s) = readline n s := by
  fun_induction readline n s with
  | case1 => rfl
  | case2 n => cases n <;> rfl
  | case3 n s => rfl
  | case4 n b s hb ih => rw [readline, if_neg hb, ih]

theorem length_readline_le (n : Nat) (s : Bytes) : (readline n s).length ≤ n := by
  fun_induction readline n s <;> simp_all

theorem readline_eq_nil (hn : 0 < n) : readline n s = [] ↔ s = [] := by
  obtain ⟨n, rfl⟩ : ∃ m, n = m + 1 := ⟨n - 1, by omega⟩
  cases s with
  | nil => simp [readline]
  | cons b s =>
    rw [readline]
    split_ifs <;> simp

/-- A stream is a line with its end, or has no line end at all. -/
theorem line_cases (s : Bytes) : newline ∉ s ∨ ∃ line rest, newline ∉ line ∧ s = line ++ newline :: rest := by
  by_cases h : newline ∈ s
  · obtain ⟨line, rest, hs, hline⟩ := List.eq_append_cons_of_mem h
    exact .inr ⟨line, rest, hline, hs⟩
  · exact .inl h

end Lines

section Socket
variable {clock : Clock} {deadline : Int}

theorem length_recv_le (n : Nat) (packets : List Bytes) : (recv n packets).1.length ≤ n := by
  fun_induction recv n packets with
  | case1 => exact Nat.zero_le n
  | case2 packets ih => exact ih
  | case3 packet packets hne hle => exact hle
  | case4 packet packets hne hgt =>
    rw [List.length_take]
    exact Nat.min_le_left _ _

theorem recv_eq_nil {n : Nat} (hn : 0 < n) {packets : List Bytes} (h : (recv n packets).1 = []) :
    packets.flatten = [] := by
  fun_induction recv n packets with
  | case1 => rfl
  | case2 packets ih => exact ih h
  | case3 packet packets hne hle => exact absurd h hne
  | case4 packet packets hne hgt =>
    have hlength := congrArg List.length h
    rw [List.length_take, List.length_nil] at hlength
    omega

/-- The loop takes what `readline` takes of the whole stream, however it is divided, or runs late. -/
theorem receive_eq (turn : Nat) (raw : Bytes) (packets : List Bytes) (hraw : raw.length ≤ readlineLimit) :
    receive clock deadline turn raw packets =
        .ok (raw ++ readline (readlineLimit - raw.length) packets.flatten) ∨
      receive clock deadline turn raw packets = .error .timeout ∧ ¬clock.Timely deadline := by
  fun_induction receive clock deadline turn raw packets with
  | case1 turn raw packets hcap hlate => exact .inr ⟨rfl, fun htimely => by have := (htimely turn).1; omega⟩
  | case2 turn raw packets hcap hlate harrival =>
    exact .inr ⟨rfl, fun htimely => by have := (htimely turn).2; omega⟩
  | case3 turn raw packets hcap _ _ got hend =>
    have hnil : packets.flatten = [] := by
      refine recv_eq_nil ?_ hend
      unfold readlineLimit
      omega
    have hnone : readline (readlineLimit - raw.length) [] = [] := by
      cases readlineLimit - raw.length <;> rfl
    rw [hnil, hnone, List.append_nil]
    exact .inl rfl
  | case4 turn raw packets hcap _ _ got hend line hline =>
    obtain ⟨before, rest, hgot, hbefore⟩ := List.eq_append_cons_of_mem hline
    have htake : line = before := by
      have hall : ∀ b ∈ before, decide (b ≠ newline) = true := fun b hb =>
        decide_eq_true fun he => hbefore (he ▸ hb)
      show got.1.takeWhile _ = before
      rw [hgot, List.takeWhile_append_of_pos hall]
      simp
    have hlength := length_recv_le (min 65536 (readlineLimit - raw.length)) packets
    have hstream := recv_flatten (min 65536 (readlineLimit - raw.length)) packets
    have hgot' : (recv (min 65536 (readlineLimit - raw.length)) packets).1 = before ++ newline :: rest := hgot
    rw [hgot', List.length_append, List.length_cons] at hlength
    rw [hgot', List.append_assoc, List.cons_append] at hstream
    rw [← hstream, readline_line hbefore (by omega), htake, List.append_assoc]
    exact .inl rfl
  | case5 turn raw packets hcap _ _ got hend line hline ih =>
    have htake : line = got.1 := by
      show got.1.takeWhile _ = got.1
      rw [List.takeWhile_eq_self_iff]
      exact fun b hb => decide_eq_true fun he => hline (he ▸ hb)
    have hlength : got.1.length ≤ min 65536 (readlineLimit - raw.length) := length_recv_le _ packets
    have hstream : got.1 ++ got.2.flatten = packets.flatten := recv_flatten _ packets
    have hsum : (raw ++ got.1).length = raw.length + got.1.length := List.length_append
    rw [htake] at ih ⊢
    rw [← hstream, readline_append hline (by omega), ← List.append_assoc, Nat.sub_sub, ← hsum]
    exact ih (by omega)
  | case6 turn raw packets hcap =>
    have hzero : readlineLimit - raw.length = 0 := by
      unfold readlineLimit at hraw ⊢
      omega
    rw [hzero, readline, List.append_nil]
    exact .inl rfl

theorem readOneJson_eq (L : Limits) (infile : Bytes) :
    readOneJson L (readline readlineLimit infile) = readOneJson L infile := by
  unfold readOneJson
  rw [readline_idem]

theorem readOneJson_oversized {L : Limits} {infile : Bytes}
    (h : maxBodyBytes < (readline readlineLimit infile).length) : readOneJson L infile = .error .oversized := by
  have hne : readline readlineLimit infile ≠ [] := fun he => by
    rw [he] at h
    exact Nat.not_lt_zero _ h
  unfold readOneJson
  simp only [if_neg hne, if_pos h]

/-- The socket's reader is the file's, or it runs late. -/
theorem readSocketJson_eq (L : Limits) (clock : Clock) (timeout : Int) (packets : List Bytes) :
    readSocketJson L clock timeout packets = readOneJson L packets.flatten ∨
      readSocketJson L clock timeout packets = .error .timeout ∧ ¬clock.Timely (clock.now 0 + timeout) := by
  unfold readSocketJson
  rcases @receive_eq clock (clock.now 0 + timeout) 1 [] packets (Nat.zero_le _) with hok | ⟨hlate, htimely⟩
  · rw [hok]
    simp only [List.nil_append, List.length_nil, Nat.sub_zero, bind, Except.bind]
    split_ifs with hover
    · exact .inl (readOneJson_oversized hover).symm
    · exact .inl (readOneJson_eq L packets.flatten)
  · rw [hlate]
    exact .inr ⟨rfl, htimely⟩

end Socket

/-! ## What is written is read -/

theorem decode_encode {text : Text} (h : ∀ c ∈ text, c.toNat < 0x80) : decode (encode text) = some (Json.code text) := by
  induction text with
  | nil => rfl
  | cons c text ih =>
    have hc : c.toNat < 0x80 := h c List.mem_cons_self
    have hone : String.utf8EncodeChar c = [UInt8.ofNat c.toNat] := if_pos (Nat.le_of_lt_succ hc)
    have hval : (UInt8.ofNat c.toNat).toNat = c.toNat := by
      rw [UInt8.toNat_ofNat']
      exact Nat.mod_eq_of_lt (by omega)
    have hlt : UInt8.ofNat c.toNat < 0x80 := by
      rw [UInt8.lt_iff_toNat_lt, hval]
      exact hc
    have hrest := ih fun d hd => h d (List.mem_cons_of_mem _ hd)
    have hcons : encode (c :: text) = UInt8.ofNat c.toNat :: encode text := by
      rw [encode, List.flatMap_cons, hone]
      rfl
    rw [hcons, decode.eq_def]
    simp only [if_pos hlt, hrest, Option.map_some, hval]
    rfl

theorem encode_eq_map {text : Text} (h : ∀ c ∈ text, c.toNat < 0x80) :
    encode text = text.map fun c => UInt8.ofNat c.toNat := by
  induction text with
  | nil => rfl
  | cons c text ih =>
    have hone : String.utf8EncodeChar c = [UInt8.ofNat c.toNat] := if_pos (Nat.le_of_lt_succ (h c List.mem_cons_self))
    rw [encode, List.flatMap_cons, hone, List.map_cons, ← ih fun d hd => h d (List.mem_cons_of_mem _ hd)]
    rfl

/-- The bytes of a written object: one line that is no white space, and stands for the object. -/
theorem payload_cases {L : Limits} {kvs : List (PyStr × Json)} {payload : Bytes}
    (h : writeOneJson L (.obj kvs) = .ok payload) : ∃ text line, Json.dumpsWithin L (.obj kvs) = .ok text ∧
      payload = line ++ [newline] ∧ newline ∉ line ∧ payload.all isSpace = false ∧
      decode payload = some (Json.code text ++ [ch '\n']) := by
  unfold writeOneJson at h
  cases hdumps : Json.dumpsWithin L (.obj kvs) with
  | error e =>
    rw [hdumps] at h
    cases e <;> cases h
  | ok text =>
    rw [hdumps] at h
    obtain rfl := Except.ok.inj h
    obtain rfl : Json.dumps .plain (.obj kvs) = text := by
      unfold Json.dumpsWithin at hdumps
      split_ifs at hdumps
      exact Except.ok.inj hdumps
    have hprintable : ∀ c ∈ Json.dumps .plain (.obj kvs), 0x20 ≤ c.toNat ∧ c.toNat < 0x7F := fun c hc => by
      simpa [Json.printable] using List.all_eq_true.1 (Json.printable_dumps (.obj kvs)) c hc
    have hascii : ∀ c ∈ Json.dumps .plain (.obj kvs), c.toNat < 0x80 := fun c hc => by
      have := (hprintable c hc).2
      omega
    have hline : encode (Json.dumps .plain (.obj kvs) ++ ['\n']) =
        encode (Json.dumps .plain (.obj kvs)) ++ [newline] := by
      rw [encode, List.flatMap_append]
      rfl
    have hall : ∀ c ∈ Json.dumps .plain (.obj kvs) ++ ['\n'], c.toNat < 0x80 := by
      intro c hc
      rcases List.mem_append.1 hc with hc | hc
      · exact hascii c hc
      · rw [List.mem_singleton.1 hc]
        decide
    refine ⟨_, _, rfl, hline, ?_, ?_, ?_⟩
    · rw [encode_eq_map hascii]
      intro hmem
      obtain ⟨c, hc, heq⟩ := List.mem_map.1 hmem
      have hval := congrArg UInt8.toNat heq
      rw [UInt8.toNat_ofNat', Nat.mod_eq_of_lt (by have := hascii c hc; omega)] at hval
      have hnewline : newline.toNat = 0x0A := rfl
      have := (hprintable c hc).1
      omega
    · obtain ⟨inner, hinner⟩ : ∃ inner, Json.dumps .plain (.obj kvs) = '{' :: inner := by
        rw [Json.dumps]
        exact ⟨_, rfl⟩
      rw [hinner, encode, List.cons_append, List.flatMap_cons, List.all_append]
      rfl
    · rw [decode_encode hall, Json.code_append]
      rfl

/-- A line that is too long, or has no end. -/
def Unframed (stream : Bytes) : Prop :=
  (∃ line rest, stream = line ++ newline :: rest ∧ newline ∉ line ∧ maxBodyBytes < line.length + 1) ∨
    (stream ≠ [] ∧ newline ∉ stream)

theorem readline_long {n : Nat} {line s : Bytes} (h : newline ∉ line) (hn : n ≤ line.length) :
    readline n (line ++ s) = line.take n := by
  have hsplit : line ++ s = line.take n ++ (line.drop n ++ s) := by rw [← List.append_assoc, List.take_append_drop]
  have htake : (line.take n).length = n := List.length_take_of_le hn
  have hzero : readline (n - (line.take n).length) (line.drop n ++ s) = [] := by
    rw [htake, Nat.sub_self]
    rfl
  rw [hsplit, readline_append (fun hmem => h (List.mem_of_mem_take hmem)) (Nat.le_of_eq htake), hzero, List.append_nil]

theorem readOneJson_unframed (L : Limits) {stream : Bytes} (h : Unframed stream) :
    ∃ e, readOneJson L stream = .error e := by
  rcases h with ⟨line, rest, rfl, hline, hlong⟩ | ⟨hne, hnone⟩
  · refine ⟨_, readOneJson_oversized ?_⟩
    by_cases hexact : line.length < readlineLimit
    · rw [readline_line hline hexact, List.length_append]
      exact hlong
    · rw [readline_long hline (Nat.not_lt.1 hexact), List.length_take_of_le (Nat.not_lt.1 hexact)]
      exact Nat.lt_succ_self _
  · by_cases hshort : readlineLimit ≤ stream.length
    · have hread := readline_long (s := []) hnone hshort
      rw [List.append_nil] at hread
      refine ⟨_, readOneJson_oversized ?_⟩
      rw [hread, List.length_take_of_le hshort]
      exact Nat.lt_succ_self _
    · have hread := readline_append (s := []) hnone (Nat.le_of_not_le hshort)
      have hnil : readline (readlineLimit - stream.length) [] = [] := by
        cases readlineLimit - stream.length <;> rfl
      rw [List.append_nil, hnil, List.append_nil] at hread
      have hlast : stream.getLast? ≠ some newline := fun hlast => hnone (List.mem_of_getLast? hlast)
      have hcap : ¬maxBodyBytes < stream.length := by
        unfold readlineLimit at hshort
        omega
      refine ⟨.invalid, ?_⟩
      unfold readOneJson
      simp only [hread, if_neg hne, if_neg hcap, if_pos hlast]

theorem readOneJson_payload {L : Limits} {kvs : List (PyStr × Json)} {payload : Bytes}
    (hkvs : Json.Loadable L (.obj kvs)) (h : writeOneJson L (.obj kvs) = .ok payload)
    (hcap : payload.length ≤ maxBodyBytes) : readOneJson L payload = .ok (.obj kvs) := by
  obtain ⟨text, line, hdumps, hpayload, hline, hspace, hdecode⟩ := payload_cases h
  have hlength : line.length < readlineLimit := by
    rw [hpayload, List.length_append] at hcap
    exact Nat.lt_of_lt_of_le (Nat.lt_succ_self _) (Nat.le_succ_of_le hcap)
  have hread : readline readlineLimit payload = payload := by
    rw [hpayload]
    exact readline_line hline hlength
  have hne : payload ≠ [] := by simp [hpayload]
  have hlast : ¬payload.getLast? ≠ some newline := by simp [hpayload]
  have hloads : loads L (Json.code text ++ [ch '\n']) = .ok (.obj kvs) := by
    have hwhitespace : ([ch '\n'] : PyStr).all Json.isWhitespace = true := by decide
    rw [loads, Json.loads_dumps hkvs hdumps hwhitespace]
  unfold readOneJson
  simp only [hread, if_neg hne, if_neg (Nat.not_lt.2 hcap), if_neg hlast, hspace, Bool.false_eq_true, if_false, hdecode]
  exact hloads

/-- Every division of a stream into packets that are in time reads as the whole does; what was
written within the cap is read back; and a stream without a whole line within the cap is refused. -/
theorem framing (L : Limits) :
    (∀ kvs payload, Json.Loadable L (.obj kvs) → writeOneJson L (.obj kvs) = .ok payload →
      payload.length ≤ maxBodyBytes → readOneJson L payload = .ok (.obj kvs) ∧
        ∀ (clock : Clock) timeout packets, clock.Timely (clock.now 0 + timeout) → packets.flatten = payload →
          readSocketJson L clock timeout packets = .ok (.obj kvs)) ∧
    (∀ (clock : Clock) timeout packets, clock.Timely (clock.now 0 + timeout) →
      readSocketJson L clock timeout packets = readOneJson L packets.flatten) ∧
    (∀ stream, Unframed stream → (∃ e, readOneJson L stream = .error e) ∧
      ∀ (clock : Clock) timeout packets, packets.flatten = stream →
        ∃ e, readSocketJson L clock timeout packets = .error e) := by
  have hsame : ∀ (clock : Clock) timeout packets, clock.Timely (clock.now 0 + timeout) →
      readSocketJson L clock timeout packets = readOneJson L packets.flatten := fun clock timeout packets htimely =>
    (readSocketJson_eq L clock timeout packets).resolve_right fun hlate => hlate.2 htimely
  refine ⟨fun kvs payload hkvs h hcap => ?_, hsame, fun stream hstream => ?_⟩
  · have hread := readOneJson_payload hkvs h hcap
    refine ⟨hread, fun clock timeout packets htimely hpackets => ?_⟩
    rw [hsame clock timeout packets htimely, hpackets, hread]
  · have hrefused := readOneJson_unframed L hstream
    refine ⟨hrefused, fun clock timeout packets hpackets => ?_⟩
    rcases readSocketJson_eq L clock timeout packets with hread | ⟨hlate, -⟩
    · rw [hread, hpackets]
      exact hrefused
    · exact ⟨_, hlate⟩

namespace Sample

def limits : Limits := ⟨1000, 4300, fun _ => .nan⟩

def ping : List (PyStr × Json) := [(py "op", .str (py "ping"))]

end Sample

/-- A request in two packets. -/
theorem framing_ping : ∃ payload, writeOneJson Sample.limits (.obj Sample.ping) = .ok payload ∧
    readSocketJson Sample.limits ⟨fun _ => 0, fun _ => 0⟩ 1 [payload.take 5, payload.drop 5] = .ok (.obj Sample.ping) := by
  obtain ⟨payload, hpayload, hlength⟩ : ∃ payload, writeOneJson Sample.limits (.obj Sample.ping) = .ok payload ∧
      payload.length = 15 := ⟨_, rfl, rfl⟩
  have hloadable : Json.Loadable Sample.limits (.obj Sample.ping) := ⟨by decide, by decide, rfl, trivial⟩
  have hcap : payload.length ≤ maxBodyBytes := by
    rw [hlength]
    decide
  refine ⟨payload, hpayload, ((framing Sample.limits).1 _ _ hloadable hpayload hcap).2 _ _ _ ?_ ?_⟩
  · exact fun _ => ⟨by simp, by simp⟩
  · simp

end Toolstack.Sps.Wire
