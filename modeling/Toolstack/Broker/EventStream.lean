import Mathlib.Data.List.DropRight
import Toolstack.Broker.Bounds
import Toolstack.Incremental
import Toolstack.Json.Value

/-! `_read_sse`: the events of a stream are read as its chunks arrive, up to the response that is
awaited. -/

namespace Toolstack.Broker.EventStream

open Bounds Incremental

def lf : UInt8 := 0x0A

def cr : UInt8 := 0x0D

/-- `b"data:"`. -/
def dataMark : Bytes := [0x64, 0x61, 0x74, 0x61, 0x3A]

def isSpace (b : UInt8) : Bool := b = 0x20 || (0x09 ≤ b && b ≤ 0x0D)

/-- What `json.loads` makes of bytes: a value, a `ValueError` or `UnicodeError`, or a
`RecursionError` for what is nested too deep. -/
inductive Loaded
  | value (v : Json)
  | invalid
  | tooDeep

inductive AwaitedId
  | int (n : Int)
  | str (s : PyStr)

inductive Exn
  | recursionError
  | noMatchingResponse
  | bounds (ending : Ending)

/-- `type(msg.get("id")) is type(msg_id) and msg.get("id") == msg_id`. -/
def sameId : AwaitedId → Option Json → Bool
  | .int n, some (.int m) => m = n
  | .str s, some (.str t) => t = s
  | _, _ => false

/-- A JSON-RPC 2.0 response to the awaited id. -/
def responds (msgId : AwaitedId) : Json → Bool
  | .obj kvs =>
    (match Json.find? kvs (py "jsonrpc") with
      | some (.str version) => version = py "2.0"
      | _ => false) &&
    sameId msgId (Json.find? kvs (py "id")) &&
    ((Json.find? kvs (py "result")).isSome || (Json.find? kvs (py "error")).isSome)
  | _ => false

section
variable (loads : Bytes → Loaded) (msgId : AwaitedId)

/-- An empty line closes the event whose data was collected. -/
def closeEvent (data : List Bytes) : Progress (List Bytes) (Except Exn Json) :=
  if data = [] then .more []
  else
    match loads ([lf].intercalate data) with
    | .tooDeep => .done (.error .recursionError)
    | .invalid => .more []
    | .value msg => if responds msgId msg then .done (.ok msg) else .more []

/-- One line without its line end. -/
def takeLine (data : List Bytes) (line : Bytes) : Progress (List Bytes) (Except Exn Json) :=
  if dataMark.isPrefixOf line then .more (data ++ [(line.drop 5).dropWhile isSpace])
  else if line = [] then closeEvent loads msgId data
  else .more data

/-- `_read_sse` over the chunks of a response. -/
def readSse (response : Reading) : Except Exn Json :=
  match feed lf (fun data line => takeLine loads msgId data (line.rdropWhile (· = cr)))
    response.chunks ([], []) with
  | .done result => result
  | .more _ => if response.ending = .complete then .error .noMatchingResponse else .error (.bounds response.ending)

end

/-! ## What a stream says -/

/-- A line without the first byte of a CRLF. -/
def stripCr (line : Bytes) : Bytes := if line.getLast? = some cr then line.dropLast else line

/-- Every CR belongs to a CRLF, one at the end of the stream apart. -/
def LineEnds (stream : Bytes) : Prop :=
  ∀ before after, stream = before ++ cr :: after → after = [] ∨ ∃ rest, after = lf :: rest

/-- The events that an empty line closes, as their lines. -/
def events (stream : Bytes) : List (List Bytes) := records [] ((records lf stream).map stripCr)

def eventData (event : List Bytes) : List Bytes :=
  event.filterMap fun line => if dataMark.isPrefixOf line then some ((line.drop 5).dropWhile isSpace) else none

section
variable (loads : Bytes → Loaded) (msgId : AwaitedId)

/-- What `json.loads` makes of an event that has data. -/
def decoded (event : List Bytes) : Option Loaded :=
  if eventData event = [] then none else some (loads ([lf].intercalate (eventData event)))

/-- The response that an event carries. -/
def answer (event : List Bytes) : Option Json :=
  match decoded loads event with
  | some (.value msg) => if responds msgId msg then some msg else none
  | _ => none

/-- The message of the first event that answers, or some failure where none does. -/
def Meets (stream : Bytes) (result : Except Exn Json) : Prop :=
  match (events stream).findSome? (answer loads msgId) with
  | some msg => result = .ok msg
  | none => ∃ e, result = .error e

end

/-! ## Lines -/

section
variable {stream line : Bytes}

theorem rdropWhile_cr (h : cr ∉ line) : line.rdropWhile (· = cr) = line := by
  rw [List.rdropWhile_eq_self_iff]
  intro hne hlast
  exact h (of_decide_eq_true hlast ▸ List.getLast_mem hne)

/-- Where every CR belongs to a CRLF, a line holds none but for its last byte. -/
theorem cr_last (h : LineEnds stream) (hline : line ∈ records lf stream) {before after : Bytes}
    (heq : line = before ++ cr :: after) : after = [] := by
  obtain ⟨start, rest, rfl, hnot⟩ := mem_records hline
  have hcr := h (start ++ before) (after ++ lf :: rest) (by simp [heq])
  rcases hcr with hnil | ⟨tail, htail⟩
  · simp at hnil
  · cases after with
    | nil => rfl
    | cons b after =>
      obtain ⟨rfl, -⟩ := List.cons.inj htail
      exact absurd (by simp [heq]) hnot

theorem strip_line (h : LineEnds stream) (hline : line ∈ records lf stream) :
    line.rdropWhile (· = cr) = stripCr line := by
  by_cases hcr : cr ∈ line
  · obtain ⟨before, after, rfl, hbefore⟩ := List.eq_append_cons_of_mem hcr
    obtain rfl := cr_last h hline rfl
    rw [List.rdropWhile_concat_pos _ _ _ (by simp), rdropWhile_cr hbefore, stripCr]
    simp
  · have hlast : line.getLast? ≠ some cr := fun hlast => hcr (List.mem_of_getLast? hlast)
    rw [rdropWhile_cr hcr, stripCr, if_neg hlast]

end

/-! ## Events -/

section
variable {loads : Bytes → Loaded} {msgId : AwaitedId}

theorem isPrefixOf_dataMark_nil : dataMark.isPrefixOf [] = false := rfl

theorem scan_map {σ ρ : Type} {step : σ → Bytes → Progress σ ρ} (f : Bytes → Bytes) (lines : List Bytes) (s : σ) :
    scan (fun s line => step s (f line)) lines s = scan step (lines.map f) s := by
  induction lines generalizing s with
  | nil => rfl
  | cons line lines ih => exact congrArg _ (funext ih)

theorem eventData_cons (line : Bytes) (lines : List Bytes) : eventData (line :: lines) =
    (if dataMark.isPrefixOf line then [(line.drop 5).dropWhile isSpace] else []) ++ eventData lines := by
  rw [eventData, List.filterMap_cons]
  cases dataMark.isPrefixOf line <;> rfl

/-- Lines that close no event add their data. -/
theorem scan_event (lines : List Bytes) (data : List Bytes) (h : [] ∉ lines) :
    scan (takeLine loads msgId) lines data = .more (data ++ eventData lines) := by
  induction lines generalizing data with
  | nil =>
    rw [eventData, List.filterMap_nil, List.append_nil]
    rfl
  | cons line lines ih =>
    have hline : line ≠ [] := fun he => h (he ▸ List.mem_cons_self ..)
    have htail : [] ∉ lines := fun hmem => h (List.mem_cons_of_mem _ hmem)
    rw [scan, takeLine, eventData_cons]
    split_ifs
    · rw [Progress.andThen, ih _ htail, List.append_assoc]
    · rw [Progress.andThen, ih _ htail, List.nil_append]

theorem closeEvent_cases (data : List Bytes) :
    closeEvent loads msgId data = .more [] ∨ ∃ result, closeEvent loads msgId data = .done result := by
  rw [closeEvent]
  split_ifs
  · exact .inl rfl
  · split
    · exact .inr ⟨_, rfl⟩
    · exact .inl rfl
    · split_ifs
      · exact .inr ⟨_, rfl⟩
      · exact .inl rfl

/-- The reader goes from one event to the next. -/
theorem scan_lines (lines : List Bytes) : ∃ data, scan (takeLine loads msgId) lines [] =
    (scan (fun _ event => closeEvent loads msgId (eventData event)) (records [] lines) []).andThen
      fun _ => .more data := by
  induction hn : lines.length using Nat.strongRecOn generalizing lines with
  | _ n ih =>
    cases hcut : cut [] lines with
    | none =>
      rw [records_none hcut, scan_event lines [] (cut_eq_none.1 hcut)]
      exact ⟨eventData lines, rfl⟩
    | some halves =>
      obtain ⟨data, hrest⟩ := ih halves.2.length (hn ▸ cut_length hcut) halves.2 rfl
      obtain ⟨heq, hnot⟩ := cut_eq_some.1 hcut
      refine ⟨data, ?_⟩
      have hfirst : takeLine loads msgId (eventData halves.1) [] = closeEvent loads msgId (eventData halves.1) := rfl
      rw [records_some hcut, heq, scan_append, scan_event _ _ hnot, List.nil_append, Progress.andThen, scan, scan,
        hfirst, Progress.andThen_assoc]
      rcases @closeEvent_cases loads msgId (eventData halves.1) with hmore | ⟨result, hdone⟩
      · rw [hmore]
        exact hrest
      · rw [hdone]
        rfl

/-- What an event ends the reading with. -/
def outcome (loads : Bytes → Loaded) (msgId : AwaitedId) (event : List Bytes) : Option (Except Exn Json) :=
  match decoded loads event with
  | some .tooDeep => some (.error .recursionError)
  | _ => (answer loads msgId event).map .ok

theorem closeEvent_eq (event : List Bytes) :
    closeEvent loads msgId (eventData event) = .settle [] (outcome loads msgId event) := by
  by_cases hnil : eventData event = []
  · simp [closeEvent, outcome, answer, decoded, hnil, Progress.settle]
  · cases hloads : loads ([lf].intercalate (eventData event)) with
    | tooDeep | invalid => simp [closeEvent, outcome, answer, decoded, hnil, hloads, Progress.settle]
    | value msg =>
      cases hresponds : responds msgId msg with
      | true | false => simp [closeEvent, outcome, answer, decoded, hnil, hloads, hresponds, Progress.settle]

theorem scan_events (events : List (List Bytes)) :
    scan (fun _ event => closeEvent loads msgId (eventData event)) events [] =
      .settle [] (events.findSome? (outcome loads msgId)) := by
  induction events with
  | nil => rfl
  | cons event events ih =>
    rw [scan, closeEvent_eq, List.findSome?_cons]
    cases outcome loads msgId event with
    | some result => rfl
    | none => exact ih

/-- The reading comes to what the first event that ends it says, however the stream is divided. -/
theorem readSse_eq {stream : Bytes} {response : Reading} (h : LineEnds stream)
    (hstream : response.yielded = stream) (hcomplete : response.ending = .complete) :
    readSse loads msgId response =
      ((events stream).findSome? (outcome loads msgId)).getD (.error .noMatchingResponse) := by
  have hlines : (records lf stream).map (List.rdropWhile (· = cr)) = (records lf stream).map stripCr :=
    List.map_congr_left fun line hline => strip_line h hline
  have hscan := @scan_map _ _ (takeLine loads msgId) (List.rdropWhile (· = cr)) (records lf stream) []
  obtain ⟨data, hevents⟩ := @scan_lines loads msgId ((records lf stream).map stripCr)
  rw [readSse, feed_eq_drain _ _ rfl, List.nil_append]
  rw [Reading.yielded] at hstream
  rw [hstream, drain_eq_scan, hscan, hlines, hevents, scan_events, events]
  cases (records [] ((records lf stream).map stripCr)).findSome? (outcome loads msgId) with
  | some result => rfl
  | none => simp [Progress.settle, Progress.andThen, hcomplete]

/-! ## When the stream is read as it should be -/

/-- An event nested too deep comes before the first one that answers. -/
def Hidden (loads : Bytes → Loaded) (msgId : AwaitedId) (stream : Bytes) : Prop :=
  ∃ before deep after, events stream = before ++ deep :: after ∧ decoded loads deep = some .tooDeep ∧
    (∀ event ∈ before, answer loads msgId event = none) ∧ ∃ event ∈ after, (answer loads msgId event).isSome

theorem outcome_of_not_deep {event : List Bytes} (h : decoded loads event ≠ some .tooDeep) :
    outcome loads msgId event = (answer loads msgId event).map .ok := by
  rw [outcome]
  split
  · rename_i hdeep
    exact absurd hdeep h
  · rfl

theorem outcome_of_deep {event : List Bytes} (h : decoded loads event = some .tooDeep) :
    outcome loads msgId event = some (.error .recursionError) := by
  rw [outcome, h]

theorem answer_of_deep {event : List Bytes} (h : decoded loads event = some .tooDeep) :
    answer loads msgId event = none := by
  rw [answer, h]

theorem meets_iff {stream : Bytes} : Meets loads msgId stream
    (((events stream).findSome? (outcome loads msgId)).getD (.error .noMatchingResponse)) ↔
      ¬ Hidden loads msgId stream := by
  have hnone : ∀ event, outcome loads msgId event = none →
      decoded loads event ≠ some .tooDeep ∧ answer loads msgId event = none := by
    intro event h
    have hdeep : decoded loads event ≠ some .tooDeep := by
      intro hdeep
      rw [outcome_of_deep hdeep] at h
      cases h
    rw [outcome_of_not_deep hdeep, Option.map_eq_none_iff] at h
    exact ⟨hdeep, h⟩
  cases hfind : (events stream).findSome? (outcome loads msgId) with
  | none =>
    have hall := fun event hmem => hnone event (List.findSome?_eq_none_iff.1 hfind event hmem)
    have hanswer : (events stream).findSome? (answer loads msgId) = none :=
      List.findSome?_eq_none_iff.2 fun event hmem => (hall event hmem).2
    rw [Meets, hanswer]
    refine iff_of_true ⟨_, rfl⟩ ?_
    rintro ⟨before, deep, after, heq, hdeep, -⟩
    exact (hall deep (by simp [heq])).1 hdeep
  | some result =>
    obtain ⟨before, event, after, heq, hevent, hbefore⟩ := List.findSome?_eq_some_iff.1 hfind
    have hearlier := fun e hmem => hnone e (hbefore e hmem)
    have hanswer : (events stream).findSome? (answer loads msgId) =
        (event :: after).findSome? (answer loads msgId) := by
      rw [heq, List.findSome?_append, List.findSome?_eq_none_iff.2 fun e hmem => (hearlier e hmem).2]
      rfl
    by_cases hdeep : decoded loads event = some .tooDeep
    · -- the exception stands against any answer that follows
      rw [outcome_of_deep hdeep] at hevent
      obtain rfl := Option.some.inj hevent
      rw [Meets, hanswer, List.findSome?_cons, answer_of_deep hdeep]
      cases hafter : after.findSome? (answer loads msgId) with
      | none =>
        refine iff_of_true ⟨_, rfl⟩ ?_
        rintro ⟨before', deep', after', heq', -, hnone', f, hf, hsome⟩
        have hmem : f ∈ before ++ event :: after := by
          rw [← heq, heq']
          exact List.mem_append_right _ (List.mem_cons_of_mem _ hf)
        have hfnone : answer loads msgId f = none := by
          rcases List.mem_append.1 hmem with hmem | hmem
          · exact (hearlier f hmem).2
          · rcases List.mem_cons.1 hmem with rfl | hmem
            · exact answer_of_deep hdeep
            · exact List.findSome?_eq_none_iff.1 hafter f hmem
        rw [hfnone] at hsome
        cases hsome
      | some msg =>
        obtain ⟨pre, f, post, rfl, hf, -⟩ := List.findSome?_eq_some_iff.1 hafter
        refine iff_of_false nofun (not_not.2 ⟨before, event, pre ++ f :: post, heq, hdeep, ?_, f, ?_, ?_⟩)
        · exact fun e hmem => (hearlier e hmem).2
        · exact List.mem_append_right _ (List.mem_cons_self ..)
        · rw [hf]
          rfl
    · rw [outcome_of_not_deep hdeep] at hevent
      obtain ⟨msg, hmsg, rfl⟩ := Option.map_eq_some_iff.1 hevent
      rw [Meets, hanswer, List.findSome?_cons, hmsg]
      refine iff_of_true rfl ?_
      rintro ⟨before', deep', after', heq', hdeep', hnone', -⟩
      -- nothing up to the deep event answers, so it comes before the first answer
      rcases List.append_eq_append_iff.1 (heq.symm.trans heq') with ⟨middle, rfl, hmiddle⟩ | ⟨middle, rfl, hmiddle⟩
      · cases middle with
        | nil =>
          obtain ⟨rfl, -⟩ := List.cons.inj hmiddle
          exact hdeep hdeep'
        | cons e middle =>
          obtain ⟨rfl, -⟩ := List.cons.inj hmiddle
          have hans := hnone' event (List.mem_append_right _ (List.mem_cons_self ..))
          rw [hmsg] at hans
          cases hans
      · cases middle with
        | nil =>
          obtain ⟨rfl, -⟩ := List.cons.inj hmiddle
          exact hdeep hdeep'
        | cons e middle =>
          obtain ⟨rfl, -⟩ := List.cons.inj hmiddle
          exact (hearlier _ (List.mem_append_right _ (List.mem_cons_self ..))).1 hdeep'

/-- A stream that fits the budget is read alike in all its divisions; it is read as its events say
exactly where nothing too deep for `json.loads` comes before the answer. -/
theorem event_stream_iff (loads : Bytes → Loaded) (msgId : AwaitedId) {stream : Bytes} (hends : LineEnds stream) :
    (∀ (size : Nat) turns, stream.length ≤ size → stream.length < turns.length →
      (∀ turn ∈ turns, ∃ n, turn = .arrives n) → (chunks turns size stream).ending = .complete ∧
        (chunks turns size stream).yielded = stream) ∧
    ∀ response : Reading, response.yielded = stream → response.ending = .complete →
      (∀ other : Reading, other.yielded = stream → other.ending = .complete →
        readSse loads msgId other = readSse loads msgId response) ∧
      (Meets loads msgId stream (readSse loads msgId response) ↔ ¬ Hidden loads msgId stream) := by
  constructor
  · exact fun size turns hfits henough harrives => chunks_whole hfits henough harrives
  · intro response hstream hcomplete
    refine ⟨fun other hother hothers => ?_, ?_⟩
    · rw [readSse_eq hends hother hothers, readSse_eq hends hstream hcomplete]
    · rw [readSse_eq hends hstream hcomplete]
      exact meets_iff

end

/-! ## A deep event before the answer -/

namespace Sample

/-- An event that opens `n` arrays, and then a response. -/
def deep (n : Nat) : Bytes := List.replicate n 0x5B

def reply : Bytes := "\x7b\"jsonrpc\":\"2.0\",\"id\":2,\"result\":1\x7d".toList.map fun c => UInt8.ofNat c.toNat

def message : Json :=
  .obj [(py "jsonrpc", .str (py "2.0")), (py "id", .int 2), (py "result", .int 1)]

/-- `json.loads` on the two texts of the stream. -/
def loads (n : Nat) (text : Bytes) : Loaded :=
  if text = deep n then .tooDeep else if text = reply then .value message else .invalid

def stream (n : Nat) : Bytes :=
  (dataMark ++ deep n) ++ lf :: ([] ++ lf :: ((dataMark ++ reply) ++ lf :: ([] ++ lf :: [])))

theorem events_two {a b : Bytes} (ha : lf ∉ a ∧ cr ∉ a ∧ a ≠ []) (hb : lf ∉ b ∧ cr ∉ b ∧ b ≠ []) :
    events (a ++ lf :: ([] ++ lf :: (b ++ lf :: ([] ++ lf :: [])))) = [[a], [b]] := by
  have hstrip : ∀ line : Bytes, cr ∉ line → stripCr line = line :=
    fun line h => if_neg fun hlast => h (List.mem_of_getLast? hlast)
  have hlines : records lf (a ++ lf :: ([] ++ lf :: (b ++ lf :: ([] ++ lf :: [])))) = [a, [], b, []] := by
    rw [records_some (cut_eq_some.2 ⟨rfl, ha.1⟩), records_some (cut_eq_some.2 ⟨rfl, List.not_mem_nil⟩),
      records_some (cut_eq_some.2 ⟨rfl, hb.1⟩), records_some (cut_eq_some.2 ⟨rfl, List.not_mem_nil⟩)]
    rfl
  have hevents : records [] ([a] ++ [] :: ([b] ++ [] :: [])) = [[a], [b]] := by
    rw [records_some (cut_eq_some.2 ⟨rfl, by simpa using ha.2.2.symm⟩),
      records_some (cut_eq_some.2 ⟨rfl, by simpa using hb.2.2.symm⟩)]
    rfl
  rw [events, hlines]
  simp only [List.map_cons, List.map_nil, hstrip a ha.2.1, hstrip b hb.2.1, hstrip [] List.not_mem_nil]
  exact hevents

theorem mem_deep {n : Nat} {b : UInt8} (h : b ∈ dataMark ++ deep n) : b ≠ lf ∧ b ≠ cr := by
  have hmark : dataMark.all (fun b => b ≠ lf ∧ b ≠ cr) = true := by decide
  rcases List.mem_append.1 h with hmem | hmem
  · simpa using List.all_eq_true.1 hmark b hmem
  · obtain rfl := (List.mem_replicate.1 hmem).2
    decide

theorem mem_reply {b : UInt8} (h : b ∈ dataMark ++ reply) : b ≠ lf ∧ b ≠ cr := by
  have hall : (dataMark ++ reply).all (fun b => b ≠ lf ∧ b ≠ cr) = true := by decide
  simpa using List.all_eq_true.1 hall b h

theorem lineEnds (n : Nat) : LineEnds (stream n) := by
  intro before after heq
  have hcr : cr ∈ stream n := by simp [heq]
  have hne : cr ≠ lf := by decide
  simp only [stream, List.nil_append] at hcr
  rcases List.mem_append.1 hcr with hmem | hmem
  · exact absurd rfl (mem_deep hmem).2
  · simp only [List.mem_cons, hne, false_or] at hmem
    rcases List.mem_append.1 hmem with hmem | hmem
    · exact absurd rfl (mem_reply hmem).2
    · simp [hne] at hmem

theorem events_stream (n : Nat) : events (stream n) = [[dataMark ++ deep n], [dataMark ++ reply]] :=
  events_two ⟨fun h => (mem_deep h).1 rfl, fun h => (mem_deep h).2 rfl, by simp [dataMark]⟩
    ⟨fun h => (mem_reply h).1 rfl, fun h => (mem_reply h).2 rfl, by simp [dataMark]⟩

theorem eventData_line (text : Bytes) (h : text.dropWhile isSpace = text) : eventData [dataMark ++ text] = [text] := by
  have hmark : dataMark.isPrefixOf (dataMark ++ text) = true := List.isPrefixOf_iff_prefix.2 (List.prefix_append ..)
  have hdrop : (dataMark ++ text).drop 5 = text := @List.drop_left _ dataMark text
  rw [eventData_cons, if_pos hmark, hdrop, h]
  rfl

theorem decoded_deep (n : Nat) : decoded (loads (n + 1)) [dataMark ++ deep (n + 1)] = some .tooDeep := by
  rw [decoded, eventData_line _ rfl]
  simp [loads, List.intercalate]

theorem answer_reply (n : Nat) : answer (loads (n + 1)) (.int 2) [dataMark ++ reply] = some message := by
  have hne : reply ≠ deep (n + 1) := fun h => absurd (List.cons.inj h).1 (by decide)
  have hresponds : responds (.int 2) message = true := by decide
  rw [answer, decoded, eventData_line _ (by decide)]
  simp [loads, List.intercalate, hne, hresponds]

end Sample

namespace Sample

theorem hidden (n : Nat) : Hidden (loads (n + 1)) (.int 2) (stream (n + 1)) := by
  refine ⟨[], _, _, events_stream _, decoded_deep n, fun e he => absurd he List.not_mem_nil, _,
    List.mem_singleton_self _, ?_⟩
  rw [answer_reply n]
  rfl

end Sample

open Sample in
theorem event_stream_iff_sample :
    ¬ Meets (loads 3) (.int 2) (stream 3) (readSse (loads 3) (.int 2) ⟨[stream 3], .complete, 0⟩) :=
  fun h => ((event_stream_iff (loads 3) (.int 2) (lineEnds 3)).2 _ (List.append_nil _) rfl).2.1 h (hidden 2)

open Sample in
/-- A million brackets, and then the response that is awaited. -/
theorem event_stream_deep : LineEnds (stream 1000000) ∧
    ¬ Meets (loads 1000000) (.int 2) (stream 1000000)
      (readSse (loads 1000000) (.int 2) ⟨[stream 1000000], .complete, 0⟩) := by
  refine ⟨lineEnds _, ?_⟩
  rw [readSse_eq (lineEnds _) (List.append_nil _) rfl, meets_iff, not_not]
  exact hidden 999999

end Toolstack.Broker.EventStream
