import Toolstack.Fallible
import Toolstack.Sps.AuditLog

/-! Rotation drops the oldest lines and no others, and keeps the files in number and size. -/

namespace Toolstack.Sps.AuditLog

open Interleave (Prog answering)
open Interleave.Prog (raise Sat)
open Rotation (Slots history)
open Wire (Bytes newline)

/-! ## Lines -/

def IsLine (line : Bytes) : Prop := ∃ body, newline ∉ body ∧ line = body ++ [newline]

/-- A file of whole lines. -/
def Whole (file : Bytes) : Prop := ∃ ls : List Bytes, (∀ line ∈ ls, IsLine line) ∧ file = ls.flatten

theorem lines_cons {body : Bytes} (h : newline ∉ body) (rest : Bytes) :
    lines (body ++ newline :: rest) = (body ++ [newline]) :: lines rest := by
  induction body with
  | nil => rw [List.nil_append, lines, if_pos rfl, List.nil_append]
  | cons b body ih =>
    rw [List.mem_cons, not_or] at h
    rw [List.cons_append, lines, if_neg (Ne.symm h.1), ih h.2]
    rfl

theorem lines_flatten {ls : List Bytes} (h : ∀ line ∈ ls, IsLine line) : lines ls.flatten = ls := by
  induction ls with
  | nil => rfl
  | cons line ls ih =>
    obtain ⟨body, hbody, rfl⟩ := h line List.mem_cons_self
    rw [List.flatten_cons, List.append_assoc, List.singleton_append, lines_cons hbody,
      ih fun l hl => h l (List.mem_cons_of_mem _ hl)]

theorem lines_flatMap {files : List Bytes} (h : ∀ file ∈ files, Whole file) :
    lines files.flatten = files.flatMap lines ∧ ∃ ls : List Bytes, (∀ line ∈ ls, IsLine line) ∧ files.flatten = ls.flatten := by
  induction files with
  | nil => exact ⟨rfl, [], by simp, rfl⟩
  | cons file files ih =>
    obtain ⟨ls, hls, rfl⟩ := h _ List.mem_cons_self
    obtain ⟨hrest, ls', hls', hflat⟩ := ih fun f hf => h f (List.mem_cons_of_mem _ hf)
    have hall : ∀ line ∈ ls ++ ls', IsLine line := fun line hline =>
      (List.mem_append.1 hline).elim (hls line) (hls' line)
    have hsplit : (ls.flatten :: files).flatten = (ls ++ ls').flatten := by
      rw [List.flatten_cons, hflat, List.flatten_append]
    refine ⟨?_, ls ++ ls', hall, hsplit⟩
    rw [hsplit, lines_flatten hall, List.flatMap_cons, lines_flatten hls, ← hrest, hflat, lines_flatten hls']

theorem Whole.append {file file' : Bytes} (h : Whole file) (h' : Whole file') : Whole (file ++ file') := by
  obtain ⟨ls, hls, rfl⟩ := h
  obtain ⟨ls', hls', rfl⟩ := h'
  refine ⟨ls ++ ls', fun line hline => ?_, List.flatten_append.symm⟩
  exact (List.mem_append.1 hline).elim (hls line) (hls' line)

theorem Whole.nil : Whole [] := ⟨[], by simp, rfl⟩

theorem IsLine.whole {line : Bytes} (h : IsLine line) : Whole line :=
  ⟨[line], fun l hl => List.mem_singleton.1 hl ▸ h, by simp⟩

theorem isLine_encodeRecord (rec : List (PyStr × Json)) : IsLine (encodeRecord rec) := by
  have hprintable : ∀ c ∈ Json.dumps .plain (.obj rec), 0x20 ≤ c.toNat ∧ c.toNat < 0x7F := fun c hc => by
    simpa [Json.printable] using List.all_eq_true.1 (Json.printable_dumps (.obj rec)) c hc
  refine ⟨Wire.encode (Json.dumps .plain (.obj rec)), ?_, ?_⟩
  · rw [Wire.encode_eq_map fun c hc => by have := (hprintable c hc).2; omega]
    intro hmem
    obtain ⟨c, hc, heq⟩ := List.mem_map.1 hmem
    have hval := congrArg UInt8.toNat heq
    have hrange := hprintable c hc
    have hnewline : newline.toNat = 0x0A := rfl
    rw [UInt8.toNat_ofNat', Nat.mod_eq_of_lt (by omega)] at hval
    omega
  · rw [encodeRecord, Wire.encode, List.flatMap_append]
    rfl

theorem isLine_payload {e : Event} {payload : Bytes} (h : e.payload = .ok payload) : IsLine payload := by
  unfold Event.payload at h
  rw [Fallible.bind_ok] at h
  obtain ⟨rec, -, h⟩ := h
  rw [← Except.ok.inj h]
  exact isLine_encodeRecord rec

/-! ## What every call keeps -/

theorem World.write_zero (w : World) (bytes : Bytes) : (w.write bytes).files 0 = some (w.current ++ bytes) := by
  show Function.update w.files 0 (some (w.current ++ bytes)) 0 = _
  exact Function.update_self ..

theorem World.write_of_ne (w : World) (bytes : Bytes) {i : Nat} (hi : i ≠ 0) : (w.write bytes).files i = w.files i := by
  show Function.update w.files 0 (some (w.current ++ bytes)) i = _
  exact Function.update_of_ne hi ..

/-- The recorded lines are those that were replaced and those in the files; only the last generation
was ever replaced. -/
structure Kept (logger : AuditLogger) (recorded : List Bytes) (w : World) : Prop where
  content : recorded.flatten = (w.replaced.flatMap Prod.snd) ++ history w.files (logger.generations + 1)
  lines : ∀ line ∈ recorded, IsLine line
  whole : ∀ i file, w.files i = some file → Whole file
  gone : ∀ r ∈ w.replaced, Whole r.2 ∧ r.1 = logger.generations
  bounded : ∀ i file, w.files i = some file → file.length ≤ logger.maxBytes
  beyond : ∀ i, logger.generations < i → w.files i = none

namespace Kept
variable {logger : AuditLogger} {recorded : List Bytes} {w : World}

theorem empty (logger : AuditLogger) : Kept logger [] {} where
  content := by
    have hnone : ∀ n, history (fun _ => none : Slots UInt8) n = [] := by
      intro n
      induction n with
      | zero => rfl
      | succ n ih =>
        rw [history, ih]
        rfl
    rw [hnone]
    rfl
  lines := by simp
  whole := by simp
  gone := by simp
  bounded := by simp
  beyond := by simp

theorem current (h : Kept logger recorded w) : Whole w.current := by
  unfold World.current
  cases hfile : w.files 0 with
  | none => exact .nil
  | some file => exact h.whole 0 file hfile

/-- A line is recorded in a log that has room for it. -/
theorem write (h : Kept logger recorded w) {tail : List Bytes} (htail : ∀ line ∈ tail, IsLine line)
    (hroom : (w.current ++ tail.flatten).length ≤ logger.maxBytes) :
    Kept logger (recorded ++ tail) (w.write tail.flatten) where
  content := by
    rw [World.write, World.current, Rotation.history_append, List.flatten_append, h.content, List.append_assoc]
  lines := fun line hline => (List.mem_append.1 hline).elim (h.lines line) (htail line)
  whole := by
    intro i file hfile
    by_cases hi : i = 0
    · rw [hi, World.write_zero] at hfile
      rw [← Option.some.inj hfile]
      exact h.current.append ⟨tail, htail, rfl⟩
    · rw [World.write_of_ne _ _ hi] at hfile
      exact h.whole i file hfile
  gone := h.gone
  bounded := by
    intro i file hfile
    by_cases hi : i = 0
    · rw [hi, World.write_zero] at hfile
      rw [← Option.some.inj hfile]
      exact hroom
    · rw [World.write_of_ne _ _ hi] at hfile
      exact h.bounded i file hfile
  beyond := by
    intro i hi
    rw [World.write_of_ne _ _ (Nat.ne_zero_of_lt hi)]
    exact h.beyond i hi

/-- A file moves to a vacant place, or takes the place of the last generation. -/
theorem rename (h : Kept logger recorded w) {i : Nat} (hi : i + 1 ≤ logger.generations)
    (hfree : i + 1 = logger.generations ∨ w.files (i + 1) = none) : Kept logger recorded (w.rename i) where
  content := by
    rw [h.content]
    by_cases hlast : i + 1 = logger.generations
    · have hout : ((w.files (i + 1)).toList.map (i + 1, ·)).flatMap Prod.snd = (w.files (i + 1)).getD [] := by
        cases w.files (i + 1) <;> simp
      rw [World.rename, List.flatMap_append, hout, ← hlast, Rotation.history_move_last, List.append_assoc]
    · have hvacant := hfree.resolve_left hlast
      have hmove := Rotation.history_move (n := logger.generations + 1) (Nat.succ_le_succ hi) hvacant
      rw [World.rename, hvacant, hmove]
      simp
  lines := h.lines
  whole := by
    intro j file hfile
    obtain ⟨k, hk⟩ := Rotation.move_eq_some hfile
    exact h.whole k file hk
  gone := by
    intro r hr
    rcases List.mem_append.1 hr with hr | hr
    · exact h.gone r hr
    · obtain ⟨file, hfile, rfl⟩ := List.mem_map.1 hr
      have hsome : w.files (i + 1) = some file := Option.mem_toList.1 hfile
      refine ⟨h.whole (i + 1) file hsome, hfree.resolve_right ?_⟩
      rw [hsome]
      exact Option.some_ne_none file
  bounded := by
    intro j file hfile
    obtain ⟨k, hk⟩ := Rotation.move_eq_some hfile
    exact h.bounded k file hk
  beyond := by
    intro j hj
    show Rotation.move w.files i j = none
    rw [Rotation.move_of_ne (by omega) (by omega)]
    exact h.beyond j hj

end Kept

/-! ## Programs -/

/-- A world with what becomes of the next calls. -/
abbrev State := World × (Nat → Option Nat)

/-- A write that fails has written nothing. -/
def Atomic (faults : Nat → Option Nat) : Prop := ∀ n k, faults n = some k → k = 0

structure Going (logger : AuditLogger) (recorded : List Bytes) (s : State) : Prop where
  kept : Kept logger recorded s.1
  atomic : Atomic s.2

section Steps
variable {logger : AuditLogger} {recorded : List Bytes} {P : State → Prop}

theorem sat_ask {o : Op} {Q : o.Answer → State → Prop} {E : Exn → State → Prop}
    (h : ∀ s, P s → match (World.exec o (s.2 0) s.1).1 with
      | .ok a => Q a (answering World.exec o s).2
      | .error () => E .osError (answering World.exec o s).2) : Sat (answering World.exec) P (ask o) Q E := by
  intro s hs
  have hanswer := h s hs
  unfold ask
  rw [Prog.run_perform_bind]
  change match (World.exec o (s.2 0) s.1).1 with
    | .ok a => Q a (answering World.exec o s).2
    | .error () => E .osError (answering World.exec o s).2 at hanswer
  cases hr : (World.exec o (s.2 0) s.1).1 with
  | ok a =>
    rw [hr] at hanswer
    simp only [answering, hr] at hanswer ⊢
    exact hanswer
  | error u =>
    rw [hr] at hanswer
    simp only [answering, hr] at hanswer ⊢
    exact hanswer

/-- A call that only looks. -/
def Op.Looks : Op → Prop
  | .validate _ | .size | .pathExists _ | .close => True
  | .openPrivate | .replace _ | .append _ => False

theorem exec_looks {o : Op} (ho : o.Looks) (fault : Option Nat) (w : World) : (World.exec o fault w).2 = w := by
  cases o with
  | validate index => cases fault <;> rfl
  | size => cases fault <;> rfl
  | pathExists index => cases fault <;> rfl
  | close => cases fault <;> rfl
  | openPrivate | replace index | append payload => cases ho

theorem Atomic.tail {faults : Nat → Option Nat} (h : Atomic faults) : Atomic fun n => faults (n + 1) :=
  fun n k hk => h (n + 1) k hk

variable (logger recorded) in
/-- A call that looks keeps what is known, and its answer may be used. -/
theorem sat_looks {o : Op} (ho : o.Looks) {R : World → Prop} {Q : o.Answer → World → Prop}
    (hQ : ∀ w fault a, R w → (World.exec o fault w).1 = .ok a → Q a w) :
    Sat (answering World.exec) (fun s => Going logger recorded s ∧ R s.1) (ask o)
      (fun a s => Going logger recorded s ∧ R s.1 ∧ Q a s.1) fun _ s => Going logger recorded s := by
  refine sat_ask fun s hs => ?_
  obtain ⟨hgoing, hR⟩ := hs
  have hnext : (answering World.exec o s).2 = (s.1, fun n => s.2 (n + 1)) := by
    rw [answering, exec_looks ho]
  have hkept : Going logger recorded (s.1, fun n => s.2 (n + 1)) := ⟨hgoing.kept, hgoing.atomic.tail⟩
  cases hr : (World.exec o (s.2 0) s.1).1 with
  | ok a =>
    simp only [hnext]
    exact ⟨hkept, hR, hQ s.1 (s.2 0) a hR hr⟩
  | error u =>
    simp only [hnext]
    exact hkept

/-- The place after file `i` is free, or it is the last generation's. -/
def Free (logger : AuditLogger) (i : Nat) (w : World) : Prop := i + 1 = logger.generations ∨ w.files (i + 1) = none

def Room (logger : AuditLogger) (length : Nat) (w : World) : Prop := w.current.length + length ≤ logger.maxBytes

theorem sat_replace {i : Nat} (hi : i + 1 ≤ logger.generations) :
    Sat (answering World.exec) (fun s => Going logger recorded s ∧ Free logger i s.1) (ask (.replace i))
      (fun _ s => Going logger recorded s ∧ s.1.files i = none) fun _ s => Going logger recorded s := by
  refine sat_ask fun s hs => ?_
  obtain ⟨hgoing, hfree⟩ := hs
  simp only [answering]
  cases hfault : s.2 0 with
  | some n => exact ⟨hgoing.kept, hgoing.atomic.tail⟩
  | none =>
    simp only [World.exec]
    by_cases hthere : (s.1.files i).isSome
    · simp only [if_pos hthere]
      exact ⟨⟨hgoing.kept.rename hi hfree, hgoing.atomic.tail⟩, Rotation.move_source ..⟩
    · simp only [if_neg hthere]
      exact ⟨hgoing.kept, hgoing.atomic.tail⟩

variable (logger recorded) in
theorem sat_open {R : World → Prop} (hR : ∀ w, R w → R (w.write [])) :
    Sat (answering World.exec) (fun s => Going logger recorded s ∧ R s.1) (ask .openPrivate)
      (fun _ s => Going logger recorded s ∧ R s.1) fun _ s => Going logger recorded s := by
  refine sat_ask fun s hs => ?_
  obtain ⟨hgoing, hs⟩ := hs
  simp only [answering]
  cases hfault : s.2 0 with
  | some n => exact ⟨hgoing.kept, hgoing.atomic.tail⟩
  | none =>
    have hroom : (s.1.current ++ ([] : List Bytes).flatten).length ≤ logger.maxBytes := by
      rw [List.flatten_nil, List.append_nil]
      unfold World.current
      cases hfile : s.1.files 0 with
      | none => exact Nat.zero_le _
      | some file => exact hgoing.kept.bounded 0 file hfile
    have hkept := hgoing.kept.write (by simp) hroom
    rw [List.append_nil] at hkept
    exact ⟨⟨hkept, hgoing.atomic.tail⟩, hR s.1 hs⟩

theorem sat_append {payload : Bytes} (hline : IsLine payload) :
    Sat (answering World.exec) (fun s => Going logger recorded s ∧ Room logger payload.length s.1) (ask (.append payload))
      (fun _ s => Going logger (recorded ++ [payload]) s) fun _ s => Going logger recorded s := by
  refine sat_ask fun s hs => ?_
  obtain ⟨hgoing, hroom⟩ := hs
  have hflat : [payload].flatten = payload := by simp
  have hwhole : ∀ line ∈ [payload], IsLine line := fun line hl => List.mem_singleton.1 hl ▸ hline
  simp only [answering]
  cases hfault : s.2 0 with
  | some n =>
    obtain rfl := hgoing.atomic 0 n hfault
    have hsame : (s.1.current ++ ([] : List Bytes).flatten).length ≤ logger.maxBytes := by
      rw [List.flatten_nil, List.append_nil]
      exact Nat.le_trans (Nat.le_add_right _ _) hroom
    have hkept := hgoing.kept.write (by simp) hsame
    rw [List.append_nil] at hkept
    exact ⟨hkept, hgoing.atomic.tail⟩
  | none =>
    have hfits : (s.1.current ++ [payload].flatten).length ≤ logger.maxBytes := by
      rw [hflat, List.length_append]
      exact hroom
    have hkept := hgoing.kept.write hwhole hfits
    rw [hflat] at hkept
    exact ⟨hkept, hgoing.atomic.tail⟩

/-! ## The rotation -/

/-- A call that looks, where nothing is made of its answer. -/
theorem sat_keeps {o : Op} (ho : o.Looks) : Sat (answering World.exec) (fun s => Going logger recorded s) (ask o)
    (fun _ s => Going logger recorded s) fun _ s => Going logger recorded s := by
  have hlooks := sat_looks logger recorded ho (R := fun _ => True) (Q := fun _ _ => True)
    fun _ _ _ _ _ => trivial
  exact hlooks.conseq (fun _ hs => ⟨hs, trivial⟩) (fun _ _ hs => hs.1) fun _ _ hs => hs

theorem sat_validateUpTo (n : Nat) : Sat (answering World.exec) (fun s => Going logger recorded s) (validateUpTo n)
    (fun _ s => Going logger recorded s) fun _ s => Going logger recorded s := by
  induction n with
  | zero => exact .ret fun _ hs => hs
  | succ n ih => exact .bind ih fun _ => sat_keeps (o := .validate (n + 1)) trivial

variable (logger recorded) in
/-- Downwards, each place is free when its file moves. -/
theorem sat_shift {n : Nat} (hn : n + 1 ≤ logger.generations) :
    Sat (answering World.exec) (fun s => Going logger recorded s ∧ Free logger n s.1) (shift n)
      (fun _ s => Going logger recorded s ∧ Free logger 0 s.1) fun _ s => Going logger recorded s := by
  induction n with
  | zero => exact .ret fun _ hs => hs
  | succ n ih =>
    have hexists := sat_looks logger recorded (o := .pathExists (n + 1)) trivial
      (R := Free logger (n + 1)) (Q := fun found w => found = (w.files (n + 1)).isSome)
      fun w fault a _ ha => by cases fault <;> exact (Except.ok.inj ha).symm
    refine .bind hexists fun found => ?_
    cases found with
    | true =>
      refine .bind (R := fun _ s => Going logger recorded s ∧ Free logger 0 s.1) (Q := fun _ s =>
        Going logger recorded s ∧ Free logger n s.1) ?_ fun _ => ih (Nat.le_of_succ_le hn)
      exact (sat_replace hn).conseq (fun _ hs => ⟨hs.1, hs.2.1⟩) (fun _ _ hs => ⟨hs.1, .inr hs.2⟩) fun _ _ hs => hs
    | false =>
      refine (ih (Nat.le_of_succ_le hn)).conseq (fun s hs => ⟨hs.1, .inr ?_⟩) (fun _ _ hs => hs) fun _ _ hs => hs
      exact Option.not_isSome_iff_eq_none.1 (by simp [← hs.2.2])

theorem sat_rotate : Sat (answering World.exec) (fun s => Going logger recorded s) (rotate logger.generations)
    (fun _ s => Going logger recorded s ∧ s.1.files 0 = none) fun _ s => Going logger recorded s := by
  have hpositive := logger.positive
  refine .bind (sat_keeps (o := .validate 0) trivial) fun _ => ?_
  refine .bind (sat_validateUpTo logger.generations) fun _ => ?_
  have hshift := sat_shift logger recorded (n := logger.generations - 1) (by omega)
  refine .bind (hshift.conseq (fun s hs => ⟨hs, .inl (by omega)⟩) (fun _ _ hs => hs) fun _ _ hs => hs) fun _ => ?_
  refine .bind (sat_replace hpositive) fun _ => ?_
  have hclose := sat_looks logger recorded (o := .close) trivial
    (R := fun w => w.files 0 = none) (Q := fun _ _ => True) fun _ _ _ _ _ => trivial
  exact hclose.conseq (fun _ hs => hs) (fun _ _ hs => ⟨hs.1, hs.2.1⟩) fun _ _ hs => hs

theorem sat_rotated (length : Nat) : Sat (answering World.exec) (fun s => Going logger recorded s) (rotated logger length)
    (fun done s => Going logger recorded s ∧ if done then s.1.files 0 = none else Room logger length s.1)
    fun _ s => Going logger recorded s := by
  have hsize := sat_looks logger recorded (o := .size) trivial (R := fun _ => True)
    (Q := fun size w => size = w.current.length) fun w fault a _ ha => by
      cases fault with
      | none => exact (Except.ok.inj ha).symm
      | some n => cases ha
  refine .bind (hsize.conseq (fun _ hs => ⟨hs, trivial⟩) (fun _ _ hs => hs) fun _ _ hs => hs) fun size => ?_
  by_cases hfull : logger.maxBytes < size + length
  · rw [if_pos hfull]
    refine .bind (sat_rotate.conseq (fun _ hs => hs.1) (fun _ _ hs => hs) fun _ _ hs => hs) fun _ => ?_
    exact .ret fun _ hs => ⟨hs.1, by simpa using hs.2⟩
  · rw [if_neg hfull]
    refine .ret fun s hs => ⟨hs.1, ?_⟩
    simp only [Bool.false_eq_true, if_false, Room, ← hs.2.2]
    omega

theorem sat_makeRoom {length : Nat} (hlength : length ≤ logger.maxBytes) :
    Sat (answering World.exec) (fun s => Going logger recorded s) (makeRoom logger length)
      (fun _ s => Going logger recorded s ∧ Room logger length s.1) fun _ s => Going logger recorded s := by
  refine .bind (Sat.attempt (sat_rotated length)) fun result => ?_
  cases result with
  | error e => exact .bind (sat_keeps (o := .close) trivial) fun _ => .raise fun _ hs => hs
  | ok done =>
    cases done with
    | false => exact .ret fun _ hs => ⟨hs.1, by simpa using hs.2⟩
    | true =>
      have hopen := sat_open logger recorded (R := fun w => w.current = []) fun w hw => by
        rw [World.current, World.write_zero, Option.getD_some, hw]
        rfl
      refine hopen.conseq (fun s hs => ⟨hs.1, ?_⟩) (fun _ s hs => ⟨hs.1, ?_⟩) fun _ _ hs => hs
      · have hnone : s.1.files 0 = none := by simpa using hs.2
        rw [World.current, hnone]
        rfl
      · rw [Room, hs.2]
        simpa using hlength

variable (logger recorded) in
/-- One call: the line is recorded where the call returns. -/
theorem sat_event {e : Event} {payload : Bytes} (h : e.payload = .ok payload) :
    Sat (answering World.exec) (fun s => Going logger recorded s) (event logger e)
      (fun _ s => Going logger (recorded ++ [payload]) s) fun _ s => Going logger recorded s := by
  unfold event
  simp only [h]
  by_cases hlarge : logger.maxBytes < payload.length
  · rw [if_pos hlarge]
    exact .raise fun _ hs => hs
  · rw [if_neg hlarge]
    refine .bind (sat_keeps (o := .validate 1) trivial) fun _ => ?_
    have hopen := sat_open logger recorded (R := fun _ => True) fun _ _ => trivial
    refine .bind (hopen.conseq (fun _ hs => ⟨hs, trivial⟩) (fun _ _ hs => hs.1) fun _ _ hs => hs) fun _ => ?_
    exact .bind (sat_makeRoom (Nat.not_lt.1 hlarge)) fun _ => sat_append (isLine_payload h)

end Steps

/-- A call that returns has appended its line, whatever else it did. -/
theorem event_appends {logger : AuditLogger} {e : Event} {s : State}
    (h : ((event logger e).run (answering World.exec) s).result = .ok ()) :
    ∃ line, e.payload = .ok line ∧
      ∃ earlier, ((event logger e).run (answering World.exec) s).world.1.files 0 = some (earlier ++ line) := by
  have hany : ∀ {α : Type} (m : Program α), Sat (answering World.exec) (fun _ => True) m (fun _ _ => True) fun _ _ => True :=
    fun m => .of_all (.of_forall (p := fun _ => True) (fun _ => trivial) m) fun _ _ _ _ => trivial
  have hsat : Sat (answering World.exec) (fun _ => True) (event logger e)
      (fun _ s => ∃ line, e.payload = .ok line ∧ ∃ earlier, s.1.files 0 = some (earlier ++ line)) fun _ _ => True := by
    unfold event
    cases hpayload : e.payload with
    | error e => exact .raise fun _ _ => trivial
    | ok payload =>
      simp only
      split_ifs
      · exact .raise fun _ _ => trivial
      · refine .bind (hany _) fun _ => .bind (hany _) fun _ => .bind (hany _) fun _ => sat_ask fun s _ => ?_
        simp only [answering]
        cases s.2 0 with
        | none => exact ⟨payload, rfl, s.1.current, World.write_zero s.1 payload⟩
        | some n => trivial
  exact hsat.returned trivial h

/-! ## Runs -/

section Runs
variable {logger : AuditLogger}

/-- One call keeps what is known of the files. -/
theorem Log.call_kept {log : Log} (h : Kept logger log.recorded log.world) {c : Event × (Nat → Option Nat)}
    (hatomic : Atomic c.2) : Kept logger (log.call logger c).recorded (log.call logger c).world := by
  have hgoing : Going logger log.recorded (log.world, c.2) := ⟨h, hatomic⟩
  unfold Log.call
  cases hpayload : c.1.payload with
  | error e =>
    have hrun : (event logger c.1).run (answering World.exec) (log.world, c.2) = ⟨.error e, (log.world, c.2), []⟩ := by
      unfold event
      rw [hpayload]
      rfl
    simp only [hrun]
    exact h
  | ok payload =>
    have hsat := sat_event logger log.recorded hpayload
    cases hresult : ((event logger c.1).run (answering World.exec) (log.world, c.2)).result with
    | ok u =>
      simp only [hresult]
      exact (hsat.returned hgoing hresult).kept
    | error e =>
      simp only [hresult]
      exact (hsat.raised hgoing hresult).kept

theorem Log.calls_kept {calls : List (Event × (Nat → Option Nat))} (hatomic : ∀ c ∈ calls, Atomic c.2) {log : Log}
    (h : Kept logger log.recorded log.world) :
    Kept logger (calls.foldl (Log.call logger) log).recorded (calls.foldl (Log.call logger) log).world := by
  induction calls generalizing log with
  | nil => exact h
  | cons c calls ih =>
    exact ih (fun c' hc' => hatomic c' (List.mem_cons_of_mem _ hc')) (Log.call_kept h (hatomic c List.mem_cons_self))

theorem read_flatten (w : World) (n : Nat) : (w.read n).flatten = history w.files (n + 1) := by
  have hrange : ∀ n, ((List.range n).reverse.filterMap w.files).flatten = history w.files n := by
    intro n
    induction n with
    | zero => rfl
    | succ n ih =>
      rw [List.range_succ, List.reverse_append, List.reverse_singleton, List.singleton_append, history, ← ih]
      cases hfile : w.files n with
      | none =>
        rw [List.filterMap_cons_none hfile]
        rfl
      | some file =>
        rw [List.filterMap_cons_some hfile]
        rfl
  exact hrange (n + 1)

/-- Whatever is called and whatever fails, the recorded lines are, in order, those of the last generations
that renames took the place of and those in the files, which stay within their size and number. -/
theorem rotation_drops_oldest (logger : AuditLogger) {calls : List (Event × (Nat → Option Nat))}
    (hatomic : ∀ c ∈ calls, Atomic c.2) :
    let log := calls.foldl (Log.call logger) {}
    log.recorded = (log.world.replaced.map Prod.snd).flatMap lines ++ (log.world.read logger.generations).flatMap lines ∧
      (∀ r ∈ log.world.replaced, r.1 = logger.generations) ∧
      (∀ i file, log.world.files i = some file → file.length ≤ logger.maxBytes) ∧
      ∀ i, logger.generations < i → log.world.files i = none := by
  intro log
  have hkept : Kept logger log.recorded log.world := Log.calls_kept hatomic (Kept.empty logger)
  have hgone : ∀ file ∈ log.world.replaced.map Prod.snd, Whole file := by
    intro file hfile
    obtain ⟨r, hr, rfl⟩ := List.mem_map.1 hfile
    exact (hkept.gone r hr).1
  have hread : ∀ file ∈ log.world.read logger.generations, Whole file := by
    intro file hfile
    obtain ⟨i, -, hi⟩ := List.mem_filterMap.1 hfile
    exact hkept.whole i file hi
  have hall : ∀ file ∈ log.world.replaced.map Prod.snd ++ log.world.read logger.generations, Whole file := fun file hfile =>
    (List.mem_append.1 hfile).elim (hgone file) (hread file)
  have hbytes : log.recorded.flatten =
      (log.world.replaced.map Prod.snd ++ log.world.read logger.generations).flatten := by
    rw [hkept.content, List.flatten_append, read_flatten, ← List.flatMap_def]
  refine ⟨?_, fun r hr => (hkept.gone r hr).2, hkept.bounded, hkept.beyond⟩
  rw [← List.flatMap_append, ← (lines_flatMap hall).1, ← hbytes, lines_flatten hkept.lines]

end Runs

namespace Sample

def logger : AuditLogger := ⟨1024, 1, by decide, by decide⟩

/-- A call that succeeds, and one whose first call of the file system fails. -/
def calls : List (Event × (Nat → Option Nat)) :=
  [(⟨0, py "register", py "echo", [], py "ok", none, none, none, none⟩, fun _ => none),
    (⟨1, py "unregister", py "echo", [], py "ok", none, none, none, none⟩, fun n => if n = 0 then some 0 else none)]

theorem calls_atomic : ∀ c ∈ calls, Atomic c.2 := by
  intro c hc n k hk
  rcases List.mem_cons.1 hc with rfl | hc
  · cases hk
  · rw [List.mem_singleton.1 hc] at hk
    change (if n = 0 then some 0 else none) = some k at hk
    split_ifs at hk
    exact (Option.some.inj hk).symm

end Sample

open Sample in
theorem rotation_drops_oldest_sample :
    let log := calls.foldl (Log.call logger) {}
    log.recorded = (log.world.replaced.map Prod.snd).flatMap lines ++ (log.world.read 1).flatMap lines ∧
      (∀ r ∈ log.world.replaced, r.1 = 1) ∧ (∀ i file, log.world.files i = some file → file.length ≤ 1024) ∧
      ∀ i, 1 < i → log.world.files i = none :=
  rotation_drops_oldest logger calls_atomic

end Toolstack.Sps.AuditLog
