import Toolstack.Json.Value

/-! Text with named holes. A pattern finds a hole at the front of a text; the pieces of a text are
its characters and holes in order. A separator that no hole can contain splits the filled text
where it splits the template. -/

namespace Toolstack.Template

/-- What a pattern captures at the front of a text, and how many characters it takes. -/
abbrev Pattern := PyStr → Option (PyStr × Nat)

inductive Piece
  | chr (c : CodePoint)
  | hole (name : PyStr)
  deriving DecidableEq

def scan (p : Pattern) : Nat → PyStr → List Piece
  | _, [] => []
  | n + 1, _ :: s => scan p n s
  | 0, c :: s =>
    match p (c :: s) with
    | some (name, len) => .hole name :: scan p (len - 1) s
    | none => .chr c :: scan p 0 s

/-- The matches of `finditer` and the characters between them. -/
def pieces (p : Pattern) (s : PyStr) : List Piece := scan p 0 s

/-- `findall`. -/
def names : List Piece → List PyStr
  | [] => []
  | .chr _ :: ps => names ps
  | .hole name :: ps => name :: names ps

def fill (f : PyStr → PyStr) : List Piece → PyStr
  | [] => []
  | .chr c :: ps => c :: fill f ps
  | .hole name :: ps => f name ++ fill f ps

/-- `sub(f, s)` for an `f` that may raise or read. -/
def sub {m : Type → Type} [Monad m] (f : PyStr → m PyStr) : List Piece → m PyStr
  | [] => return []
  | .chr c :: ps => do
    let rest ← sub f ps
    return c :: rest
  | .hole name :: ps => do
    let value ← f name
    let rest ← sub f ps
    return value ++ rest

theorem names_append (ps qs : List Piece) : names (ps ++ qs) = names ps ++ names qs := by
  induction ps with
  | nil => rfl
  | cons p ps ih => cases p <;> simp [names, ih]

theorem mem_names {name : PyStr} {ps : List Piece} : name ∈ names ps ↔ .hole name ∈ ps := by
  induction ps with
  | nil => simp [names]
  | cons p ps ih => cases p <;> simp [names, ih]

theorem fill_append (f : PyStr → PyStr) (ps qs : List Piece) :
    fill f (ps ++ qs) = fill f ps ++ fill f qs := by
  induction ps with
  | nil => rfl
  | cons p ps ih => cases p <;> simp [fill, ih]

theorem fill_congr {f g : PyStr → PyStr} {ps : List Piece} (h : ∀ name ∈ names ps, f name = g name) :
    fill f ps = fill g ps := by
  induction ps with
  | nil => rfl
  | cons p ps ih =>
    cases p with
    | chr c => rw [fill, fill, ih h]
    | hole name =>
      rw [fill, fill, h name (List.mem_cons_self ..), ih fun n hn => h n (List.mem_cons_of_mem _ hn)]

/-- A character of the filled text is the template's or a value's. -/
theorem mem_fill {f : PyStr → PyStr} {ps : List Piece} {c : CodePoint} (h : c ∈ fill f ps) :
    .chr c ∈ ps ∨ ∃ name ∈ names ps, c ∈ f name := by
  induction ps with
  | nil => cases h
  | cons p ps ih =>
    cases p with
    | chr c' =>
      rcases List.mem_cons.1 h with rfl | h
      · exact .inl (List.mem_cons_self ..)
      · exact (ih h).imp (List.mem_cons_of_mem _) id
    | hole name =>
      rcases List.mem_append.1 h with h | h
      · exact .inr ⟨name, List.mem_cons_self .., h⟩
      · exact (ih h).imp (List.mem_cons_of_mem _) fun ⟨n, hn, hc⟩ => ⟨n, List.mem_cons_of_mem _ hn, hc⟩

/-- A substitution that succeeded put in what each call returned. -/
theorem sub_ok {ε : Type} {f : PyStr → Except ε PyStr} {ps : List Piece} {out : PyStr}
    (h : sub f ps = .ok out) (g : PyStr → PyStr)
    (hg : ∀ name v, name ∈ names ps → f name = .ok v → g name = v) :
    (∀ name ∈ names ps, f name = .ok (g name)) ∧ out = fill g ps := by
  induction ps generalizing out with
  | nil => exact ⟨by simp [names], by cases h; rfl⟩
  | cons p ps ih =>
    cases p with
    | chr c =>
      cases hrest : sub f ps with
      | error e => rw [sub, hrest] at h; cases h
      | ok rest =>
        rw [sub, hrest] at h
        obtain ⟨hnames, rfl⟩ := ih hrest hg
        cases h
        exact ⟨hnames, rfl⟩
    | hole name =>
      cases hv : f name with
      | error e => rw [sub, hv] at h; cases h
      | ok v =>
        cases hrest : sub f ps with
        | error e => rw [sub, hv, hrest] at h; cases h
        | ok rest =>
          rw [sub, hv, hrest] at h
          obtain ⟨hnames, rfl⟩ := ih hrest fun n w hn => hg n w (List.mem_cons_of_mem _ hn)
          obtain rfl := hg name v (List.mem_cons_self ..) hv
          cases h
          exact ⟨by simpa [names, hv] using hnames, rfl⟩

/-! ## Separators -/

/-- The pattern sees nothing past the separator. -/
structure Pattern.Avoids (p : Pattern) (sep : CodePoint) : Prop where
  stops : ∀ a b, p (a ++ sep :: b) = p a
  empty : p [] = none
  short : ∀ s name len, p s = some (name, len) → len ≤ s.length

theorem scan_append_sep {p : Pattern} {sep : CodePoint} (hp : p.Avoids sep) (b : PyStr) :
    ∀ (a : PyStr) (n : Nat), n ≤ a.length →
      scan p n (a ++ sep :: b) = scan p n a ++ .chr sep :: scan p 0 b
  | [], 0, _ => by
    have hnone : p (sep :: b) = none := (hp.stops [] b).trans hp.empty
    simp [scan, hnone]
  | c :: a, 0, _ => by
    have hstop := hp.stops (c :: a) b
    rw [List.cons_append] at hstop ⊢
    rw [scan, scan, hstop]
    cases hc : p (c :: a) with
    | none => simp [scan_append_sep hp b a 0 (Nat.zero_le _)]
    | some found =>
      obtain ⟨name, len⟩ := found
      have hlen := hp.short _ _ _ hc
      simp only [List.length_cons] at hlen
      simp [scan_append_sep hp b a (len - 1) (by omega)]
  | c :: a, n + 1, h => by
    rw [List.cons_append, scan, scan]
    exact scan_append_sep hp b a n (by simpa using h)

theorem pieces_append_sep {p : Pattern} {sep : CodePoint} (hp : p.Avoids sep) (a b : PyStr) :
    pieces p (a ++ sep :: b) = pieces p a ++ .chr sep :: pieces p b :=
  scan_append_sep hp b a 0 (Nat.zero_le _)

theorem pieces_intercalate {p : Pattern} {sep : CodePoint} (hp : p.Avoids sep) (segs : List PyStr) :
    pieces p ([sep].intercalate segs) = [Piece.chr sep].intercalate (segs.map (pieces p)) := by
  induction segs with
  | nil => rfl
  | cons s segs ih =>
    cases segs with
    | nil => simp
    | cons t segs =>
      rw [List.intercalate_cons_cons, List.append_assoc, List.singleton_append,
        pieces_append_sep hp, ih]
      simp [List.intercalate_cons_cons]

theorem fill_intercalate (f : PyStr → PyStr) (sep : CodePoint) (segs : List (List Piece)) :
    fill f ([Piece.chr sep].intercalate segs) = [sep].intercalate (segs.map (fill f)) := by
  induction segs with
  | nil => rfl
  | cons s segs ih =>
    cases segs with
    | nil => simp
    | cons t segs =>
      rw [List.intercalate_cons_cons, List.append_assoc, fill_append, List.singleton_append, fill, ih]
      simp [List.intercalate_cons_cons]

theorem names_intercalate (sep : CodePoint) (segs : List (List Piece)) :
    names ([Piece.chr sep].intercalate segs) = segs.flatMap names := by
  induction segs with
  | nil => rfl
  | cons s segs ih =>
    cases segs with
    | nil => simp
    | cons t segs =>
      rw [List.intercalate_cons_cons, List.append_assoc, names_append, List.singleton_append, names, ih]
      simp

theorem mem_of_chr_mem_scan {p : Pattern} {c : CodePoint} :
    ∀ {s : PyStr} {n : Nat}, .chr c ∈ scan p n s → c ∈ s
  | [], n, h => by cases n <;> cases h
  | _ :: s, n + 1, h => List.mem_cons_of_mem _ (mem_of_chr_mem_scan (s := s) h)
  | c' :: s, 0, h => by
    rw [scan] at h
    cases hp : p (c' :: s) with
    | none =>
      rw [hp] at h
      rcases List.mem_cons.1 h with h | h
      · exact Piece.chr.inj h ▸ List.mem_cons_self ..
      · exact List.mem_cons_of_mem _ (mem_of_chr_mem_scan h)
    | some found =>
      rw [hp] at h
      rcases List.mem_cons.1 h with h | h
      · cases h
      · exact List.mem_cons_of_mem _ (mem_of_chr_mem_scan h)

theorem not_mem_of_mem_splitOn {sep : CodePoint} {s seg : PyStr} (h : seg ∈ s.splitOn sep) :
    sep ∉ seg := by
  induction s generalizing seg with
  | nil => simp_all
  | cons c s ih =>
    rw [List.splitOn_cons_eq_if_modifyHead] at h
    split_ifs at h with hc
    · rcases List.mem_cons.1 h with rfl | h
      · exact List.not_mem_nil
      · exact ih h
    · obtain ⟨x, xs, hx⟩ := List.exists_cons_of_ne_nil (List.splitOn_ne_nil sep s)
      rw [hx, List.modifyHead_cons] at h
      rcases List.mem_cons.1 h with rfl | h
      · intro hmem
        rcases List.mem_cons.1 hmem with rfl | hmem
        · simp at hc
        · exact ih (hx ▸ List.mem_cons_self ..) hmem
      · exact ih (hx ▸ List.mem_cons_of_mem _ h)

theorem mem_of_mem_splitOn {sep c : CodePoint} {s seg : PyStr} (h : seg ∈ s.splitOn sep)
    (hc : c ∈ seg) : c ∈ s := by
  induction s generalizing seg with
  | nil => simp_all
  | cons d s ih =>
    rw [List.splitOn_cons_eq_if_modifyHead] at h
    split_ifs at h
    · rcases List.mem_cons.1 h with rfl | h
      · cases hc
      · exact List.mem_cons_of_mem _ (ih h hc)
    · obtain ⟨x, xs, hx⟩ := List.exists_cons_of_ne_nil (List.splitOn_ne_nil sep s)
      rw [hx, List.modifyHead_cons] at h
      rcases List.mem_cons.1 h with rfl | h
      · rcases List.mem_cons.1 hc with rfl | hc
        · exact List.mem_cons_self ..
        · exact List.mem_cons_of_mem _ (ih (hx ▸ List.mem_cons_self ..) hc)
      · exact List.mem_cons_of_mem _ (ih (hx ▸ List.mem_cons_of_mem _ h) hc)

/-- The holes of a segment are holes of the whole. -/
theorem names_of_segment {p : Pattern} {sep : CodePoint} (hp : p.Avoids sep) {s seg name : PyStr}
    (hseg : seg ∈ s.splitOn sep) (hname : name ∈ names (pieces p seg)) : name ∈ names (pieces p s) := by
  have hjoin := pieces_intercalate hp (s.splitOn sep)
  rw [List.intercalate_splitOn] at hjoin
  rw [hjoin, names_intercalate]
  exact List.mem_flatMap.2 ⟨_, List.mem_map_of_mem hseg, hname⟩

/-- The filled text splits where the template does. -/
theorem splitOn_fill {p : Pattern} {sep : CodePoint} (hp : p.Avoids sep) {f : PyStr → PyStr}
    {s : PyStr} (hf : ∀ name ∈ names (pieces p s), sep ∉ f name) :
    (fill f (pieces p s)).splitOn sep = (s.splitOn sep).map fun seg => fill f (pieces p seg) := by
  have hjoin := pieces_intercalate hp (s.splitOn sep)
  rw [List.intercalate_splitOn] at hjoin
  rw [hjoin, fill_intercalate, List.map_map]
  refine List.splitOn_intercalate _ ?_ (by simp)
  intro l hl hmem
  obtain ⟨seg, hseg, rfl⟩ := List.mem_map.1 hl
  rcases mem_fill hmem with h | ⟨name, hname, h⟩
  · exact not_mem_of_mem_splitOn hseg (mem_of_chr_mem_scan h)
  · exact hf name (names_of_segment hp hseg hname) h

/-! ## Captures -/

/-- `opening`, a run of `rest` characters that starts with a `first` one, then `closing`. -/
def capture (opening : PyStr) (first rest : CodePoint → Bool) (closing : PyStr) : Pattern := fun s =>
  if opening <+: s then
    let run := (s.drop opening.length).takeWhile rest
    if run.head?.any first ∧ closing <+: s.drop (opening.length + run.length) then
      some (run, opening.length + run.length + closing.length)
    else none
  else none

theorem prefix_append_sep {u a b : PyStr} {sep : CodePoint} (h : sep ∉ u) :
    u <+: a ++ sep :: b ↔ u <+: a := by
  refine ⟨fun hu => ?_, fun hu => hu.trans (List.prefix_append ..)⟩
  rcases Nat.le_total u.length a.length with hle | hle
  · exact List.prefix_of_prefix_length_le hu (List.prefix_append ..) hle
  · obtain ⟨w, rfl⟩ := List.prefix_of_prefix_length_le (List.prefix_append ..) hu hle
    cases w with
    | nil => simp
    | cons c w =>
      rw [List.prefix_append_right_inj, List.cons_prefix_cons] at hu
      simp [hu.1] at h

/-- A capture sees nothing past a character it is not written with. -/
theorem capture_avoids {opening closing : PyStr} {first rest : CodePoint → Bool} {sep : CodePoint}
    (hne : opening ≠ []) (ho : sep ∉ opening) (hc : sep ∉ closing) (hr : rest sep = false) :
    (capture opening first rest closing).Avoids sep where
  stops a b := by
    by_cases hpre : opening <+: a
    · have hlen := hpre.length_le
      have hrun : ((a ++ sep :: b).drop opening.length).takeWhile rest =
          (a.drop opening.length).takeWhile rest := by
        rw [List.drop_append_of_le_length hlen, List.takeWhile_append]
        split_ifs with hall
        · rw [List.takeWhile_cons_of_neg (by simp [hr]), List.append_nil,
            (List.takeWhile_sublist _).eq_of_length hall]
        · rfl
      have hrest : (a.drop opening.length).takeWhile rest <+: a.drop opening.length :=
        List.takeWhile_prefix _
      have hle := hrest.length_le
      rw [List.length_drop] at hle
      have hlen : opening.length + ((a.drop opening.length).takeWhile rest).length ≤ a.length := by omega
      have hdrop : (a ++ sep :: b).drop _ = _ := List.drop_append_of_le_length hlen
      simp only [capture, hrun, prefix_append_sep ho, hpre, if_true, hdrop, prefix_append_sep hc]
    · simp only [capture, prefix_append_sep ho, hpre, if_false]
  empty := by simp [capture, hne]
  short s name len h := by
    simp only [capture] at h
    split_ifs at h with hpre hrun
    have hle := hrun.2.length_le
    have hle' := hpre.length_le
    have hrest := (List.takeWhile_prefix (l := s.drop opening.length) rest).length_le
    rw [List.length_drop] at hle hrest
    cases h
    omega

end Toolstack.Template
