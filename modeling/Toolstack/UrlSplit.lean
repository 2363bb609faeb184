import Mathlib.Data.List.Induction
import Mathlib.Data.List.TakeWhile
import Toolstack.Url

/-! `urllib.parse.urlsplit` and `urlunsplit`. The checks of a netloc (its brackets, and that its
normal form brings in no separator) are a parameter. -/

namespace Toolstack.Url

structure SplitUrl where
  scheme : PyStr
  netloc : PyStr
  path : PyStr
  query : PyStr
  fragment : PyStr
  deriving DecidableEq

def c0OrSpace (c : CodePoint) : Bool := c.val ≤ 0x20

/-- Tab, line feed and carriage return, which `urlsplit` removes wherever they stand. -/
def unsafeByte (c : CodePoint) : Bool := c.val == 0x09 || c.val == 0x0A || c.val == 0x0D

def cleaned (url : PyStr) : PyStr := (url.dropWhile c0OrSpace).filter fun c => !unsafeByte c

def isAlpha (c : CodePoint) : Bool :=
  (0x41 ≤ c.val && c.val ≤ 0x5A) || (0x61 ≤ c.val && c.val ≤ 0x7A)

def isDigit (c : CodePoint) : Bool := 0x30 ≤ c.val && c.val ≤ 0x39

def schemeChar (c : CodePoint) : Bool :=
  isAlpha c || isDigit c || c = ch '+' || c = ch '-' || c = ch '.'

/-- `str.lower` of an ASCII character. -/
def lower (c : CodePoint) : CodePoint := if 0x41 ≤ c.val ∧ c.val ≤ 0x5A then byte (c.val + 0x20) else c

/-- `s.split(sep, 1)`, with an empty rest where `sep` does not occur. -/
def cut (sep : CodePoint) (s : PyStr) : PyStr × PyStr :=
  (s.takeWhile (· ≠ sep), (s.dropWhile (· ≠ sep)).tail)

def splitScheme (url : PyStr) : PyStr × PyStr :=
  let head := url.takeWhile (· ≠ ch ':')
  match url.dropWhile (· ≠ ch ':') with
  | _ :: rest =>
    if head.head?.any isAlpha ∧ head.all schemeChar then (head.map lower, rest) else ([], url)
  | [] => ([], url)

def delimiter (c : CodePoint) : Bool := c = ch '/' || c = ch '?' || c = ch '#'

def splitNetloc : PyStr → PyStr × PyStr
  | a :: b :: url =>
    if a = ch '/' ∧ b = ch '/' then
      (url.takeWhile fun c => !delimiter c, url.dropWhile fun c => !delimiter c)
    else ([], a :: b :: url)
  | url => ([], url)

variable (netlocOk : PyStr → Bool)

/-- `none` where `urlsplit` raises `ValueError`. -/
def urlsplit (url : PyStr) : Option SplitUrl :=
  let (scheme, url) := splitScheme (cleaned url)
  let (netloc, url) := splitNetloc url
  let (url, fragment) := cut (ch '#') url
  let (path, query) := cut (ch '?') url
  if netloc = [] ∨ netlocOk netloc then some ⟨scheme, netloc, path, query, fragment⟩ else none

def SplitUrl.unsplit (u : SplitUrl) : PyStr :=
  let url :=
    if u.netloc ≠ [] then
      py "//" ++ u.netloc ++ (if u.path ≠ [] ∧ u.path.head? ≠ some (ch '/') then ch '/' :: u.path else u.path)
    else u.path
  let url := if u.scheme ≠ [] then u.scheme ++ ch ':' :: url else url
  let url := if u.query ≠ [] then url ++ ch '?' :: u.query else url
  if u.fragment ≠ [] then url ++ ch '#' :: u.fragment else url

/-- `s.rstrip("/")`. -/
def rstripSlash (s : PyStr) : PyStr := (s.reverse.dropWhile (· = ch '/')).reverse

/-- Whether `.hostname` is set: the host is what follows the last `@`, up to its port. -/
def SplitUrl.hasHost (u : SplitUrl) : Bool :=
  let hostinfo := (u.netloc.reverse.takeWhile (· ≠ ch '@')).reverse
  let (_, bracketed) := cut (ch '[') hostinfo
  if ch '[' ∈ hostinfo then (cut (ch ']') bracketed).1 ≠ [] else (cut (ch ':') hostinfo).1 ≠ []

/-- `.username` or `.password` is set. -/
def SplitUrl.hasUser (u : SplitUrl) : Bool := ch '@' ∈ u.netloc

/-! ## Cutting -/

theorem all_ne {sep : CodePoint} {s : PyStr} (h : sep ∉ s) : ∀ c ∈ s, decide (c ≠ sep) = true := by
  intro c hc
  rw [decide_eq_true_eq]
  rintro rfl
  exact h hc

theorem takeWhile_ne_append {sep : CodePoint} {s : PyStr} (h : sep ∉ s) (t : PyStr) :
    (s ++ sep :: t).takeWhile (· ≠ sep) = s := by
  rw [List.takeWhile_append_of_pos (all_ne h)]
  simp

theorem dropWhile_ne_append {sep : CodePoint} {s : PyStr} (h : sep ∉ s) (t : PyStr) :
    (s ++ sep :: t).dropWhile (· ≠ sep) = sep :: t := by
  rw [List.dropWhile_append_of_pos (all_ne h)]
  simp

theorem cut_of_not_mem {sep : CodePoint} {s : PyStr} (h : sep ∉ s) : cut sep s = (s, []) := by
  rw [cut, List.takeWhile_eq_self_iff.2 (all_ne h), List.dropWhile_eq_nil_iff.2 (all_ne h)]
  rfl

theorem cut_append {sep : CodePoint} {s : PyStr} (h : sep ∉ s) (t : PyStr) :
    cut sep (s ++ sep :: t) = (s, t) := by
  rw [cut, takeWhile_ne_append h, dropWhile_ne_append h]
  rfl

theorem not_mem_cut (sep : CodePoint) (s : PyStr) : sep ∉ (cut sep s).1 := by
  intro h
  simpa using List.mem_takeWhile_imp h

theorem mem_of_mem_cut {sep c : CodePoint} {s : PyStr} (h : c ∈ (cut sep s).1 ∨ c ∈ (cut sep s).2) :
    c ∈ s := by
  rcases h with h | h
  · exact (List.takeWhile_prefix _).subset h
  · exact (List.dropWhile_suffix _).subset (List.mem_of_mem_tail h)

/-- A text is its two halves, with the separator between them where it occurs. -/
theorem cut_cases (sep : CodePoint) (s : PyStr) :
    (sep ∉ s ∧ cut sep s = (s, [])) ∨ ∃ a b, sep ∉ a ∧ s = a ++ sep :: b ∧ cut sep s = (a, b) := by
  by_cases h : sep ∈ s
  · obtain ⟨a, b, rfl, ha⟩ := List.eq_append_cons_of_mem h
    exact .inr ⟨a, b, ha, rfl, cut_append ha b⟩
  · exact .inl ⟨h, cut_of_not_mem h⟩

/-! ## What is put together is taken apart again -/

/-- What `urlsplit` makes of a URL with an authority and no fragment. -/
structure SplitUrl.Proper (u : SplitUrl) : Prop where
  schemeHead : u.scheme.head?.any isAlpha
  schemeChars : ∀ c ∈ u.scheme, schemeChar c ∧ lower c = c
  netloc : u.netloc ≠ []
  netlocOk : netlocOk u.netloc
  netlocChars : ∀ c ∈ u.netloc, delimiter c = false ∧ unsafeByte c = false
  pathHead : u.path = [] ∨ u.path.head? = some (ch '/')
  pathChars : ∀ c ∈ u.path, c ≠ ch '?' ∧ c ≠ ch '#' ∧ unsafeByte c = false
  queryChars : ∀ c ∈ u.query, c ≠ ch '#' ∧ unsafeByte c = false
  fragment : u.fragment = []

def queryPart (q : PyStr) : PyStr := if q ≠ [] then ch '?' :: q else []

variable {netlocOk}

theorem SplitUrl.Proper.unsplit_eq {u : SplitUrl} (h : u.Proper netlocOk) :
    u.unsplit = u.scheme ++ ch ':' :: ch '/' :: ch '/' :: (u.netloc ++ (u.path ++ queryPart u.query)) := by
  have hscheme : u.scheme ≠ [] := by
    intro he
    simpa [he] using h.schemeHead
  have hpath : ¬ (u.path ≠ [] ∧ u.path.head? ≠ some (ch '/')) := by
    have := h.pathHead
    tauto
  have hslashes : py "//" = [ch '/', ch '/'] := rfl
  simp only [SplitUrl.unsplit, h.netloc, hpath, hscheme, h.fragment, hslashes, queryPart, ne_eq,
    not_true_eq_false, not_false_eq_true, if_true, if_false]
  split_ifs <;> simp

theorem safe_of_schemeChar {c : CodePoint} (h : schemeChar c = true) :
    unsafeByte c = false ∧ c ≠ ch ':' := by
  have hplus : 0x2B ≤ c.val := by
    simp only [schemeChar, isAlpha, isDigit, Bool.or_eq_true, Bool.and_eq_true, decide_eq_true_eq] at h
    rcases h with ((((h | h) | h) | rfl) | rfl) | rfl
    · omega
    · omega
    · omega
    · decide
    · decide
    · decide
  refine ⟨?_, by rintro rfl; exact absurd h (by decide)⟩
  simp only [unsafeByte, Bool.or_eq_false_iff, beq_eq_false_iff_ne]
  omega

theorem queryPart_chars {q : PyStr} (hq : ∀ c ∈ q, c ≠ ch '#' ∧ unsafeByte c = false) :
    ∀ c ∈ queryPart q, c ≠ ch '#' ∧ unsafeByte c = false := by
  unfold queryPart
  split_ifs
  · intro c hc
    rcases List.mem_cons.1 hc with rfl | hc
    · decide
    · exact hq c hc
  · simp

theorem splitNetloc_append {netloc rest : PyStr} (hnet : ∀ c ∈ netloc, delimiter c = false)
    (hrest : rest = [] ∨ ∃ d t, rest = d :: t ∧ delimiter d = true) :
    splitNetloc (ch '/' :: ch '/' :: (netloc ++ rest)) = (netloc, rest) := by
  have hall : ∀ c ∈ netloc, (!delimiter c) = true := fun c hc => by rw [hnet c hc]; rfl
  rw [splitNetloc, if_pos ⟨rfl, rfl⟩, List.takeWhile_append_of_pos hall,
    List.dropWhile_append_of_pos hall]
  rcases hrest with rfl | ⟨d, t, rfl, hd⟩
  · simp
  · simp [hd]

theorem cut_queryPart {path : PyStr} (h : ch '?' ∉ path) (q : PyStr) :
    cut (ch '?') (path ++ queryPart q) = (path, q) := by
  unfold queryPart
  split_ifs with hq
  · exact cut_append h q
  · rw [List.append_nil, cut_of_not_mem h, not_not.1 hq]

theorem urlsplit_unsplit {u : SplitUrl} (h : u.Proper netlocOk) :
    urlsplit netlocOk u.unsplit = some u := by
  have hquery := queryPart_chars h.queryChars
  have hclean : cleaned u.unsplit = u.unsplit := by
    have hhead : u.unsplit.dropWhile c0OrSpace = u.unsplit := by
      have hany := h.schemeHead
      rw [h.unsplit_eq]
      cases hs : u.scheme with
      | nil => simp [hs] at hany
      | cons c s =>
        simp only [hs, List.head?_cons, Option.any_some, isAlpha, Bool.or_eq_true, Bool.and_eq_true,
          decide_eq_true_eq] at hany
        rw [List.cons_append, List.dropWhile_cons_of_neg]
        rw [c0OrSpace, decide_eq_true_eq]
        omega
    rw [cleaned, hhead, List.filter_eq_self]
    intro c hc
    have hpath := fun hm => (h.pathChars c hm).2.2
    have hnet := fun hm => (h.netlocChars c hm).2
    have hsch := fun hm => (safe_of_schemeChar (h.schemeChars c hm).1).1
    rw [h.unsplit_eq] at hc
    simp only [List.mem_append, List.mem_cons] at hc
    rcases hc with hc | rfl | rfl | rfl | hc | hc | hc
    · rw [hsch hc]; rfl
    · decide
    · decide
    · decide
    · rw [hnet hc]; rfl
    · rw [hpath hc]; rfl
    · rw [(hquery c hc).2]; rfl
  have hscheme : splitScheme u.unsplit =
      (u.scheme, ch '/' :: ch '/' :: (u.netloc ++ (u.path ++ queryPart u.query))) := by
    have hcolon : ch ':' ∉ u.scheme := fun hc => (safe_of_schemeChar (h.schemeChars _ hc).1).2 rfl
    have hlower : u.scheme.map lower = u.scheme :=
      (List.map_congr_left fun c hc => (h.schemeChars c hc).2).trans (List.map_id' _)
    rw [h.unsplit_eq, splitScheme, takeWhile_ne_append hcolon, dropWhile_ne_append hcolon]
    simp only
    rw [if_pos ⟨h.schemeHead, List.all_eq_true.2 fun c hc => (h.schemeChars c hc).1⟩, hlower]
  have hnetloc : splitNetloc (ch '/' :: ch '/' :: (u.netloc ++ (u.path ++ queryPart u.query))) =
      (u.netloc, u.path ++ queryPart u.query) := splitNetloc_append
    (fun c hc => (h.netlocChars c hc).1) (by
      cases hp : u.path with
      | nil =>
        unfold queryPart
        split_ifs
        · exact .inr ⟨_, _, rfl, by decide⟩
        · exact .inl rfl
      | cons d t =>
        have hd := h.pathHead
        rw [hp] at hd
        obtain rfl : d = ch '/' := by simpa using hd
        exact .inr ⟨_, _, rfl, by decide⟩)
  have hfragment : cut (ch '#') (u.path ++ queryPart u.query) = (u.path ++ queryPart u.query, []) := by
    refine cut_of_not_mem fun hc => ?_
    rcases List.mem_append.1 hc with hc | hc
    · exact (h.pathChars _ hc).2.1 rfl
    · exact (hquery _ hc).1 rfl
  have hpath := cut_queryPart (fun hc => (h.pathChars _ hc).1 rfl) u.query
  simp only [urlsplit, hclean, hscheme, hnetloc, hfragment, hpath, h.netloc, h.netlocOk, false_or,
    if_true]
  rw [← h.fragment]

/-! ## What is taken apart is proper -/

theorem lower_val (c : CodePoint) :
    (lower c).val = if 0x41 ≤ c.val ∧ c.val ≤ 0x5A then c.val + 0x20 else c.val := by
  unfold lower
  split_ifs with h
  · simp only [byte, Fin.val_ofNat]
    exact Nat.mod_eq_of_lt (by omega)
  · rfl

theorem lower_lower (c : CodePoint) : lower (lower c) = lower c := by
  apply Fin.ext
  rw [lower_val (lower c), lower_val c]
  split_ifs <;> omega

theorem isAlpha_lower {c : CodePoint} (h : isAlpha c = true) : isAlpha (lower c) = true := by
  simp only [isAlpha, lower_val, Bool.or_eq_true, Bool.and_eq_true, decide_eq_true_eq] at h ⊢
  split_ifs <;> omega

theorem schemeChar_lower {c : CodePoint} (h : schemeChar c = true) : schemeChar (lower c) = true := by
  by_cases hc : 0x41 ≤ c.val ∧ c.val ≤ 0x5A
  · have halpha : isAlpha c = true := by
      simp [isAlpha, hc]
    simp [schemeChar, isAlpha_lower halpha]
  · rwa [lower, if_neg hc]

theorem splitScheme_cases (s : PyStr) :
    splitScheme s = ([], s) ∨ ∃ head rest, s = head ++ ch ':' :: rest ∧ ch ':' ∉ head ∧
      head.head?.any isAlpha = true ∧ (∀ c ∈ head, schemeChar c = true) ∧
      splitScheme s = (head.map lower, rest) := by
  rcases cut_cases (ch ':') s with ⟨h, -⟩ | ⟨head, rest, h, rfl, -⟩
  · left
    rw [splitScheme, List.dropWhile_eq_nil_iff.2 (all_ne h)]
  · rw [splitScheme, takeWhile_ne_append h, dropWhile_ne_append h]
    simp only
    split_ifs with hhead
    · exact .inr ⟨head, rest, rfl, h, hhead.1, List.all_eq_true.1 hhead.2, rfl⟩
    · exact .inl rfl

theorem splitNetloc_cases (s : PyStr) :
    splitNetloc s = ([], s) ∨ ∃ t, s = ch '/' :: ch '/' :: t ∧
      splitNetloc s = (t.takeWhile fun c => !delimiter c, t.dropWhile fun c => !delimiter c) := by
  match s with
  | [] | [_] => exact .inl rfl
  | a :: b :: t =>
    rw [splitNetloc]
    split_ifs with h
    · obtain ⟨rfl, rfl⟩ := h
      exact .inr ⟨t, rfl, rfl⟩
    · exact .inl rfl

theorem urlsplit_inv {s : PyStr} {u : SplitUrl} (h : urlsplit netlocOk s = some u) :
    ∃ scheme url netloc rest path fragment query, splitScheme (cleaned s) = (scheme, url) ∧
      splitNetloc url = (netloc, rest) ∧ cut (ch '#') rest = (path, fragment) ∧
      cut (ch '?') path = query ∧ (netloc = [] ∨ netlocOk netloc = true) ∧
      u = ⟨scheme, netloc, query.1, query.2, fragment⟩ := by
  simp only [urlsplit] at h
  split_ifs at h with hok
  exact ⟨_, _, _, _, _, _, _, rfl, rfl, rfl, rfl, hok, (Option.some.inj h).symm⟩

theorem cleaned_safe {s : PyStr} : ∀ c ∈ cleaned s, unsafeByte c = false := by
  intro c hc
  simpa using (List.mem_filter.1 hc).2

theorem head?_cut (sep : CodePoint) (s : PyStr) :
    (cut sep s).1.head? = s.head?.filter fun c => c ≠ sep := by
  rw [cut, List.head?_takeWhile]

/-- What follows a netloc starts a path, a query or a fragment. -/
theorem path_head {t : PyStr} : let rest := t.dropWhile fun c => !delimiter c
    let path := (cut (ch '?') (cut (ch '#') rest).1).1
    path = [] ∨ path.head? = some (ch '/') := by
  intro rest path
  have hhead : path.head? = (rest.head?.filter fun c => c ≠ ch '#').filter fun c => c ≠ ch '?' :=
    (head?_cut ..).trans (congrArg _ (head?_cut ..))
  have hdelim := List.head?_dropWhile_not (fun c => !delimiter c) t
  cases hr : rest.head? with
  | none => exact .inl (List.head?_eq_none_iff.1 (by rw [hhead, hr]; rfl))
  | some d =>
    have hd : delimiter d = true := by simpa [rest, hr] using hdelim
    simp only [delimiter, Bool.or_eq_true, decide_eq_true_eq] at hd
    rw [hr] at hhead
    rcases hd with (rfl | rfl) | rfl
    · exact .inr hhead
    · exact .inl (List.head?_eq_none_iff.1 hhead)
    · exact .inl (List.head?_eq_none_iff.1 hhead)

theorem urlsplit_proper {s : PyStr} {u : SplitUrl} (h : urlsplit netlocOk s = some u)
    (hscheme : u.scheme ≠ []) (hnetloc : u.netloc ≠ []) (hfragment : u.fragment = []) :
    u.Proper netlocOk := by
  obtain ⟨scheme, url, netloc, rest, path, fragment, query, hs, hn, hf, rfl, hok, rfl⟩ := urlsplit_inv h
  rcases splitScheme_cases (cleaned s) with hsc | ⟨head, url', hcl, hcolon, halpha, hchars, hsc⟩
  · rw [hsc] at hs
    cases hs
    exact absurd rfl hscheme
  · rw [hsc] at hs
    cases hs
    rcases splitNetloc_cases url with hnc | ⟨t, rfl, hnc⟩
    · rw [hnc] at hn
      cases hn
      exact absurd rfl hnetloc
    · rw [hnc] at hn
      cases hn
      have hsafe : ∀ c ∈ t, unsafeByte c = false := by
        intro c hc
        refine cleaned_safe (s := s) c ?_
        rw [hcl]
        simp [hc]
      have hrest : ∀ c ∈ t.dropWhile fun c => !delimiter c, unsafeByte c = false := fun c hc =>
        hsafe c ((List.dropWhile_suffix _).subset hc)
      have hpathRest : ∀ c ∈ path, c ∈ t.dropWhile fun c => !delimiter c := fun c hc =>
        mem_of_mem_cut (.inl (by rw [hf]; exact hc))
      have hhash : ch '#' ∉ path := by
        have := not_mem_cut (ch '#') (t.dropWhile fun c => !delimiter c)
        rwa [hf] at this
      refine ⟨?_, ?_, hnetloc, hok.resolve_left hnetloc, ?_, ?_, ?_, ?_, hfragment⟩
      · cases head with
        | nil => cases halpha
        | cons c head => exact isAlpha_lower halpha
      · intro c hc
        obtain ⟨c, hc', rfl⟩ := List.mem_map.1 hc
        exact ⟨schemeChar_lower (hchars c hc'), lower_lower c⟩
      · intro c hc
        exact ⟨by simpa using List.mem_takeWhile_imp hc, hsafe c ((List.takeWhile_prefix _).subset hc)⟩
      · have hpath := path_head (t := t)
        simp only [hf] at hpath
        exact hpath
      · intro c hc
        have hmem := mem_of_mem_cut (.inl hc)
        refine ⟨?_, ?_, hrest c (hpathRest c hmem)⟩
        · rintro rfl
          exact not_mem_cut _ _ hc
        · rintro rfl
          exact hhash hmem
      · intro c hc
        have hmem := mem_of_mem_cut (.inr hc)
        refine ⟨?_, hrest c (hpathRest c hmem)⟩
        rintro rfl
        exact hhash hmem

/-! ## Trailing slashes -/

section Stop
variable {p : CodePoint → Bool} {d : CodePoint} (hd : p d = false) (s : PyStr)
include hd

theorem dropWhile_append_stop : (s ++ [d]).dropWhile p = s.dropWhile p ++ [d] := by
  rw [List.dropWhile_append]
  split_ifs with h
  · rw [List.isEmpty_iff.1 h]
    simp [hd]
  · rfl

theorem takeWhile_append_stop : (s ++ [d]).takeWhile p = s.takeWhile p := by
  rw [List.takeWhile_append]
  split_ifs with h
  · rw [List.takeWhile_cons_of_neg (by simp [hd]), List.append_nil,
      (List.takeWhile_prefix p).sublist.eq_of_length h]
  · rfl

end Stop

theorem cleaned_slash (s : PyStr) : cleaned (s ++ [ch '/']) = cleaned s ++ [ch '/'] := by
  rw [cleaned, dropWhile_append_stop (by decide), List.filter_append]
  rfl

theorem cut_slash {sep : CodePoint} {s : PyStr} (h : (cut sep (s ++ [ch '/'])).2 = [])
    (hsep : sep ≠ ch '/') : cut sep s = (s, []) ∧ cut sep (s ++ [ch '/']) = (s ++ [ch '/'], []) := by
  rcases cut_cases sep s with ⟨hs, hcut⟩ | ⟨a, b, ha, rfl, -⟩
  · exact ⟨hcut, cut_of_not_mem (by simp [hs, hsep])⟩
  · rw [List.append_assoc, List.cons_append, cut_append ha] at h
    simp at h

theorem splitScheme_slash {s : PyStr} (h : (splitScheme (s ++ [ch '/'])).1 ≠ []) :
    ∃ rest, splitScheme s = ((splitScheme (s ++ [ch '/'])).1, rest) ∧
      (splitScheme (s ++ [ch '/'])).2 = rest ++ [ch '/'] := by
  rcases cut_cases (ch ':') s with ⟨hs, -⟩ | ⟨head, rest, hhead, rfl, -⟩
  · refine absurd ?_ h
    have hs' : ch ':' ∉ s ++ [ch '/'] := by
      simpa [hs] using (by decide : ch ':' ≠ ch '/')
    rw [splitScheme, List.dropWhile_eq_nil_iff.2 (all_ne hs')]
  · have hslash : head ++ ch ':' :: rest ++ [ch '/'] = head ++ ch ':' :: (rest ++ [ch '/']) := by simp
    rw [hslash] at h ⊢
    simp only [splitScheme, takeWhile_ne_append hhead, dropWhile_ne_append hhead] at h ⊢
    split_ifs at h ⊢
    · exact ⟨rest, rfl, rfl⟩
    · exact absurd rfl h

theorem splitNetloc_slash {s : PyStr} (h : (splitNetloc (s ++ [ch '/'])).1 ≠ []) :
    ∃ rest, splitNetloc s = ((splitNetloc (s ++ [ch '/'])).1, rest) ∧
      (splitNetloc (s ++ [ch '/'])).2 = rest ++ [ch '/'] := by
  match s, h with
  | [], h => exact absurd rfl h
  | [a], h =>
    simp only [List.cons_append, List.nil_append, splitNetloc] at h
    split_ifs at h <;> exact absurd rfl h
  | a :: b :: t, h =>
    have hslash : (!delimiter (ch '/')) = false := by decide
    simp only [List.cons_append, splitNetloc, takeWhile_append_stop (p := fun c => !delimiter c) hslash,
      dropWhile_append_stop (p := fun c => !delimiter c) hslash] at h ⊢
    split_ifs at h ⊢
    · exact ⟨_, rfl, rfl⟩
    · exact absurd rfl h

theorem urlsplit_slash {s : PyStr} {u : SplitUrl} (h : urlsplit netlocOk (s ++ [ch '/']) = some u)
    (hscheme : u.scheme ≠ []) (hnetloc : u.netloc ≠ []) (hquery : u.query = [])
    (hfragment : u.fragment = []) : ∃ path, urlsplit netlocOk s = some { u with path } := by
  obtain ⟨scheme, url, netloc, rest, path, fragment, query, hs, hn, hf, rfl, hok, rfl⟩ := urlsplit_inv h
  rw [cleaned_slash] at hs
  obtain ⟨url', hs', hurl⟩ := splitScheme_slash (s := cleaned s) (by rwa [hs])
  rw [hs] at hs' hurl
  obtain rfl : url = url' ++ [ch '/'] := hurl
  obtain ⟨rest', hn', hrest⟩ := splitNetloc_slash (s := url') (by rwa [hn])
  rw [hn] at hn' hrest
  obtain rfl : rest = rest' ++ [ch '/'] := hrest
  obtain ⟨hf', hfull⟩ := cut_slash (by rwa [hf]) (by decide)
  rw [hf] at hfull
  obtain rfl : path = rest' ++ [ch '/'] := congrArg Prod.fst hfull
  obtain ⟨hq', -⟩ := cut_slash hquery (by decide)
  refine ⟨rest', ?_⟩
  simp only [urlsplit, hs', hn', hf', hq', hok, if_true]
  simp only at hquery hfragment
  rw [hquery, hfragment]

/-- Dropping the slashes at the end of a URL touches its path only. -/
theorem urlsplit_rstripSlash {s : PyStr} {u : SplitUrl} (h : urlsplit netlocOk s = some u)
    (hscheme : u.scheme ≠ []) (hnetloc : u.netloc ≠ []) (hquery : u.query = [])
    (hfragment : u.fragment = []) :
    ∃ path, urlsplit netlocOk (rstripSlash s) = some { u with path } := by
  induction s using List.reverseRecOn generalizing u with
  | nil => exact ⟨u.path, h⟩
  | append_singleton s c ih =>
    by_cases hc : c = ch '/'
    · subst hc
      obtain ⟨path, hs⟩ := urlsplit_slash h hscheme hnetloc hquery hfragment
      have hstrip : rstripSlash (s ++ [ch '/']) = rstripSlash s := by simp [rstripSlash]
      obtain ⟨path', hs'⟩ := ih hs hscheme hnetloc hquery hfragment
      exact ⟨path', by rw [hstrip, hs']⟩
    · have hstrip : rstripSlash (s ++ [c]) = s ++ [c] := by simp [rstripSlash, hc]
      exact ⟨u.path, by rw [hstrip, h]⟩

/-! ## Relative references -/

/-- A text that starts with a single slash is a path and a query. -/
theorem urlsplit_rel {s : PyStr} (hhead : s.head? = some (ch '/')) (hsingle : s[1]? ≠ some (ch '/'))
    (hchars : ∀ c ∈ s, c ≠ ch '#' ∧ unsafeByte c = false) :
    urlsplit netlocOk s = some ⟨[], [], (cut (ch '?') s).1, (cut (ch '?') s).2, []⟩ := by
  obtain ⟨t, rfl⟩ : ∃ t, s = ch '/' :: t := by
    cases s with
    | nil => cases hhead
    | cons c t => exact ⟨t, by rw [Option.some.inj hhead]⟩
  have hclean : cleaned (ch '/' :: t) = ch '/' :: t := by
    rw [cleaned, List.dropWhile_cons_of_neg (by decide), List.filter_eq_self]
    intro c hc
    rw [(hchars c hc).2]
    rfl
  have hscheme : splitScheme (ch '/' :: t) = ([], ch '/' :: t) := by
    rcases splitScheme_cases (ch '/' :: t) with h | ⟨head, rest, heq, -, halpha, -⟩
    · exact h
    · cases head with
      | nil => cases halpha
      | cons c head =>
        obtain rfl : ch '/' = c := (List.cons.inj heq).1
        cases halpha
  have hnetloc : splitNetloc (ch '/' :: t) = ([], ch '/' :: t) := by
    rcases splitNetloc_cases (ch '/' :: t) with h | ⟨rest, heq, -⟩
    · exact h
    · rw [heq] at hsingle
      exact absurd rfl hsingle
  have hfragment : cut (ch '#') (ch '/' :: t) = (ch '/' :: t, []) :=
    cut_of_not_mem fun hc => (hchars _ hc).1 rfl
  simp only [urlsplit, hclean, hscheme, hnetloc, hfragment, true_or, if_true]

end Toolstack.Url
