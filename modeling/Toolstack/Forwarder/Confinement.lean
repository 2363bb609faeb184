import Toolstack.Fallible
import Toolstack.Forwarder.RequestBuilder

/-! A caller's variables move within the operator's path and query template: the built URL has the
configured scheme, authority and base path, and the template's segments and pairs. -/

namespace Toolstack.Forwarder

open Template Url
open Interleave (Prog)

/-! ## Accepted manifests -/

/-- What `_validate_path_template` lets through. -/
structure PathTemplate (path : PyStr) : Prop where
  head : (cut (ch '?') path).1.head? = some (ch '/')
  single : (cut (ch '?') path).1[1]? ≠ some (ch '/')
  noFragment : ch '#' ∉ path
  pathChars : ∀ c ∈ (cut (ch '?') path).1, pathPrintable c = true
  queryChars : ∀ c ∈ (cut (ch '?') path).2, queryPrintable c = true

theorem validatePathTemplate_ok {field : String} {path : PyStr}
    (h : validatePathTemplate field path = .ok ()) : PathTemplate path := by
  simp only [validatePathTemplate, err, throw, throwThe, MonadExceptOf.throw, bind, Except.bind] at h
  split_ifs at h with hhead hfragment hpath hquery
  rw [not_or, not_not] at hhead
  refine ⟨hhead.1, hhead.2, hfragment, ?_, ?_⟩
  · simpa using hpath
  · simpa using hquery

theorem loadOperation_ok {secrets : List SecretDecl} {ops r : List Operation} {raw : Json} {idx : Nat}
    (h : loadOperation secrets ops raw idx = .ok r) : ∃ op, r = ops ++ [op] ∧ PathTemplate op.path := by
  simp only [loadOperation, err, throw, throwThe, MonadExceptOf.throw, bind, Except.bind] at h
  repeat' split at h
  all_goals cases h
  exact ⟨_, rfl, validatePathTemplate_ok (by assumption)⟩

theorem loadOperations_ok {secrets : List SecretDecl} {raw : Json} {ops : List Operation}
    (h : loadOperations secrets raw = .ok ops) : ∀ op ∈ ops, PathTemplate op.path := by
  unfold loadOperations at h
  split at h
  · refine Fallible.foldlM_ok (P := fun ops : List Operation => ∀ op ∈ ops, PathTemplate op.path)
      (by simp) ?_ h
    intro ops item ops' _ hops hitem
    obtain ⟨op, rfl, hop⟩ := loadOperation_ok hitem
    simpa [or_imp, forall_and, hop] using hops
  · cases h

/-- The base URL of an accepted manifest: an authority, and no query or fragment. -/
def Based (netlocOk : PyStr → Bool) (base : SplitUrl) : Prop :=
  base.Proper netlocOk ∧ base.query = []

theorem validateBaseUrl_ok {netlocOk : PyStr → Bool} {value : PyStr}
    (h : validateBaseUrl netlocOk value = .ok ()) :
    ∃ base, urlsplit netlocOk value = some base ∧ base.scheme ≠ [] ∧ base.netloc ≠ [] ∧
      base.query = [] ∧ base.fragment = [] := by
  simp only [validateBaseUrl, err, throw, throwThe, MonadExceptOf.throw, bind, Except.bind] at h
  split at h
  · cases h
  rename_i base hbase
  split_ifs at h with hscheme hhost huser hquery
  rw [not_or, not_not, not_not] at hquery
  refine ⟨base, hbase, ?_, ?_, hquery⟩
  · intro hnil
    rw [hnil] at hscheme
    exact hscheme (by decide)
  · intro hnil
    simp only [SplitUrl.hasHost, hnil] at hhost
    exact hhost (by decide)

theorem loadConfig_ok {netlocOk : PyStr → Bool} {data : Json} {config : RestConfig}
    (h : loadConfig netlocOk data = .ok config) :
    (∃ base, urlsplit netlocOk config.baseUrl = some base ∧ Based netlocOk base) ∧
      ∀ op ∈ config.operations, PathTemplate op.path := by
  simp only [loadConfig, err, throw, throwThe, MonadExceptOf.throw, bind, Except.bind] at h
  repeat' split at h
  all_goals cases h
  refine ⟨?_, loadOperations_ok (by assumption)⟩
  obtain ⟨base, hbase, hscheme, hnetloc, hquery, hfragment⟩ := validateBaseUrl_ok (by assumption)
  obtain ⟨path, hpath⟩ := urlsplit_rstripSlash hbase hscheme hnetloc hquery hfragment
  exact ⟨_, hpath, urlsplit_proper hpath hscheme hnetloc hfragment, hquery⟩

/-! ## Values -/

/-- A variable as the request uses it: stripped of surrounding whitespace. -/
def value (vars : Table) (name : PyStr) : PyStr :=
  match Json.find? vars name with
  | some (.str raw) => strip raw
  | _ => []

structure PathValue (v : PyStr) : Prop where
  nonempty : v ≠ []
  printable : ∀ c ∈ v, pathPrintable c = true
  noSlash : ch '/' ∉ v
  noDots : ¬ py ".." <:+: v

structure QueryValue (v : PyStr) : Prop where
  nonempty : v ≠ []
  printable : ∀ c ∈ v, queryPrintable c = true

theorem validateVariableCommon_ok {name raw v : PyStr} {context : String}
    (h : validateVariableCommon name raw context = .ok v) : v = strip raw ∧ v ≠ [] := by
  simp only [validateVariableCommon, throw, throwThe, MonadExceptOf.throw, bind, Except.bind] at h
  repeat' split at h
  all_goals cases h
  exact ⟨rfl, by assumption⟩

theorem validatePathVariable_ok {name raw v : PyStr} (h : validatePathVariable name raw = .ok v) :
    v = strip raw ∧ PathValue v := by
  simp only [validatePathVariable, throw, throwThe, MonadExceptOf.throw, bind, Except.bind] at h
  split at h
  · cases h
  rename_i value hvalue
  obtain ⟨rfl, hne⟩ := validateVariableCommon_ok hvalue
  split_ifs at h with hchars hforbidden hdots
  cases h
  refine ⟨rfl, hne, by simpa using hchars, fun hslash => hforbidden ?_, hdots⟩
  exact List.any_eq_true.2 ⟨_, hslash, by decide⟩

theorem validateQueryVariable_ok {name raw v : PyStr} (h : validateQueryVariable name raw = .ok v) :
    v = strip raw ∧ QueryValue v := by
  simp only [validateQueryVariable, throw, throwThe, MonadExceptOf.throw, bind, Except.bind] at h
  split at h
  · cases h
  rename_i value hvalue
  obtain ⟨rfl, hne⟩ := validateVariableCommon_ok hvalue
  split_ifs at h with hchars
  cases h
  exact ⟨rfl, hne, by simpa using hchars⟩

theorem pathFill_ok {vars : Table} {name v : PyStr} (h : pathFill vars name = .ok v) :
    v = quote (value vars name) ∧ PathValue (value vars name) := by
  unfold pathFill at h
  split at h
  · rename_i raw hraw
    cases hv : validatePathVariable name raw with
    | error e => rw [hv] at h; cases h
    | ok w =>
      rw [hv] at h
      cases h
      obtain ⟨rfl, hw⟩ := validatePathVariable_ok hv
      simpa only [value, hraw, true_and] using hw
  · cases h

theorem queryFill_ok {vars : Table} {name v : PyStr} (h : queryFill vars name = .ok v) :
    v = quote (value vars name) ∧ QueryValue (value vars name) := by
  unfold queryFill at h
  split at h
  · rename_i raw hraw
    cases hv : validateQueryVariable name raw with
    | error e => rw [hv] at h; cases h
    | ok w =>
      rw [hv] at h
      cases h
      obtain ⟨rfl, hw⟩ := validateQueryVariable_ok hv
      simpa only [value, hraw, true_and] using hw
  · cases h

theorem ascii_of_queryPrintable {c : CodePoint} (h : queryPrintable c = true) : c.val < 0x80 := by
  simp only [queryPrintable, pathPrintable, Bool.or_eq_true, Bool.and_eq_true, decide_eq_true_eq] at h
  rcases h with (h | rfl) | rfl
  · omega
  · decide
  · decide

theorem QueryValue.ascii {v : PyStr} (h : QueryValue v) : ∀ c ∈ v, c.val < 0x80 := fun c hc =>
  ascii_of_queryPrintable (h.printable c hc)

theorem PathValue.ascii {v : PyStr} (h : PathValue v) : ∀ c ∈ v, c.val < 0x80 := fun c hc =>
  ascii_of_queryPrintable (by rw [queryPrintable, h.printable c hc]; rfl)

/-- No character of an encoded value separates anything. -/
theorem quote_separates {v : PyStr} (hv : ∀ c ∈ v, c.val < 0x80) {sep : CodePoint}
    (hsep : quoted sep = false) : sep ∉ quote v := fun hc => by
  rw [quote_quoted hv sep hc] at hsep
  cases hsep

/-! ## Rendered templates -/

/-- The template's text with the encoded values in its holes. -/
def render (vars : Table) (template : PyStr) : PyStr :=
  fill (quote ∘ value vars) (pieces templateVar template)

theorem templateVar_avoids {sep : CodePoint} (h : sep = ch '/' ∨ sep = ch '&') :
    templateVar.Avoids sep := by
  rcases h with rfl | rfl <;> exact capture_avoids (by decide) (by decide) (by decide) (by decide)

/-- The names a part of the template refers to. -/
def references (template : PyStr) : List PyStr := names (pieces templateVar template)

theorem subPath_ok {vars : Table} {template out : PyStr}
    (h : sub (pathFill vars) (pieces templateVar template) = .ok out) :
    out = render vars template ∧ ∀ name ∈ references template, PathValue (value vars name) := by
  obtain ⟨hnames, rfl⟩ := sub_ok h (quote ∘ value vars) fun name v _ hv => (pathFill_ok hv).1.symm
  exact ⟨rfl, fun name hname => (pathFill_ok (hnames name hname)).2⟩

theorem subQuery_ok {vars : Table} {template out : PyStr}
    (h : sub (queryFill vars) (pieces templateVar template) = .ok out) :
    out = render vars template ∧ ∀ name ∈ references template, QueryValue (value vars name) := by
  obtain ⟨hnames, rfl⟩ := sub_ok h (quote ∘ value vars) fun name v _ hv => (queryFill_ok hv).1.symm
  exact ⟨rfl, fun name hname => (queryFill_ok (hnames name hname)).2⟩

/-- The pairs of the query template whose variables the caller gave. -/
def keptPairs (vars : Table) (query : PyStr) : List PyStr :=
  ((query.splitOn (ch '&')).filter (· ≠ [])).filter fun pair =>
    (references pair).all fun name => (Json.find? vars name).isSome

theorem scan_of_names_nil {p : Pattern} : ∀ {s : PyStr}, names (scan p 0 s) = [] →
    ∀ f, fill f (scan p 0 s) = s
  | [], _, _ => rfl
  | c :: s, h, f => by
    rw [scan] at h ⊢
    cases hc : p (c :: s) with
    | none =>
      rw [hc] at h
      exact congrArg (c :: ·) (scan_of_names_nil h f)
    | some found =>
      rw [hc] at h
      cases h

theorem hydratePair_ok {vars : Table} {pair : PyStr} {out : Option PyStr}
    (h : hydratePair vars pair = .ok out) :
    out = (if (references pair).all fun name => (Json.find? vars name).isSome then
      some (render vars pair) else none) ∧
    (out.isSome → ∀ name ∈ references pair, QueryValue (value vars name)) := by
  simp only [hydratePair, bind, Except.bind, pure, Except.pure] at h
  split at h
  · rename_i hnil
    cases h
    have hrender : render vars pair = pair := scan_of_names_nil hnil _
    simp [references, hnil, hrender]
  · split at h
    · rename_i hmissing
      cases h
      simp only [List.any_eq_true, Option.isNone_iff_eq_none] at hmissing
      obtain ⟨name, hname, hnone⟩ := hmissing
      have hall : ¬ (references pair).all (fun name => (Json.find? vars name).isSome) = true := by
        intro hall
        have := List.all_eq_true.1 hall name hname
        rw [hnone] at this
        cases this
      simp [hall]
    · rename_i hpresent
      split at h
      · cases h
      split at h
      · cases h
      rename_i hsub
      cases h
      obtain ⟨rfl, hvalues⟩ := subQuery_ok hsub
      have hall : (references pair).all (fun name => (Json.find? vars name).isSome) = true := by
        simpa [references, Option.ne_none_iff_isSome] using hpresent
      exact ⟨by rw [if_pos hall], fun _ => hvalues⟩

theorem mapM_hydratePair_ok {vars : Table} {pairs : List PyStr} {outs : List (Option PyStr)}
    (h : pairs.mapM (hydratePair vars) = .ok outs) :
    outs.reduceOption = (pairs.filter fun pair =>
      (references pair).all fun name => (Json.find? vars name).isSome).map (render vars) ∧
    ∀ pair ∈ pairs, ((references pair).all fun name => (Json.find? vars name).isSome) →
      ∀ name ∈ references pair, QueryValue (value vars name) := by
  induction pairs generalizing outs with
  | nil =>
    cases h
    exact ⟨rfl, by simp⟩
  | cons pair pairs ih =>
    rw [List.mapM_cons] at h
    cases hpair : hydratePair vars pair with
    | error e => rw [hpair] at h; cases h
    | ok out =>
      cases hrest : pairs.mapM (hydratePair vars) with
      | error e => rw [hpair, hrest] at h; cases h
      | ok rest =>
        rw [hpair, hrest] at h
        cases h
        obtain ⟨hout, hvalues⟩ := hydratePair_ok hpair
        obtain ⟨hmap, hall⟩ := ih hrest
        refine ⟨?_, ?_⟩
        · rw [List.filter_cons]
          split_ifs at hout ⊢ with hkept
          · rw [hout, List.map_cons, ← hmap]
            rfl
          · rw [hout, ← hmap]
            rfl
        · rintro p (_ | ⟨_, hp⟩) hkept
          · rw [if_pos hkept] at hout
            exact hvalues (by rw [hout]; rfl)
          · exact hall p hp hkept

/-- The query template's kept pairs, filled. -/
structure QueryConfined (vars : Table) (template query : PyStr) : Prop where
  rendered : query = [ch '&'].intercalate ((keptPairs vars template).map (render vars))
  pairs : keptPairs vars template ≠ [] →
    query.splitOn (ch '&') = (keptPairs vars template).map (render vars)
  values : ∀ pair ∈ keptPairs vars template, ∀ name ∈ references pair,
    decode (quote (value vars name)) = value vars name ∧
      ∀ sep ∈ [ch '&', ch '=', ch '#'], sep ∉ quote (value vars name)

theorem hydrateQuery_ok {vars : Table} {template query : PyStr}
    (h : hydrateQuery template vars = .ok query) :
    QueryConfined vars template query ∧ ∀ pair ∈ keptPairs vars template,
      ∀ name ∈ references pair, QueryValue (value vars name) := by
  simp only [hydrateQuery, bind, Except.bind] at h
  split at h
  · cases h
  rename_i outs houts
  cases h
  obtain ⟨hmap, hvalues⟩ := mapM_hydratePair_ok houts
  have hquery : ∀ pair ∈ keptPairs vars template, ∀ name ∈ references pair,
      QueryValue (value vars name) := fun pair hpair =>
    hvalues pair (List.mem_filter.1 hpair).1 (List.mem_filter.1 hpair).2
  have hseparates : ∀ sep ∈ [ch '&', ch '=', ch '#'], quoted sep = false := by
    intro sep hsep
    simp only [List.mem_cons, List.not_mem_nil, or_false] at hsep
    rcases hsep with rfl | rfl | rfl <;> rfl
  refine ⟨⟨congrArg _ hmap, fun hne => ?_, fun pair hpair name hname => ?_⟩, hquery⟩
  · rw [hmap]
    refine List.splitOn_intercalate _ ?_ fun hnil => hne (List.map_eq_nil_iff.1 hnil)
    intro l hl hmem
    obtain ⟨pair, hpair, rfl⟩ := List.mem_map.1 hl
    rcases mem_fill hmem with hchr | ⟨name, hname, hmem⟩
    · have hsplit := (List.mem_filter.1 (List.mem_filter.1 hpair).1).1
      exact not_mem_of_mem_splitOn hsplit (mem_of_chr_mem_scan hchr)
    · exact quote_separates (hquery pair hpair name hname).ascii (by decide) hmem
  · have hascii := (hquery pair hpair name hname).ascii
    have hdecode := decode_quote hascii []
    rw [List.append_nil, decode, List.append_nil] at hdecode
    exact ⟨hdecode, fun sep hsep => quote_separates hascii (hseparates sep hsep)⟩

/-! ## Paths -/

/-- The variables of the call. -/
def callerVariables (arguments : Table) : Table :=
  match Json.find? arguments (py "variables") with
  | some (.obj vars) => vars
  | _ => []

theorem hydratePath_ok {op : Operation} {arguments : Table} {rel : PyStr}
    (h : hydratePath op arguments = .ok rel) : let vars := callerVariables arguments
    let (path, query) := cut (ch '?') op.path
    (∀ name ∈ references path, PathValue (value vars name)) ∧ ∃ q, QueryConfined vars query q ∧
      (∀ pair ∈ keptPairs vars query, ∀ name ∈ references pair, QueryValue (value vars name)) ∧
      rel = render vars path ++ queryPart q := by
  simp only [hydratePath, bind, Except.bind] at h
  split at h
  · cases h
  rename_i vars hvars
  have hvars : callerVariables arguments = vars := by
    unfold member at hvars
    unfold callerVariables
    repeat' split at hvars
    all_goals cases hvars
    all_goals simp [*]
  split at h
  · cases h
  rename_i rendered hrendered
  obtain ⟨rfl, hpath⟩ := subPath_ok hrendered
  simp only [hvars]
  refine ⟨hpath, ?_⟩
  split at h
  · rename_i hnone
    cases h
    have hkept : keptPairs vars [] = [] := by simp [keptPairs]
    have hempty : (cut (ch '?') op.path).2 = [] := by rw [cut_of_not_mem hnone]
    rw [hempty]
    refine ⟨[], ⟨?_, ?_, ?_⟩, ?_, ?_⟩ <;> simp [hkept, queryPart]
  · split at h
    · cases h
    rename_i q hq
    cases h
    obtain ⟨hconfined, hvalues⟩ := hydrateQuery_ok hq
    refine ⟨q, hconfined, hvalues, ?_⟩
    unfold queryPart
    split_ifs <;> simp

/-! ## Segments -/

/-- One path segment against its template segment. -/
structure SegmentConfined (vars : Table) (seg template : PyStr) : Prop where
  decoded : unbroken (value vars) [] (pieces templateVar template) = true →
    decode seg = decodeAround (value vars) [] (pieces templateVar template)
  dot : seg = py "." → template = py "." ∨
    ∃ name, pieces templateVar template = [.hole name] ∧ value vars name = py "."
  dots : seg = py ".." → template = py ".." ∨ ∃ p q, pieces templateVar template = [p, q]

theorem quote_of_plain {v : PyStr} (h : ∀ c ∈ quote v, c ≠ percent) : quote v = v := by
  induction v with
  | nil => rfl
  | cons c v ih =>
    rw [quote_cons] at h ⊢
    rw [ih fun d hd => h d (List.mem_append_right _ hd)]
    unfold quoteChar at h ⊢
    split_ifs at h ⊢ with hu
    · rfl
    · obtain ⟨b, bs, hbs⟩ := List.exists_cons_of_ne_nil (utf8_ne_nil c)
      refine absurd rfl (h percent (List.mem_append_left _ ?_))
      simp [hbs, escapeByte]

theorem quote_of_dots {v : PyStr} (h : ∀ c ∈ quote v, c = ch '.') : quote v = v :=
  quote_of_plain fun c hc => by
    rw [h c hc]
    decide

theorem quote_ne_nil {v : PyStr} (h : v ≠ []) : quote v ≠ [] := by
  intro hnil
  have hplain := quote_of_plain (v := v) (by simp [hnil])
  exact h (hplain ▸ hnil)

section Dots
variable {vars : Table} {ps : List Piece} (hv : ∀ name ∈ names ps, value vars name ≠ [])
include hv

theorem pieces_of_fill_nil (h : fill (quote ∘ value vars) ps = []) : ps = [] := by
  cases ps with
  | nil => rfl
  | cons p ps =>
    cases p with
    | chr c => cases h
    | hole name =>
      rw [fill] at h
      exact absurd (List.append_eq_nil_iff.1 h).1 (quote_ne_nil (hv name (List.mem_cons_self ..)))

theorem pieces_of_fill_dot (h : fill (quote ∘ value vars) ps = [ch '.']) :
    ps = [.chr (ch '.')] ∨ ∃ name, ps = [.hole name] ∧ value vars name = [ch '.'] := by
  cases ps with
  | nil => cases h
  | cons p ps =>
    cases p with
    | chr c =>
      obtain ⟨rfl, hnil⟩ := List.cons.inj h
      have htail : ∀ n ∈ names ps, value vars n ≠ [] := hv
      exact .inl (by rw [pieces_of_fill_nil htail hnil])
    | hole name =>
      rw [fill, Function.comp_apply] at h
      have hne := quote_ne_nil (hv name (List.mem_cons_self ..))
      rcases List.append_eq_singleton_iff.1 h with ⟨hnil, -⟩ | ⟨hdot, hnil⟩
      · exact absurd hnil hne
      · have hplain := quote_of_dots (v := value vars name) (by simp [hdot])
        have hrest := pieces_of_fill_nil (fun n hn => hv n (List.mem_cons_of_mem _ hn)) hnil
        exact .inr ⟨name, by rw [hrest], hplain ▸ hdot⟩

theorem pieces_of_fill_dots (hno : ∀ name ∈ names ps, ¬ py ".." <:+: value vars name)
    (h : fill (quote ∘ value vars) ps = [ch '.', ch '.']) :
    ps = [.chr (ch '.'), .chr (ch '.')] ∨ ∃ p q, ps = [p, q] := by
  cases ps with
  | nil => cases h
  | cons p ps =>
    cases p with
    | chr c =>
      obtain ⟨rfl, hdot⟩ := List.cons.inj h
      have htail : ∀ n ∈ names ps, value vars n ≠ [] := hv
      rcases pieces_of_fill_dot htail hdot with rfl | ⟨name, rfl, -⟩
      · exact .inl rfl
      · exact .inr ⟨_, _, rfl⟩
    | hole name =>
      rw [fill, Function.comp_apply] at h
      have hne := quote_ne_nil (hv name (List.mem_cons_self ..))
      have htail : ∀ n ∈ names ps, value vars n ≠ [] := fun n hn => hv n (List.mem_cons_of_mem _ hn)
      rcases List.append_eq_cons_iff.1 h with ⟨hnil, -⟩ | ⟨rest, hq, hrest⟩
      · exact absurd hnil hne
      · rcases List.append_eq_singleton_iff.1 hrest.symm with ⟨rfl, hdot⟩ | ⟨rfl, hnil⟩
        · rcases pieces_of_fill_dot htail hdot with rfl | ⟨name', rfl, -⟩ <;> exact .inr ⟨_, _, rfl⟩
        · have hplain := quote_of_dots (v := value vars name) (by simp [hq])
          refine absurd ?_ (hno name (List.mem_cons_self ..))
          rw [← hplain, hq]
          exact List.infix_refl _

end Dots

/-- A template segment made of literal characters is those characters. -/
theorem eq_of_pieces {p : Pattern} {s t : PyStr} (h : pieces p s = t.map .chr) : s = t := by
  have hnames : ∀ t : PyStr, names (t.map Piece.chr) = [] := fun t => by
    induction t with
    | nil => rfl
    | cons c t ih => exact ih
  have hfill : ∀ t : PyStr, fill id (t.map Piece.chr) = t := fun t => by
    induction t with
    | nil => rfl
    | cons c t ih => rw [List.map_cons, fill, ih]
  have hself : fill id (pieces p s) = s := scan_of_names_nil (by rw [← hnames t, ← h]; rfl) id
  rw [← hself, h, hfill]

theorem segment_confined {vars : Table} {template : PyStr}
    (hv : ∀ name ∈ references template, PathValue (value vars name)) :
    SegmentConfined vars (render vars template) template where
  decoded h := by
    have hdecode := decode_fill (fun name hname => (hv name hname).ascii) h
    rwa [List.nil_append] at hdecode
  dot h := by
    rcases pieces_of_fill_dot (fun name hname => (hv name hname).nonempty) h with h | h
    · exact .inl (eq_of_pieces (t := [ch '.']) h)
    · exact .inr h
  dots h := by
    rcases pieces_of_fill_dots (fun name hname => (hv name hname).nonempty)
      (fun name hname => (hv name hname).noDots) h with h | h
    · exact .inl (eq_of_pieces (t := [ch '.', ch '.']) h)
    · exact .inr h

/-! ## The built URL -/

/-- The URL is the base's scheme, authority and path, then the template's own segments and pairs. -/
def Confined (netlocOk : PyStr → Bool) (config : RestConfig) (op : Operation) (vars : Table)
    (url : PyStr) : Prop :=
  ∃ base path query, urlsplit netlocOk config.baseUrl = some base ∧
    url = base.scheme ++ py "://" ++ base.netloc ++ rstripSlash base.path ++ path ++ queryPart query ∧
    urlsplit netlocOk url =
      some ⟨base.scheme, base.netloc, rstripSlash base.path ++ path, query, []⟩ ∧
    List.Forall₂ (SegmentConfined vars) (path.splitOn (ch '/'))
      ((cut (ch '?') op.path).1.splitOn (ch '/')) ∧
    QueryConfined vars (cut (ch '?') op.path).2 query

theorem quoted_safe {c : CodePoint} (h : quoted c = true) :
    c ≠ ch '/' ∧ c ≠ ch '?' ∧ c ≠ ch '#' ∧ unsafeByte c = false := by
  refine ⟨?_, ?_, ?_, ?_⟩
  · rintro rfl
    cases h
  · rintro rfl
    cases h
  · rintro rfl
    cases h
  · rw [Bool.eq_false_iff]
    intro hc
    simp only [unsafeByte, Bool.or_eq_true, beq_iff_eq] at hc
    simp only [quoted, unreserved, Bool.or_eq_true, Bool.and_eq_true, decide_eq_true_eq, beq_iff_eq] at h
    rcases h with h | rfl
    · omega
    · revert hc
      decide

theorem unsafeByte_of_queryPrintable {c : CodePoint} (h : queryPrintable c = true) :
    unsafeByte c = false := by
  simp only [queryPrintable, pathPrintable, Bool.or_eq_true, Bool.and_eq_true, decide_eq_true_eq] at h
  simp only [unsafeByte, Bool.or_eq_false_iff, beq_eq_false_iff_ne]
  rcases h with (h | rfl) | rfl
  · omega
  · decide
  · decide

/-- A character of a rendered template is the template's own or an encoded value's. -/
theorem mem_render {vars : Table} {template : PyStr} {c : CodePoint}
    (hv : ∀ name ∈ references template, ∀ c ∈ value vars name, c.val < 0x80)
    (h : c ∈ render vars template) : c ∈ template ∨ quoted c = true := by
  rcases mem_fill h with hchr | ⟨name, hname, hc⟩
  · exact .inl (mem_of_chr_mem_scan hchr)
  · exact .inr (quote_quoted (hv name hname) c hc)

theorem mem_intercalate {sep c : CodePoint} {segs : List PyStr} (h : c ∈ [sep].intercalate segs) :
    c = sep ∨ ∃ seg ∈ segs, c ∈ seg := by
  induction segs with
  | nil => cases h
  | cons x segs ih =>
    cases segs with
    | nil => exact .inr ⟨x, List.mem_cons_self .., by simpa using h⟩
    | cons y segs =>
      rw [List.intercalate_cons_cons, List.append_assoc, List.mem_append] at h
      rcases h with h | h
      · exact .inr ⟨x, List.mem_cons_self .., h⟩
      · rcases List.mem_cons.1 h with rfl | h
        · exact .inl rfl
        · exact (ih h).imp_right fun ⟨seg, hseg, hc⟩ => ⟨seg, List.mem_cons_of_mem _ hseg, hc⟩

section Parts
variable {vars : Table} {op : Operation} (hop : PathTemplate op.path)
include hop

theorem render_path_chars (hv : ∀ name ∈ references (cut (ch '?') op.path).1, PathValue (value vars name)) :
    ∀ c ∈ render vars (cut (ch '?') op.path).1, c ≠ ch '?' ∧ c ≠ ch '#' ∧ unsafeByte c = false := by
  intro c hc
  rcases mem_render (fun name hname => (hv name hname).ascii) hc with hmem | hq
  · refine ⟨?_, ?_, unsafeByte_of_queryPrintable ?_⟩
    · rintro rfl
      exact not_mem_cut _ _ hmem
    · rintro rfl
      exact hop.noFragment (mem_of_mem_cut (.inl hmem))
    · rw [queryPrintable, hop.pathChars c hmem]
      rfl
  · exact ⟨(quoted_safe hq).2.1, (quoted_safe hq).2.2.1, (quoted_safe hq).2.2.2⟩

theorem query_chars {q : PyStr} (hq : QueryConfined vars (cut (ch '?') op.path).2 q)
    (hv : ∀ pair ∈ keptPairs vars (cut (ch '?') op.path).2, ∀ name ∈ references pair,
      QueryValue (value vars name)) : ∀ c ∈ q, c ≠ ch '#' ∧ unsafeByte c = false := by
  intro c hc
  rw [hq.rendered] at hc
  rcases mem_intercalate hc with rfl | ⟨seg, hseg, hc⟩
  · decide
  · obtain ⟨pair, hpair, rfl⟩ := List.mem_map.1 hseg
    rcases mem_render (fun name hname => (hv pair hpair name hname).ascii) hc with hmem | hq
    · have hsplit := (List.mem_filter.1 (List.mem_filter.1 hpair).1).1
      have htemplate := mem_of_mem_splitOn hsplit hmem
      refine ⟨?_, unsafeByte_of_queryPrintable (hop.queryChars c htemplate)⟩
      rintro rfl
      exact hop.noFragment (mem_of_mem_cut (.inr htemplate))
    · exact ⟨(quoted_safe hq).2.2.1, (quoted_safe hq).2.2.2⟩

/-- The rendered path starts with the template's single slash. -/
theorem render_path_head (hv : ∀ name ∈ references (cut (ch '?') op.path).1, PathValue (value vars name)) :
    ∃ t, render vars (cut (ch '?') op.path).1 = ch '/' :: t ∧ t.head? ≠ some (ch '/') := by
  have hhead := hop.head
  have hsingle := hop.single
  unfold references at hv
  unfold render
  obtain ⟨t, ht⟩ : ∃ t, (cut (ch '?') op.path).1 = ch '/' :: t := by
    cases hcut : (cut (ch '?') op.path).1 with
    | nil => rw [hcut] at hhead; cases hhead
    | cons c t => rw [hcut] at hhead; exact ⟨t, by rw [Option.some.inj hhead]⟩
  have havoid : templateVar.Avoids (ch '/') := templateVar_avoids (.inl rfl)
  have hpieces : pieces templateVar (ch '/' :: t) = .chr (ch '/') :: pieces templateVar t :=
    pieces_append_sep havoid [] t
  rw [ht] at hv hsingle ⊢
  rw [hpieces] at hv ⊢
  refine ⟨_, rfl, ?_⟩
  cases t with
  | nil => simp [pieces, scan, fill]
  | cons c t =>
    have hc : c ≠ ch '/' := by simpa using hsingle
    simp only [pieces, scan] at hv ⊢
    cases hp : templateVar (c :: t) with
    | none =>
      simpa [fill] using hc
    | some found =>
      rw [hp] at hv
      obtain ⟨d, v, hquote⟩ := List.exists_cons_of_ne_nil
        (quote_ne_nil (hv found.1 (List.mem_cons_self ..)).nonempty)
      have hd : quoted d = true :=
        quote_quoted (hv found.1 (List.mem_cons_self ..)).ascii d (by rw [hquote]; exact List.mem_cons_self ..)
      rw [fill, Function.comp_apply, hquote]
      simpa using (quoted_safe hd).1

end Parts

theorem rstripSlash_isPrefix (s : PyStr) : rstripSlash s <+: s := by
  rw [rstripSlash, ← List.reverse_suffix, List.reverse_reverse]
  exact List.dropWhile_suffix _

theorem joinUrl_ok {netlocOk : PyStr → Bool} {baseUrl rel url : PyStr} {base : SplitUrl}
    (hbase : urlsplit netlocOk baseUrl = some base) (h : joinUrl netlocOk baseUrl rel = .ok url)
    {path query : PyStr} (hrel : urlsplit netlocOk rel = some ⟨[], [], path, query, []⟩) :
    url = (⟨base.scheme, base.netloc, rstripSlash base.path ++ path, query, []⟩ : SplitUrl).unsplit := by
  rw [joinUrl, hbase, hrel] at h
  cases h
  rfl

/-- A rendered path is a path and a query. -/
theorem hydratePath_split {netlocOk : PyStr → Bool} {op : Operation} {arguments : Table} {rel : PyStr}
    (hop : PathTemplate op.path) (h : hydratePath op arguments = .ok rel) :
    let vars := callerVariables arguments
    (∀ name ∈ references (cut (ch '?') op.path).1, PathValue (value vars name)) ∧ ∃ query,
      urlsplit netlocOk rel = some ⟨[], [], render vars (cut (ch '?') op.path).1, query, []⟩ ∧
      QueryConfined vars (cut (ch '?') op.path).2 query ∧
      ∀ pair ∈ keptPairs vars (cut (ch '?') op.path).2, ∀ name ∈ references pair,
        QueryValue (value vars name) := by
  obtain ⟨hpath, query, hquery, hvalues, rfl⟩ := hydratePath_ok h
  have hchars := render_path_chars hop hpath
  have hqchars := query_chars hop hquery hvalues
  obtain ⟨t, hrender, hsingle⟩ := render_path_head hop hpath
  have hmark : ch '?' ∉ render (callerVariables arguments) (cut (ch '?') op.path).1 := fun hc =>
    (hchars _ hc).1 rfl
  have hsplit : urlsplit netlocOk (render (callerVariables arguments) (cut (ch '?') op.path).1 ++
      queryPart query) = _ := urlsplit_rel
    (by rw [hrender]; rfl) (by
      rw [hrender, List.cons_append, List.getElem?_cons_succ]
      cases t with
      | nil =>
        unfold queryPart
        split_ifs
        · exact fun h => absurd (Option.some.inj h) (by decide)
        · exact fun h => by cases h
      | cons c t => simpa using hsingle) (by
      intro c hc
      rcases List.mem_append.1 hc with hc | hc
      · exact (hchars c hc).2
      · exact queryPart_chars hqchars c hc)
  rw [cut_queryPart hmark] at hsplit
  exact ⟨hpath, query, hsplit, hquery, hvalues⟩

theorem buildUrl_confined {netlocOk : PyStr → Bool} {config : RestConfig} {op : Operation}
    {arguments : Table} {url : PyStr} {base : SplitUrl}
    (hbase : urlsplit netlocOk config.baseUrl = some base) (hproper : base.Proper netlocOk)
    (hop : PathTemplate op.path) (h : buildUrl netlocOk config op arguments = .ok url) :
    Confined netlocOk config op (callerVariables arguments) url := by
  simp only [buildUrl, bind, Except.bind] at h
  split at h
  · cases h
  rename_i rel hrel
  obtain ⟨hpath, query, hsplit, hquery, hvalues⟩ := @hydratePath_split netlocOk _ _ _ hop hrel
  have hchars := render_path_chars hop hpath
  have hqchars := query_chars hop hquery hvalues
  obtain ⟨t, hrender, -⟩ := render_path_head hop hpath
  obtain rfl := joinUrl_ok hbase h hsplit
  have hurl : SplitUrl.Proper netlocOk ⟨base.scheme, base.netloc,
      rstripSlash base.path ++ render (callerVariables arguments) (cut (ch '?') op.path).1, query, []⟩ := by
    refine ⟨hproper.schemeHead, hproper.schemeChars, hproper.netloc, hproper.netlocOk,
      hproper.netlocChars, ?_, ?_, hqchars, rfl⟩
    · right
      cases hstrip : rstripSlash base.path with
      | nil => rw [hrender]; rfl
      | cons c s =>
        have hpre := rstripSlash_isPrefix base.path
        rw [hstrip] at hpre
        obtain ⟨u, hu⟩ := hpre
        have hhead := hproper.pathHead
        rw [← hu] at hhead
        simpa using hhead
    · intro c hc
      rcases List.mem_append.1 hc with hc | hc
      · exact hproper.pathChars c ((rstripSlash_isPrefix _).subset hc)
      · exact hchars c hc
  refine ⟨base, _, query, hbase, ?_, urlsplit_unsplit hurl, ?_, hquery⟩
  · rw [hurl.unsplit_eq]
    simp [py, ch]
  · have havoid : templateVar.Avoids (ch '/') := templateVar_avoids (.inl rfl)
    have hslash : ∀ name ∈ references (cut (ch '?') op.path).1,
        ch '/' ∉ quote (value (callerVariables arguments) name) := fun name hname =>
      quote_separates (hpath name hname).ascii (by decide)
    rw [show (render _ _).splitOn (ch '/') = _ from splitOn_fill havoid hslash,
      List.forall₂_map_left_iff, List.forall₂_same]
    intro seg hseg
    exact segment_confined fun name hname => hpath name (names_of_segment havoid hseg hname)

/-- A request that was built has the URL of its operation. -/
theorem build_url {netlocOk : PyStr → Bool} {config : RestConfig} {opName : PyStr} {op : Operation}
    (hop : config.operation? opName = some op) {arguments : Table} {maxBody : Nat}
    {secrets : PyStr → Option PyStr} {req : OutboundRequest}
    (h : (build netlocOk config opName (.obj arguments) maxBody secrets).result = .ok req) :
    buildUrl netlocOk config op arguments = .ok req.url := by
  simp only [build, buildRequest, hop] at h
  obtain ⟨url, hurl, h⟩ := Prog.run_bind_ok.1 h
  obtain ⟨headers, -, h⟩ := Prog.run_bind_ok.1 h
  obtain ⟨body, -, h⟩ := Prog.run_bind_ok.1 h
  cases h
  exact run_pureStep.1 hurl

/-- Every URL the forwarder builds from an accepted manifest is confined to its operation's
template. -/
theorem url_confined {netlocOk : PyStr → Bool} {data : Json} {config : RestConfig}
    (hload : loadConfig netlocOk data = .ok config) {opName : PyStr} {op : Operation}
    (hop : config.operation? opName = some op) {arguments : Table} {maxBody : Nat}
    {secrets : PyStr → Option PyStr} {req : OutboundRequest}
    (hbuild : (build netlocOk config opName (.obj arguments) maxBody secrets).result = .ok req) :
    Confined netlocOk config op (callerVariables arguments) req.url := by
  obtain ⟨⟨base, hbase, hproper, -⟩, hops⟩ := loadConfig_ok hload
  exact buildUrl_confined hbase hproper (hops op (List.mem_of_find?_eq_some hop)) (build_url hop hbuild)

namespace Sample

def manifest : Json := .obj [
  (py "id", .str (py "jira")), (py "type", .str (py "rest")),
  (py "base_url", .str (py "https://api.example.test/v1/")),
  (py "operations", .arr [.obj [
    (py "name", .str (py "get_user")), (py "verb", .str (py "GET")),
    (py "path", .str (py "/users/\x7buser_id\x7d?q=\x7bquery\x7d"))]])]

def getUser : Operation where
  name := py "get_user"
  risk := py "unknown"
  description := []
  verb := .get
  path := py "/users/\x7buser_id\x7d?q=\x7bquery\x7d"
  allowedHeaders := []
  bodyKind := .none
  bodyContentType := none
  bodySubstitution := false

def config : RestConfig where
  toolId := py "jira"
  port := none
  baseUrl := py "https://api.example.test/v1"
  operations := [getUser]
  secrets := []

def arguments (user query : String) : Table :=
  [(py "variables", .obj [(py "user_id", .str (py user)), (py "query", .str (py query))])]

def request (url : String) : OutboundRequest := ⟨py "GET", py url, [], none⟩

theorem loaded : loadConfig (fun _ => true) manifest = .ok config := by rfl

theorem built : (build (fun _ => true) config (py "get_user") (.obj (arguments " u+42" "x&y ")) 1024
    fun _ => none).result = .ok (request "https://api.example.test/v1/users/u%2B42?q=x%26y") := by rfl

end Sample

theorem url_confined_user : Confined (fun _ => true) Sample.config Sample.getUser
    (callerVariables (Sample.arguments " u+42" "x&y "))
    (py "https://api.example.test/v1/users/u%2B42?q=x%26y") :=
  url_confined Sample.loaded rfl Sample.built

/-- A lone dot is an accepted value, and fills a segment that the template does not have so. -/
theorem single_dot_segment : loadConfig (fun _ => true) Sample.manifest = .ok Sample.config ∧
    (build (fun _ => true) Sample.config (py "get_user") (.obj (Sample.arguments "." "x")) 1024
      fun _ => none).result = .ok (Sample.request "https://api.example.test/v1/users/.?q=x") ∧
    urlsplit (fun _ => true) (py "https://api.example.test/v1/users/.?q=x") =
      some ⟨py "https", py "api.example.test", py "/v1/users/.", py "q=x", []⟩ ∧
    py "." ∈ (py "/users/.").splitOn (ch '/') ∧
    py "." ∉ (cut (ch '?') Sample.getUser.path).1.splitOn (ch '/') :=
  ⟨Sample.loaded, by rfl, by decide +kernel, by decide +kernel, by decide +kernel⟩

end Toolstack.Forwarder
