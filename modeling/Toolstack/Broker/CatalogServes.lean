import Toolstack.Broker.Catalog
import Toolstack.Fallible

/-! What a loaded catalog serves: an operation that it lists is looked up and described exactly
where its manifest's values have a rendering as JSON. -/

namespace Toolstack

namespace PyValue

/-! ## Values that are written -/

def Encodes (allowNan : Bool) (depth : Nat) (v : PyValue) : Prop := ∃ j, v.json? allowNan depth = some j

/-- A value of at most `depth` levels without dates, without `nan` and infinities, and without
integers of more than 4300 digits. -/
inductive Plain : Nat → PyValue → Prop
  | none {depth : Nat} : Plain depth .none
  | bool {depth : Nat} {b : Bool} : Plain depth (.bool b)
  | int {depth : Nat} {n : Int} (h : writable n) : Plain depth (.int n)
  | float {depth : Nat} {x : FloatText} : Plain depth (.float (.finite x))
  | str {depth : Nat} {s : PyStr} : Plain depth (.str s)
  | list {depth : Nat} {xs : List PyValue} (h : ∀ x ∈ xs, Plain depth x) : Plain (depth + 1) (.list xs)
  | dict {depth : Nat} {kvs : PyDict} (h : ∀ kv ∈ kvs, Plain depth kv.2) : Plain (depth + 1) (.dict kvs)

variable {allowNan : Bool} {depth : Nat}

attribute [local simp] json?

theorem encodes_str (s : PyStr) : Encodes allowNan depth (.str s) := ⟨_, by rw [json?]⟩

theorem encodes_int (n : Int) : Encodes allowNan depth (.int n) ↔ writable n = true := by
  rw [Encodes, json?]
  split_ifs with h
  · simp [h]
  · simp [h]

theorem encodes_list {xs : List PyValue} :
    Encodes allowNan (depth + 1) (.list xs) ↔ ∀ x ∈ xs, Encodes allowNan depth x := by
  simp only [Encodes, json?, Option.map_eq_some_iff]
  rw [← Fallible.exists_mapM_some]
  constructor
  · rintro ⟨_, ys, hys, -⟩
    exact ⟨ys, hys⟩
  · rintro ⟨ys, hys⟩
    exact ⟨_, ys, hys, rfl⟩

theorem encodes_dict {kvs : PyDict} :
    Encodes allowNan (depth + 1) (.dict kvs) ↔ ∀ kv ∈ kvs, Encodes allowNan depth kv.2 := by
  simp only [Encodes, json?, Option.map_eq_some_iff]
  constructor
  · rintro ⟨_, ys, hys, -⟩ kv hkv
    obtain ⟨_, j, hj, -⟩ := (Fallible.exists_mapM_some.1 ⟨ys, hys⟩ kv hkv).imp fun _ h => Option.map_eq_some_iff.1 h
    exact ⟨j, hj⟩
  · intro h
    obtain ⟨ys, hys⟩ := Fallible.exists_mapM_some.2 fun kv hkv =>
      (h kv hkv).imp' (Prod.mk kv.1) fun j hj => Option.map_eq_some_iff.2 ⟨j, hj, rfl⟩
    exact ⟨_, ys, hys, rfl⟩

theorem encodes_list_zero {xs : List PyValue} : ¬Encodes allowNan 0 (.list xs) := by
  rintro ⟨j, hj⟩
  cases hj

theorem encodes_dict_zero {kvs : PyDict} : ¬Encodes allowNan 0 (.dict kvs) := by
  rintro ⟨j, hj⟩
  cases hj

theorem encodes_date {text : PyStr} : ¬Encodes allowNan depth (.date text) := by
  rintro ⟨j, hj⟩
  rw [json?] at hj
  cases hj

theorem Plain.encodes {v : PyValue} (h : Plain depth v) (allowNan : Bool) : Encodes allowNan depth v := by
  induction h with
  | none => exact ⟨_, by rw [json?]⟩
  | bool => exact ⟨_, by rw [json?]⟩
  | int h => exact (encodes_int _).2 h
  | float => exact ⟨_, by rw [json?]⟩
  | str => exact encodes_str _
  | list _ ih => exact encodes_list.2 ih
  | dict _ ih => exact encodes_dict.2 ih

theorem Plain.succ {v : PyValue} (h : Plain depth v) : Plain (depth + 1) v := by
  induction h with
  | none => exact .none
  | bool => exact .bool
  | int h => exact .int h
  | float => exact .float
  | str => exact .str
  | list _ ih => exact .list ih
  | dict _ ih => exact .dict ih

theorem encodes_float {x : PyFloat} (h : Encodes false depth (.float x)) : ∃ y, x = .finite y := by
  obtain ⟨j, hj⟩ := h
  cases x with
  | finite y => exact ⟨y, rfl⟩
  | nan =>
    rw [json?] at hj
    · cases hj
    · simp
  | inf negative =>
    rw [json?] at hj
    · cases hj
    · simp

/-- The depth is bounded by one rendering, and the floats are finite by another. -/
theorem plain_of_encodes : ∀ {depth depth' : Nat} {v : PyValue}, Encodes true depth v → Encodes false depth' v →
    Plain depth v
  | _, _, .none, _, _ => .none
  | _, _, .bool _, _, _ => .bool
  | _, _, .int n, h, _ => .int ((encodes_int n).1 h)
  | _, _, .float x, _, h' => by
    obtain ⟨y, rfl⟩ := encodes_float h'
    exact .float
  | _, _, .str _, _, _ => .str
  | _, _, .date _, h, _ => absurd h encodes_date
  | 0, _, .list _, h, _ => absurd h encodes_list_zero
  | 0, _, .dict _, h, _ => absurd h encodes_dict_zero
  | _ + 1, 0, .list _, _, h' => absurd h' encodes_list_zero
  | _ + 1, 0, .dict _, _, h' => absurd h' encodes_dict_zero
  | _ + 1, _ + 1, .list _, h, h' =>
    .list fun x hx => plain_of_encodes (encodes_list.1 h x hx) (encodes_list.1 h' x hx)
  | _ + 1, _ + 1, .dict _, h, h' =>
    .dict fun kv hkv => plain_of_encodes (encodes_dict.1 h kv hkv) (encodes_dict.1 h' kv hkv)

end PyValue

namespace Broker.Catalog

open Fallible
open PyValue (Encodes Plain encodes_dict encodes_int encodes_str plain_of_encodes)

/-! ## The operations of a manifest -/

/-- The values of an operation's table that no check looks at. -/
def opFields (o : PyDict) : List PyValue :=
  [PyDict.getD o "risk" (.str (py "unknown")), PyDict.getD o "description" (.str []), PyDict.getD o "args" (.list [])]

theorem fieldValues_opOf (o : PyDict) (fields : List PyStr) (rest : Option RestFields) :
    (opOf o fields rest).fieldValues.map Prod.snd = opFields o := rfl

theorem addOperation_ok {host : Option String} {ops ops' : Mapping PyStr Op} {x : PyValue}
    (h : addOperation host ops x = .ok ops') : ∃ o name fields rest, x = .dict o ∧
      Mapping.get ops name = none ∧ ops' = ops ++ [(name, opOf o fields rest)] := by
  unfold addOperation at h
  split at h
  next o =>
    split at h
    next name _ =>
      rw [guard_ok] at h
      obtain ⟨-, h⟩ := h
      rw [guard_ok] at h
      obtain ⟨hnew, h⟩ := h
      simp only [bind_ok, pure_ok] at h
      obtain ⟨rest, -, fields, -, rfl⟩ := h
      exact ⟨o, name, fields, rest, rfl, by simpa using hnew, rfl⟩
    · cases h
  · cases h

theorem nodup_append_new {ops more : Mapping PyStr Op} (h : (ops.map Prod.fst).Nodup)
    (hmore : (more.map Prod.fst).Nodup) (hnew : ∀ kv ∈ more, Mapping.get ops kv.1 = none) :
    ((ops ++ more).map Prod.fst).Nodup := by
  rw [List.map_append, List.nodup_append]
  refine ⟨h, hmore, ?_⟩
  intro k hk k' hk' heq
  obtain ⟨kv, hkv, rfl⟩ := List.mem_map.1 hk
  obtain ⟨kv', hkv', rfl⟩ := List.mem_map.1 hk'
  have hfound := (Mapping.get_iff_mem h).2 hkv
  rw [heq, hnew kv' hkv'] at hfound
  cases hfound

/-- Each item of `operations` is a table, which its operation is read from. -/
theorem operations_ok {host : Option String} {xs : List PyValue} {ops : Mapping PyStr Op}
    (h : xs.foldlM (addOperation host) [] = .ok ops) : (ops.map Prod.fst).Nodup ∧
      List.Forall₂ (fun x y => ∃ o fields rest, x = .dict o ∧ y.2 = opOf o fields rest) xs ops := by
  constructor
  · refine foldlM_ok (P := fun ops => (ops.map Prod.fst).Nodup) List.nodup_nil ?_ h
    intro ops x ops' _ hops hstep
    obtain ⟨o, name, fields, rest, -, hnew, rfl⟩ := addOperation_ok hstep
    exact nodup_append_new hops (by simp) (by simpa using hnew)
  · have happend := foldlM_append
      (R := fun x (y : PyStr × Op) => ∃ o fields rest, x = .dict o ∧ y.2 = opOf o fields rest) (fun ops x ops' hstep => by
        obtain ⟨o, name, fields, rest, hx, -, rfl⟩ := addOperation_ok hstep
        exact ⟨_, rfl, o, fields, rest, hx, rfl⟩) h
    obtain ⟨ys, rfl, hys⟩ := happend
    exact hys

theorem injectRefresh_ok {secrets : PyValue} {ops ops' : Mapping PyStr Op}
    (h : injectRefresh secrets ops = .ok ops') (hnodup : (ops.map Prod.fst).Nodup) :
    (ops'.map Prod.fst).Nodup ∧ (ops' = ops ∨ ops' = ops ++ refreshOps) := by
  unfold injectRefresh at h
  split_ifs at h with hsecret hclash
  · obtain rfl := pure_ok.1 h
    exact ⟨hnodup, .inl rfl⟩
  · obtain rfl := pure_ok.1 h
    simp only [not_or, Bool.not_eq_true, Option.isSome_eq_false_iff, Option.isNone_iff_eq_none] at hclash
    have hnew : ∀ kv ∈ refreshOps, Mapping.get ops kv.1 = none := by
      simpa [refreshOps] using hclash
    exact ⟨nodup_append_new hnodup (by decide) hnew, .inr rfl⟩

def PlainManifest (room : Nat) (data : PyDict) : Prop :=
  ∀ xs o, items (PyDict.getD data "operations" (.list [])) = .ok xs → PyValue.dict o ∈ xs →
    ∀ v ∈ opFields o, Plain (room + 2) v

theorem plain_refresh (room : Nat) : ∀ y ∈ refreshOps, ∀ kv ∈ y.2.fieldValues, Plain (room + 2) kv.2 := by
  have hargs : Plain (room + 2) (PyValue.ofJson Registry.refreshArgs) := by
    refine .list (List.forall_mem_singleton.2 (.dict ?_))
    exact List.forall_mem_cons.2 ⟨.str, List.forall_mem_cons.2 ⟨.str, List.forall_mem_cons.2 ⟨.bool,
      List.forall_mem_singleton.2 .str⟩⟩⟩
  have hempty : Plain (room + 2) (.list []) := .list fun x hx => (List.not_mem_nil hx).elim
  refine List.forall_mem_cons.2 ⟨?_, List.forall_mem_singleton.2 ?_⟩
  · exact List.forall_mem_cons.2 ⟨.str, List.forall_mem_cons.2 ⟨.str, List.forall_mem_singleton.2 hempty⟩⟩
  · exact List.forall_mem_cons.2 ⟨.str, List.forall_mem_cons.2 ⟨.str, List.forall_mem_singleton.2 hargs⟩⟩

theorem readTool_ok {netlocOk : PyStr → Bool} {data : PyDict} {tool : Tool} (h : readTool netlocOk data = .ok tool) :
    PyDict.get data "id" = some (.str tool.id) ∧ (tool.ops.map Prod.fst).Nodup ∧
    ∀ room, PlainManifest room data ↔ ∀ y ∈ tool.ops, ∀ kv ∈ y.2.fieldValues, Plain (room + 2) kv.2 := by
  simp only [readTool, bind_ok, pure_ok] at h
  obtain ⟨id, hid, type, -, port, -, host, -, xs, hxs, ops, hops, ops', hrefresh, rfl⟩ := h
  obtain ⟨hnodup, hread⟩ := operations_ok hops
  obtain ⟨hnodup', hinject⟩ := injectRefresh_ok hrefresh hnodup
  refine ⟨?_, hnodup', fun room => ⟨?_, ?_⟩⟩
  · unfold toolId at hid
    split at hid
    next s hs =>
      split_ifs at hid
      obtain rfl := pure_ok.1 hid
      cases hget : PyDict.get data "id" with
      | none =>
        rw [PyDict.getD, hget] at hs
        cases hs
      | some v =>
        rw [PyDict.getD, hget] at hs
        exact congrArg some hs
    · cases hid
  · intro hplain y hy kv hkv
    have hopen : ∀ y ∈ ops, ∀ kv ∈ y.2.fieldValues, Plain (room + 2) kv.2 := by
      intro y hy kv hkv
      obtain ⟨x, hx, o, fields, rest, rfl, hop⟩ := exists_of_mem_right hread hy
      rw [hop] at hkv
      exact hplain xs o hxs hx kv.2 (fieldValues_opOf o fields rest ▸ List.mem_map_of_mem hkv)
    rcases hinject with rfl | rfl
    · exact hopen y hy kv hkv
    · rcases List.mem_append.1 hy with hy | hy
      · exact hopen y hy kv hkv
      · exact plain_refresh room y hy kv hkv
  · intro hplain xs' o hxs' ho v hv
    obtain rfl : xs = xs' := Except.ok.inj (hxs.symm.trans hxs')
    obtain ⟨y, hy, o', fields, rest, hoo, hop⟩ := exists_of_mem_left hread ho
    obtain rfl : o = o' := PyValue.dict.inj hoo
    rw [← fieldValues_opOf o fields rest, ← hop] at hv
    obtain ⟨kv, hkv, rfl⟩ := List.mem_map.1 hv
    refine hplain y ?_ kv hkv
    rcases hinject with rfl | rfl
    · exact hy
    · exact List.mem_append_left _ hy

/-! ## The entries of a catalog -/

variable (H : Hash) (netlocOk : PyStr → Bool) (loads : Text → Option PyDict)

/-- The entry is what its file holds. -/
def Loaded (files : Files) (e : Entry) : Prop :=
  ∃ raw data, files.read e.manifestPath = some raw ∧ e.manifestDigest = H.digest raw ∧
    loads raw = some data ∧ readTool netlocOk data = .ok e.tool

def toolIdOf (files : Files) (tomlPath : PyStr) : Option PyValue := do
  let raw ← files.read (files.resolve tomlPath)
  let data ← loads raw
  PyDict.get data "id"

/-- A manifest whose tool no later one replaces. -/
def Last (files : Files) (paths : List PyStr) (p : PyStr) : Prop :=
  ∃ pre post, paths = pre ++ p :: post ∧ ∀ q ∈ post, toolIdOf loads files q ≠ toolIdOf loads files p

/-- The operations of every manifest that the catalog keeps have plain values. -/
def PlainSources (room : Nat) (files : Files) (paths : List PyStr) : Prop :=
  ∀ p raw data, Last loads files paths p → files.read (files.resolve p) = some raw → loads raw = some data →
    PlainManifest room data

variable {H netlocOk loads} {files : Files}

theorem readEntry_ok {p : PyStr} {e : Entry} (h : readEntry H netlocOk loads files p = .ok e) :
    Loaded H netlocOk loads files e ∧ e.manifestPath = files.resolve p ∧
      toolIdOf loads files p = some (.str e.tool.id) := by
  unfold readEntry at h
  split at h
  · cases h
  next raw hraw =>
    split at h
    · cases h
    next data hdata =>
      split at h
      · cases h
      next tool htool =>
        obtain rfl := Except.ok.inj h
        refine ⟨⟨raw, data, hraw, rfl, hdata, htool⟩, rfl, ?_⟩
        simp only [toolIdOf, hraw, hdata, Option.bind_eq_bind, Option.bind_some]
        exact (readTool_ok htool).1

theorem addToml_run {paths : List PyStr} {catalog catalog' : Entries}
    (h : paths.foldlM (addToml H netlocOk loads files) catalog = .ok catalog') :
    ∃ entries, List.Forall₂ (fun p e => readEntry H netlocOk loads files p = .ok e) paths entries ∧
      catalog' = entries.foldl (fun d e => Mapping.set d e.tool.id e) catalog := by
  induction paths generalizing catalog with
  | nil => exact ⟨[], .nil, (Except.ok.inj h).symm⟩
  | cons p paths ih =>
    rw [List.foldlM_cons] at h
    obtain ⟨c, hc, hrest⟩ := bind_ok.1 h
    obtain ⟨e, he, hset⟩ := bind_ok.1 hc
    obtain rfl := pure_ok.1 hset
    obtain ⟨entries, hentries, rfl⟩ := ih hrest
    exact ⟨e :: entries, .cons he hentries, rfl⟩

section
variable {root toolDirs : List PyStr} {catalog : Entries}
  (h : fromSources H netlocOk loads files root toolDirs = .ok catalog)
include h

theorem catalog_nodup : (catalog.map Prod.fst).Nodup := by
  obtain ⟨entries, -, rfl⟩ := addToml_run h
  exact Mapping.nodup_collect (fun e : Entry => e.tool.id) entries

theorem catalog_loaded {id : PyStr} {e : Entry} (he : Mapping.get catalog id = some e) :
    Loaded H netlocOk loads files e := by
  obtain ⟨entries, hentries, rfl⟩ := addToml_run h
  obtain ⟨hmem, -⟩ := @Mapping.get_collect_mem _ _ _ (fun e : Entry => e.tool.id) _ _ _ he
  obtain ⟨p, -, hp⟩ := exists_of_mem_right hentries hmem
  exact (readEntry_ok hp).1

/-- The catalog holds the tools of the last manifests. -/
theorem plainSources_iff (room : Nat) : PlainSources loads room files (sources files root toolDirs) ↔
    ∀ id e, Mapping.get catalog id = some e → ∀ y ∈ e.tool.ops, ∀ kv ∈ y.2.fieldValues, Plain (room + 2) kv.2 := by
  obtain ⟨entries, hentries, rfl⟩ := addToml_run h
  have hget := fun id e => @Mapping.get_collect_eq_some _ _ _ (fun e : Entry => e.tool.id) entries id e
  constructor
  · intro hplain id e he
    obtain ⟨rfl, pre, post, rfl, hpost⟩ := (hget id e).1 he
    obtain ⟨ppre, p, ppost, hpaths, -, hp, hrest⟩ := forall₂_split hentries
    obtain ⟨⟨raw, data, hraw, -, hdata, htool⟩, hpath, hid⟩ := readEntry_ok hp
    have hlast : Last loads files (sources files root toolDirs) p := by
      refine ⟨ppre, ppost, hpaths, fun q hq heq => ?_⟩
      obtain ⟨e', he', hq'⟩ := exists_of_mem_left hrest hq
      rw [(readEntry_ok hq').2.2, hid] at heq
      exact hpost e' he' (PyValue.str.inj (Option.some.inj heq))
    rw [hpath] at hraw
    exact ((readTool_ok htool).2.2 room).1 (hplain p raw data hlast hraw hdata)
  · rintro hplain p raw data ⟨pre, post, hpaths, hpost⟩ hraw hdata
    rw [hpaths] at hentries
    obtain ⟨epre, e, epost, rfl, -, hp, hrest⟩ := forall₂_split hentries.flip
    obtain ⟨⟨raw', data', hraw', -, hdata', htool⟩, hpath, hid⟩ := readEntry_ok hp
    rw [hpath, hraw] at hraw'
    obtain rfl := Option.some.inj hraw'
    rw [hdata] at hdata'
    obtain rfl := Option.some.inj hdata'
    refine ((readTool_ok htool).2.2 room).2 (hplain e.tool.id e ((hget _ e).2 ⟨rfl, epre, epost, rfl, ?_⟩))
    intro e' he' heq
    obtain ⟨q, hq, hq'⟩ := exists_of_mem_left hrest he'
    refine hpost q hq ?_
    rw [(readEntry_ok hq').2.2, hid, heq]

end

/-! ## The rendering of an entry -/

theorem entryPort_ok {v : Json} {n : Nat} (h : Registry.entryPort v = .ok n) : n ≤ 65535 := by
  unfold Registry.entryPort at h
  split at h
  · split at h
    · split_ifs at h with hrange
      obtain rfl := pure_ok.1 h
      omega
    · cases h
  · cases h

theorem writable_iff {n : Int} {d : Nat} (hd : PyValue.maxStrDigits = d) :
    PyValue.writable n = true ↔ n.natAbs < 10 ^ d := by
  subst hd
  unfold PyValue.writable
  exact decide_eq_true_iff

theorem writable_port {n : Nat} (h : n ≤ 65535) : PyValue.writable n := by
  obtain ⟨d, hd, hle⟩ : ∃ d, PyValue.maxStrDigits = d ∧ 5 ≤ d := ⟨_, rfl, by decide⟩
  have hpow : 10 ^ 5 ≤ 10 ^ d := Nat.pow_le_pow_right (by decide) hle
  rw [writable_iff hd]
  exact Nat.lt_of_lt_of_le (Nat.lt_of_le_of_lt h (by decide)) hpow

theorem Loaded.port {e : Entry} (h : Loaded H netlocOk loads files e) : e.tool.port ≤ 65535 := by
  obtain ⟨_, data, -, -, -, htool⟩ := h
  simp only [readTool, bind_ok, pure_ok] at htool
  obtain ⟨_, -, _, -, port, hport, _, -, _, -, _, -, _, -, htool⟩ := htool
  rw [← htool]
  exact entryPort_ok hport

theorem Loaded.ops_nodup {e : Entry} (h : Loaded H netlocOk loads files e) : (e.tool.ops.map Prod.fst).Nodup := by
  obtain ⟨_, data, -, -, -, htool⟩ := h
  exact (readTool_ok htool).2.1

theorem encodes_fields {allowNan : Bool} (depth : Nat) (fields : List PyStr) :
    Encodes allowNan (depth + 1) (fieldsValue fields) := by
  refine PyValue.encodes_list.2 fun x hx => ?_
  obtain ⟨s, -, rfl⟩ := List.mem_map.1 hx
  exact encodes_str s

theorem encodes_op {allowNan : Bool} {depth : Nat} {op : Op} :
    Encodes allowNan (depth + 2) op.value ↔ ∀ kv ∈ op.fieldValues, Encodes allowNan (depth + 1) kv.2 := by
  rw [Op.value, encodes_dict]
  constructor
  · intro h kv hkv
    exact h kv (List.mem_append_left _ (List.mem_append_left _ hkv))
  · intro h kv hkv
    rcases List.mem_append.1 hkv with hkv | hkv
    · rcases List.mem_append.1 hkv with hkv | hkv
      · exact h kv hkv
      · obtain ⟨fs, -, rfl⟩ := Option.map_eq_some_iff.1 (Option.mem_toList.1 hkv)
        exact encodes_fields depth fs
    · cases hrest : op.rest with
      | none =>
        rw [hrest] at hkv
        exact (List.not_mem_nil hkv).elim
      | some r =>
        rw [hrest] at hkv
        simp only [Option.map_some, Option.getD_some, List.mem_cons, List.not_mem_nil, or_false] at hkv
        rcases hkv with rfl | rfl | rfl | rfl
        · exact encodes_str _
        · exact encodes_str _
        · exact encodes_str _
        · exact encodes_str _

/-- What can keep an entry from being written is what the manifest says of its operations. -/
theorem encodes_entry {e : Entry} (hport : e.tool.port ≤ 65535) (room : Nat) :
    Encodes true (room + 5) e.value ↔ ∀ y ∈ e.tool.ops, ∀ kv ∈ y.2.fieldValues, Encodes true (room + 2) kv.2 := by
  have hops : Encodes true (room + 4) (.dict (e.tool.ops.map fun o => (o.1, o.2.value))) ↔
      ∀ y ∈ e.tool.ops, ∀ kv ∈ y.2.fieldValues, Encodes true (room + 2) kv.2 := by
    rw [encodes_dict, List.forall_mem_map]
    exact forall₂_congr fun y _ => @encodes_op true (room + 1) y.2
  rw [Entry.value, encodes_dict, ← hops]
  constructor
  · intro h
    exact h (py "ops", _) (by simp)
  · intro h kv hkv
    simp only [List.mem_cons, List.not_mem_nil, or_false] at hkv
    rcases hkv with rfl | rfl | rfl | rfl | rfl
    · exact (encodes_int _).2 (writable_port hport)
    · exact encodes_str _
    · exact h
    · exact encodes_str _
    · exact encodes_str _

theorem encodes_described {depth : Nat} {tool op : PyStr} {m : Op} :
    Encodes false (depth + 2) (m.described tool op) ↔ ∀ kv ∈ m.fieldValues, Encodes false (depth + 1) kv.2 := by
  rw [Op.described, encodes_dict]
  constructor
  · intro h kv hkv
    exact h kv (by simp [hkv])
  · intro h kv hkv
    simp only [List.cons_append, List.mem_cons, List.mem_append, List.not_mem_nil, or_false] at hkv
    rcases hkv with rfl | rfl | hkv | rfl
    · exact encodes_str _
    · exact encodes_str _
    · exact h kv hkv
    · exact encodes_fields depth _

theorem encodes_listed {depth : Nat} {l : Listed} (hrisk : Encodes false depth l.risk)
    (hdescription : Encodes false depth l.description) : Encodes false (depth + 1) l.value := by
  refine encodes_dict.2 fun kv hkv => ?_
  simp only [List.mem_cons, List.not_mem_nil, or_false] at hkv
  rcases hkv with rfl | rfl | rfl | rfl | rfl
  · exact encodes_str _
  · exact encodes_str _
  · exact encodes_str _
  · exact hrisk
  · exact hdescription

/-! ## Lookups -/

theorem mem_listOps {catalog : Entries} (hnodup : (catalog.map Prod.fst).Nodup)
    (hops : ∀ id e, Mapping.get catalog id = some e → (e.tool.ops.map Prod.fst).Nodup) {l : Listed} :
    l ∈ listOps catalog ↔ ∃ e m, Mapping.get catalog l.tool = some e ∧ Mapping.get e.tool.ops l.op = some m ∧
      l = ⟨l.tool, l.op, e.tool.type, m.risk, m.description⟩ := by
  rw [listOps, List.mem_flatMap]
  constructor
  · rintro ⟨⟨id, e⟩, hmem, hl⟩
    obtain ⟨⟨name, m⟩, hm, rfl⟩ := List.mem_map.1 hl
    have he := (Mapping.get_iff_mem hnodup).2 hmem
    exact ⟨e, m, he, (Mapping.get_iff_mem (hops id e he)).2 hm, rfl⟩
  · rintro ⟨e, m, he, hm, hl⟩
    refine ⟨(l.tool, e), Mapping.mem_of_get he, List.mem_map.2 ⟨(l.op, m), Mapping.mem_of_get hm, hl.symm⟩⟩

theorem describe_isSome {catalog : Entries} {tool op : PyStr} : (describe catalog tool op).isSome ↔
    ∃ e m, Mapping.get catalog tool = some e ∧ Mapping.get e.tool.ops op = some m := by
  cases he : Mapping.get catalog tool with
  | none => simp [describe, he]
  | some e =>
    cases hm : Mapping.get e.tool.ops op with
    | none => simp [describe, he, hm]
    | some m => simp [describe, he, hm]

/-- A loaded operation is looked up exactly where its tool's entry is written. -/
theorem lookup_iff {room : Nat} {catalog : Entries} {tool op : PyStr} {e : Entry} {m : Op}
    (he : Mapping.get catalog tool = some e) (hm : Mapping.get e.tool.ops op = some m)
    (hfile : Loaded H netlocOk loads files e) :
    (∃ o, lookup H room files catalog tool op = .ok (some o)) ↔ Encodes true (room + 5) e.value := by
  obtain ⟨raw, _, hraw, hdigest, -⟩ := hfile
  have hcurrent : (files.read e.manifestPath).any (fun raw => decide (H.digest raw = e.manifestDigest)) = true := by
    rw [hraw, hdigest]
    simp
  simp only [lookup, he, hm, hcurrent, if_true, Encodes]
  cases e.value.json? true (room + 5) with
  | none => simp
  | some j => simp

theorem lookup_some {room : Nat} {catalog : Entries} {tool op : PyStr} {o : ToolOp}
    (h : lookup H room files catalog tool op = .ok (some o)) : ∃ e m j, Mapping.get catalog tool = some e ∧
      Mapping.get e.tool.ops op = some m ∧ e.value.json? true (room + 5) = some j ∧
      o.generation = H.digest (Json.dumps .sorted j) := by
  unfold lookup at h
  split at h
  · cases h
  next e he =>
    split at h
    · cases h
    next m hm =>
      split_ifs at h
      · split at h
        · cases h
        next j hj =>
          obtain rfl := Option.some.inj (Except.ok.inj h)
          exact ⟨e, m, j, he, hm, hj, rfl⟩
      · cases h

/-! ## Generations -/

theorem sort_entry {β : Type} (a b c d e : β) : Json.sortMembers [(py "port", a), (py "type", b), (py "ops", c), (py "manifest_path", d),
    (py "manifest_digest", e)] = [(py "manifest_digest", e), (py "manifest_path", d), (py "ops", c), (py "port", a), (py "type", b)] := rfl

/-- The rendering of an entry begins with its manifest's digest and path. -/
theorem dumps_entry {room : Nat} {e : Entry} {j : Json} (h : e.value.json? true (room + 5) = some j) :
    ∃ rest, Json.dumps .sorted j = "\x7b\"manifest_digest\": ".toList ++ (Json.quote (py (String.ofList e.manifestDigest)) ++
      (", \"manifest_path\": ".toList ++ (Json.quote e.manifestPath.text ++ rest))) := by
  rw [Entry.value, PyValue.json?] at h
  obtain ⟨kvs, hkvs, rfl⟩ := Option.map_eq_some_iff.1 h
  rw [mapM_some] at hkvs
  simp only [List.forall₂_cons_left_iff, List.forall₂_nil_left_iff] at hkvs
  obtain ⟨port, _, hport, ⟨type, _, htype, ⟨ops, _, hops, ⟨path, _, hpath, ⟨digest, _, hdigest, rfl, rfl⟩, rfl⟩, rfl⟩, rfl⟩, rfl⟩ := hkvs
  obtain ⟨port, -, rfl⟩ := Option.map_eq_some_iff.1 hport
  obtain ⟨type, -, rfl⟩ := Option.map_eq_some_iff.1 htype
  obtain ⟨ops, -, rfl⟩ := Option.map_eq_some_iff.1 hops
  obtain rfl := Option.some.inj hpath
  obtain rfl := Option.some.inj hdigest
  rw [Json.dumps, Json.dumpsMembers_eq_map, Json.Style.order]
  simp only [List.map_cons, List.map_nil, Json.Style.sorted, if_true, sort_entry]
  refine ⟨", \"ops\": ".toList ++ (Json.dumps .sorted ops ++ (", \"port\": ".toList ++ (Json.dumps .sorted port ++
    (", \"type\": ".toList ++ (Json.dumps .sorted type ++ ['}']))))), ?_⟩
  have hkeys : Json.quote (py "manifest_digest") = "\"manifest_digest\"".toList ∧
      Json.quote (py "manifest_path") = "\"manifest_path\"".toList ∧ Json.quote (py "ops") = "\"ops\"".toList ∧
      Json.quote (py "port") = "\"port\"".toList ∧ Json.quote (py "type") = "\"type\"".toList := by decide
  simp only [Json.join, Json.member, Json.dumps, hkeys, List.append_assoc]
  rfl

theorem py_noHigh (s : String) : (py s).all fun c => !Json.highSurrogate c := by
  rw [List.all_eq_true]
  intro c hc
  obtain ⟨d, -, rfl⟩ := List.mem_map.1 hc
  have hvalid := d.valid
  have hlt : d.toNat < 0x110000 := by
    rcases hvalid with h | h
    · exact Nat.lt_of_lt_of_le h (by decide)
    · exact h.2
  simp only [Json.highSurrogate, Fin.val_ofNat, Nat.mod_eq_of_lt hlt, Bool.not_eq_true', Bool.and_eq_false_iff, decide_eq_false_iff_not]
  rcases hvalid with h | h
  · exact .inl (Nat.not_le.2 h)
  · exact .inr (Nat.not_le.2 (Nat.lt_trans (by decide) h.1))
/-- Entries with one rendering are read from one file with one content. -/
theorem manifest_of_dumps {room : Nat} {e e' : Entry} {j j' : Json} (h : e.value.json? true (room + 5) = some j)
    (h' : e'.value.json? true (room + 5) = some j') (heq : Json.dumps .sorted j = Json.dumps .sorted j') :
    e.manifestPath = e'.manifestPath ∧ e.manifestDigest = e'.manifestDigest := by
  obtain ⟨rest, hrest⟩ := dumps_entry h
  obtain ⟨rest', hrest'⟩ := dumps_entry h'
  rw [hrest, hrest', List.append_cancel_left_eq] at heq
  obtain ⟨hdigest, heq⟩ := Json.quote_append_inj (py_noHigh _) (py_noHigh _) heq
  rw [List.append_cancel_left_eq] at heq
  obtain ⟨hpath, -⟩ := Json.quote_append_inj e.manifestPath.decoded e'.manifestPath.decoded heq
  refine ⟨?_, String.ofList_injective (py_injective hdigest)⟩
  cases hp : e.manifestPath
  cases hp' : e'.manifestPath
  simpa [hp, hp'] using hpath

/-- An entry of two loads is one entry where they read one content from one path. -/
theorem Loaded.eq {files files' : Files} {e e' : Entry} (h : Loaded H netlocOk loads files e)
    (h' : Loaded H netlocOk loads files' e') (hpath : e.manifestPath = e'.manifestPath)
    (hdigest : e.manifestDigest = e'.manifestDigest) : e = e' := by
  obtain ⟨raw, data, -, hraw, hdata, htool⟩ := h
  obtain ⟨raw', data', -, hraw', hdata', htool'⟩ := h'
  obtain rfl : raw = raw' := H.injective (hraw.symm.trans (hdigest.trans hraw'))
  obtain rfl : data = data' := Option.some.inj (hdata.symm.trans hdata')
  have htools : e.tool = e'.tool := Except.ok.inj (htool.symm.trans htool')
  cases e
  cases e'
  simp only at htools hpath hdigest
  rw [htools, hpath, hdigest]

/-! ## A catalog that serves -/

/-- Every listed operation is looked up, described and rendered; the three agree on what there is; and
generations are equal for equal entries, in this load and in any other. -/
structure Serves (H : Hash) (netlocOk : PyStr → Bool) (loads : Text → Option PyDict) (room : Nat)
    (files : Files) (catalog : Entries) : Prop where
  served : ∀ l ∈ listOps catalog, Encodes false (room + 5) l.value ∧
    (∃ o, lookup H room files catalog l.tool l.op = .ok (some o)) ∧
    ∃ d, describe catalog l.tool l.op = some d ∧ Encodes false (room + 5) d
  described : ∀ tool op, (∃ l ∈ listOps catalog, l.tool = tool ∧ l.op = op) ↔ (describe catalog tool op).isSome
  found : ∀ tool op, (∃ l ∈ listOps catalog, l.tool = tool ∧ l.op = op) ↔
    ∃ o, lookup H room files catalog tool op = .ok (some o)
  generations : ∀ files' root' toolDirs' catalog' tool op tool' op' o o',
    fromSources H netlocOk loads files' root' toolDirs' = .ok catalog' →
    lookup H room files catalog tool op = .ok (some o) → lookup H room files' catalog' tool' op' = .ok (some o') →
    (o.generation = o'.generation ↔ (Mapping.get catalog tool).map Entry.value = (Mapping.get catalog' tool').map Entry.value)

section
variable {root toolDirs : List PyStr} {catalog : Entries}
  (h : fromSources H netlocOk loads files root toolDirs = .ok catalog)
include h

theorem listed_iff {tool op : PyStr} : (∃ l ∈ listOps catalog, l.tool = tool ∧ l.op = op) ↔
    ∃ e m, Mapping.get catalog tool = some e ∧ Mapping.get e.tool.ops op = some m := by
  have hmem := fun l => mem_listOps (l := l) (catalog_nodup h) fun id e he => (catalog_loaded h he).ops_nodup
  constructor
  · rintro ⟨l, hl, rfl, rfl⟩
    obtain ⟨e, m, he, hm, -⟩ := (hmem l).1 hl
    exact ⟨e, m, he, hm⟩
  · rintro ⟨e, m, he, hm⟩
    exact ⟨⟨tool, op, e.tool.type, m.risk, m.description⟩, (hmem _).2 ⟨e, m, he, hm, rfl⟩, rfl, rfl⟩

theorem generations_iff {room : Nat} {files' : Files} {root' toolDirs' : List PyStr} {catalog' : Entries}
    (h' : fromSources H netlocOk loads files' root' toolDirs' = .ok catalog') {tool op tool' op' : PyStr}
    {o o' : ToolOp} (ho : lookup H room files catalog tool op = .ok (some o))
    (ho' : lookup H room files' catalog' tool' op' = .ok (some o')) : o.generation = o'.generation ↔
      (Mapping.get catalog tool).map Entry.value = (Mapping.get catalog' tool').map Entry.value := by
  obtain ⟨e, m, j, he, -, hj, hgen⟩ := lookup_some ho
  obtain ⟨e', m', j', he', -, hj', hgen'⟩ := lookup_some ho'
  rw [hgen, hgen', he, he', Option.map_some, Option.map_some, Option.some_inj]
  constructor
  · intro heq
    obtain ⟨hpath, hdigest⟩ := manifest_of_dumps hj hj' (H.injective heq)
    rw [(catalog_loaded h he).eq (catalog_loaded h' he') hpath hdigest]
  · intro heq
    rw [heq, hj'] at hj
    rw [Option.some.inj hj]

/-- A loaded catalog serves what it lists exactly where the manifests it keeps declare plain values. -/
theorem serves_iff (room : Nat) : Serves H netlocOk loads room files catalog ↔
    PlainSources loads room files (sources files root toolDirs) := by
  rw [plainSources_iff h room]
  constructor
  · intro hserves id e he y hy kv hkv
    have hloaded := catalog_loaded h he
    have hm : Mapping.get e.tool.ops y.1 = some y.2 := (Mapping.get_iff_mem hloaded.ops_nodup).2 hy
    obtain ⟨l, hl, rfl, hop⟩ := (listed_iff h).2 ⟨e, y.2, he, hm⟩
    obtain ⟨-, hlookup, d, hdescribe, hd⟩ := hserves.served l hl
    rw [hop] at hlookup hdescribe
    have hwritten := (encodes_entry hloaded.port room).1 ((lookup_iff he hm hloaded).1 hlookup) y hy kv hkv
    simp only [describe, he, hm, Option.bind_eq_bind, Option.bind_some] at hdescribe
    obtain rfl := Option.some.inj hdescribe
    exact plain_of_encodes hwritten (encodes_described.1 hd kv hkv)
  · intro hplain
    have hentry : ∀ id e, Mapping.get catalog id = some e → Encodes true (room + 5) e.value := fun id e he =>
      (encodes_entry (catalog_loaded h he).port room).2 fun y hy kv hkv => (hplain id e he y hy kv hkv).encodes true
    refine ⟨?_, fun tool op => ?_, fun tool op => ?_, fun _ _ _ _ _ _ _ _ _ _ h' ho ho' => generations_iff h h' ho ho'⟩
    · intro l hl
      obtain ⟨e, m, he, hm, hlisted⟩ := (mem_listOps (catalog_nodup h)
        fun id e he => (catalog_loaded h he).ops_nodup).1 hl
      have hfields : ∀ kv ∈ m.fieldValues, Encodes false (room + 4) kv.2 := fun kv hkv =>
        ((hplain l.tool e he (l.op, m) (Mapping.mem_of_get hm) kv hkv).succ.succ).encodes false
      refine ⟨?_, (lookup_iff he hm (catalog_loaded h he)).2 (hentry l.tool e he), m.described l.tool l.op, ?_,
        encodes_described.2 hfields⟩
      · rw [hlisted]
        exact encodes_listed (hfields (py "risk", _) (by simp [Op.fieldValues]))
          (hfields (py "description", _) (by simp [Op.fieldValues]))
      · simp only [describe, he, hm, Option.bind_eq_bind, Option.bind_some]
    · rw [listed_iff h, describe_isSome]
    · rw [listed_iff h]
      constructor
      · rintro ⟨e, m, he, hm⟩
        exact (lookup_iff he hm (catalog_loaded h he)).2 (hentry tool e he)
      · rintro ⟨o, ho⟩
        obtain ⟨e, m, -, he, hm, -⟩ := lookup_some ho
        exact ⟨e, m, he, hm⟩

end

namespace Sample

def hash : Hash := .marked

theorem decoded : (py "/tools/t/toolyard.toml").all (fun c => !Json.highSurrogate c) = true := by decide

/-- One tool, with what its manifest says of the risk of its operation. -/
def data (risk : PyValue) : PyDict := [
  (py "id", .str (py "t")),
  (py "entrypoint", .dict [(py "port", .int 8000)]),
  (py "operations", .list [.dict [(py "name", .str (py "op")), (py "risk", risk)]])]

def disk : Files where
  resolve _ := ⟨py "/tools/t/toolyard.toml", decoded⟩
  exists? _ := true
  read _ := some "raw".toList

def entry (risk : PyValue) : Entry where
  tool := ⟨py "t", 8000, .api, [(py "op", { risk, description := .str [], args := .list [], approvalFields := some [] })]⟩
  manifestPath := ⟨py "/tools/t/toolyard.toml", decoded⟩
  manifestDigest := "hraw".toList

theorem loaded (risk : PyValue) : fromSources hash (fun _ => true) (fun _ => some (data risk)) disk
    [py "/tools/t/toolyard.toml"] [] = .ok [(py "t", entry risk)] := rfl

end Sample

open Catalog.Sample in
theorem serves_iff_sample : Serves hash (fun _ => true) (fun _ => some (data (.str (py "read")))) 10 disk
    [(py "t", entry (.str (py "read")))] ↔
    PlainSources (fun _ => some (data (.str (py "read")))) 10 disk (sources disk [py "/tools/t/toolyard.toml"] []) :=
  serves_iff (loaded (.str (py "read"))) 10

open Catalog.Sample in
/-- A date for the risk of an operation is loaded and listed, and no lookup of the tool succeeds. -/
theorem serves_date : let risk := PyValue.date (py "2024-01-01")
    fromSources hash (fun _ => true) (fun _ => some (data risk)) disk [py "/tools/t/toolyard.toml"] [] =
      .ok [(py "t", entry risk)] ∧
    listOps [(py "t", entry risk)] = [⟨py "t", py "op", .api, risk, .str []⟩] ∧
    lookup hash 10 disk [(py "t", entry risk)] (py "t") (py "op") = .error () ∧
    ¬Serves hash (fun _ => true) (fun _ => some (data risk)) 10 disk [(py "t", entry risk)] := by
  intro risk
  have hwritten : (entry risk).value.json? true 15 = none := by
    have hport : PyValue.writable 8000 = true := writable_port (by decide)
    simp [Entry.value, entry, Op.value, Op.fieldValues, PyValue.json?, textValue, hport, risk]
  have hlookup : lookup hash 10 disk [(py "t", entry risk)] (py "t") (py "op") = .error () := by
    have he : Mapping.get [(py "t", entry risk)] (py "t") = some (entry risk) := rfl
    have hm : Mapping.get (entry risk).tool.ops (py "op") =
        some { risk, description := .str [], args := .list [], approvalFields := some [] } := rfl
    have hcurrent : (disk.read (entry risk).manifestPath).any
        (fun raw => decide (hash.digest raw = (entry risk).manifestDigest)) = true := rfl
    simp only [lookup, he, hm, hcurrent, hwritten, if_true]
  refine ⟨rfl, rfl, hlookup, fun hserves => ?_⟩
  obtain ⟨-, ⟨o, ho⟩, -⟩ := hserves.served ⟨py "t", py "op", .api, risk, .str []⟩ List.mem_cons_self
  rw [hlookup] at ho
  cases ho

end Broker.Catalog

end Toolstack
