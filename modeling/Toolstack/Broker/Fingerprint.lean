import Toolstack.Broker.CatalogServes
import Toolstack.Json.Members

/-! `observation_fingerprint` of `broker/registry.py`: what two catalogs with one fingerprint have in
common. -/

namespace Toolstack

namespace PyValue

/-- Every date as `default=str` writes it. -/
def stringed (str : PyStr → PyStr) : PyValue → PyValue
  | date t => .str (str t)
  | list xs => list (stringedAll xs)
  | dict kvs => dict (stringedMembers kvs)
  | v => v
where
  stringedAll : List PyValue → List PyValue
    | [] => []
    | x :: xs => stringed str x :: stringedAll xs
  stringedMembers : List (PyStr × PyValue) → List (PyStr × PyValue)
    | [] => []
    | (k, v) :: kvs => (k, stringed str v) :: stringedMembers kvs

theorem stringedMembers_eq (str : PyStr → PyStr) (kvs : PyDict) :
    stringed.stringedMembers str kvs = kvs.map fun kv => (kv.1, kv.2.stringed str) := by
  induction kvs with
  | nil => rfl
  | cons kv kvs ih => rw [stringed.stringedMembers, ih, List.map_cons]

theorem stringedAll_eq (str : PyStr → PyStr) (xs : List PyValue) :
    stringed.stringedAll str xs = xs.map (stringed str) := by
  induction xs with
  | nil => rfl
  | cons x xs ih => rw [stringed.stringedAll, ih, List.map_cons]

theorem stringed_str (str : PyStr → PyStr) (s : PyStr) : (PyValue.str s).stringed str = .str s := by
  simp [stringed]

theorem json_str {allowNan : Bool} {depth : Nat} (s : PyStr) : (PyValue.str s).json? allowNan depth = some (.str s) := by
  rw [json?]

end PyValue

namespace Broker.Catalog

open Fallible Url

variable (str : PyStr → PyStr) (room : Nat)

/-- An entry without its `manifest_digest`. -/
def Entry.projection (e : Entry) : PyValue :=
  .dict [(py "port", .int e.tool.port), (py "type", textValue e.tool.type.text),
    (py "ops", .dict (e.tool.ops.map fun o => (o.1, o.2.value))), (py "manifest_path", .str e.manifestPath.text)]

/-- How the fingerprint shows an entry. -/
def Entry.view (e : Entry) : Option Text :=
  ((e.projection.stringed str).json? true (room + 5)).map (Json.dumps .sorted)

def rootValue : Option Path → PyValue
  | none => .none
  | some root => .str root.text

/-- `root` and `tool_dirs` have been resolved. -/
def payload (root : Option Path) (toolDirs : List Path) (catalog : Entries) : PyValue :=
  .dict [(py "root", rootValue root), (py "tool_dirs", .list (toolDirs.map fun p => .str p.text)),
    (py "catalog", .dict (catalog.map fun t => (t.1, t.2.projection)))]

/-- `none` where `json.dumps` raises. -/
def observationFingerprint (H : Hash) (root : Option Path) (toolDirs : List Path) (catalog : Entries) :
    Option Text :=
  (((payload root toolDirs catalog).stringed str).json? true (room + 7)).map fun j =>
    H.digest (Json.dumps .sorted j)

def toolIds (catalog : Entries) : List PyStr := (Json.sortMembers catalog).map Prod.fst

/-- The keys of a catalog are distinct tool ids. -/
structure Named (catalog : Entries) : Prop where
  nodup : (catalog.map Prod.fst).Nodup
  ids : ∀ t ∈ catalog, Registry.idFullmatch t.1 = true

/-- Two catalogs of the same tools, each of which the fingerprint shows in the same way. -/
structure SameTools (catalog catalog' : Entries) : Prop where
  ids : toolIds catalog = toolIds catalog'
  entries : ∀ id e e', Mapping.get catalog id = some e → Mapping.get catalog' id = some e' →
    e.view str room = e'.view str room

/-! ## What is loaded is named -/

theorem noHigh_of_id {s : PyStr} (h : Registry.idFullmatch s = true) :
    (s.all fun c => !Json.highSurrogate c) = true := by
  rw [List.all_eq_true]
  intro c hc
  have hchar := List.all_eq_true.1 (Bool.and_eq_true_iff.1 h).2 c hc
  have hhyphen : (ch '_').val = 0x5F ∧ (ch '-').val = 0x2D := by decide
  have hlow : c.val < 0xD800 := by
    simp only [Registry.idChar, Registry.idHead, isAlpha, isDigit, Bool.or_eq_true, Bool.and_eq_true,
      decide_eq_true_eq] at hchar
    rcases hchar with (((h | h) | h) | rfl) | rfl <;> omega
  simp [Json.highSurrogate, Nat.not_le.2 hlow]

theorem Named.nil : Named [] := ⟨List.nodup_nil, fun _ h => nomatch h⟩

theorem Named.set {catalog : Entries} (h : Named catalog) {id : PyStr} (hid : Registry.idFullmatch id = true)
    (e : Entry) : Named (Mapping.set catalog id e) where
  nodup := Mapping.nodup_set h.nodup id e
  ids := by
    intro t ht
    rcases Mapping.mem_set ht with rfl | hold
    · exact hid
    · exact h.ids t hold

theorem readTool_id {netlocOk : PyStr → Bool} {data : PyDict} {tool : Tool}
    (h : readTool netlocOk data = .ok tool) : Registry.idFullmatch tool.id = true := by
  simp only [readTool, bind_ok, pure_ok] at h
  obtain ⟨id, hid, type, -, port, -, host, -, xs, -, ops, -, ops', -, rfl⟩ := h
  unfold toolId at hid
  split at hid
  · split_ifs at hid with hfull
    obtain rfl := pure_ok.1 hid
    exact hfull
  · cases hid

/-! ## Equal fingerprints -/

theorem sort_payload {β : Type} (a b c : β) :
    Json.sortMembers [(py "root", a), (py "tool_dirs", b), (py "catalog", c)] =
      [(py "catalog", c), (py "root", a), (py "tool_dirs", b)] := rfl

/-- Sorting looks at the names only. -/
theorem sortMembers_keys {β γ : Type} {kvs : List (PyStr × β)} {kvs' : List (PyStr × γ)}
    (h : kvs.map Prod.fst = kvs'.map Prod.fst) :
    (Json.sortMembers kvs).map Prod.fst = (Json.sortMembers kvs').map Prod.fst := by
  have hkeys : ∀ {δ : Type} (kvs : List (PyStr × δ)), (Json.sortMembers kvs).map Prod.fst =
      (Json.sortMembers ((kvs.map Prod.fst).map fun k => (k, ()))).map Prod.fst := by
    intro δ kvs
    have hsort := Json.sortMembers_map (fun _ => ()) kvs
    rw [List.map_map, show (fun k => (k, ())) ∘ Prod.fst = fun kv : PyStr × δ => (kv.1, ()) from rfl, ← hsort,
      List.map_map]
    rfl
  rw [hkeys kvs, hkeys kvs', h]

/-- A tool, and how its entry is rendered. -/
def Shown (t : PyStr × Entry) (kv : PyStr × Text) : Prop := kv.1 = t.1 ∧ t.2.view str room = some kv.2

def rootJson : Option Path → Json
  | none => .null
  | some root => .str root.text

variable {str room}

theorem rootJson_inj {root root' : Option Path}
    (h : Json.dumps .sorted (rootJson root) = Json.dumps .sorted (rootJson root')) : root = root' := by
  cases root with
  | none =>
    cases root' with
    | none => rfl
    | some root' => exact absurd (List.cons.inj h).1 (by decide)
  | some root =>
    cases root' with
    | none => exact absurd (List.cons.inj h).1 (by decide)
    | some root' =>
      obtain ⟨text, hdecoded⟩ := root
      obtain ⟨text', hdecoded'⟩ := root'
      obtain ⟨rfl, -⟩ := Json.quote_append_inj hdecoded hdecoded' (x := []) (y := []) (congrArg (· ++ []) h)
      rfl

theorem dirs_json {allowNan : Bool} {depth : Nat} (toolDirs : List Path) :
    ((PyValue.list (toolDirs.map fun p => .str p.text)).stringed str).json? allowNan (depth + 1) =
      some (.arr ((toolDirs.map Path.text).map .str)) := by
  rw [PyValue.stringed, PyValue.stringedAll_eq, PyValue.json?]
  refine Option.map_eq_some_iff.2 ⟨_, mapM_some.2 ?_, rfl⟩
  simp only [List.map_map, List.forall₂_map_left_iff, List.forall₂_map_right_iff]
  exact List.forall₂_same.2 fun p _ => (congrArg _ (PyValue.stringed_str str p.text)).trans (PyValue.json_str p.text)

/-- What is rendered of a catalog, with the value under each of the three names. -/
theorem payload_json {root : Option Path} {toolDirs : List Path} {catalog : Entries} {j : Json}
    (h : ((payload root toolDirs catalog).stringed str).json? true (room + 7) = some j) :
    ∃ ms, j = .obj [(py "root", rootJson root), (py "tool_dirs", .arr ((toolDirs.map Path.text).map .str)),
        (py "catalog", .obj ms)] ∧
      List.Forall₂ (Shown str room) catalog (ms.map fun kv => (kv.1, Json.dumps .sorted kv.2)) := by
  rw [payload, PyValue.stringed, PyValue.stringedMembers_eq, PyValue.json?] at h
  obtain ⟨kvs, hkvs, rfl⟩ := Option.map_eq_some_iff.1 h
  rw [mapM_some] at hkvs
  simp only [List.map_cons, List.map_nil, List.forall₂_cons_left_iff, List.forall₂_nil_left_iff] at hkvs
  obtain ⟨_, _, hroot, ⟨_, _, hdirs, ⟨_, _, hcatalog, rfl, rfl⟩, rfl⟩, rfl⟩ := hkvs
  obtain ⟨rootj, hrootj, rfl⟩ := Option.map_eq_some_iff.1 hroot
  obtain ⟨dirsj, hdirsj, rfl⟩ := Option.map_eq_some_iff.1 hdirs
  obtain ⟨catalogj, hcatalogj, rfl⟩ := Option.map_eq_some_iff.1 hcatalog
  obtain rfl : rootj = rootJson root := by
    cases root with
    | none => exact (Option.some.inj hrootj).symm
    | some root => exact (Option.some.inj hrootj).symm
  obtain rfl : dirsj = .arr ((toolDirs.map Path.text).map .str) :=
    Option.some.inj (hdirsj.symm.trans (dirs_json toolDirs))
  rw [PyValue.stringed, PyValue.stringedMembers_eq, PyValue.json?] at hcatalogj
  obtain ⟨ms, hms, rfl⟩ := Option.map_eq_some_iff.1 hcatalogj
  refine ⟨ms, rfl, ?_⟩
  rw [mapM_some, List.map_map, List.forall₂_map_left_iff] at hms
  rw [List.forall₂_map_right_iff]
  refine hms.imp fun t kv hkv => ?_
  obtain ⟨j, hj, rfl⟩ := Option.map_eq_some_iff.1 hkv
  exact ⟨rfl, congrArg (Option.map _) hj⟩

theorem shown_keys {catalog : Entries} {texts : List (PyStr × Text)}
    (h : List.Forall₂ (Shown str room) catalog texts) : texts.map Prod.fst = catalog.map Prod.fst := by
  induction h with
  | nil => rfl
  | cons ht _ ih => rw [List.map_cons, List.map_cons, ih, ht.1]

theorem shown_noHigh {catalog : Entries} (hc : Named catalog) {ms : List (PyStr × Json)}
    (h : List.Forall₂ (Shown str room) catalog (ms.map fun kv => (kv.1, Json.dumps .sorted kv.2))) :
    ∀ kv ∈ ms, (kv.1.all fun c => !Json.highSurrogate c) = true := by
  intro kv hkv
  obtain ⟨t, ht, hshown⟩ := exists_of_mem_right h (List.mem_map_of_mem hkv)
  have hname : kv.1 = t.1 := hshown.1
  rw [hname]
  exact noHigh_of_id (hc.ids t ht)

theorem sameTools_of_sorted {catalog catalog' : Entries} {texts texts' : List (PyStr × Text)}
    (hc' : Named catalog') (h : List.Forall₂ (Shown str room) catalog texts)
    (h' : List.Forall₂ (Shown str room) catalog' texts')
    (hsorted : Json.sortMembers texts = Json.sortMembers texts') : SameTools str room catalog catalog' where
  ids := by
    rw [toolIds, toolIds, ← sortMembers_keys (shown_keys h), ← sortMembers_keys (shown_keys h'), hsorted]
  entries := by
    intro id e e' he he'
    obtain ⟨kv, hkv, hid, hview⟩ := exists_of_mem_left h (Mapping.mem_of_get he)
    obtain ⟨kv', hkv', hid', hview'⟩ := exists_of_mem_left h' (Mapping.mem_of_get he')
    have hperm : texts.Perm texts' :=
      (Json.sortMembers_perm texts).symm.trans (hsorted ▸ Json.sortMembers_perm texts')
    have hnodup : (texts'.map Prod.fst).Nodup := shown_keys h' ▸ hc'.nodup
    obtain rfl : kv = kv' := List.inj_on_of_nodup_map hnodup (hperm.mem_iff.1 hkv) hkv' (hid.trans hid'.symm)
    exact hview.trans hview'.symm

/-- Catalogs with one fingerprint come from one root and the same tool directories, and show the same tools. -/
theorem fingerprint_inj {H : Hash} {root root' : Option Path} {toolDirs toolDirs' : List Path}
    {catalog catalog' : Entries} {t : Text} (hc : Named catalog) (hc' : Named catalog')
    (h : observationFingerprint str room H root toolDirs catalog = some t)
    (h' : observationFingerprint str room H root' toolDirs' catalog' = some t) :
    root = root' ∧ toolDirs = toolDirs' ∧ SameTools str room catalog catalog' := by
  obtain ⟨j, hj, hjt⟩ := Option.map_eq_some_iff.1 h
  obtain ⟨j', hj', hjt'⟩ := Option.map_eq_some_iff.1 h'
  obtain ⟨ms, rfl, hshown⟩ := payload_json hj
  obtain ⟨ms', rfl, hshown'⟩ := payload_json hj'
  have htext := H.injective (hjt.trans hjt'.symm)
  have hnames : ∀ x y z : Json, ∀ kv ∈ [(py "root", x), (py "tool_dirs", y), (py "catalog", z)],
      (kv.1.all fun c => !Json.highSurrogate c) = true := by
    intro x y z kv hkv
    simp only [List.mem_cons, List.not_mem_nil, or_false] at hkv
    rcases hkv with rfl | rfl | rfl <;> exact py_noHigh _
  have hmembers := Json.members_of_dumps (hnames _ _ _) (hnames _ _ _) htext
  simp only [List.map_cons, List.map_nil, sort_payload, List.cons.injEq, Prod.mk.injEq, true_and,
    and_true] at hmembers
  obtain ⟨hcatalog, hroot, hdirs⟩ := hmembers
  refine ⟨rootJson_inj hroot, ?_, ?_⟩
  · have htexts : ∀ ds : List Path, ∀ s ∈ ds.map Path.text, (s.all fun c => !Json.highSurrogate c) = true := by
      intro ds s hs
      obtain ⟨d, -, rfl⟩ := List.mem_map.1 hs
      exact d.decoded
    have hsame := Json.strings_of_dumps (htexts _) (htexts _) hdirs
    refine List.map_injective_iff.2 ?_ hsame
    rintro ⟨text, _⟩ ⟨text', _⟩ (rfl : text = text')
    rfl
  · have hsorted := Json.members_of_dumps (shown_noHigh hc hshown) (shown_noHigh hc' hshown') hcatalog
    exact sameTools_of_sorted hc' hshown hshown' hsorted

end Broker.Catalog

end Toolstack
