import Toolstack.Admin.ConfigText
import Toolstack.Fallible

/-! When the saved run configuration is read back as it was. -/

namespace Toolstack.Admin.BrokerConfig

open ToolAuthoring (strip)
open Toml (allowed lf)

variable (H : Host)

/-! ## Configurations -/

/-- A value the file can hold: a number, a boolean, a string of plain characters or a list of these. -/
def representable : PyValue → Bool
  | .bool _ => true
  | .int _ => true
  | .str s => s.all plain
  | .list xs => xs.all fun
    | .str s => s.all plain
    | _ => false
  | _ => false

def reread (v : PyValue) : PyValue := .ofJson (written H v)

theorem reread_list (xs : List PyValue) : reread H (.list xs) = .list (xs.map fun x => .str (str H x)) := by
  rw [reread, written, PyValue.ofJson, PyValue.ofJsonAll_eq, List.map_map]
  congr 1

/-- The values the file can hold are those of plain strings that are read back as they are. -/
theorem representable_iff (v : PyValue) :
    representable v = true ↔ (∀ s ∈ strings H v, ∀ c ∈ s, plain c = true) ∧ reread H v = v := by
  cases v with
  | bool | int => simp [representable, strings, reread, written, PyValue.ofJson]
  | str s => simp [representable, strings, reread, written, str, PyValue.ofJson, List.all_eq_true]
  | list xs =>
    rw [reread_list, PyValue.list.injEq]
    constructor
    · intro h
      have hitems : ∀ x ∈ xs, ∃ s, x = .str s ∧ ∀ c ∈ s, plain c = true := by
        intro x hx
        have hitem := List.all_eq_true.1 h x hx
        cases x with
        | str s => exact ⟨s, rfl, List.all_eq_true.1 hitem⟩
        | _ => cases hitem
      refine ⟨fun s hs => ?_, ?_⟩
      · obtain ⟨x, hx, rfl⟩ := List.mem_map.1 hs
        obtain ⟨s, rfl, hchars⟩ := hitems x hx
        exact hchars
      · refine (List.map_congr_left fun x hx => ?_).trans (List.map_id xs)
        obtain ⟨s, rfl, -⟩ := hitems x hx
        rfl
    · rintro ⟨hplain, hsame⟩
      refine List.all_eq_true.2 fun x hx => ?_
      have hitem : PyValue.str (str H x) = x := List.map_inj_left.1 (hsame.trans (List.map_id xs).symm) x hx
      rw [← hitem]
      exact List.all_eq_true.2 (hplain _ (List.mem_map.2 ⟨x, hx, rfl⟩))
  | none | float | date | dict => simp [representable, reread, written, PyValue.ofJson]

def Config.map (f : PyValue → PyValue) (c : Config) : Config :=
  ⟨f c.port, f c.dbPath, f c.toolsRoot, f c.nodUrl, f c.nodToken, f c.nodChannel, f c.approvalTtl, f c.rateLimit,
    f c.toolDirs⟩

def Config.table (c : Config) : PyDict := c.asdict.map fun kv => (py kv.1, kv.2)

theorem writable_asdict (c : Config) : Writable c.asdict := by
  have hkeys : ["port", "db_path", "tools_root", "nod_url", "nod_token", "nod_channel", "approval_ttl", "rate_limit",
      "tool_dirs"].all (fun k => py k ≠ [] ∧ (py k).all Toml.bareChar) = true := by decide
  have hnames : c.asdict.map Prod.fst = ["port", "db_path", "tools_root", "nod_url", "nod_token", "nod_channel",
      "approval_ttl", "rate_limit", "tool_dirs"] := rfl
  refine ⟨fun kv hkv => ?_, ?_, List.cons_ne_nil _ _⟩
  · have hmem : kv.1 ∈ c.asdict.map Prod.fst := List.mem_map.2 ⟨kv, hkv, rfl⟩
    rw [hnames] at hmem
    have hkey := of_decide_eq_true (List.all_eq_true.1 hkeys kv.1 hmem)
    exact ⟨hkey.1, List.all_eq_true.1 hkey.2⟩
  · have hpy : c.asdict.map (fun kv => py kv.1) = (c.asdict.map Prod.fst).map py := by rw [List.map_map]; rfl
    rw [hpy, hnames]
    decide

theorem parse_plain {c : Config} (h : ∀ s ∈ allStrings H c.asdict, ∀ d ∈ s, plain d = true) :
    parse (toToml H c.asdict) = some (c.map (reread H)).table := by
  rw [parse, (loads_plain H (writable_asdict c) h).1, Option.map_some, List.map_map]
  rfl

theorem table_getD {c : Config} {key : String} {v : PyValue} (h : (key, v) ∈ c.asdict) (default : PyValue) :
    c.table.getD key default = v := by
  have hnodup : (c.table.map Prod.fst).Nodup := by
    rw [Config.table, List.map_map]
    exact (writable_asdict c).nodup
  rw [PyDict.getD, PyDict.get_of_mem hnodup (List.mem_map.2 ⟨_, h, rfl⟩)]
  rfl

/-- The configuration of a table that has all fields. -/
theorem fromTable_table {c m : Config} : fromTable H c.table = .ok m ↔
    ∃ p q, c.dbPath = .str p ∧ H.absPath p = some q ∧ m = { c with dbPath := .str q } ∧ warnIfSuspect H m = .ok () := by
  have hport := @table_getD c "port" c.port (by simp [Config.asdict])
  have hpath := @table_getD c "db_path" c.dbPath (by simp [Config.asdict])
  have hroot := @table_getD c "tools_root" c.toolsRoot (by simp [Config.asdict])
  have hurl := @table_getD c "nod_url" c.nodUrl (by simp [Config.asdict])
  have htoken := @table_getD c "nod_token" c.nodToken (by simp [Config.asdict])
  have hchannel := @table_getD c "nod_channel" c.nodChannel (by simp [Config.asdict])
  have httl := @table_getD c "approval_ttl" c.approvalTtl (by simp [Config.asdict])
  have hrate := @table_getD c "rate_limit" c.rateLimit (by simp [Config.asdict])
  have hdirs := @table_getD c "tool_dirs" c.toolDirs (by simp [Config.asdict])
  unfold fromTable
  simp only [hport, hpath, hroot, hurl, htoken, hchannel, httl, hrate, hdirs]
  constructor
  · intro h
    split at h
    · rename_i p hp
      split at h
      · rename_i q hq
        obtain ⟨⟨⟩, hwarn, hm⟩ := Fallible.bind_ok.1 h
        obtain rfl := Except.ok.inj hm
        exact ⟨p, q, hp, hq, rfl, hwarn⟩
      · cases h
    · cases h
  · rintro ⟨p, q, hp, hq, rfl, hwarn⟩
    simp only [hp, hq]
    exact Fallible.bind_ok.2 ⟨(), hwarn, rfl⟩

/-- The path of a loaded configuration is absolute. -/
theorem dbPath_absolute {data : PyDict} {c : Config} (h : fromTable H data = .ok c) :
    ∃ p, c.dbPath = .str p ∧ H.absPath p = some p := by
  unfold fromTable at h
  split at h
  · split at h
    · rename_i path _ p hp
      obtain ⟨-, -, hc⟩ := Fallible.bind_ok.1 h
      obtain rfl := Except.ok.inj hc
      exact ⟨p, rfl, H.absPath_idem _ _ hp⟩
    · cases h
  · cases h

/-! ## Updates -/

structure Merged (current : Config) (data : PyDict) (m : Config) : Prop where
  port : mergeNumber H "port" current.port data = .ok m.port
  approvalTtl : mergeNumber H "approval_ttl" current.approvalTtl data = .ok m.approvalTtl
  rateLimit : mergeNumber H "rate_limit" current.rateLimit data = .ok m.rateLimit
  toolsRoot : mergeText "tools_root" current.toolsRoot data = .ok m.toolsRoot
  nodUrl : mergeText "nod_url" current.nodUrl data = .ok m.nodUrl
  nodToken : mergeText "nod_token" current.nodToken data = .ok m.nodToken
  nodChannel : mergeText "nod_channel" current.nodChannel data = .ok m.nodChannel
  dbPath : m.dbPath = current.dbPath
  toolDirs : m.toolDirs = current.toolDirs
  quiet : warnIfSuspect H m = .ok ()

theorem merged_of_ok {current m : Config} {data : PyDict} (h : mergeUpdate H current data = .ok m) :
    Merged H current data m := by
  simp only [mergeUpdate, Fallible.bind_ok, Fallible.guard_ok] at h
  obtain ⟨port, hport, ttl, httl, rate, hrate, inRange, hrange, -, expired, hexpired, -, negative, hnegative, -, h⟩ := h
  obtain ⟨root, hroot, url, hurl, token, htoken, channel, hchannel, ⟨⟩, hvalid, h⟩ := h
  obtain rfl := Except.ok.inj h
  refine ⟨hport, httl, hrate, hroot, hurl, htoken, hchannel, rfl, rfl, ?_⟩
  simp only [warnIfSuspect, Fallible.bind_ok, hvalid]
  exact ⟨inRange, hrange, expired, hexpired, negative, hnegative, rfl⟩

/-- The update puts a text of its own into the field. -/
def Replaces (key : String) (data : PyDict) : Prop :=
  ∃ s, data.get key = some (.str s) ∧ (strip s ≠ [] ∨ keepsEmpty key = false)

/-- A text field after the update: what the update brings is plain, and what it leaves can be held. -/
structure CleanText (key : String) (current : PyValue) (data : PyDict) : Prop where
  given : ∀ s, data.get key = some (.str s) → ∀ c ∈ strip s, plain c = true
  kept : ¬Replaces key data → representable current = true

/-- A number an empty text leaves as it is can be held. -/
def CleanNumber (key : String) (current : PyValue) (data : PyDict) : Prop :=
  data.get key = some (.str []) → representable current = true

theorem mergeText_representable {key : String} {current v : PyValue} {data : PyDict}
    (h : mergeText key current data = .ok v) : representable v = true ↔ CleanText key current data := by
  unfold mergeText at h
  cases hget : data.get key with
  | none =>
    rw [hget] at h
    obtain rfl := Except.ok.inj h
    have hno : ¬Replaces key data := by
      rintro ⟨s, hs, -⟩
      rw [hget] at hs
      cases hs
    exact ⟨fun hv => ⟨fun s hs => (by rw [hget] at hs; cases hs), fun _ => hv⟩, fun hclean => hclean.kept hno⟩
  | some given =>
    rw [hget] at h
    cases given with
    | str s =>
      have hv := Except.ok.inj h
      have hgiven : ∀ s', data.get key = some (.str s') → s' = s := by
        intro s' hs'
        rw [hget] at hs'
        exact (PyValue.str.inj (Option.some.inj hs')).symm
      split_ifs at hv with hnew
      · subst hv
        have hreplaces : Replaces key data := ⟨s, hget, hnew⟩
        constructor
        · intro hplain
          refine ⟨fun s' hs' => ?_, fun hno => absurd hreplaces hno⟩
          rw [hgiven s' hs']
          exact List.all_eq_true.1 hplain
        · exact fun hclean => List.all_eq_true.2 (hclean.given s hget)
      · subst hv
        have hno : ¬Replaces key data := by
          rintro ⟨s', hs', hnew'⟩
          rw [hgiven s' hs'] at hnew'
          exact hnew hnew'
        constructor
        · intro hcurrent
          refine ⟨fun s' hs' => ?_, fun _ => hcurrent⟩
          have hempty : strip s = [] := by
            by_contra hne
            exact hnew (.inl hne)
          rw [hgiven s' hs', hempty]
          exact fun c hc => nomatch hc
        · exact fun hclean => hclean.kept hno
    | _ => cases h

theorem mergeNumber_representable {key : String} {current v : PyValue} {data : PyDict}
    (h : mergeNumber H key current data = .ok v) : representable v = true ↔ CleanNumber key current data := by
  have hraw : ∀ raw, data.get key = some raw → data.getD key current = raw := by
    intro raw hget
    rw [PyDict.getD, hget]
    rfl
  -- A number that was given or read is always written as it is.
  have hnumber : ∀ n : Int, v = .int n → data.getD key current ≠ .str [] →
      (representable v = true ↔ CleanNumber key current data) := by
    rintro n rfl hne
    exact ⟨fun _ hget => absurd (hraw _ hget) hne, fun _ => rfl⟩
  unfold mergeNumber at h
  split at h
  · rename_i hempty
    obtain rfl := Except.ok.inj h
    cases hget : data.get key with
    | some raw =>
      rw [hraw raw hget] at hempty
      rw [hempty] at hget
      exact ⟨fun hcurrent _ => hcurrent, fun hclean => hclean hget⟩
    | none =>
      rw [PyDict.getD, hget] at hempty
      have hcurrent : representable current = true := by
        rw [show current = .str [] from hempty]
        rfl
      exact ⟨fun _ _ => hcurrent, fun _ => hcurrent⟩
  · rename_i raw hne hstr
    split at h
    · obtain rfl := Except.ok.inj h
      refine hnumber _ rfl fun heq => hne ?_
      exact PyValue.str.inj (hstr.symm.trans heq)
    · cases h
  · rename_i n hint
    obtain rfl := Except.ok.inj h
    refine hnumber _ rfl fun heq => ?_
    rw [hint] at heq
    cases heq
  · cases h

/-! ## Saving -/

/-- Every string the update brings is plain, and every value it leaves can be held by the file. -/
structure Clean (current : Config) (data : PyDict) : Prop where
  port : CleanNumber "port" current.port data
  approvalTtl : CleanNumber "approval_ttl" current.approvalTtl data
  rateLimit : CleanNumber "rate_limit" current.rateLimit data
  toolsRoot : CleanText "tools_root" current.toolsRoot data
  nodUrl : CleanText "nod_url" current.nodUrl data
  nodToken : CleanText "nod_token" current.nodToken data
  nodChannel : CleanText "nod_channel" current.nodChannel data
  dbPath : representable current.dbPath = true
  toolDirs : representable current.toolDirs = true

theorem clean_iff {current m : Config} {data : PyDict} (h : Merged H current data m) :
    Clean current data ↔ ∀ kv ∈ m.asdict, representable kv.2 = true := by
  have hport := mergeNumber_representable H h.port
  have httl := mergeNumber_representable H h.approvalTtl
  have hrate := mergeNumber_representable H h.rateLimit
  have hroot := mergeText_representable h.toolsRoot
  have hurl := mergeText_representable h.nodUrl
  have htoken := mergeText_representable h.nodToken
  have hchannel := mergeText_representable h.nodChannel
  simp only [Config.asdict, List.forall_mem_cons, hport, httl, hrate, hroot, hurl, htoken, hchannel, h.dbPath,
    h.toolDirs]
  constructor
  · exact fun hc => ⟨hc.port, hc.dbPath, hc.toolsRoot, hc.nodUrl, hc.nodToken, hc.nodChannel, hc.approvalTtl,
      hc.rateLimit, hc.toolDirs, fun _ hmem => nomatch hmem⟩
  · rintro ⟨port, dbPath, root, url, token, channel, ttl, rate, dirs, -⟩
    exact ⟨port, ttl, rate, root, url, token, channel, dbPath, dirs⟩

theorem not_surrogate {c : CodePoint} (h : allowed c = true) : c.isSurrogate = false := by
  simp only [allowed, CodePoint.isSurrogate, Bool.or_eq_true, Bool.and_eq_true, beq_iff_eq, decide_eq_true_eq,
    bne_iff_ne, Bool.not_eq_true', Bool.and_eq_false_iff, decide_eq_false_iff_not] at h ⊢
  omega

theorem map_eq_self {f : PyValue → PyValue} {c : Config} (h : ∀ kv ∈ c.asdict, f kv.2 = kv.2) : c.map f = c := by
  obtain ⟨port, dbPath, root, url, token, channel, ttl, rate, dirs⟩ := c
  simp only [Config.asdict, List.forall_mem_cons] at h
  obtain ⟨hport, hpath, hroot, hurl, htoken, hchannel, httl, hrate, hdirs, -⟩ := h
  simp only [Config.map, hport, hpath, hroot, hurl, htoken, hchannel, httl, hrate, hdirs]

/-- The merged configuration is read back as it was just when its values can all be held. -/
theorem save_load_representable {current m : Config} {data : PyDict} (h : Merged H current data m) {p : PyStr}
    (hpath : m.dbPath = .str p) (habs : H.absPath p = some p) :
    (∃ text, save H m = some text ∧ load H (some text) = .ok m) ↔ ∀ kv ∈ m.asdict, representable kv.2 = true := by
  constructor
  · rintro ⟨text, hsave, hload⟩
    have htext : text = toToml H m.asdict := by
      unfold save at hsave
      split_ifs at hsave
      exact (Option.some.inj hsave).symm
    subst htext
    by_cases hplain : ∀ s ∈ allStrings H m.asdict, ∀ d ∈ s, plain d = true
    · rw [load] at hload
      simp only [parse_plain H hplain] at hload
      obtain ⟨-, q, -, -, hm, -⟩ := (fromTable_table H).1 hload
      have hfix : reread H m.dbPath = m.dbPath := by rw [hpath]; rfl
      have hsame : ∀ kv ∈ m.asdict, reread H kv.2 = kv.2 := by
        simp only [Config.asdict, List.forall_mem_cons]
        exact ⟨(congrArg Config.port hm).symm, hfix, (congrArg Config.toolsRoot hm).symm,
          (congrArg Config.nodUrl hm).symm, (congrArg Config.nodToken hm).symm, (congrArg Config.nodChannel hm).symm,
          (congrArg Config.approvalTtl hm).symm, (congrArg Config.rateLimit hm).symm,
          (congrArg Config.toolDirs hm).symm, fun _ hmem => nomatch hmem⟩
      exact fun kv hkv => (representable_iff H kv.2).2
        ⟨fun s hs => hplain s (List.mem_flatMap.2 ⟨kv, hkv, hs⟩), hsame kv hkv⟩
    · rw [load, parse, loads_not_plain H (writable_asdict m)] at hload
      · cases hload
      · by_contra hno
        refine hplain fun s hs c hc => ?_
        by_contra hbad
        exact hno ⟨s, hs, c, hc, Bool.eq_false_iff.2 hbad⟩
  · intro hall
    have hplain : ∀ s ∈ allStrings H m.asdict, ∀ d ∈ s, plain d = true := by
      intro s hs
      obtain ⟨kv, hkv, hs⟩ := List.mem_flatMap.1 hs
      exact ((representable_iff H kv.2).1 (hall kv hkv)).1 s hs
    have hsame : m.map (reread H) = m :=
      map_eq_self fun kv hkv => ((representable_iff H kv.2).1 (hall kv hkv)).2
    refine ⟨toToml H m.asdict, ?_, ?_⟩
    · rw [save, if_neg]
      rw [Bool.not_eq_true, List.any_eq_false]
      intro c hc
      rw [not_surrogate ((loads_plain H (writable_asdict m) hplain).2 c hc)]
      exact Bool.false_ne_true
    · rw [load]
      simp only [parse_plain H hplain, hsame]
      exact (fromTable_table H).2 ⟨p, p, hpath, habs, by rw [← hpath], h.quiet⟩

/-- A saved update is read back as it was exactly when its strings are plain and it leaves nothing
that only a file edited by hand can have. -/
theorem save_load_iff {current m : Config} {data : PyDict} (hload : ∃ file, fromTable H file = .ok current)
    (hmerge : mergeUpdate H current data = .ok m) :
    (∃ text, save H m = some text ∧ load H (some text) = .ok m) ↔ Clean current data := by
  obtain ⟨file, hfile⟩ := hload
  have hmerged := merged_of_ok H hmerge
  obtain ⟨p, hpath, habs⟩ := dbPath_absolute H hfile
  rw [clean_iff H hmerged]
  exact save_load_representable H hmerged (hmerged.dbPath.trans hpath) habs

/-! ## A channel of two lines -/

/-- A host where the paths and texts below are what they are. -/
def host : Host where
  str _ := []
  int _ := none
  compare _ _ := none
  netlocOk _ := true
  ipAddress _ := none
  inetAton _ := none
  defaultDbPath := py "/data/broker.db"
  absPath := some
  absPath_idem _ _ _ := rfl

def defaults : Config where
  port := .int 8765
  dbPath := .str (py "/data/broker.db")
  toolsRoot := .str (py "tools")
  nodUrl := .str []
  nodToken := .str []
  nodChannel := .str []
  approvalTtl := .int 3600
  rateLimit := .int 120
  toolDirs := .list []

def channel (name : String) : PyDict := [(py "nod_channel", .str (py name))]

theorem defaults_loaded : ∃ file, fromTable host file = .ok defaults := ⟨[], rfl⟩

theorem save_load_iff_sample :
    (∃ text, save host { defaults with nodChannel := .str (py "ops") } = some text ∧
      load host (some text) = .ok { defaults with nodChannel := .str (py "ops") }) ↔ Clean defaults (channel "ops") :=
  save_load_iff host defaults_loaded rfl

/-- The file of a channel with a line end in its name cannot be loaded. -/
theorem save_load_two_lines : ∃ m text, mergeUpdate host defaults (channel "a\nb") = .ok m ∧
    save host m = some text ∧ load host (some text) = .error .other := by
  refine ⟨{ defaults with nodChannel := .str (py "a\nb") }, _, rfl, rfl, ?_⟩
  have hmem : py "a\nb" ∈ allStrings host (Config.asdict { defaults with nodChannel := .str (py "a\nb") }) :=
    List.mem_flatMap.2 ⟨("nod_channel", .str (py "a\nb")), by simp [Config.asdict], List.mem_singleton_self _⟩
  rw [load, parse, loads_not_plain host (writable_asdict _) ⟨_, hmem, lf, by decide, by decide⟩]
  rfl

end Toolstack.Admin.BrokerConfig
