import Toolstack.Admin.CallerSettings
import Toolstack.Fallible

/-! What a settings edit does to every decision: the draft's effects for the catalog's operations,
and no change for a tool the catalog does not show. -/

namespace Toolstack.Broker

namespace Dict
variable {α : Type}

theorem get_cons (kv : String × α) (d : Dict α) (k : String) :
    get (kv :: d) k = if kv.1 = k then some kv.2 else get d k := by
  unfold get
  rw [List.find?_cons]
  by_cases h : kv.1 = k <;> simp [h]

theorem get_append_single (d : Dict α) (k k' : String) (v : α) (h : ∀ kv ∈ d, kv.1 ≠ k) :
    get (d ++ [(k, v)]) k' = if k' = k then some v else get d k' := by
  induction d with
  | nil => simp [get, eq_comm]
  | cons kv d ih =>
    have hkv : kv.1 ≠ k := h kv (List.mem_cons_self ..)
    rw [List.cons_append, get_cons, get_cons, ih fun kv' hkv' => h kv' (List.mem_cons_of_mem _ hkv')]
    by_cases hk : kv.1 = k'
    · subst hk
      simp [hkv]
    · simp [hk]

theorem get_replace_ne (d : Dict α) {k k' : String} (v : α) (h : k' ≠ k) :
    get (d.map fun kv => if kv.1 = k then (k, v) else kv) k' = get d k' := by
  induction d with
  | nil => rfl
  | cons kv d ih =>
    rw [List.map_cons, get_cons, get_cons, ih]
    by_cases hk : kv.1 = k
    · simp [hk, h.symm]
    · simp [hk]

theorem get_replace_self (d : Dict α) {k : String} (v : α) (h : ∃ kv ∈ d, kv.1 = k) :
    get (d.map fun kv => if kv.1 = k then (k, v) else kv) k = some v := by
  induction d with
  | nil => simp at h
  | cons kv d ih =>
    rw [List.map_cons, get_cons]
    by_cases hk : kv.1 = k
    · simp [hk]
    · have hd : ∃ kv ∈ d, kv.1 = k := by simpa [hk] using h
      simpa [hk] using ih hd

theorem get_set (d : Dict α) (k k' : String) (v : α) :
    (d.set k v).get k' = if k' = k then some v else d.get k' := by
  unfold set
  by_cases h : (d.any fun kv => kv.1 = k) = true
  · rw [if_pos h]
    by_cases hk : k' = k
    · subst hk
      rw [if_pos rfl, get_replace_self d v (by simpa using h)]
    · rw [if_neg hk, get_replace_ne d v hk]
  · rw [if_neg h]
    refine get_append_single d k k' v fun kv hkv hk => h ?_
    exact List.any_eq_true.2 ⟨kv, hkv, decide_eq_true hk⟩

theorem get_foldl_set {kvs : Dict α} {k : String} {v : α} (hall : ∀ kv ∈ kvs, kv.1 = k → kv.2 = v)
    (d : Dict α) (h : (∃ kv ∈ kvs, kv.1 = k) ∨ d.get k = some v) :
    get (kvs.foldl (fun d kv => d.set kv.1 kv.2) d) k = some v := by
  induction kvs generalizing d with
  | nil => exact h.resolve_left (by simp)
  | cons kv kvs ih =>
    refine ih (fun kv' hkv' => hall kv' (List.mem_cons_of_mem _ hkv')) _ ?_
    rw [get_set]
    by_cases hk : k = kv.1
    · exact .inr (by rw [if_pos hk, hall kv (List.mem_cons_self ..) hk.symm])
    · rw [if_neg hk]
      rcases h with ⟨kv', hmem, hkv'⟩ | h
      · rcases List.mem_cons.1 hmem with rfl | hmem
        · exact absurd hkv'.symm hk
        · exact .inl ⟨kv', hmem, hkv'⟩
      · exact .inr h

theorem get_foldl_set_of_ne {kvs : Dict α} {k : String} (hne : ∀ kv ∈ kvs, kv.1 ≠ k) (d : Dict α) :
    get (kvs.foldl (fun d kv => d.set kv.1 kv.2) d) k = d.get k := by
  induction kvs generalizing d with
  | nil => rfl
  | cons kv kvs ih =>
    rw [List.foldl_cons, ih fun kv' hkv' => hne kv' (List.mem_cons_of_mem _ hkv'), get_set, if_neg]
    exact (hne kv (List.mem_cons_self ..)).symm

end Dict

namespace CallerSettings

theorem mem_sortedSet {xs : List String} {x : String} : x ∈ sortedSet xs ↔ x ∈ xs := by
  rw [sortedSet, List.mem_insertionSort, List.mem_dedup]

theorem mem_enabledTools {policy : Policy} {tool : String} : tool ∈ enabledTools policy ↔
    match policy.disabledFunctions, policy.enabled with
    | some _, some enabled => tool ∈ enabled
    | _, enabled => tool ∈ enabled.getD [] ∨ ∃ rules, (tool, rules) ∈ policy.tools.getD [] := by
  unfold enabledTools
  cases policy.disabledFunctions <;> cases policy.enabled <;> simp [mem_sortedSet]

/-! ## The draft's own words -/

/-- `tool in data["enabled"]`. -/
def enables (data : Draft) (tool : String) : Bool :=
  match Json.find? data (py "enabled") with
  | some (.arr xs) => xs.any fun
    | .str s => s = py tool
    | _ => false
  | _ => false

def entry (data : Draft) (key tool : String) : Json :=
  match Json.find? data (py key) with
  | some (.obj kvs) => (Json.find? kvs (py tool)).getD .null
  | _ => .null

/-- `op in data["disabled_functions"][tool]`. -/
def disables (data : Draft) (tool op : String) : Bool :=
  match entry data "disabled_functions" tool with
  | .arr xs => xs.any fun
    | .str s => s = py op
    | _ => false
  | _ => false

/-- `data["tools"][tool][op]`. -/
def submitted (data : Draft) (tool op : String) : Effect :=
  match entry data "tools" tool with
  | .obj kvs =>
    match Json.find? kvs (py op) with
    | some (.str s) => if s = py "allow" then .allow else if s = py "review" then .review else .deny
    | _ => .deny
  | _ => .deny

/-! ## Parsing -/

theorem mapM_some {α β : Type} {f : α → Option β} {xs : List α} {ys : List β} (h : xs.mapM f = some ys) :
    (∀ x ∈ xs, ∃ y ∈ ys, f x = some y) ∧ ∀ y ∈ ys, ∃ x ∈ xs, f x = some y :=
  ⟨fun _ hx => Fallible.exists_of_mem_left (Fallible.mapM_some.1 h) hx,
    fun _ hy => Fallible.exists_of_mem_right (Fallible.mapM_some.1 h) hy⟩

theorem find?_py {names : List String} {s : PyStr} {name : String}
    (h : names.find? (fun n => py n = s) = some name) : name ∈ names ∧ py name = s :=
  ⟨List.mem_of_find?_eq_some h, by simpa using List.find?_some h⟩

theorem mem_strings? {allowed names : List String} {xs : List Json}
    (h : strings? allowed (.arr xs) = some names) (name : String) :
    name ∈ names ↔ (xs.any fun | .str s => s = py name | _ => false) = true := by
  obtain ⟨hxs, hnames⟩ := mapM_some h
  rw [List.any_eq_true]
  constructor
  · intro hname
    obtain ⟨x, hx, hfind⟩ := hnames name hname
    refine ⟨x, hx, ?_⟩
    split at hfind
    · exact decide_eq_true (find?_py hfind).2.symm
    · cases hfind
  · rintro ⟨x, hx, hname⟩
    obtain ⟨y, hy, hfind⟩ := hxs x hx
    split at hfind
    · have hpy := of_decide_eq_true hname
      rw [← (find?_py hfind).2] at hpy
      exact py_injective hpy ▸ hy
    · cases hfind

theorem effect?_some {names : List String} {kvs : Draft} {key : PyStr} {pair : String × String}
    (h : effect? names kvs key = some pair) : py pair.1 = key ∧ pair.1 ∈ names ∧
      pair.2 ∈ effectNames ∧ Json.find? kvs (py pair.1) = some (.str (py pair.2)) := by
  obtain ⟨name, hname, h⟩ := Option.bind_eq_some_iff.1 h
  obtain ⟨hmem, hpy⟩ := find?_py hname
  split at h
  · rename_i v hv
    obtain ⟨e, he, h⟩ := Option.bind_eq_some_iff.1 h
    obtain rfl := Option.some.inj h
    obtain ⟨hemem, hepy⟩ := find?_py he
    exact ⟨hpy, hmem, hemem, by rw [hpy, hepy, hv]⟩
  · cases h

theorem effects?_pairs {names : List String} {kvs : Draft} {effects : Dict String}
    (h : effects? names (.obj kvs) = some effects) :
    (∀ name ∈ names, ∃ pair ∈ effects, pair.1 = name) ∧ ∀ pair ∈ effects, pair.1 ∈ names ∧
      pair.2 ∈ effectNames ∧ Json.find? kvs (py pair.1) = some (.str (py pair.2)) := by
  simp only [effects?] at h
  split_ifs at h with hall
  obtain ⟨hkvs, heffects⟩ := mapM_some h
  refine ⟨fun name hname => ?_, fun pair hmem => ?_⟩
  · have hsome := List.all_eq_true.1 hall name hname
    rw [Json.find?, Option.isSome_map] at hsome
    obtain ⟨kv, hkv⟩ := Option.isSome_iff_exists.1 hsome
    obtain ⟨pair, hmem, hf⟩ := hkvs kv (List.mem_of_find?_eq_some hkv)
    have hkey : kv.1 = py name := by simpa using List.find?_some hkv
    exact ⟨pair, hmem, py_injective ((effect?_some hf).1.trans hkey)⟩
  · obtain ⟨kv, -, hf⟩ := heffects pair hmem
    exact (effect?_some hf).2

theorem get_overwrite {names : List String} {kvs : Draft} {effects : Dict String}
    (h : effects? names (.obj kvs) = some effects) {name : String} (hname : name ∈ names)
    (rules : Dict String) : ∃ e ∈ effectNames, Json.find? kvs (py name) = some (.str (py e)) ∧
      (overwrite effects rules).get name = some e := by
  obtain ⟨hcover, hpairs⟩ := effects?_pairs h
  obtain ⟨pair, hmem, rfl⟩ := hcover name hname
  obtain ⟨-, heffect, hfind⟩ := hpairs pair hmem
  refine ⟨pair.2, heffect, hfind, Dict.get_foldl_set (fun kv hkv (hkey : kv.1 = pair.1) => ?_) rules
    (.inl ⟨pair, hmem, rfl⟩)⟩
  have hother := (hpairs kv hkv).2.2
  rw [hkey, hfind] at hother
  exact (py_injective (Json.str.inj (Option.some.inj hother))).symm

theorem get_overwrite_of_not_mem {names : List String} {kvs : Draft} {effects : Dict String}
    (h : effects? names (.obj kvs) = some effects) {name : String} (hname : name ∉ names)
    (rules : Dict String) : (overwrite effects rules).get name = rules.get name :=
  Dict.get_foldl_set_of_ne (fun kv hkv (hkey : kv.1 = name) =>
    hname (hkey ▸ ((effects?_pairs h).2 kv hkv).1)) rules

/-! ## Merging -/

/-- `policy.get("disabled_functions", {}).get(tool, [])`. -/
def excludedOf (policy : Policy) (tool : String) : List String :=
  ((policy.disabledFunctions.getD []).get tool).getD []

/-- `policy.get("tools", {}).get(tool, {})`. -/
def rulesOf (policy : Policy) (tool : String) : Dict String :=
  ((policy.tools.getD []).get tool).getD []

theorem decide_eq (policy : Policy) (tool op : String) : policy.decide tool op =
    if policy.disabledFunctions.isSome && policy.enabled.any (fun enabled => !enabled.contains tool)
    then .deny
    else if (excludedOf policy tool).contains op then .deny
    else Policy.norm ((rulesOf policy tool).get op) := rfl

theorem rulesOf_of_no_entry {policy : Policy} {tool : String}
    (h : ¬ ∃ rules, (tool, rules) ∈ policy.tools.getD []) : rulesOf policy tool = [] := by
  have hnone : (policy.tools.getD []).get tool = none := by
    rw [Dict.get, Option.map_eq_none_iff, List.find?_eq_none]
    intro kv hkv hkey
    exact h ⟨kv.2, by simpa [← of_decide_eq_true hkey] using hkv⟩
  rw [rulesOf, hnone]
  rfl

/-- A tool that is not shown as enabled is denied. -/
theorem decide_enabledTools (policy : Policy) (tool op : String) : policy.decide tool op =
    if tool ∉ enabledTools policy then .deny
    else if op ∈ excludedOf policy tool then .deny
    else Policy.norm ((rulesOf policy tool).get op) := by
  rw [decide_eq]
  have hshown : tool ∈ enabledTools policy ↔ _ := mem_enabledTools
  by_cases hmanaged : policy.disabledFunctions.isSome ∧ policy.enabled.isSome
  · obtain ⟨ds, hds⟩ := Option.isSome_iff_exists.1 hmanaged.1
    obtain ⟨es, hes⟩ := Option.isSome_iff_exists.1 hmanaged.2
    simp only [hds, hes] at hshown
    rw [if_congr (not_congr hshown) rfl rfl]
    simp [hds, hes]
  · have hfirst : (policy.disabledFunctions.isSome &&
        policy.enabled.any fun enabled => !enabled.contains tool) = false := by
      cases hds : policy.disabledFunctions <;> cases hes : policy.enabled <;> simp_all
    have hlegacy : tool ∈ enabledTools policy ↔ tool ∈ policy.enabled.getD [] ∨
        ∃ rules, (tool, rules) ∈ policy.tools.getD [] := by
      cases hds : policy.disabledFunctions <;> cases hes : policy.enabled <;> simp_all
    rw [hfirst]
    by_cases htool : tool ∈ enabledTools policy
    · simp [htool]
    · rw [hlegacy, not_or] at htool
      rw [rulesOf_of_no_entry htool.2, if_pos (hlegacy.not.2 (not_or.2 htool))]
      simp [Dict.get, Policy.norm]

/-- What the draft says of one tool, read against the operations the catalog shows. -/
structure Reads (disabled tools : Draft) (row : String × List CatalogOp) (excluded : List String)
    (effects : Dict String) : Prop where
  excluded : strings? (row.2.map CatalogOp.op) ((Json.find? disabled (py row.1)).getD .null) =
    some excluded
  effects : effects? (row.2.map CatalogOp.op) ((Json.find? tools (py row.1)).getD .null) = some effects

/-- One tool's entries after the edit. -/
structure Merged (row : String × List CatalogOp) (excluded : List String) (effects : Dict String)
    (before after : Policy) : Prop where
  excluded : excludedOf after row.1 =
    sortedSet ((excludedOf before row.1).filter (· ∉ row.2.map CatalogOp.op) ++ excluded)
  rules : rulesOf after row.1 = overwrite effects (rulesOf before row.1)

/-- What an edit of some tools leaves as it is. -/
structure Untouched (edited : List String) (before after : Policy) : Prop where
  rest : after.rest = before.rest
  entries : ∀ tool ∉ edited, excludedOf after tool = excludedOf before tool ∧
    rulesOf after tool = rulesOf before tool

variable {disabled tools data : Draft} {catalog : Catalog} {p p' : Policy}

theorem mergeTool_ok {row : String × List CatalogOp} (h : mergeTool disabled tools p row = .ok p') :
    (∃ excluded effects, Reads disabled tools row excluded effects ∧ Merged row excluded effects p p') ∧
      Untouched [row.1] p p' ∧ p'.enabled = p.enabled ∧ p'.disabledFunctions.isSome := by
  simp only [mergeTool] at h
  split at h
  · rename_i excluded effects hexcluded heffects
    obtain rfl := Except.ok.inj h
    refine ⟨⟨excluded, effects, ⟨hexcluded, heffects⟩, ?_, ?_⟩, ⟨rfl, fun tool htool => ?_⟩, rfl, rfl⟩
    · simp [excludedOf, Dict.get_set]
    · simp [rulesOf, Dict.get_set]
    · have hne : tool ≠ row.1 := by simpa using htool
      simp [excludedOf, rulesOf, Dict.get_set, hne]
  · cases h

theorem mergeTools_ok {rows : List (String × List CatalogOp)} (hnodup : (rows.map Prod.fst).Nodup)
    (hsome : p.disabledFunctions.isSome) (h : rows.foldlM (mergeTool disabled tools) p = .ok p') :
    (∀ row ∈ rows, ∃ excluded effects, Reads disabled tools row excluded effects ∧
      Merged row excluded effects p p') ∧
    Untouched (rows.map Prod.fst) p p' ∧ p'.enabled = p.enabled ∧ p'.disabledFunctions.isSome := by
  induction rows generalizing p with
  | nil =>
    obtain rfl := Except.ok.inj h
    exact ⟨by simp, ⟨rfl, fun _ _ => ⟨rfl, rfl⟩⟩, rfl, hsome⟩
  | cons row rows ih =>
    rw [List.foldlM_cons] at h
    cases hrow : mergeTool disabled tools p row with
    | error e => rw [hrow] at h; cases h
    | ok q =>
      rw [hrow] at h
      rw [List.map_cons, List.nodup_cons] at hnodup
      obtain ⟨⟨excluded, effects, hreads, hmerged⟩, hfirst, henabled, hsome'⟩ := mergeTool_ok hrow
      obtain ⟨hrows, hrest, henabled', hfinal⟩ := ih hnodup.2 hsome' h
      have hown := hrest.entries row.1 hnodup.1
      refine ⟨?_, ⟨hrest.rest.trans hfirst.rest, fun tool htool => ?_⟩, henabled'.trans henabled, hfinal⟩
      · rintro row' (_ | ⟨_, hmem⟩)
        · exact ⟨excluded, effects, hreads, hown.1.trans hmerged.excluded, hown.2.trans hmerged.rules⟩
        · obtain ⟨excluded', effects', hreads', hmerged'⟩ := hrows row' hmem
          have hne : row'.1 ∉ [row.1] := by
            intro hin
            rw [List.mem_singleton] at hin
            exact hnodup.1 (hin ▸ List.mem_map_of_mem hmem)
          obtain ⟨hex, hru⟩ := hfirst.entries row'.1 hne
          exact ⟨excluded', effects', hreads', by rw [hmerged'.excluded, hex], by rw [hmerged'.rules, hru]⟩
      · simp only [List.map_cons, List.mem_cons, not_or] at htool
        obtain ⟨hex, hru⟩ := hfirst.entries tool (by simpa using htool.1)
        obtain ⟨hex', hru'⟩ := hrest.entries tool htool.2
        exact ⟨hex'.trans hex, hru'.trans hru⟩

/-! ## The edited policy -/

/-- What a successful edit makes of a policy. -/
structure Edited (catalog : Catalog) (data : Draft) (before after : Policy) : Prop where
  shown : ∀ row ∈ catalog.tools, ∀ o ∈ row.2, after.decide row.1 o.op =
    if enables data row.1 && !disables data row.1 o.op then submitted data row.1 o.op else .deny
  hidden : ∀ tool ∉ catalog.tools.map Prod.fst, ∀ op, after.decide tool op = before.decide tool op
  untouched : Untouched (catalog.tools.map Prod.fst) before after
  retired : ∀ row ∈ catalog.tools, ∀ op ∉ row.2.map CatalogOp.op,
    (op ∈ excludedOf after row.1 ↔ op ∈ excludedOf before row.1) ∧
      (rulesOf after row.1).get op = (rulesOf before row.1).get op

theorem edit_inv (h : edit catalog data p = .ok p') : ∃ xs enabled disabled tools,
    Json.find? data (py "enabled") = some (.arr xs) ∧
    strings? (catalog.tools.map Prod.fst) (.arr xs) = some enabled ∧
    Json.find? data (py "disabled_functions") = some (.obj disabled) ∧
    Json.find? data (py "tools") = some (.obj tools) ∧
    catalog.tools.foldlM (mergeTool disabled tools) { p with
        enabled := some (sortedSet
          ((enabledTools p).filter (· ∉ catalog.tools.map Prod.fst) ++ enabled))
        tools := some (p.tools.getD [])
        disabledFunctions := some (p.disabledFunctions.getD []) } = .ok p' := by
  simp only [edit] at h
  split at h
  · rename_i enabled disabled tools henabled hdisabled htools
    split_ifs at h
    have hobj : ∀ {key kvs}, (Json.find? data key).getD .null = .obj kvs →
        Json.find? data key = some (.obj kvs) := fun {key kvs} hget => by
      cases hfind : Json.find? data key with
      | none => rw [hfind] at hget; cases hget
      | some v => rw [hfind] at hget; rw [show v = .obj kvs from hget]
    cases hfind : Json.find? data (py "enabled") with
    | none => rw [hfind] at henabled; cases henabled
    | some v =>
      rw [hfind] at henabled
      cases v with
      | arr xs => exact ⟨xs, enabled, disabled, tools, rfl, henabled, hobj hdisabled, hobj htools, h⟩
      | _ => cases henabled
  · cases h

theorem strings?_subset {allowed names : List String} {json : Json}
    (h : strings? allowed json = some names) : names ⊆ allowed := by
  intro name hname
  cases json with
  | arr xs =>
    obtain ⟨x, -, hfind⟩ := (mapM_some h).2 name hname
    split at hfind
    · exact (find?_py hfind).1
    · cases hfind
  | _ => cases h

theorem disables_iff {kvs : Draft} {row : String × List CatalogOp} {excluded : List String}
    (hdata : Json.find? data (py "disabled_functions") = some (.obj kvs))
    (h : strings? (row.2.map CatalogOp.op) ((Json.find? kvs (py row.1)).getD .null) = some excluded)
    (op : String) : disables data row.1 op = true ↔ op ∈ excluded := by
  simp only [disables, entry, hdata]
  cases hentry : (Json.find? kvs (py row.1)).getD .null with
  | arr xs =>
    rw [hentry] at h
    exact (mem_strings? h op).symm
  | _ => rw [hentry] at h; cases h

theorem submitted_eq {kvs : Draft} {row : String × List CatalogOp} {effects : Dict String}
    (hdata : Json.find? data (py "tools") = some (.obj kvs))
    (h : effects? (row.2.map CatalogOp.op) ((Json.find? kvs (py row.1)).getD .null) = some effects)
    {op : String} (hop : op ∈ row.2.map CatalogOp.op) (rules : Dict String) :
    Policy.norm ((overwrite effects rules).get op) = submitted data row.1 op := by
  simp only [submitted, entry, hdata]
  cases hentry : (Json.find? kvs (py row.1)).getD .null with
  | obj es =>
    rw [hentry] at h
    obtain ⟨e, he, hfind, hget⟩ := get_overwrite h hop rules
    simp only [hget, hfind, py_injective.eq_iff]
    simp only [effectNames, List.mem_cons, List.not_mem_nil, or_false] at he
    rcases he with rfl | rfl | rfl <;> rfl
  | _ => rw [hentry] at h; cases h

theorem edit_ok (h : edit catalog data p = .ok p') : Edited catalog data p p' := by
  obtain ⟨xs, enabled, disabled, tools, hxs, henabled, hdisabled, htools, hfold⟩ := edit_inv h
  obtain ⟨hrows, huntouched, hkept, hsome⟩ := mergeTools_ok catalog.nodup rfl hfold
  have hlist : ∀ tool, tool ∈ p'.enabled.getD [] ↔
      (tool ∈ enabledTools p ∧ tool ∉ catalog.tools.map Prod.fst) ∨ tool ∈ enabled := by
    intro tool
    simp [hkept, mem_sortedSet]
  have hdecide : ∀ tool op, p'.decide tool op =
      if tool ∉ p'.enabled.getD [] then .deny
      else if op ∈ excludedOf p' tool then .deny
      else Policy.norm ((rulesOf p' tool).get op) := by
    intro tool op
    rw [decide_eq, hsome, hkept]
    simp
  refine ⟨fun row hrow o ho => ?_, fun tool htool op => ?_, ⟨huntouched.rest, huntouched.entries⟩,
    fun row hrow op hop => ?_⟩
  · obtain ⟨excluded, effects, hreads, hmerged⟩ := hrows row hrow
    have hname : o.op ∈ row.2.map CatalogOp.op := List.mem_map_of_mem ho
    have hkey : row.1 ∈ catalog.tools.map Prod.fst := List.mem_map_of_mem hrow
    have hen : row.1 ∈ p'.enabled.getD [] ↔ enables data row.1 = true := by
      simp only [hlist, hkey, not_true_eq_false, and_false, false_or, enables, hxs]
      exact mem_strings? henabled row.1
    have hdis : o.op ∈ excludedOf p' row.1 ↔ disables data row.1 o.op = true := by
      rw [disables_iff hdisabled hreads.excluded, hmerged.excluded, mem_sortedSet]
      simp only [List.mem_append, List.mem_filter, hname, not_true_eq_false, decide_false,
        Bool.false_eq_true, and_false, false_or]
    rw [hdecide, hmerged.rules, submitted_eq htools hreads.effects hname]
    simp only [hen, hdis]
    cases enables data row.1 <;> cases disables data row.1 o.op <;> rfl
  · obtain ⟨hex, hru⟩ := huntouched.entries tool htool
    have hex : excludedOf p' tool = excludedOf p tool := hex
    have hru : rulesOf p' tool = rulesOf p tool := hru
    have hin : tool ∈ p'.enabled.getD [] ↔ tool ∈ enabledTools p := by
      rw [hlist]
      have hnot : tool ∉ enabled := fun hmem => htool (strings?_subset henabled hmem)
      simp [htool, hnot]
    rw [hdecide, decide_enabledTools, hex, hru, if_congr (not_congr hin) rfl rfl]
  · obtain ⟨excluded, effects, hreads, hmerged⟩ := hrows row hrow
    refine ⟨?_, ?_⟩
    · have hnot : op ∉ excluded := fun hmem => hop (strings?_subset hreads.excluded hmem)
      rw [hmerged.excluded, mem_sortedSet]
      simp only [List.mem_append, List.mem_filter, hop, not_false_eq_true, decide_true, and_true,
        hnot, or_false]
      rfl
    · rw [hmerged.rules]
      have heffects := hreads.effects
      cases hentry : (Json.find? tools (py row.1)).getD .null with
      | obj es =>
        rw [hentry] at heffects
        exact get_overwrite_of_not_mem heffects hop _
      | _ => rw [hentry] at heffects; cases heffects

end CallerSettings

end Toolstack.Broker
