import Toolstack.Client.McpServer
import Toolstack.Fallible

/-! The names under which the MCP surfaces advertise operations: when each of them leads back to
the operation it stands for. -/

namespace Toolstack.Broker

/-! ## Two parts and a separator -/

section Separator
variable {α : Type} {u : α} {a b c d : List α}

/-- A text is cut the same way twice, or one cut is further on by a part and a separator. -/
theorem append_sep_cases (hb : b.head? ≠ some u) (hd : d.head? ≠ some u)
    (h : a ++ u :: u :: b = c ++ u :: u :: d) :
    (a = c ∧ b = d) ∨ (∃ r, c = a ++ u :: u :: r ∧ b = r ++ u :: u :: d) ∨
      ∃ r, a = c ++ u :: u :: r ∧ d = r ++ u :: u :: b := by
  have hrest : ∀ {s b d : List α}, b.head? ≠ some u → u :: u :: b = s ++ u :: u :: d →
      (s = [] ∧ b = d) ∨ ∃ r, s = u :: u :: r ∧ b = r ++ u :: u :: d := by
    intro s b d hb h
    cases s with
    | nil =>
      simp only [List.nil_append, List.cons.injEq, true_and] at h
      exact .inl ⟨rfl, h⟩
    | cons x s =>
      cases s with
      | nil =>
        simp only [List.cons_append, List.nil_append, List.cons.injEq] at h
        obtain ⟨rfl, -, rfl⟩ := h
        exact absurd rfl hb
      | cons y r =>
        simp only [List.cons_append, List.cons.injEq] at h
        obtain ⟨rfl, rfl, rfl⟩ := h
        exact .inr ⟨r, rfl, rfl⟩
  rcases List.append_eq_append_iff.1 h with ⟨s, rfl, hs⟩ | ⟨s, rfl, hs⟩
  · rcases hrest hb hs with ⟨rfl, rfl⟩ | ⟨r, rfl, rfl⟩
    · exact .inl ⟨(List.append_nil a).symm, rfl⟩
    · exact .inr (.inl ⟨r, rfl, rfl⟩)
  · rcases hrest hd hs with ⟨rfl, rfl⟩ | ⟨r, rfl, rfl⟩
    · exact .inl ⟨List.append_nil c, rfl⟩
    · exact .inr (.inr ⟨r, rfl, rfl⟩)

end Separator

namespace Mcp

open Registry (Listed listOps)

/-- `b`'s tool id goes on, after the separator, with what `a`'s operation starts with. -/
def Extends (a b : String × String) : Prop :=
  ∃ r, b.1 = a.1 ++ "__" ++ r ∧ a.2 = r ++ "__" ++ b.2

/-- Two operations that come to one name. -/
def Collide (a b : String × String) : Prop := Extends a b ∨ Extends b a

/-- An identifier starts with a letter or a digit. -/
def Plain (s : String) : Prop := s.toList.head? ≠ some '_'

instance Plain.decidable (s : String) : Decidable (Plain s) := inferInstanceAs (Decidable (_ ≠ _))

theorem toList_joined (s t : String) : (s ++ "__" ++ t).toList = s.toList ++ '_' :: '_' :: t.toList := by
  rw [String.toList_append, String.toList_append, List.append_assoc]
  rfl

theorem extends_iff {a b : String × String} : Extends a b ↔
    ∃ r, b.1.toList = a.1.toList ++ '_' :: '_' :: r ∧ a.2.toList = r ++ '_' :: '_' :: b.2.toList := by
  constructor
  · rintro ⟨r, htool, hop⟩
    exact ⟨r.toList, by rw [htool, toList_joined], by rw [hop, toList_joined]⟩
  · rintro ⟨r, htool, hop⟩
    refine ⟨String.ofList r, String.toList_injective ?_, String.toList_injective ?_⟩
    · rw [htool, toList_joined, String.toList_ofList]
    · rw [hop, toList_joined, String.toList_ofList]

theorem joined_eq_iff {a b : String × String} (ha : Plain a.2) (hb : Plain b.2) :
    joined a = joined b ↔ a = b ∨ Collide a b := by
  have hjoined : joined a = joined b ↔
      a.1.toList ++ '_' :: '_' :: a.2.toList = b.1.toList ++ '_' :: '_' :: b.2.toList := by
    rw [joined, joined, py_injective.eq_iff, ← toList_joined, ← toList_joined,
      String.toList_inj]
  rw [hjoined, Collide, extends_iff, extends_iff]
  constructor
  · intro h
    rcases append_sep_cases ha hb h with ⟨htool, hop⟩ | hext
    · exact .inl (Prod.ext (String.toList_injective htool) (String.toList_injective hop))
    · exact .inr hext
  · rintro (rfl | ⟨r, htool, hop⟩ | ⟨r, htool, hop⟩)
    · rfl
    · simp [htool, hop]
    · simp [htool, hop]

end Mcp

/-! ## What a loaded catalog is like -/

namespace Registry

/-- Tools and operations are listed once, and no operation's name starts with an underscore. -/
structure WellFormed (registry : Registry) : Prop where
  tools : (registry.map Prod.fst).Nodup
  ops : ∀ t ∈ registry, (t.2.ops.map Prod.fst).Nodup
  plain : ∀ t ∈ registry, ∀ o ∈ t.2.ops, Mcp.Plain o.1

theorem plain_string {s : PyStr} (h : idFullmatch s = true) : Mcp.Plain (string s) := by
  obtain ⟨hhead, -⟩ := Bool.and_eq_true_iff.1 h
  rw [Mcp.Plain, string, String.toList_ofList, List.head?_map]
  cases hs : s.head? with
  | none => exact nofun
  | some c =>
    rw [hs, Option.any_some] at hhead
    simp only [idHead, Url.isAlpha, Url.isDigit, Bool.or_eq_true, Bool.and_eq_true,
      decide_eq_true_eq] at hhead
    have hval : (Char.ofNat c.val).toNat = c.val := toNat_ofNat (by omega)
    intro heq
    rw [Option.map_some, Option.some_inj] at heq
    have h5f : c.val = 0x5F := hval.symm.trans (congrArg Char.toNat heq)
    omega

variable {H : Hash} {netlocOk : PyStr → Bool} {host : Option String} {ops ops' : Dict OpMeta}
  {catalog catalog' : Registry}

/-- The operations of one tool. -/
structure Ops (ops : Dict OpMeta) : Prop where
  nodup : (ops.map Prod.fst).Nodup
  plain : ∀ o ∈ ops, Mcp.Plain o.1

theorem Ops.nil : Ops [] := ⟨List.nodup_nil, fun _ ho => absurd ho List.not_mem_nil⟩

theorem Ops.append {name : String} {m : OpMeta} (h : Ops ops) (hnew : (ops.get name).isSome = false)
    (hplain : Mcp.Plain name) : Ops (ops ++ [(name, m)]) := by
  have hnot : name ∉ ops.map Prod.fst := by
    intro hmem
    obtain ⟨o, ho, rfl⟩ := List.mem_map.1 hmem
    rw [Dict.get, Option.isSome_map, ← Bool.not_eq_true, List.find?_isSome] at hnew
    exact hnew ⟨o, ho, decide_eq_true rfl⟩
  refine ⟨?_, fun o ho => ?_⟩
  · rw [List.map_append]
    refine List.nodup_append.2 ⟨h.nodup, List.nodup_singleton _, ?_⟩
    rintro _ ha b hb rfl
    obtain rfl := List.mem_singleton.1 hb
    exact hnot ha
  · rcases List.mem_append.1 ho with hold | hlast
    · exact h.plain o hold
    · obtain rfl := List.mem_singleton.1 hlast
      exact hplain

theorem addOperation_ops {item : Json} (h : Ops ops) (hadd : addOperation host ops item = .ok ops') :
    Ops ops' := by
  unfold addOperation at hadd
  split at hadd
  · split at hadd
    · simp only [Fallible.guard_ok, Fallible.bind_ok, Fallible.pure_ok] at hadd
      obtain ⟨hid, hnew, rest, -, fields, -, rfl⟩ := hadd
      exact h.append (by simpa using hnew) (plain_string (by simpa using hid))
    · cases hadd
  · cases hadd

theorem injectRefresh_ops {secrets : Json} (h : Ops ops)
    (hinject : injectRefresh secrets ops = .ok ops') : Ops ops' := by
  unfold injectRefresh at hinject
  split_ifs at hinject with hsecret htaken
  · exact Except.ok.inj hinject ▸ h
  · obtain rfl := Except.ok.inj hinject
    rw [not_or, Bool.not_eq_true, Bool.not_eq_true] at htaken
    have hfirst := h.append (m := refreshMeta
      "Re-pull every declared secret from the backend into the tool's in-memory cache." (.arr []))
      htaken.1 (by decide)
    have hsecond : ((ops ++ [("refresh", refreshMeta
      "Re-pull every declared secret from the backend into the tool's in-memory cache." (.arr []))] :
        Dict OpMeta).get "refresh_one").isSome = false := by
      have hnone := htaken.2
      simp only [Dict.get, Option.isSome_map, List.find?_append] at hnone ⊢
      rw [Option.isSome_or, hnone]
      rfl
    have hboth := hfirst.append (m := refreshMeta "Re-pull a single secret by name (arg: name)." refreshArgs)
      hsecond (by decide)
    rwa [List.append_assoc] at hboth

theorem addToml_ok {m : Manifest} (h : addToml H netlocOk catalog m = .ok catalog') :
    ∃ id port type ops, toolId (get m.data "id") = .ok id ∧ Ops ops ∧
      catalog' = catalog.set id ⟨port, type, ops, some (m.path, H.digest m.raw)⟩ := by
  simp only [addToml, Fallible.bind_ok, Fallible.pure_ok] at h
  obtain ⟨id, hid, type, -, port, -, host, -, items, -, ops₀, hfold, ops, hinject, rfl⟩ := h
  have hops : Ops ops₀ :=
    Fallible.foldlM_ok .nil (fun _ _ _ _ hops hadd => addOperation_ops hops hadd) hfold
  exact ⟨id, port, type, ops, hid, injectRefresh_ops hops hinject, rfl⟩

theorem keys_set (catalog : Registry) (id : String) (e : CatalogEntry) :
    (catalog.set id e).map Prod.fst = catalog.map Prod.fst ∨
      id ∉ catalog.map Prod.fst ∧ (catalog.set id e).map Prod.fst = catalog.map Prod.fst ++ [id] := by
  unfold Dict.set
  split_ifs with hany
  · refine .inl ?_
    rw [List.map_map]
    refine List.map_congr_left fun t _ => ?_
    by_cases ht : t.1 = id <;> simp [ht]
  · refine .inr ⟨fun hmem => hany ?_, by simp⟩
    obtain ⟨t, ht, rfl⟩ := List.mem_map.1 hmem
    exact List.any_eq_true.2 ⟨t, ht, decide_eq_true rfl⟩

theorem mem_set {id : String} {e : CatalogEntry} {t : String × CatalogEntry} (h : t ∈ catalog.set id e) :
    t ∈ catalog ∨ t = (id, e) := by
  unfold Dict.set at h
  split_ifs at h
  · obtain ⟨t', ht', rfl⟩ := List.mem_map.1 h
    by_cases hid : t'.1 = id
    · exact .inr (if_pos hid)
    · exact .inl ((if_neg hid).symm ▸ ht')
  · rcases List.mem_append.1 h with hold | hnew
    · exact .inl hold
    · exact .inr (List.mem_singleton.1 hnew)

theorem WellFormed.addToml {m : Manifest} (h : WellFormed catalog)
    (hadd : addToml H netlocOk catalog m = .ok catalog') : WellFormed catalog' := by
  obtain ⟨id, port, type, ops, -, hops, rfl⟩ := addToml_ok hadd
  refine ⟨?_, fun t ht => ?_, fun t ht => ?_⟩
  · rcases keys_set catalog id ⟨port, type, ops, some (m.path, H.digest m.raw)⟩ with hsame | ⟨hnew, hkeys⟩
    · exact hsame.symm ▸ h.tools
    · rw [hkeys]
      refine List.nodup_append.2 ⟨h.tools, List.nodup_singleton _, ?_⟩
      rintro _ ha b hb rfl
      obtain rfl := List.mem_singleton.1 hb
      exact hnew ha
  · rcases mem_set ht with hold | rfl
    · exact h.ops t hold
    · exact hops.nodup
  · rcases mem_set ht with hold | rfl
    · exact h.plain t hold
    · exact hops.plain

theorem WellFormed.nil : WellFormed [] :=
  ⟨List.nodup_nil, fun _ ht => absurd ht List.not_mem_nil, fun _ ht => absurd ht List.not_mem_nil⟩

theorem wellFormed_of_manifests {manifests : List Manifest} {registry : Registry}
    (h : fromManifests H netlocOk manifests = .ok registry) : WellFormed registry :=
  Fallible.foldlM_ok .nil (fun _ _ _ _ hwf hadd => hwf.addToml hadd) h

/-! ## What is listed -/

theorem WellFormed.nodup_specs {registry : Registry} (h : WellFormed registry) :
    ((listOps registry).map Mcp.spec).Nodup := by
  rw [listOps, List.map_flatMap]
  refine List.nodup_flatMap.2 ⟨fun t ht => ?_, ?_⟩
  · -- Within a tool the names of its operations differ.
    have hops := h.ops t ht
    rw [List.map_map]
    refine List.Nodup.of_map Prod.snd ?_
    rw [List.map_map]
    exact hops
  · refine (List.pairwise_map.1 h.tools).imp fun {t t'} hne => ?_
    intro s hs hs'
    simp only [List.map_map, List.mem_map, Function.comp] at hs hs'
    obtain ⟨o, -, rfl⟩ := hs
    obtain ⟨o', -, heq⟩ := hs'
    exact hne (Prod.mk.inj heq).1.symm

theorem WellFormed.plain_op {registry : Registry} (h : WellFormed registry) {l : Listed}
    (hl : l ∈ listOps registry) : Mcp.Plain l.op := by
  obtain ⟨t, ht, hl⟩ := List.mem_flatMap.1 hl
  obtain ⟨o, ho, rfl⟩ := List.mem_map.1 hl
  exact h.plain t ht o ho

end Registry

namespace Mcp

open Registry (Listed listOps)

variable {registry : Registry} {policy : Policy}

/-! ## Both surfaces -/

/-- Every advertised name leads to the operation it was advertised for, on both surfaces. -/
structure Faithful (registry : Registry) (policy : Policy) : Prop where
  distinct : ((listTools registry policy).map Tool.name).Nodup
  resolves : ∀ t ∈ listTools registry policy, resolveName registry t.name = some (spec t.described)
  calls : ∀ t ∈ listTools registry policy, ∀ ctx caller correlationId params header arguments,
    Json.find? params (py "name") = some (.str t.name) →
      callTool.withArguments ctx registry caller correlationId params header arguments =
        throttled ctx caller (callResolved ctx caller correlationId params header arguments t.name
          t.described.tool t.described.op)
  client : ∀ l ∈ httpTools registry policy,
    Mapping.get (Client.listTools (httpTools registry policy)) (joined (spec l)) = some (spec l)

/-- No operation the caller may use shares its name with a later one that the broker knows, and
no two that the caller may use share theirs. -/
structure Apart (registry : Registry) (policy : Policy) : Prop where
  broker : (registeredOps registry).Pairwise fun a b => usable policy a = true → ¬Collide a b
  client : ((httpTools registry policy).map spec).Pairwise fun a b => ¬Collide a b

/-- Among different operations, names differ where there is no collision. -/
theorem pairwise_joined_iff {p : String × String → Prop} {xs : List (String × String)} (hxs : xs.Nodup)
    (hplain : ∀ x ∈ xs, Plain x.2) :
    xs.Pairwise (fun a b => p a → joined a ≠ joined b) ↔ xs.Pairwise fun a b => p a → ¬Collide a b := by
  constructor
  · refine fun h => h.imp_of_mem fun {a b} ha hb hne hp hcollide => hne hp ?_
    exact (joined_eq_iff (hplain a ha) (hplain b hb)).2 (.inr hcollide)
  · refine fun h => (hxs.and h).imp_of_mem fun {a b} ha hb hab hp heq => ?_
    rcases (joined_eq_iff (hplain a ha) (hplain b hb)).1 heq with hsame | hcollide
    · exact hab.1 hsame
    · exact hab.2 hp hcollide

theorem advertised_eq (registry : Registry) (policy : Policy) :
    (listTools registry policy).map (fun t => spec t.described) =
      (registeredOps registry).filter (usable policy) := by
  rw [listTools, registeredOps, List.map_map, List.filter_map]
  rfl

theorem name_eq {t : Tool} (ht : t ∈ listTools registry policy) : t.name = joined (spec t.described) := by
  obtain ⟨l, -, rfl⟩ := List.mem_map.1 ht
  rfl

theorem resolveName_registered {x : String × String} (hx : x ∈ registeredOps registry) :
    resolveName registry (joined x) =
      Mapping.get (Mapping.collect joined (registeredOps registry)) (joined x) := by
  unfold resolveName
  cases hget : Mapping.get (Mapping.collect joined (registeredOps registry)) (joined x) with
  | none => exact absurd rfl (Mapping.get_collect_eq_none.1 hget x hx)
  | some y => rfl

theorem resolves_iff (h : Registry.WellFormed registry) :
    (∀ t ∈ listTools registry policy, resolveName registry t.name = some (spec t.described)) ↔
      (registeredOps registry).Pairwise fun a b => usable policy a = true → joined a ≠ joined b := by
  have hnodup : (registeredOps registry).Nodup :=
    h.nodup_specs.sublist ((List.filter_sublist (l := listOps registry)).map spec)
  have hadvertised : (∀ t ∈ listTools registry policy,
      resolveName registry t.name = some (spec t.described)) ↔
      ∀ x ∈ registeredOps registry, usable policy x = true → resolveName registry (joined x) = some x := by
    constructor
    · intro hall x hx hp
      have hmem : x ∈ (listTools registry policy).map fun t => spec t.described :=
        advertised_eq registry policy ▸ List.mem_filter.2 ⟨hx, hp⟩
      obtain ⟨t, ht, rfl⟩ := List.mem_map.1 hmem
      exact name_eq ht ▸ hall t ht
    · intro hall t ht
      have hmem : spec t.described ∈ (registeredOps registry).filter (usable policy) :=
        advertised_eq registry policy ▸ List.mem_map_of_mem ht
      obtain ⟨hx, hp⟩ := List.mem_filter.1 hmem
      rw [name_eq ht]
      exact hall _ hx hp
  rw [hadvertised, ← Mapping.forall_get_collect_iff (p := fun x => usable policy x = true) hnodup]
  exact forall₂_congr fun x hx => by rw [resolveName_registered hx]

theorem calls_of_resolves {t : Tool} (h : resolveName registry t.name = some (spec t.described))
    {ctx : Context} {caller : Caller} {correlationId : Text} {params : List (PyStr × Json)}
    {header : Option PyStr} {arguments : List (PyStr × Json)}
    (hname : Json.find? params (py "name") = some (.str t.name)) :
    callTool.withArguments ctx registry caller correlationId params header arguments =
      throttled ctx caller (callResolved ctx caller correlationId params header arguments t.name
        t.described.tool t.described.op) := by
  unfold callTool.withArguments
  simp only [hname, Option.getD_some, nameOf, Interleave.Prog.pure_eq, Interleave.Prog.ret_bind, h, spec]

theorem names_faithful_iff (H : Hash) (netlocOk : PyStr → Bool) (manifests : List Manifest)
    (registry : Registry) (policy : Policy)
    (h : Registry.fromManifests H netlocOk manifests = .ok registry) :
    Faithful registry policy ↔ Apart registry policy := by
  have hwf := Registry.wellFormed_of_manifests h
  have hplain : ∀ {l}, l ∈ listOps registry → Plain (spec l).2 := hwf.plain_op
  have hregistered : (registeredOps registry).Pairwise
        (fun a b => usable policy a = true → joined a ≠ joined b) ↔
      (registeredOps registry).Pairwise fun a b => usable policy a = true → ¬Collide a b := by
    refine pairwise_joined_iff ?_ fun x hx => ?_
    · exact hwf.nodup_specs.sublist ((List.filter_sublist (l := listOps registry)).map spec)
    · obtain ⟨l, hl, rfl⟩ := List.mem_map.1 hx
      exact hplain (List.mem_of_mem_filter hl)
  have hhttp : ((httpTools registry policy).map spec).Nodup :=
    hwf.nodup_specs.sublist ((List.filter_sublist (l := listOps registry)).map spec)
  have hclient : (∀ l ∈ httpTools registry policy,
        Mapping.get (Client.listTools (httpTools registry policy)) (joined (spec l)) = some (spec l)) ↔
      ((httpTools registry policy).map spec).Pairwise fun a b => ¬Collide a b := by
    have hcollect := @Mapping.forall_get_collect_iff _ _ _ joined (fun _ => True) _ hhttp
    have hjoined := pairwise_joined_iff (p := fun _ => True) hhttp fun x hx => by
      obtain ⟨l, hl, rfl⟩ := List.mem_map.1 hx
      exact hplain (List.mem_of_mem_filter hl)
    simp only [true_implies] at hcollect hjoined
    rw [← hjoined, ← hcollect, List.forall_mem_map]
    rfl
  constructor
  · exact fun hf => ⟨hregistered.1 ((resolves_iff hwf).1 hf.resolves), hclient.1 hf.client⟩
  · intro ha
    have hnames := hregistered.2 ha.broker
    have hresolves := (resolves_iff hwf).2 hnames
    refine ⟨?_, hresolves, fun t ht _ _ _ _ _ _ hname => calls_of_resolves (hresolves t ht) hname,
      hclient.2 ha.client⟩
    have hmap : (listTools registry policy).map Tool.name =
        ((registeredOps registry).filter (usable policy)).map joined := by
      rw [← advertised_eq, List.map_map]
      exact List.map_congr_left fun t ht => name_eq ht
    rw [hmap, List.Nodup, List.pairwise_map]
    refine (hnames.filter _).imp_of_mem fun {a b} ha _ hne => hne ?_
    exact (List.mem_filter.1 ha).2

/-! ### Sample catalogs -/

namespace Sample

def mark : Text → Text := List.cons 'h'

theorem mark_injective : Function.Injective mark := List.cons_injective

theorem mark_ne_nil (t : Text) : mark t ≠ [] := List.cons_ne_nil _ t

def hash : Hash := ⟨mark, mark_injective, mark_ne_nil⟩

def manifest (id op : String) (port : Int) : Manifest where
  path := "/tools/" ++ id ++ "/toolyard.toml"
  raw := id.toList
  data := [(py "id", strJson id), (py "entrypoint", .obj [(py "port", .int port)]),
    (py "operations", .arr [.obj [(py "name", strJson op)]])]

def echo : Manifest := manifest "echo" "run" 8001

/-- Two tools whose one operation is called `a__b__c`. -/
def meeting : List Manifest := [manifest "a" "b__c" 8001, manifest "a__b" "c" 8002]

def allowed : Policy := { tools := some [("echo", [("run", "allow")]), ("a", [("b__c", "allow")]),
  ("a__b", [("c", "allow")])] }

end Sample

/-- Both names are advertised, and both are resolved to the second tool. -/
theorem names_meet : ∃ registry,
    Registry.fromManifests Sample.hash (fun _ => true) Sample.meeting = .ok registry ∧
      ¬Faithful registry Sample.allowed := by
  obtain ⟨registry, hok⟩ : ∃ registry,
      Registry.fromManifests Sample.hash (fun _ => true) Sample.meeting = .ok registry := ⟨_, rfl⟩
  have hnames : (Registry.fromManifests Sample.hash (fun _ => true) Sample.meeting).map
      (fun r => (listTools r Sample.allowed).map Tool.name) = .ok [py "a__b__c", py "a__b__c"] := by rfl
  refine ⟨registry, hok, fun h => ?_⟩
  rw [hok] at hnames
  have hlist : (listTools registry Sample.allowed).map Tool.name = [py "a__b__c", py "a__b__c"] :=
    Except.ok.inj hnames
  have hdistinct := h.distinct
  rw [hlist] at hdistinct
  exact absurd hdistinct (by decide)

theorem names_faithful_iff_echo : ∃ registry,
    Registry.fromManifests Sample.hash (fun _ => true) [Sample.echo] = .ok registry ∧
      Faithful registry Sample.allowed := by
  refine ⟨_, rfl, (names_faithful_iff Sample.hash (fun _ => true) [Sample.echo] _ Sample.allowed rfl).2 ?_⟩
  exact ⟨List.pairwise_singleton .., List.pairwise_singleton ..⟩

end Mcp

end Toolstack.Broker
