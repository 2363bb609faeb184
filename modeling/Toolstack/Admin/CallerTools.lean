import Toolstack.Broker.PolicyEdits
import Toolstack.Interleave.Sequential

/-! What saving the panel's tool list does to the authority of a caller, in the panel and outside
of it. -/

namespace Toolstack.Broker.CallerTools

open CallerSettings

/-- The operator changes no authority of a tool the panel does not show, leaves nothing to a tool
without its tick, and takes nothing from one that was enabled and keeps its tick. -/
structure KeepsAuthority (available ticked : List String) (before after : Policy) : Prop where
  unseen : ∀ tool ∉ available, ∀ op, after.decide tool op = before.decide tool op
  unticked : ∀ tool ∈ available, tool ∉ ticked → ∀ op, after.decide tool op = .deny
  kept : ∀ tool ∈ available, tool ∈ ticked → tool ∈ enabledTools before →
    ∀ op, after.decide tool op = before.decide tool op

/-- A tool that is switched off is denied because of that only. -/
def SwitchedOff (p : Policy) (tool : String) : Prop :=
  tool ∉ enabledTools p ∧ ∃ op ∉ excludedOf p tool, Policy.norm ((rulesOf p tool).get op) ≠ .deny

/-! ## The policy that is saved -/

theorem get_filter_key {α : Type} (p : String → Bool) (d : Dict α) {name : String} (h : p name = true) :
    Dict.get (d.filter fun kv => p kv.1) name = d.get name := by
  unfold Dict.get
  rw [List.find?_filter]
  have hsame : (fun kv : String × α => decide (p kv.1 = true ∧ decide (kv.1 = name) = true)) =
      fun kv => decide (kv.1 = name) := by
    funext kv
    by_cases hkey : kv.1 = name
    · simp [hkey, h]
    · simp [hkey]
  rw [hsame]

theorem enableTools_managed {enabled : List String} {q : Policy} (h : q.disabledFunctions.isSome) :
    enableTools enabled q =
      { tools := some ((q.tools.getD []).filter fun t => enabled.eraseDups.contains t.1),
        enabled := some enabled.eraseDups, disabledFunctions := q.disabledFunctions } := by
  rw [enableTools, if_pos h]

theorem enableTools_legacy {enabled : List String} {q : Policy} (h : q.disabledFunctions = none) :
    enableTools enabled q =
      { tools := some ((q.tools.getD []).filter fun t => enabled.eraseDups.contains t.1),
        enabled := if enabled.eraseDups.isEmpty then none else some enabled.eraseDups } := by
  rw [enableTools, if_neg (by simp [h])]

theorem excludedOf_enableTools (enabled : List String) (q : Policy) (tool : String) :
    excludedOf (enableTools enabled q) tool = excludedOf q tool := by
  cases h : q.disabledFunctions with
  | none => simp [enableTools_legacy h, excludedOf, h]
  | some ds => simp [enableTools_managed (q := q) (by simp [h]), excludedOf]

theorem rulesOf_enableTools {enabled : List String} {q : Policy} {tool : String} (h : tool ∈ enabled) :
    rulesOf (enableTools enabled q) tool = rulesOf q tool := by
  have hkept := @get_filter_key _ (fun t => enabled.eraseDups.contains t) (q.tools.getD []) tool
    (by simpa using h)
  cases hds : q.disabledFunctions with
  | none => simp only [rulesOf, enableTools_legacy hds, Option.getD_some, hkept]
  | some ds => simp only [rulesOf, enableTools_managed (q := q) (by simp [hds]), Option.getD_some, hkept]

theorem mem_enabledTools_enableTools {enabled : List String} {q : Policy} {tool : String} :
    tool ∈ enabledTools (enableTools enabled q) ↔ tool ∈ enabled := by
  rw [mem_enabledTools]
  cases hds : q.disabledFunctions with
  | none =>
    rw [enableTools_legacy hds]
    have hlist : (if enabled.eraseDups.isEmpty then none else some enabled.eraseDups).getD [] =
        enabled.eraseDups := by
      split_ifs with hempty
      · exact (List.isEmpty_iff.1 hempty).symm
      · rfl
    simp only [hlist, Option.getD_some, List.mem_eraseDups, List.mem_filter, List.contains_iff_mem]
    tauto
  | some ds =>
    rw [enableTools_managed (by simp [hds])]
    simp [hds]

/-- `set_enabled_tools` denies the tools it disables and leaves the authority over the others to
their rules. -/
theorem decide_enableTools (enabled : List String) (q : Policy) (tool op : String) :
    (enableTools enabled q).decide tool op =
      if tool ∉ enabled then .deny
      else if op ∈ excludedOf q tool then .deny
      else Policy.norm ((rulesOf q tool).get op) := by
  rw [decide_enabledTools, excludedOf_enableTools, if_congr (not_congr mem_enabledTools_enableTools) rfl rfl]
  by_cases hon : tool ∈ enabled
  · rw [rulesOf_enableTools hon]
  · rw [if_pos hon, if_pos hon]

theorem mem_mergeEnabled {q : Policy} {available ticked : List String} {tool : String} :
    tool ∈ mergeEnabled q available ticked ↔
      (tool ∉ available ∧ (tool ∈ q.enabled.getD [] ∨ ∃ rules, (tool, rules) ∈ q.tools.getD [])) ∨
        tool ∈ ticked := by
  simp only [mergeEnabled, List.mem_eraseDups, List.mem_append, List.mem_filter, List.mem_map]
  simp
  tauto

theorem prior_of_enabledTools {q : Policy} {tool : String} (h : tool ∈ enabledTools q) :
    tool ∈ q.enabled.getD [] ∨ ∃ rules, (tool, rules) ∈ q.tools.getD [] := by
  rw [mem_enabledTools] at h
  cases hds : q.disabledFunctions <;> cases hes : q.enabled <;> simp only [hds, hes] at h
  · exact h
  · exact h
  · exact h
  · exact .inl h

/-- The panel's save: the shown tools keep the authority the operator sees, and so do the others
unless one that is switched off is denied because of that only. -/
theorem keepsAuthority_saved {q : Policy} {available ticked : List String} :
    KeepsAuthority available ticked q (enableTools (mergeEnabled q available ticked) q) ↔
      ∀ tool ∉ available, ¬SwitchedOff q tool := by
  have hdecide := decide_enableTools (mergeEnabled q available ticked) q
  constructor
  · rintro hkeeps tool htool ⟨hoff, op, hop, hrule⟩
    have hunseen := hkeeps.unseen tool htool op
    have hentry : ∃ rules, (tool, rules) ∈ q.tools.getD [] := by
      by_contra hnone
      rw [rulesOf_of_no_entry hnone] at hrule
      exact hrule rfl
    have hmerged : tool ∈ mergeEnabled q available ticked := mem_mergeEnabled.2 (.inl ⟨htool, .inr hentry⟩)
    rw [hdecide, if_neg (not_not.2 hmerged), if_neg hop, decide_enabledTools, if_pos hoff] at hunseen
    exact hrule hunseen
  · intro hnone
    refine ⟨fun tool htool op => ?_, fun tool htool hunticked op => ?_, fun tool htool hticked hon op => ?_⟩
    · rw [hdecide, decide_enabledTools]
      by_cases hon : tool ∈ enabledTools q
      · have hmerged : tool ∈ mergeEnabled q available ticked :=
          mem_mergeEnabled.2 (.inl ⟨htool, prior_of_enabledTools hon⟩)
        rw [if_neg (not_not.2 hmerged), if_neg (not_not.2 hon)]
      · -- Merging may have brought the tool back: nothing but being off denied its operations then.
        have hrule : op ∉ excludedOf q tool → Policy.norm ((rulesOf q tool).get op) = .deny := by
          intro hop
          by_contra hne
          exact hnone tool htool ⟨hon, op, hop, hne⟩
        rw [if_pos hon]
        split_ifs with _ hop
        · rfl
        · exact hrule hop
        · rfl
    · have hmerged : tool ∉ mergeEnabled q available ticked := by
        rw [mem_mergeEnabled]
        rintro (⟨hnot, -⟩ | hmem)
        · exact hnot htool
        · exact hunticked hmem
      rw [hdecide, if_pos hmerged]
    · have hmerged : tool ∈ mergeEnabled q available ticked := mem_mergeEnabled.2 (.inr hticked)
      rw [hdecide, decide_enabledTools, if_neg (not_not.2 hmerged), if_neg (not_not.2 hon)]

/-! ## The request that saves it -/

section Save
variable {H : Hash} {i : Nat} {ω : Oracle} {w : World} {name operator : String} {available ticked : List String}
  {caller : CallerRow}

/-- `POST /callers/{name}/tools` with nobody else at work. -/
def save (H : Hash) (i : Nat) (ω : Oracle) (w : World) (name : String) (available ticked : List String)
    (operator : String) : Interleave.Ran Op Op.Ret Exn Unit World :=
  (saveCallerTools name available ticked operator).run (fun o w => w.exec H i o ω) w

theorem requireCaller_run {w : World} (h : w.db.callerByName name = some caller) :
    ∃ w', (Operations.requireCaller name).run (fun o w => w.exec H i o ω) w =
      ⟨.ok caller, w', [⟨.callerByName name, some caller⟩]⟩ ∧ w'.db = w.db := by
  refine ⟨(w.exec H i (.callerByName name) ω).2, ?_, rfl⟩
  have hanswer : (w.exec H i (.callerByName name) ω).1 = some caller := h
  unfold Operations.requireCaller perform
  rw [Interleave.Prog.run_perform_bind, hanswer]
  rfl

/-- Storing a policy with its audit entry. -/
theorem stored_ok {w : World} {c : Nat} {p : Policy} {eventType : String} {details : List (String × Json)}
    (h : ((do Operations.storePolicy c p; Operations.recordAdminEvent operator eventType details : Action Unit).run
      (fun o w => w.exec H i o ω) w).result = .ok ()) :
    ((do Operations.storePolicy c p; Operations.recordAdminEvent operator eventType details : Action Unit).run
      (fun o w => w.exec H i o ω) w).world.db.policyFor c = p := by
  have hset : (w.exec H i (.setPolicy c p) ω).1 = .ok () ∧
        (w.exec H i (.setPolicy c p) ω).2.db = w.db.writePolicy ω.now c p ∨
      (w.exec H i (.setPolicy c p) ω).1 = .error .integrityError := by
    rcases setPolicy_cases ω.now c p w.db with hok | hno
    · exact .inl ⟨congrArg Prod.fst hok, congrArg Prod.snd hok⟩
    · exact .inr (congrArg Prod.fst hno)
  unfold Operations.storePolicy Operations.recordAdminEvent perform at h ⊢
  rw [Interleave.Prog.run_bind, Interleave.Prog.run_perform_bind] at h ⊢
  rcases hset with ⟨hanswer, hdb⟩ | hanswer
  · rw [hanswer]
    show ((w.exec H i (.setPolicy c p) ω).2.db.appendAudit _).policyFor c = p
    rw [hdb]
    exact policyFor_writePolicy ω.now c p w.db
  · rw [hanswer] at h
    cases h

theorem setEnabledTools_ok {w : World} {enabled : List String} (hcaller : w.db.callerByName name = some caller)
    (hsaved : ((Operations.setEnabledTools name enabled operator).run (fun o w => w.exec H i o ω) w).result =
      .ok ()) :
    ((Operations.setEnabledTools name enabled operator).run (fun o w => w.exec H i o ω) w).world.db.policyFor
      caller.id = enableTools enabled (w.db.policyFor caller.id) := by
  obtain ⟨w', hrun, hdb⟩ := @requireCaller_run H i ω name caller w hcaller
  have hread : ∀ w : World, (w.exec H i (.policyFor caller.id) ω).1 = w.db.policyFor caller.id := fun _ => rfl
  have hkept : ∀ w : World, (w.exec H i (.policyFor caller.id) ω).2.db = w.db := fun _ => rfl
  rw [Operations.setEnabledTools, Interleave.Prog.run_bind, hrun] at hsaved ⊢
  simp only [perform, Interleave.Prog.run_perform_bind, hread, hkept, hdb] at hsaved ⊢
  by_cases hdis : (w.db.policyFor caller.id).disabledFunctions.isSome = true
  · rw [if_pos hdis, Interleave.Prog.run_perform_bind] at hsaved ⊢
    simp only [hread, hkept, hdb] at hsaved ⊢
    rw [enableTools_managed hdis]
    exact stored_ok hsaved
  · rw [if_neg hdis] at hsaved ⊢
    rw [enableTools_legacy (Option.not_isSome_iff_eq_none.1 hdis)]
    exact stored_ok hsaved

theorem save_ok (hcaller : w.db.callerByName name = some caller)
    (hsaved : (save H i ω w name available ticked operator).result = .ok ()) :
    (save H i ω w name available ticked operator).world.db.policyFor caller.id =
      enableTools (mergeEnabled (w.db.policyFor caller.id) available ticked) (w.db.policyFor caller.id) := by
  obtain ⟨w', hrun, hdb⟩ := @requireCaller_run H i ω name caller w hcaller
  have hread : (w'.exec H i (.policyFor caller.id) ω).1 = w.db.policyFor caller.id := by
    rw [← hdb]
    rfl
  have hkept : (w'.exec H i (.policyFor caller.id) ω).2.db = w.db := hdb
  have hcaller' : (w'.exec H i (.policyFor caller.id) ω).2.db.callerByName name = some caller := by
    rw [hkept, hcaller]
  rw [save, saveCallerTools, Interleave.Prog.run_bind, hrun] at hsaved ⊢
  simp only [perform, Interleave.Prog.run_perform_bind, hread] at hsaved ⊢
  rw [setEnabledTools_ok hcaller' hsaved, hkept]

/-- The tool list of the panel, once saved, keeps to what the operator could see unless a tool
outside the catalog that is switched off still has a rule that nothing else denies. -/
theorem caller_tools_saved (hcaller : w.db.callerByName name = some caller)
    (hsaved : (save H i ω w name available ticked operator).result = .ok ()) :
    KeepsAuthority available ticked (w.db.policyFor caller.id)
        ((save H i ω w name available ticked operator).world.db.policyFor caller.id) ↔
      ∀ tool ∉ available, ¬SwitchedOff (w.db.policyFor caller.id) tool := by
  rw [save_ok hcaller hsaved]
  exact keepsAuthority_saved

end Save

namespace Sample

/-- Caller 1 has the rules of `mail`, which is switched off. -/
def switchedOff : Db :=
  let db : Db := (Db.addCaller 0 "ann" { installationUuid := [] }).2
  (db.setPolicy 0 1
    { tools := some [("mail", [("send", "allow")])], enabled := some [], disabledFunctions := some [] }).2

end Sample

/-- Ticking `echo`, the one tool of the catalog, hands `mail` back. -/
theorem caller_tools_reenabled :
    (save Sample.hash 0 {} { db := Sample.switchedOff } "ann" ["echo"] ["echo"] "op").result = .ok () ∧
    ¬KeepsAuthority ["echo"] ["echo"] (Sample.switchedOff.policyFor 1)
      ((save Sample.hash 0 {} { db := Sample.switchedOff } "ann" ["echo"] ["echo"] "op").world.db.policyFor 1) := by
  refine ⟨rfl, fun h => ?_⟩
  have hunseen := h.unseen "mail" (by decide) "send"
  have hbefore : (Sample.switchedOff.policyFor 1).decide "mail" "send" = .deny := rfl
  have hafter : ((save Sample.hash 0 {} { db := Sample.switchedOff } "ann" ["echo"] ["echo"]
    "op").world.db.policyFor 1).decide "mail" "send" = .allow := rfl
  rw [hbefore, hafter] at hunseen
  cases hunseen

theorem caller_tools_saved_managed :
    KeepsAuthority ["echo", "mail"] ["echo"] (Sample.managed.policyFor 1)
        ((save Sample.hash 0 {} { db := Sample.managed } "ann" ["echo", "mail"] ["echo"] "op").world.db.policyFor 1) ↔
      ∀ tool ∉ ["echo", "mail"], ¬SwitchedOff (Sample.managed.policyFor 1) tool :=
  @caller_tools_saved Sample.hash 0 {} { db := Sample.managed } "ann" "op" ["echo", "mail"] ["echo"]
    ⟨1, "ann", 0, none⟩ rfl rfl

end Toolstack.Broker.CallerTools
