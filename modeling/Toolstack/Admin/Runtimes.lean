import Toolstack.Admin.Reconciler

/-! No runtime gets lost: what a start has launched is recorded or reported until it is confirmed gone, and
no tool is started beside an earlier runtime of its own. -/

namespace Toolstack.Admin.ToolyardOps

open Interleave Prog
open Toolyard (ToolDef)

/-! ## Records of runtimes -/

theorem Field.mem_all (f : Field) : f ∈ Field.all := by
  cases f <;> decide

theorem Field.names_nodup : (Field.all.map Field.name).Nodup := by decide +kernel

namespace RunningTool

theorem find_asdict (running : RunningTool) (f : Field) :
    Json.find? (Field.all.map fun f => (f.name, running.field f)) f.name = some (running.field f) := by
  have hnodup : ((Field.all.map fun f => (f.name, running.field f)).map Prod.fst).Nodup := by
    rw [List.map_map]
    exact Field.names_nodup
  exact (Mapping.get_iff_mem hnodup).2 (List.mem_map.2 ⟨f, Field.mem_all f, rfl⟩)

/-- A saved runtime is read back as it was. -/
theorem ofRecord_asdict (running : RunningTool) : ofRecord running.asdict = .ok running := by
  have hkeys : ((Field.all.map fun f => (f.name, running.field f)).all fun kv =>
      Field.all.any fun f => kv.1 = f.name) = true := by
    rw [List.all_eq_true]
    intro kv hkv
    obtain ⟨f, hf, rfl⟩ := List.mem_map.1 hkv
    exact List.any_eq_true.2 ⟨f, hf, decide_eq_true rfl⟩
  have hfields : (Field.all.all fun f => (Json.find? (Field.all.map fun f => (f.name, running.field f))
      f.name).isSome || f.default.isSome) = true := by
    rw [List.all_eq_true]
    intro f _
    rw [find_asdict]
    rfl
  rw [asdict, ofRecord, hkeys, hfields]
  simp only [find_asdict, Option.some_or, Option.getD_some]
  rfl

end RunningTool

theorem Same.refl (running : RunningTool) : Same running running := fun _ _ _ _ => rfl

theorem Same.trans {r₁ r₂ r₃ : RunningTool} (h : Same r₁ r₂) (h' : Same r₂ r₃) : Same r₁ r₃ :=
  fun f hp hl he => (h f hp hl he).trans (h' f hp hl he)

/-! ## Accounts -/

/-- The states differ in the record of `t` at most. -/
def AgreeOff (t : PyStr) (state state' : State) : Prop :=
  ∀ t', t' ≠ t → Mapping.get state t' = Mapping.get state' t'

/-- The state holds a record of the runtime under its tool. -/
def Covered (state : State) (x : PyStr × RunningTool) : Prop :=
  ∃ running, Mapping.get state x.1 = some running.asdict ∧ Same x.2 running

/-- Every live runtime is recorded or in `R`; and as long as `R` is empty, none was started beside
another. -/
structure Sound (R : Set RunningTool) (host : Host) : Prop where
  live : ∀ x ∈ host.live, Covered host.state x ∨ ∃ r ∈ R, Same x.2 r
  alone : R = ∅ → ¬host.overlaps

/-- As `Sound`, but for the tool `t` only the runtime `running` may be live, recorded or not. -/
structure Pending (R : Set RunningTool) (t : PyStr) (running : Option RunningTool) (host : Host) : Prop where
  live : ∀ x ∈ host.live, (x.1 ≠ t ∧ Covered host.state x) ∨ (∃ r ∈ R, Same x.2 r) ∨
    x.1 = t ∧ ∃ r, running = some r ∧ Same x.2 r
  alone : R = ∅ → ¬host.overlaps

section
variable {R : Set RunningTool} {t : PyStr} {running left : RunningTool} {host : Host} {state : State}

theorem Sound.mono {R' : Set RunningTool} (h : Sound R host) (hle : R ⊆ R') : Sound R' host where
  live x hx := (h.live x hx).imp_right fun ⟨r, hr, hsame⟩ => ⟨r, hle hr, hsame⟩
  alone hR := h.alone (Set.subset_eq_empty hle hR)

theorem Sound.pending (h : Sound R host) {record : Json} (hget : Mapping.get host.state t = some record)
    (hrecord : RunningTool.ofRecord record = .ok running) : Pending R t (some running) host where
  live x hx := by
    rcases h.live x hx with ⟨r, hr, hsame⟩ | hR
    · by_cases ht : x.1 = t
      · have hrec : record = r.asdict := Option.some.inj (hget.symm.trans (ht ▸ hr))
        rw [hrec, RunningTool.ofRecord_asdict] at hrecord
        exact .inr (.inr ⟨ht, running, rfl, Except.ok.inj hrecord ▸ hsame⟩)
      · exact .inl ⟨ht, r, hr, hsame⟩
    · exact .inr (.inl hR)
  alone := h.alone

theorem Sound.idle (h : Sound R host) (hget : Mapping.get host.state t = none) : Pending R t none host where
  live x hx := by
    rcases h.live x hx with ⟨r, hr, hsame⟩ | hR
    · have ht : x.1 ≠ t := by
        rintro rfl
        rw [hget] at hr
        cases hr
      exact .inl ⟨ht, r, hr, hsame⟩
    · exact .inr (.inl hR)
  alone := h.alone

namespace Pending

theorem publish {r : Option RunningTool} (h : Pending R t r host) (new : State)
    (hnew : AgreeOff t new host.state) :
    Pending R t r { host with state := new } where
  live x hx := (h.live x hx).imp_left fun ⟨ht, r, hr, hsame⟩ => ⟨ht, r, (hnew x.1 ht).trans hr, hsame⟩
  alone := h.alone

theorem sound (h : Pending R t none host) : Sound R host where
  live x hx := by
    rcases h.live x hx with ⟨-, hcovered⟩ | hR | ⟨-, r, hr, -⟩
    · exact .inl hcovered
    · exact .inr hR
    · cases hr
  alone := h.alone

theorem recorded (h : Pending R t (some running) host) (hget : Mapping.get host.state t = some left.asdict)
    (hsame : Same running left) : Sound R host where
  live x hx := by
    rcases h.live x hx with ⟨-, hcovered⟩ | hR | ⟨rfl, r, hr, hx⟩
    · exact .inl hcovered
    · exact .inr hR
    · exact .inl ⟨left, hget, hx.trans (Option.some.inj hr ▸ hsame)⟩
  alone := h.alone

theorem confirmed (h : Pending R t (some running) host) : Pending R t none (host.confirmed running) where
  live x hx := by
    obtain ⟨hlive, hne⟩ := hx
    rcases h.live x hlive with hcovered | hR | ⟨-, r, hr, hsame⟩
    · exact .inl hcovered
    · exact .inr (.inl hR)
    · exact absurd (Option.some.inj hr ▸ hsame) hne
  alone := h.alone

/-- An error that names the runtime accounts for it. -/
theorem report (h : Pending R t (some running) host) : Sound (R ∪ {running}) host where
  live x hx := by
    rcases h.live x hx with ⟨-, hcovered⟩ | ⟨r, hr, hsame⟩ | ⟨-, r, hr, hsame⟩
    · exact .inl hcovered
    · exact .inr ⟨r, .inl hr, hsame⟩
    · exact .inr ⟨r, .inr (Option.some.inj hr).symm, hsame⟩
  alone hR := h.alone (Set.union_empty_iff.1 hR).1

/-- Where no runtime of the tool may be live, none is when another is started. -/
theorem launched (h : Pending R t none host) (r : Option RunningTool) : Pending R t r (host.launched t r) where
  live x hx := by
    rcases hx with hx | ⟨ht, hr⟩
    · rcases h.live x hx with hcovered | hR | ⟨-, r', hr', -⟩
      · exact .inl hcovered
      · exact .inr (.inl hR)
      · cases hr'
    · exact .inr (.inr ⟨ht, x.2, hr, Same.refl _⟩)
  alone hR := by
    rintro (hover | ⟨x, hx, ht⟩)
    · exact h.alone hR hover
    · rcases h.live x hx with ⟨hne, -⟩ | ⟨r', hr', -⟩ | ⟨-, r', hr', -⟩
      · exact hne ht
      · rw [hR] at hr'
        exact hr'
      · cases hr'

end Pending
end

/-! ## What the runners promise -/

/-- An exception that no runtime comes with, and that `except Exception` catches. -/
def Plain (exc : Exn) : Prop := exc ≠ .systemExit ∧ exc.running = none

/-- A manifest is kept under its id, saving fails by an ordinary exception, and a stop that could not
confirm the end of a runtime says so with a record of that same runtime. -/
def Honest : (o : Op) → Op.Ret o → Prop
  | .allDefs, .ok defs => ∀ kd ∈ defs, kd.2.id = kd.1
  | .publish _, .error exc => Plain exc
  | .publishChannels _, .error exc => Plain exc
  | .stop _ running, .error (.startCleanup left) => Same running left
  | .stop _ _, .error exc => Plain exc
  | _, _ => True

def Fair (ω : Answers) : Prop := ∀ n o, Honest o (ω n o)

/-- `J` holds of the host, and all answers to come are honest. -/
def At (J : Host → Prop) (s : Host × Answers) : Prop := J s.1 ∧ Fair s.2

/-- With what the exception reports, the accounts hold again. -/
def Ends (R : Set RunningTool) (exc : Exn) : Host × Answers → Prop := At (Sound (R ∪ exc.reports))

theorem ends_of_sound {R : Set RunningTool} {exc : Exn} {s : Host × Answers} (h : At (Sound R) s) :
    Ends R exc s :=
  ⟨h.1.mono Set.subset_union_left, h.2⟩

theorem Fair.tail {ω : Answers} (h : Fair ω) : Fair fun n => ω (n + 1) := fun n o => h (n + 1) o

/-- The call leaves the host alone. -/
def quiet : Op → Prop
  | .publish _ | .stop _ _ | .start _ _ _ => False
  | _ => True

theorem channels_error {state : State} {exc : Exn} (h : channels state = .error exc) : Plain exc := by
  induction state with
  | nil => cases h
  | cons entry state ih =>
    obtain ⟨key, record⟩ := entry
    cases record with
    | obj kvs =>
      simp only [channels] at h
      split at h
      · split_ifs at h
        · cases hrest : channels state with
          | ok view =>
            rw [hrest] at h
            cases h
          | error exc' =>
            rw [hrest] at h
            exact ih (hrest.trans h)
        · exact ih h
      · exact ih h
    | _ =>
      cases h
      exact ⟨by simp, rfl⟩

section Programs
variable {R : Set RunningTool} {t : PyStr} {running : RunningTool} {state : State} {J J' : Host → Prop}

theorem sat_quiet {α : Type} {m : Program α} (hm : m.All quiet) :
    Sat (answering exec) (At J) m (fun _ => At J) fun _ => At J := by
  refine .of_all hm fun o w ho hw => ?_
  cases o with
  | publish _ | stop _ _ | start _ _ _ => cases ho
  | _ => exact ⟨hw.1, hw.2.tail⟩

theorem all_ask {o : Op} (ho : quiet o) : (ask o).All quiet :=
  ⟨ho, fun r => by cases r <;> trivial⟩

theorem all_given {α : Type} (x : Except Exn α) : (given x).All quiet := by
  cases x <;> trivial

theorem all_getRunner (backend : Json) : (getRunner backend).All quiet := by
  have hnative : ∀ backend, (nativeRunner backend).All quiet := by
    intro backend
    unfold nativeRunner
    split_ifs <;> trivial
  unfold getRunner
  split
  · split_ifs
    · trivial
    · trivial
    · refine .bind ?_ hnative
      refine .bind (all_ask trivial) fun plat => ?_
      split_ifs <;> trivial
    · exact hnative _
  · trivial

theorem sat_given {α β : Type} {x : Except Exn α} {f : α → Program β} {P : Host × Answers → Prop}
    {Q : β → Host × Answers → Prop} {E : Exn → Host × Answers → Prop}
    (hf : ∀ a, x = .ok a → Sat (answering exec) P (f a) Q E) (hE : ∀ exc s, P s → E exc s) :
    Sat (answering exec) P (given x >>= f) Q E := by
  cases x with
  | ok a => exact hf a rfl
  | error exc => exact .raise fun s h => hE exc s h

/-- Either state may be left where a save fails. -/
theorem sat_saveState (new : State) :
    Sat (answering exec) (At fun h => J h ∧ J { h with state := new }) (saveState new)
      (fun _ => At fun h => J h ∧ h.state = new) fun exc s => Plain exc ∧ At J s := by
  have hpublish : Sat (answering exec) (At fun h => J h ∧ J { h with state := new }) (ask (.publish new))
      (fun _ => At fun h => J h ∧ h.state = new) fun exc s => Plain exc ∧ At J s := by
    rintro w ⟨⟨hold, hnew⟩, hfair⟩
    have honest := hfair 0 (.publish new)
    simp only [ask, perform, call_bind, ret_bind, run, answering, exec]
    cases hanswer : w.2 0 (.publish new) with
    | ok _ => exact ⟨⟨hnew, rfl⟩, hfair.tail⟩
    | error exc =>
      rw [hanswer] at honest
      exact ⟨honest, hold, hfair.tail⟩
  refine .bind hpublish fun _ => ?_
  cases hchannels : channels new with
  | error exc =>
    exact .raise fun w hw => ⟨channels_error hchannels, hw.1.1, hw.2⟩
  | ok view =>
    rintro w ⟨hw, hfair⟩
    have honest := hfair 0 (.publishChannels view)
    simp only [given, ask, perform, call_bind, ret_bind, pure_eq, run, answering, exec]
    cases hanswer : w.2 0 (.publishChannels view) with
    | ok _ => exact ⟨hw, hfair.tail⟩
    | error exc =>
      rw [hanswer] at honest
      exact ⟨honest, hw.1, hfair.tail⟩


theorem sat_rollback (state : State) (running : RunningTool) (runner : Runner) (exc : Exn) :
    Sat (answering exec)
      (At fun h => Pending R t (some running) h ∧ AgreeOff t state h.state)
      (rollback state t running runner exc) (fun _ => At (Sound R)) (Ends R) := by
  rintro w ⟨⟨hpending, hstate⟩, hfair⟩
  have honest := hfair 0 (.stop runner running)
  have hgone : Sat (answering exec)
      (At fun h => Pending R t none h ∧ Pending R t none { h with state := Mapping.del state t })
      (saveState (Mapping.del state t) >>= fun _ => raise exc : Program Unit)
      (fun _ => At (Sound R)) (Ends R) := by
    refine ((sat_saveState (Mapping.del state t)).conseq (fun _ h => h) (fun _ _ h => h)
      fun exc s h => ?_).bind fun _ => .raise fun s h => ?_
    · exact ends_of_sound ⟨h.2.1.sound, h.2.2⟩
    · exact ends_of_sound ⟨h.1.1.sound, h.2⟩
  unfold rollback
  rw [run_perform_bind]
  simp only [answering, exec]
  cases hanswer : w.2 0 (.stop runner running) with
  | ok _ =>
    have hdel := hpending.confirmed.publish (Mapping.del state t) fun t' ht' => by
      rw [Mapping.get_del, if_neg ht', hstate t' ht']
      rfl
    exact hgone _ ⟨⟨hpending.confirmed, hdel⟩, hfair.tail⟩
  | error exc' =>
    rw [hanswer] at honest
    have hreport : At (Sound (R ∪ (Exn.unrecorded running).reports)) (w.1, fun n => w.2 (n + 1)) :=
      ⟨hpending.report, hfair.tail⟩
    cases exc' with
    | systemExit => exact absurd rfl honest.1
    | _ => exact hreport

theorem sat_recordOrRollback (state : State) (running : RunningTool) (runner : Runner) :
    Sat (answering exec)
      (At fun h => Pending R t (some running) h ∧ AgreeOff t state h.state)
      (recordOrRollback state t running runner) (fun _ => At (Sound R))
      (Ends R) := by
  have hset : AgreeOff t (Mapping.set state t running.asdict) state := fun t' ht' => by
    rw [Mapping.get_set, if_neg ht']
  have hsave := @sat_saveState (fun h => Pending R t (some running) h ∧
    AgreeOff t (Mapping.set state t running.asdict) h.state) (Mapping.set state t running.asdict)
  refine (hsave.attempt.conseq ?_ (fun _ _ h => h) fun _ _ h => h).bind fun saved => ?_
  · rintro s ⟨⟨hpending, hstate⟩, hfair⟩
    have hagree : AgreeOff t (Mapping.set state t running.asdict) s.1.state :=
      fun t' ht' => (hset t' ht').trans (hstate t' ht')
    exact ⟨⟨⟨hpending, hagree⟩, hpending.publish _ hagree, fun _ _ => rfl⟩, hfair⟩
  · cases saved with
    | ok _ =>
      refine .ret fun s h => ?_
      obtain ⟨⟨⟨hpending, -⟩, hstate⟩, hfair⟩ := h
      refine ⟨hpending.recorded ?_ (Same.refl running), hfair⟩
      rw [hstate, Mapping.get_set, if_pos rfl]
    | error exc =>
      have hroll := @sat_rollback R t (Mapping.set state t running.asdict) running runner exc
      cases exc with
      | systemExit => exact .raise fun s h => absurd rfl h.1.1
      | _ => exact hroll.conseq (fun s h => h.2) (fun _ _ h => h) fun _ _ h => h

theorem sat_launch {backend : Json} {tool : ToolDef × Json} (htool : tool.1.id = t) :
    Sat (answering exec)
      (At fun h => Pending R t none h ∧ AgreeOff t state h.state)
      (launch state t backend tool) (fun _ => At (Sound R)) (Ends R) := by
  refine ((sat_quiet (all_getRunner backend)).conseq (fun _ h => h) (fun _ _ h => h) fun exc s h => ?_).bind
    fun runner => ?_
  · exact ends_of_sound ⟨h.1.1.sound, h.2⟩
  · rintro w ⟨⟨hpending, hstate⟩, hfair⟩
    have hrecord := fun running => @sat_recordOrRollback R t state running runner
    rw [run_perform_bind]
    simp only [answering, exec]
    cases hanswer : w.2 0 (.start runner tool.1 tool.2) with
    | ok running =>
      have hlaunched := hpending.launched (some running)
      rw [← htool] at hlaunched hrecord hstate ⊢
      exact hrecord running _ ⟨⟨hlaunched, hstate⟩, hfair.tail⟩
    | error exc =>
      have hlaunched := hpending.launched exc.running
      have hafter : Sat (answering exec)
          (At fun h => Pending R t exc.running h ∧ AgreeOff t state h.state)
          (afterFailure state t runner exc) (fun _ => At (Sound R)) (Ends R) := by
        unfold afterFailure
        cases exc.running with
        | none => exact .raise fun s h => ends_of_sound ⟨h.1.1.sound, h.2⟩
        | some left =>
          exact (hrecord left).bind fun _ => .raise fun s h => ends_of_sound h
      rw [← htool] at hlaunched hafter hstate ⊢
      exact hafter _ ⟨⟨hlaunched, hstate⟩, hfair.tail⟩

theorem sat_retire_sound (state : State) (running : RunningTool) (runner : Runner) :
    Sat (answering exec) (At fun h => (Pending R t (some running) h ∧ Sound R h) ∧ h.state = state)
      (retire state t runner running) (fun _ => At fun h => Pending R t none h ∧ h.state = Mapping.del state t)
      (Ends R) := by
  rintro w ⟨⟨⟨hpending, hsound⟩, hstate⟩, hfair⟩
  have honest := hfair 0 (.stop runner running)
  unfold retire
  rw [run_perform_bind]
  simp only [answering, exec]
  cases hanswer : w.2 0 (.stop runner running) with
  | ok _ =>
    have hdel := hpending.confirmed.publish (Mapping.del state t) fun t' ht' => by
      rw [Mapping.get_del, if_neg ht', ← hstate]
      rfl
    refine (sat_saveState (J := Pending R t none) (Mapping.del state t)).conseq (fun _ h => h) (fun _ _ h => h)
      (fun exc s h => ?_) _ ⟨⟨hpending.confirmed, hdel⟩, hfair.tail⟩
    exact ends_of_sound ⟨h.2.1.sound, h.2.2⟩
  | error exc =>
    rw [hanswer] at honest
    have hraise : At (Sound (R ∪ exc.reports)) (w.1, fun n => w.2 (n + 1)) :=
      ends_of_sound ⟨hsound, hfair.tail⟩
    cases exc with
    | startCleanup left =>
      have hset : Sound R { w.1 with state := Mapping.set state t left.asdict } := by
        refine (hpending.publish (Mapping.set state t left.asdict) fun t' ht' => ?_).recorded ?_ honest
        · rw [Mapping.get_set, if_neg ht', hstate]
        · rw [Mapping.get_set, if_pos rfl]
      have hsave : Sat (answering exec)
          (At fun h => Sound R h ∧ Sound R { h with state := Mapping.set state t left.asdict })
          (saveState (Mapping.set state t left.asdict) >>= fun _ => raise (.startCleanup left) : Program Unit)
          (fun _ => At fun h => Pending R t none h ∧ h.state = Mapping.del state t)
          (Ends R) := by
        refine ((sat_saveState _).conseq (fun _ h => h) (fun _ _ h => h) fun exc s h => ?_).bind fun _ =>
          .raise fun s h => ?_
        · exact ends_of_sound h.2
        · exact ends_of_sound ⟨h.1.1, h.2⟩
      exact hsave _ ⟨⟨hsound, hset⟩, hfair.tail⟩
    | _ => exact hraise

theorem sat_loadState :
    Sat (answering exec) (At J) (ask .loadState) (fun state => At fun h => J h ∧ h.state = state)
      fun _ => At J := by
  rintro w ⟨hJ, hfair⟩
  simp only [ask, perform, call_bind, ret_bind, run, answering, exec]
  cases w.2 0 .loadState with
  | ok _ => exact ⟨⟨hJ, rfl⟩, hfair.tail⟩
  | error exc => exact ⟨hJ, hfair.tail⟩

theorem sat_allDefs :
    Sat (answering exec) (At J) (ask .allDefs) (fun defs s => (∀ kd ∈ defs, kd.2.id = kd.1) ∧ At J s)
      fun _ => At J := by
  rintro w ⟨hJ, hfair⟩
  have honest := hfair 0 .allDefs
  simp only [ask, perform, call_bind, ret_bind, run, answering, exec]
  cases hanswer : w.2 0 .allDefs with
  | ok defs =>
    rw [hanswer] at honest
    exact ⟨honest, hJ, hfair.tail⟩
  | error exc => exact ⟨hJ, hfair.tail⟩

theorem declared_id {tool : ToolDef} {record : Json} {declared' : ToolDef × Json}
    (h : declared tool record = .ok declared') : declared'.1.id = tool.id := by
  unfold declared at h
  split at h
  · simp only at h
    split at h
    · cases h
    · cases h
    · split at h
      · cases h
      · rename_i specs _
        cases hspecs : specs.mapM secretSpec with
        | error exc =>
          rw [hspecs] at h
          cases h
        | ok secrets =>
          rw [hspecs] at h
          obtain rfl := Except.ok.inj h
          rfl
  · cases h

theorem sat_startFrom {backend : Json} {tool : ToolDef × Json} (htool : tool.1.id = t) :
    Sat (answering exec) (At fun h => Sound R h ∧ h.state = state) (startFrom state t backend tool)
      (fun _ => At (Sound R)) (Ends R) := by
  have hmono : ∀ {exc : Exn} {s : Host × Answers}, At (fun h => Sound R h ∧ h.state = state) s →
      Ends R exc s :=
    fun h => ends_of_sound ⟨h.1.1, h.2⟩
  unfold startFrom
  cases hget : Mapping.get state t with
  | none =>
    refine (sat_launch htool).conseq (fun s h => ?_) (fun _ _ h => h) fun _ _ h => h
    obtain ⟨⟨hsound, rfl⟩, hfair⟩ := h
    exact ⟨⟨hsound.idle hget, fun _ _ => rfl⟩, hfair⟩
  | some record =>
    refine sat_given (fun recorded hrecord => ?_) fun exc s h => hmono h
    refine ((sat_quiet (all_getRunner _)).conseq (fun _ h => h) (fun _ _ h => h) fun _ _ h => hmono h).bind
      fun runner => ?_
    refine ((sat_quiet (all_ask (o := .isAlive runner recorded) trivial)).conseq (fun _ h => h) (fun _ _ h => h)
      fun _ _ h => hmono h).bind fun alive => ?_
    cases alive with
    | true => exact .ret fun s h => ⟨h.1.1, h.2⟩
    | false =>
      refine ((sat_retire_sound state _ runner).conseq (fun s h => ?_)
        (fun _ _ h => h) fun _ _ h => h).bind fun _ => ?_
      · obtain ⟨⟨hsound, rfl⟩, hfair⟩ := h
        exact ⟨⟨⟨hsound.pending hget hrecord, hsound⟩, rfl⟩, hfair⟩
      · refine (sat_launch htool).conseq (fun s h => ?_) (fun _ _ h => h) fun _ _ h => h
        obtain ⟨⟨hpending, hstate⟩, hfair⟩ := h
        refine ⟨⟨hpending, fun t' _ => ?_⟩, hfair⟩
        rw [hstate]

theorem sat_start {backend : Json} {recovery : Bool} :
    Sat (answering exec) (At (Sound R)) (start t backend recovery) (fun _ => At (Sound R))
      (Ends R) := by
  have hmono : ∀ {exc : Exn} {s : Host × Answers}, At (Sound R) s → Ends R exc s :=
    fun h => ends_of_sound h
  refine (sat_allDefs.conseq (fun _ h => h) (fun _ _ h => h) fun _ _ h => hmono h).bind fun defs => ?_
  cases hget : Mapping.get defs t with
  | none => exact .raise fun s h => hmono h.2
  | some tool =>
    intro s hs
    have htool : tool.id = t := hs.1 _ (Mapping.mem_of_get hget)
    refine Sat.bind (P := At (Sound R)) (sat_loadState.conseq (fun _ h => h) (fun _ _ h => h) fun _ _ h => hmono h)
      (fun state => ?_) s hs.2
    cases recovery with
    | false => exact sat_startFrom htool
    | true =>
      exact sat_given (fun tool' hdeclared => sat_startFrom ((declared_id hdeclared).trans htool))
        fun exc s h => hmono ⟨h.1.1, h.2⟩

theorem sat_stop_sound :
    Sat (answering exec) (At (Sound R)) (stop t) (fun _ => At (Sound R))
      (Ends R) := by
  have hmono : ∀ {exc : Exn} {s : Host × Answers} {state : State},
      At (fun h => Sound R h ∧ h.state = state) s → Ends R exc s :=
    fun h => ends_of_sound ⟨h.1.1, h.2⟩
  refine (sat_loadState.conseq (fun _ h => h) (fun _ _ h => h)
    fun _ _ h => ends_of_sound h).bind fun state => ?_
  cases hget : Mapping.get state t with
  | none => exact .ret fun s h => ⟨h.1.1, h.2⟩
  | some record =>
    show Sat _ _ (if record.truthy then _ else _) _ _
    split_ifs
    · refine sat_given (fun running hrecord => ?_) fun exc s h => hmono h
      refine ((sat_quiet (all_getRunner _)).conseq (fun _ h => h) (fun _ _ h => h) fun _ _ h => hmono h).bind
        fun runner => ?_
      refine (sat_retire_sound state _ runner).conseq (fun s h => ?_)
        (fun _ s h => ⟨h.1.1.sound, h.2⟩) fun _ _ h => h
      obtain ⟨⟨hsound, rfl⟩, hfair⟩ := h
      exact ⟨⟨⟨hsound.pending hget hrecord, hsound⟩, rfl⟩, hfair⟩
    · exact .ret fun s h => ⟨h.1.1, h.2⟩

end Programs

end Toolstack.Admin.ToolyardOps

namespace Toolstack.Admin.Reconciler

open Interleave Prog
open ToolyardOps

section
variable {R : Set RunningTool}

theorem sat_restoreIntent {toolId : PyStr} {record : Json} :
    Sat (answering exec) (At (Sound R)) (restoreIntent toolId record) (fun _ => At (Sound R))
      (Ends R) := by
  refine (sat_loadState.conseq (fun _ h => h) (fun _ _ h => h)
    fun _ _ h => ends_of_sound h).bind fun state => ?_
  refine (sat_saveState (J := Sound R) (Mapping.setDefault state toolId record)).conseq (fun s h => ?_)
    (fun _ s h => ⟨h.1.1, h.2⟩) fun exc s h => ends_of_sound h.2
  obtain ⟨⟨hsound, rfl⟩, hfair⟩ := h
  refine ⟨⟨hsound, ?_, hsound.alone⟩, hfair⟩
  intro x hx
  refine (hsound.live x hx).imp_left fun ⟨r, hr, hsame⟩ => ⟨r, ?_, hsame⟩
  show Mapping.get (Mapping.setDefault _ _ _) x.1 = _
  rw [Mapping.get_setDefault]
  split_ifs with ht
  · rw [ht] at hr
    rw [hr, Option.getD_some]
  · exact hr

/-- Every call keeps the accounts, with what it reports. -/
theorem sat_body (o : Call) :
    Sat (answering exec) (At (Sound R)) o.body (fun _ => At (Sound R))
      (Ends R) := by
  have hquiet : ∀ {α : Type} {m : Program α}, m.All quiet →
      Sat (answering exec) (At (Sound R)) m (fun _ => At (Sound R)) (Ends R) :=
    fun hm => (sat_quiet hm).conseq (fun _ h => h) (fun _ _ h => h)
      fun _ _ h => ends_of_sound h
  cases o with
  | waitUntilUp => exact hquiet (all_ask trivial)
  | snapshot => exact hquiet (all_ask trivial)
  | assess record =>
    refine hquiet ((all_given _).bind fun running => (all_getRunner _).bind fun runner => ?_)
    exact (all_ask (o := .isAlive runner running) trivial).bind fun _ => trivial
  | start toolId backend recovery => exact sat_start
  | stop toolId => exact sat_stop_sound
  | restart toolId backend => exact sat_stop_sound.bind fun _ => sat_start
  | restoreIntent toolId record => exact sat_restoreIntent

theorem sound_after {o : Call} {host : Host} {ω : Answers} (h : Sound host.unrecorded host) (hfair : Fair ω) :
    Sound (after o host ω).unrecorded (after o host ω) := by
  have hbody := sat_body (R := host.unrecorded) o
  have hs : At (Sound host.unrecorded) (host, ω) := ⟨h, hfair⟩
  show Sound (host.unrecorded ∪ reported (ran o host ω).result) { (ran o host ω).world.1 with unrecorded := _ }
  cases hresult : (ran o host ω).result with
  | ok answer =>
    have hsound : Sound (host.unrecorded ∪ ∅) _ := (hbody.returned hs hresult).1.mono Set.subset_union_left
    exact ⟨hsound.live, hsound.alone⟩
  | error exc =>
    have hsound := (hbody.raised hs hresult).1
    exact ⟨hsound.live, hsound.alone⟩

end

/-- The answers to the call that the move makes are honest. -/
def fair : Step → Prop
  | .call _ ω => Fair ω
  | _ => True

/-- Whatever calls of the operator and passes of the reconciler run, at any time: a runtime that was
launched and not confirmed gone is recorded, or was reported by an `UnrecordedRuntimeError`; and as long as
none has been raised, no tool was started beside an earlier runtime of its own. -/
theorem runtimes_accounted {host : Host} {c : Configuration}
    (hrecorded : ∀ x ∈ host.live, Covered host.state x) (halone : ¬host.overlaps)
    (hrun : system.Steps (fun _ m => fair m) ⟨host, []⟩ c) :
    (∀ x ∈ c.world.live, Covered c.world.state x ∨ ∃ r ∈ c.world.unrecorded, Same x.2 r) ∧
      (c.world.unrecorded = ∅ → ¬c.world.overlaps) := by
  have hsound : Sound c.world.unrecorded c.world := by
    refine hrun.invariant (P := fun c => Sound c.world.unrecorded c.world)
      ⟨fun x hx => .inl (hrecorded x hx), fun _ => halone⟩ fun c₁ m c₂ _ hfair hstep h => ?_
    cases m with
    | call i ω =>
      obtain ⟨j, o, k, -, hworld, -⟩ := System.step_call hstep
      have hafter : c₂.world = after o c₁.world ω := hworld
      rw [hafter]
      exact sound_after h hfair
    | start j =>
      obtain rfl := Option.some.inj hstep
      exact h
    | crash i =>
      obtain ⟨-, -, -, -, hworld, -⟩ := System.step_crash hstep
      rwa [hworld]
    | env e => exact e.elim
    | offline f => exact f.elim
  exact ⟨hsound.live, hsound.alone⟩

/-- A restart on a host where the recorded tool is running. -/
theorem runtimes_accounted_echo :
    ∃ c, system.run ⟨⟨Sample.recorded₁, {(Sample.echo, Sample.running "1")}, False, ∅⟩, []⟩
        [.start (.restart Sample.echo Sample.process), .call 0 Sample.up] = some c ∧
      (∀ x ∈ c.world.live, Covered c.world.state x ∨ ∃ r ∈ c.world.unrecorded, Same x.2 r) ∧
      (c.world.unrecorded = ∅ → ¬c.world.overlaps) := by
  have hfair : Fair Sample.up := by
    intro n o
    cases o with
    | allDefs =>
      intro kd hkd
      obtain rfl := List.mem_singleton.1 hkd
      rfl
    | _ => trivial
  have hrun : (system.run ⟨⟨Sample.recorded₁, {(Sample.echo, Sample.running "1")}, False, ∅⟩, []⟩
      [.start (.restart Sample.echo Sample.process), .call 0 Sample.up]).isSome = true := by decide +kernel
  obtain ⟨c, hc⟩ := Option.isSome_iff_exists.1 hrun
  refine ⟨c, hc, runtimes_accounted ?_ (fun h => h) (.of_run_admitted hc fun m hm _ => ?_)⟩
  · rintro x rfl
    refine ⟨Sample.running "1", ?_, Same.refl _⟩
    rfl
  · rcases List.mem_cons.1 hm with rfl | hm
    · trivial
    · obtain rfl := List.mem_singleton.1 hm
      exact hfair

end Toolstack.Admin.Reconciler
