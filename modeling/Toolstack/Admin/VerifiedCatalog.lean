import Toolstack.Admin.ObservationRules

/-! A verified observation: from the first look to the second, one broker served the catalog that the
control plane found on its disk. -/

namespace Toolstack.Admin.CatalogObservation

open Interleave Prog
open Interleave.Discipline (Triple)
open Broker Broker.Catalog

variable {str : PyStr → PyStr} {room : Nat} {H : Hash} {netlocOk : PyStr → Bool} {loads : Text → Option PyDict}
  {i : Nat} {w w' : Site} {P : Site → Prop} {E : Exn → Site → Prop} {disk : Disk} {n : Nat}

/-! ## Loading -/

/-- The catalog of the manifests on one disk. -/
def Disk.load (H : Hash) (netlocOk : PyStr → Bool) (loads : Text → Option PyDict) (disk : Disk) (s : Sources) :
    Except LoadError Entries :=
  Catalog.fromSources H netlocOk loads disk.toFiles ((s.givenRoot.map disk.glob).getD [])
    (s.toolDirs.map manifestOf)

/-- There have been `n` edits or more, and the files are as they were after the first `n`, if that was all. -/
def Since (disk : Disk) (n : Nat) (w : Site) : Prop := n ≤ w.edits ∧ (w.edits = n → w.disk = disk)

theorem Since.now (w : Site) : Since w.disk w.edits w := ⟨le_rfl, fun _ => rfl⟩

theorem Since.later (h : Since disk n w) (hl : Later w w') : Since disk n w' ∧ (w'.edits = n → w.edits = n) := by
  have hback : w'.edits = n → w.edits = n := fun heq => le_antisymm (heq ▸ hl.edits) h.1
  refine ⟨⟨h.1.trans hl.edits, fun heq => ?_⟩, hback⟩
  rw [hl.disk (heq.trans (hback heq).symm), h.2 (hback heq)]

/-- A catalog has been read, as the manifests stand on the disk if nobody edits them, and `P` holds. -/
def Gathered (P : Site → Prop) (disk : Disk) (n : Nat) (expected : Except LoadError Entries) (catalog : Entries)
    (w : Site) : Prop :=
  (P w ∧ Since disk n w) ∧ Named catalog ∧ (w.edits = n → expected = .ok catalog)

section
variable (hP : (discipline str room H netlocOk loads).Stable i P)
include hP

theorem stable_since : (discipline str room H netlocOk loads).Stable i fun w => P w ∧ Since disk n w :=
  fun hi hi' hr hw => ⟨hP hi hi' hr hw.1, (hw.2.later hr.1).1⟩

/-- What has been found out about the disk stays found out. -/
theorem stable_found {φ : Prop} (hsince : ∀ w, P w → Since disk n w) :
    (discipline str room H netlocOk loads).Stable i fun w => P w ∧ (w.edits = n → φ) :=
  fun hi hi' hr hw => ⟨hP hi hi' hr hw.1, fun heq => hw.2 (((hsince _ hw.1).later hr.1).2 heq)⟩

/-- A look at the disk. -/
theorem look {o : Op} (value : Disk → o.Ret) (hexec : ∀ ω w, exec false i o ω w = (value w.disk, w))
    (hreq : ∀ w, Requires str room H i o w) (hsince : ∀ w, P w → Since disk n w) :
    (discipline str room H netlocOk loads).Triple i P (ask o) (fun r w => P w ∧ (w.edits = n → r = value disk)) E := by
  refine .perform hP (fun w _ _ => hreq w) fun w ω _ hw => ?_
  have hrun : (system str room H netlocOk loads false).exec i o ω w = (value w.disk, w) := hexec ω w
  rw [hrun]
  exact ⟨hw, fun heq => congrArg value ((hsince w hw).2 heq)⟩

end

/-- Raising keeps what the exception may be raised with. -/
theorem raises {α : Type} {e : Exn} {Q : α → Site → Prop} {P' : Site → Prop} (h : ∀ w, P' w → P w) :
    (discipline str room H netlocOk loads).Triple i P' (raise e : Program α) Q (fun _ => P) :=
  .raise fun w _ hw => h w hw

section
variable (hP : (discipline str room H netlocOk loads).Stable i P)
include hP

theorem stable_gathered {expected : Except LoadError Entries} {catalog : Entries} :
    (discipline str room H netlocOk loads).Stable i (Gathered P disk n expected catalog) := by
  intro w w' hi hi' hr hw
  obtain ⟨hsince, hback⟩ := hw.1.2.later hr.1
  exact ⟨⟨hP hi hi' hr hw.1.1, hsince⟩, hw.2.1, fun heq => hw.2.2 (hback heq)⟩

theorem addToml_spec (disk : Disk) (n : Nat) (expected : Except LoadError Entries) (catalog : Entries) (path : PyStr) :
    (discipline str room H netlocOk loads).Triple i (Gathered P disk n expected catalog)
      (addToml H netlocOk loads catalog path)
      (fun c => Gathered P disk n (expected >>= fun k => Catalog.addToml H netlocOk loads disk.toFiles k path) c)
      (fun _ => P) := by
  have hsince : ∀ w, Gathered P disk n expected catalog w → Since disk n w := fun w hw => hw.1.2
  refine Triple.bind (look (stable_gathered hP) (fun d => d.read (d.resolve path)) (fun _ _ => rfl)
    (fun _ => trivial) hsince) fun raw => ?_
  cases raw with
  | none => exact raises fun w hw => hw.1.1.1
  | some raw =>
    cases hdata : loads raw with
    | none =>
      simp only [hdata]
      exact raises fun w hw => hw.1.1.1
    | some data =>
      cases htool : readTool netlocOk data with
      | error e =>
        simp only [hdata, htool]
        exact raises fun w hw => hw.1.1.1
      | ok tool =>
        simp only [hdata, htool]
        have hstable : (discipline str room H netlocOk loads).Stable i fun w =>
            Gathered P disk n expected catalog w ∧ (w.edits = n → some raw = disk.read (disk.resolve path)) :=
          stable_found (stable_gathered hP) hsince
        refine Triple.bind (look hstable (fun d => d.resolve path) (fun _ _ => rfl) (fun _ => trivial)
          fun w hw => hsince w hw.1) fun resolved => ?_
        refine .ret fun w _ hw => ?_
        obtain ⟨⟨⟨hpre, hnamed, hcatalog⟩, hraw⟩, hresolved⟩ := hw
        refine ⟨hpre, hnamed.set (readTool_id htool) _, fun heq => ?_⟩
        have hentry : readEntry H netlocOk loads disk.toFiles path = .ok ⟨tool, disk.resolve path, H.digest raw⟩ := by
          simp only [readEntry, ← hraw heq, hdata, htool]
        have hresolved' : resolved = disk.resolve path := hresolved heq
        rw [hcatalog heq, hresolved']
        show Catalog.addToml H netlocOk loads disk.toFiles catalog path = _
        rw [Catalog.addToml, hentry]
        rfl

theorem addRoot_spec (disk : Disk) (n : Nat) (expected : Except LoadError Entries) (catalog : Entries)
    (paths : List PyStr) :
    (discipline str room H netlocOk loads).Triple i (Gathered P disk n expected catalog)
      (paths.foldlM (addToml H netlocOk loads) catalog)
      (fun c => Gathered P disk n
        (expected >>= fun k => paths.foldlM (Catalog.addToml H netlocOk loads disk.toFiles) k) c)
      (fun _ => P) := by
  induction paths generalizing expected catalog with
  | nil =>
    refine .ret fun w _ hw => ⟨hw.1, hw.2.1, fun heq => ?_⟩
    rw [hw.2.2 heq]
    rfl
  | cons path paths ih =>
    refine Triple.bind (addToml_spec hP disk n expected catalog path) fun c =>
      (ih _ c).conseq (fun _ _ h => h) ?_ fun _ _ _ h => h
    intro c' w _ hw
    refine ⟨hw.1, hw.2.1, fun heq => ?_⟩
    rw [← hw.2.2 heq]
    simp only [List.foldlM_cons, bind_assoc]

/-- The manifests of tool directories, where they are there. -/
def addToolDirs (H : Hash) (netlocOk : PyStr → Bool) (loads : Text → Option PyDict) (disk : Disk)
    (toolDirs : List PyStr) (catalog : Entries) : Except LoadError Entries :=
  ((toolDirs.map manifestOf).filter disk.exists?).foldlM (Catalog.addToml H netlocOk loads disk.toFiles) catalog

theorem addToolDirs_spec (disk : Disk) (n : Nat) (expected : Except LoadError Entries) (catalog : Entries)
    (toolDirs : List PyStr) :
    (discipline str room H netlocOk loads).Triple i (Gathered P disk n expected catalog)
      (toolDirs.foldlM (addToolDir H netlocOk loads) catalog)
      (fun c => Gathered P disk n (expected >>= addToolDirs H netlocOk loads disk toolDirs) c)
      (fun _ => P) := by
  induction toolDirs generalizing expected catalog with
  | nil =>
    refine .ret fun w _ hw => ⟨hw.1, hw.2.1, fun heq => ?_⟩
    rw [hw.2.2 heq]
    rfl
  | cons d ds ih =>
    have hsince : ∀ w, Gathered P disk n expected catalog w → Since disk n w := fun w hw => hw.1.2
    have hone : (discipline str room H netlocOk loads).Triple i (Gathered P disk n expected catalog)
        (addToolDir H netlocOk loads catalog d)
        (fun c => Gathered P disk n (expected >>= addToolDirs H netlocOk loads disk [d]) c) (fun _ => P) := by
      refine Triple.bind (look (stable_gathered hP) (fun k => k.exists? (manifestOf d)) (fun _ _ => rfl)
        (fun _ => trivial) hsince) fun there => ?_
      cases there with
      | false =>
        refine .ret fun w _ hw => ⟨hw.1.1, hw.1.2.1, fun heq => ?_⟩
        have hthere : false = disk.exists? (manifestOf d) := hw.2 heq
        rw [hw.1.2.2 heq]
        show addToolDirs H netlocOk loads disk [d] catalog = _
        simp only [addToolDirs, List.map_cons, List.map_nil, List.filter_cons, ← hthere]
        rfl
      | true =>
        -- what the look has found goes along with `P` while the manifest is read
        have hstable : (discipline str room H netlocOk loads).Stable i fun w =>
            (P w ∧ Since disk n w) ∧ (w.edits = n → true = disk.exists? (manifestOf d)) :=
          stable_found (stable_since hP) fun _ hw => hw.2
        refine (addToml_spec hstable disk n expected catalog (manifestOf d)).conseq ?_ ?_ fun _ _ _ hw => hw.1.1
        · exact fun w _ hw => ⟨⟨⟨hw.1.1, hw.2⟩, hw.1.1.2⟩, hw.1.2⟩
        · intro c w _ hw
          refine ⟨hw.1.1.1, hw.2.1, fun heq => ?_⟩
          have hthere : true = disk.exists? (manifestOf d) := hw.1.1.2 heq
          rw [← hw.2.2 heq]
          congr 1
          funext k
          simp only [addToolDirs, List.map_cons, List.map_nil, List.filter_cons, ← hthere, if_true, List.filter_nil,
            List.foldlM_cons, List.foldlM_nil, bind_pure]
    refine Triple.bind hone fun c => (ih _ c).conseq (fun _ _ h => h) ?_ fun _ _ _ h => h
    intro c' w _ hw
    refine ⟨hw.1, hw.2.1, fun heq => ?_⟩
    rw [← hw.2.2 heq, bind_assoc]
    congr 1
    funext k
    rw [addToolDirs, List.map_cons, ← List.singleton_append, List.filter_append, List.foldlM_append]
    rfl

theorem fromSources_spec (disk : Disk) (n : Nat) (s : Sources) :
    (discipline str room H netlocOk loads).Triple i (fun w => P w ∧ Since disk n w)
      (fromSources H netlocOk loads s)
      (fun c => Gathered P disk n (disk.load H netlocOk loads s) c) (fun _ => P) := by
  have hroot : (discipline str room H netlocOk loads).Triple i (fun w => P w ∧ Since disk n w)
      (rootManifests s.givenRoot)
      (fun found w => (P w ∧ Since disk n w) ∧ (w.edits = n → found = (s.givenRoot.map disk.glob).getD []))
      (fun _ => P) := by
    cases s.givenRoot with
    | none => exact .ret fun w _ hw => ⟨hw, fun _ => rfl⟩
    | some root =>
      exact look (o := .glob root) (stable_since hP) (fun d => d.glob root) (fun _ _ => rfl) (fun _ => trivial)
        fun _ hw => hw.2
  refine Triple.bind hroot fun found => ?_
  have hstable : (discipline str room H netlocOk loads).Stable i fun w =>
      (P w ∧ Since disk n w) ∧ (w.edits = n → found = (s.givenRoot.map disk.glob).getD []) :=
    stable_found (stable_since hP) fun _ hw => hw.2
  have hfound := Triple.bind (addRoot_spec hstable disk n (.ok []) [] found) fun c =>
    addToolDirs_spec hstable disk n _ c s.toolDirs
  refine hfound.conseq ?_ ?_ fun _ _ _ hw => hw.1.1
  · exact fun w _ hw => ⟨⟨hw, hw.1.2⟩, .nil, fun _ => rfl⟩
  · intro c w _ hw
    refine ⟨hw.1.1.1, hw.2.1, fun heq => ?_⟩
    have hglob := hw.1.1.2 heq
    rw [← hw.2.2 heq, hglob, Disk.load, Catalog.fromSources, sources, List.foldlM_append]
    rfl

/-- What is loaded is named, whatever happens to the disk. -/
theorem fromSources_named (s : Sources) :
    (discipline str room H netlocOk loads).Triple i P (fromSources H netlocOk loads s)
      (fun c w => P w ∧ Named c) (fun _ => P) := by
  intro w hi hw
  have hspec := fromSources_spec hP w.disk w.edits s w hi ⟨hw, .now w⟩
  exact Discipline.wp_mono (fun c w' _ h => ⟨h.1.1, h.2.1⟩) (fun _ _ _ h => h) hi hspec

theorem resolveAll_spec (ds : List PyStr) :
    (discipline str room H netlocOk loads).Triple i P (resolveAll ds) (fun _ => P) (fun _ => P) := by
  induction ds with
  | nil => exact .ret fun _ _ hw => hw
  | cons d ds ih =>
    refine Triple.bind (.perform_keep hP (fun _ _ _ => trivial) fun _ _ _ hw => hw) fun path => ?_
    exact Triple.bind ih fun paths => .ret fun _ _ hw => hw

theorem resolveRoot_spec (root : Option PyStr) :
    (discipline str room H netlocOk loads).Triple i P (resolveRoot root) (fun _ => P) (fun _ => P) := by
  cases root with
  | none => exact .ret fun _ _ hw => hw
  | some root =>
    refine Triple.bind (.perform_keep hP (fun _ _ _ => trivial) fun _ _ _ hw => hw) fun path => ?_
    exact .ret fun _ _ hw => hw

theorem fingerprintOf_spec (catalog : Entries) (s : Sources) :
    (discipline str room H netlocOk loads).Triple i P (fingerprintOf str room H catalog s)
      (fun t w => P w ∧ ∃ root toolDirs, observationFingerprint str room H root toolDirs catalog = some t)
      (fun _ => P) := by
  refine Triple.bind (resolveRoot_spec hP _) fun root => Triple.bind (resolveAll_spec hP _) fun toolDirs => ?_
  cases ht : observationFingerprint str room H root toolDirs catalog with
  | none => exact raises fun _ hw => hw
  | some t => exact .ret fun _ _ hw => ⟨hw, root, toolDirs, ht⟩

end

/-! ## Brokers -/

section
variable {b x : Nat}

/-- Thread `i` handles the signals of process `b`, and what the process holds is as `φ` says. -/
def Holds (i b : Nat) (φ : Process → Prop) (w : Site) : Prop :=
  w.busy b = some i ∧ ∀ p, w.process b = some p → φ p

/-- Thread `i` has drawn an id, under which nothing has been written or shown. -/
def Drew (i x : Nat) (w : Site) : Prop :=
  w.drawn[x]? = some i ∧ x ∉ w.announced ∧ ∀ r ∈ w.written, r.observationId ≠ x

/-- As `Drew`, with one receipt written under the id. -/
def Wrote (i : Nat) (r : Receipt) (b : Nat) (w : Site) : Prop :=
  w.drawn[r.observationId]? = some i ∧ r.observationId ∉ w.announced ∧ ∀ p, w.process b = some p → r ∈ w.written

theorem stable_holds {φ : Process → Prop} :
    (discipline str room H netlocOk loads).Stable i (Holds i b φ) := by
  intro w w' _ _ hr hw
  obtain ⟨hbusy, hprocess⟩ := hr.2.busy b hw.1
  refine ⟨hbusy, fun p hp => ?_⟩
  rcases hprocess with hsame | hgone
  · exact hw.2 p (hsame.symm.trans hp)
  · rw [hgone] at hp
    cases hp

theorem stable_drew : (discipline str room H netlocOk loads).Stable i (Drew i x) := by
  intro w w' _ _ hr hw
  obtain ⟨hdrawn, hnew, hwritten⟩ := hw
  refine ⟨hr.1.drawn_get hdrawn, fun hmem => hnew (hr.2.announced x hdrawn hmem), fun r hmem heq => ?_⟩
  exact hwritten r (hr.2.written r hmem (heq ▸ hdrawn)) heq

theorem stable_wrote {r : Receipt} {φ : Process → Prop} :
    (discipline str room H netlocOk loads).Stable i fun w => Holds i b φ w ∧ Wrote i r b w := by
  intro w w' hi hi' hr hw
  obtain ⟨hdrawn, hnew, hwritten⟩ := hw.2
  refine ⟨stable_holds hi hi' hr hw.1, hr.1.drawn_get hdrawn,
    fun hmem => hnew (hr.2.announced _ hdrawn hmem), fun p hp => ?_⟩
  rcases (hr.2.busy b hw.1.1).2 with hsame | hgone
  · exact hr.1.written (hwritten p (hsame.symm.trans hp))
  · rw [hgone] at hp
    cases hp

theorem Holds.any {φ : Process → Prop} (h : Holds i b φ w) : Holds i b (fun _ => True) w := ⟨h.1, fun _ _ => trivial⟩

/-- What holds however a program ends holds after it has been tried. -/
theorem attempted {α : Type} {m : Program α} {Q : Site → Prop}
    (h : (discipline str room H netlocOk loads).Triple i P m (fun _ => Q) (fun _ => Q)) :
    (discipline str room H netlocOk loads).Triple i P m.attempt (fun _ => Q) E :=
  fun w hi hw => Discipline.wp_attempt.2 (h w hi hw)

theorem context_spec {Q : Site → Prop} (hQ : (discipline str room H netlocOk loads).Stable i Q)
    (φ : Process → Prop) :
    (discipline str room H netlocOk loads).Triple i (fun w => Holds i b φ w ∧ Q w) (ownContext b)
      (fun p w => Holds i b (fun q => φ q ∧ q = p) w ∧ Q w) (fun _ => Holds i b fun _ => True) := by
  have hstable : (discipline str room H netlocOk loads).Stable i fun w => Holds i b φ w ∧ Q w := stable_holds.and hQ
  have hask : (discipline str room H netlocOk loads).Triple i (fun w => Holds i b φ w ∧ Q w) (ask (.context b))
      (fun r w => (Holds i b φ w ∧ Q w) ∧ w.process b = r) (fun _ => Holds i b fun _ => True) :=
    .perform hstable (fun _ _ _ => trivial) fun w ω _ hw => ⟨hw, rfl⟩
  refine Triple.bind hask fun r => ?_
  cases r with
  | none => exact .raise fun _ _ hw => hw.1.1.any
  | some p =>
    refine .ret fun w _ hw => ⟨⟨hw.1.1.1, fun q hq => ⟨hw.1.1.2 q hq, ?_⟩⟩, hw.1.2⟩
    exact Option.some.inj (hq.symm.trans hw.2)

/-- Drawing gives an id of which nothing is known yet. -/
theorem draw_spec (φ : Process → Prop) :
    (discipline str room H netlocOk loads).Triple i (Holds i b φ) (ask .uuid4)
      (fun x w => Holds i b φ w ∧ Drew i x w) E := by
  refine .perform stable_holds (fun _ _ _ => trivial) fun w ω hi hw => ?_
  have hsound : w.Sound str room H := hi
  refine ⟨hw, ?_, ?_, ?_⟩
  · exact List.getElem?_concat_length
  · exact fun hmem => Nat.lt_irrefl _ (hsound.announced_drawn _ hmem)
  · exact fun r hr heq => Nat.lt_irrefl _ (heq ▸ hsound.written_drawn r hr)

theorem Holds.write {φ : Process → Prop} {receipt : Option Receipt} (h : Holds i b φ w) :
    Holds i b φ (w.writeReceipt b receipt) := by
  rw [Site.writeReceipt]
  split
  · exact h
  · exact h

theorem Drew.write {r : Receipt} (h : Drew i r.observationId w) : Wrote i r b (w.writeReceipt b (some r)) := by
  rw [Site.writeReceipt]
  cases hprocess : w.process b with
  | none =>
    refine ⟨h.1, h.2.1, fun p hp => ?_⟩
    have hnone : w.process b = some p := hp
    rw [hprocess] at hnone
    cases hnone
  | some _ => exact ⟨h.1, h.2.1, fun _ _ => List.mem_cons_self ..⟩

theorem Holds.setProcess {φ ψ : Process → Prop} {f : Process → Process} (h : Holds i b φ w)
    (hf : ∀ p, φ p → ψ (f p)) : Holds i b ψ (w.setProcess b f) := by
  refine ⟨h.1, fun p hp => ?_⟩
  have hp' : update w.process b ((w.process b).map f) b = some p := hp
  rw [update_same] at hp'
  obtain ⟨q, hq, rfl⟩ := Option.map_eq_some_iff.1 hp'
  exact hf q (h.2 q hq)

theorem publish_spec :
    (discipline str room H netlocOk loads).Triple i (Holds i b fun _ => True) (publishCatalogReceipt str room H b)
      (fun _ => Holds i b fun _ => True) (fun _ => Holds i b fun _ => True) := by
  refine Triple.bind (draw_spec _) fun x => Triple.bind (context_spec stable_drew _) fun p => ?_
  have hstable : (discipline str room H netlocOk loads).Stable i fun w =>
      Holds i b (fun q => True ∧ q = p) w ∧ Drew i x w := stable_holds.and stable_drew
  have hfingerprint := (fingerprintOf_spec hstable p.registry p.config.sources).conseq (fun _ _ h => h)
    (fun _ _ _ h => h) fun _ _ _ h => h.1.any
  refine Triple.bind hfingerprint fun t => ?_
  have hwrite : (discipline str room H netlocOk loads).Triple i
      (fun w => (Holds i b (fun q => True ∧ q = p) w ∧ Drew i x w) ∧ Certifies str room H ⟨x, t⟩ p)
      (ask (.setCatalogReceipt b (some ⟨x, t⟩)))
      (fun _ w => (Holds i b (fun q => True ∧ q = p) w ∧ Wrote i ⟨x, t⟩ b w) ∧ Certifies str room H ⟨x, t⟩ p)
      (fun _ => Holds i b fun _ => True) := by
    refine .perform (hstable.and (Discipline.Stable.const _)) (fun w _ hw r hr => ?_) fun w ω _ hw => ?_
    · obtain rfl := Option.some.inj hr
      exact ⟨hw.1.2.1, hw.1.2.2.2⟩
    · exact ⟨⟨hw.1.1.write, hw.1.2.write⟩, hw.2⟩
  refine Triple.bind hwrite fun _ => ?_
  refine .perform (stable_wrote.and (Discipline.Stable.const _)) (fun w _ hw => ⟨hw.1.1.1, fun y hy => ?_⟩)
    fun w ω _ hw => ?_
  · obtain rfl := Option.some.inj hy
    obtain ⟨⟨hholds, hdrawn, hnew, hwritten⟩, hcert⟩ := hw
    refine ⟨hdrawn, hnew, fun q hq => ?_⟩
    obtain ⟨-, rfl⟩ := hholds.2 q hq
    exact ⟨_, hwritten q hq, rfl, hcert⟩
  · exact hw.1.1.setProcess fun _ _ => trivial

theorem reload_spec :
    (discipline str room H netlocOk loads).Triple i (Holds i b fun _ => True)
      (reloadRegistry str room H netlocOk loads b)
      (fun _ => Holds i b fun _ => True) (fun _ => Holds i b fun _ => True) := by
  have hhide : (discipline str room H netlocOk loads).Triple i (Holds i b fun _ => True)
      (ask (.setObservation b none)) (fun _ => Holds i b fun p => p.observation = none)
      (fun _ => Holds i b fun _ => True) :=
    .perform stable_holds (fun w _ hw => ⟨hw.1, fun x hx => nomatch hx⟩) fun w ω _ hw => hw.setProcess fun _ _ => rfl
  have hclear : (discipline str room H netlocOk loads).Triple i (Holds i b fun p => p.observation = none)
      (ask (.setCatalogReceipt b none)) (fun _ => Holds i b fun p => p.observation = none)
      (fun _ => Holds i b fun _ => True) :=
    .perform stable_holds (fun w _ hw r hr => nomatch hr) fun w ω _ hw => hw.write
  refine Triple.bind hhide fun _ => Triple.bind hclear fun _ => ?_
  have hcontext : (discipline str room H netlocOk loads).Triple i (Holds i b fun p => p.observation = none)
      (ownContext b) (fun _ => Holds i b fun p => p.observation = none) (fun _ => Holds i b fun _ => True) :=
    (context_spec (Discipline.Stable.const True) _).conseq (fun _ _ hw => ⟨hw, trivial⟩)
      (fun p w _ hw => ⟨hw.1.1, fun q hq => (hw.1.2 q hq).1⟩) fun _ _ _ hw => hw
  refine Triple.bind hcontext fun p => ?_
  have hload : (discipline str room H netlocOk loads).Triple i (Holds i b fun p => p.observation = none)
      (fromSources H netlocOk loads p.config.sources)
      (fun c w => Holds i b (fun p => p.observation = none) w ∧ Named c) (fun _ => Holds i b fun _ => True) :=
    (fromSources_named stable_holds _).conseq (fun _ _ h => h) (fun _ _ _ h => h) fun _ _ _ h => h.any
  refine Triple.bind hload fun new => ?_
  refine Triple.bind (Q := fun _ => Holds i b fun _ => True) ?_ fun _ => publish_spec
  exact .perform (stable_holds.and (Discipline.Stable.const _)) (fun w _ hw => ⟨hw.1.1, hw.2, hw.1.2⟩)
    fun w ω _ hw => hw.1.setProcess fun _ _ => trivial

theorem onSighup_spec :
    (discipline str room H netlocOk loads).Triple i (fun _ => True) (onSighup str room H netlocOk loads b)
      (fun _ _ => True) (fun _ _ => True) := by
  have hsignal : (discipline str room H netlocOk loads).Triple i (fun _ => True) (ask (.sighup b))
      (fun r w => r = true → Holds i b (fun _ => True) w) (fun _ _ => True) := by
    refine .perform (Discipline.Stable.const True) (fun _ _ _ => trivial) fun w ω _ _ => ?_
    by_cases hfree : (w.process b).isSome ∧ (false = true ∨ w.busy b = none)
    · have hexec : (system str room H netlocOk loads false).exec i (.sighup b) ω w =
          (true, { w with busy := update w.busy b (some i) }) := if_pos hfree
      rw [hexec]
      exact fun _ => ⟨update_same _ _ _, fun _ _ => trivial⟩
    · have hexec : (system str room H netlocOk loads false).exec i (.sighup b) ω w = (false, w) := if_neg hfree
      rw [hexec]
      exact nofun
  refine Triple.bind hsignal fun r => ?_
  cases r with
  | false => exact .ret fun _ _ _ => trivial
  | true =>
    refine (Triple.bind (attempted reload_spec) fun _ => Triple.bind (Q := fun _ _ => True) ?_ fun _ =>
      .ret fun _ _ _ => trivial).conseq (fun w _ hw => hw rfl) (fun _ _ _ h => h) fun _ _ _ h => h
    exact .perform stable_holds (fun w _ hw => hw.1) fun _ _ _ _ => trivial

theorem buildServer_spec (config : RunConfig) :
    (discipline str room H netlocOk loads).Triple i (Unstarted i) (buildServer str room H netlocOk loads config)
      (fun _ _ => True) (fun _ _ => True) := by
  have hstable : (discipline str room H netlocOk loads).Stable i (Unstarted i) :=
    fun _ _ hr hw => hr.2.unstarted hw.1 hw.2
  have hload : (discipline str room H netlocOk loads).Triple i (Unstarted i)
      (fromSources H netlocOk loads config.sources) (fun c w => Unstarted i w ∧ Named c) (fun _ _ => True) :=
    (fromSources_named hstable _).conseq (fun _ _ h => h) (fun _ _ _ h => h) fun _ _ _ _ => trivial
  refine Triple.bind hload fun registry => ?_
  have hlisten : (discipline str room H netlocOk loads).Triple i (fun w => Unstarted i w ∧ Named registry)
      (ask (.listen config registry)) (fun r w => ∀ b, r = some b → Holds i b (fun _ => True) w) (fun _ _ => True) := by
    refine .perform (hstable.and (Discipline.Stable.const _)) (fun w _ hw => ⟨hw.2, hw.1.2⟩) fun w ω _ _ => ?_
    cases hω : ω.fails with
    | true =>
      have hexec : (system str room H netlocOk loads false).exec i (.listen config registry) ω w = (none, w) :=
        if_pos hω
      rw [hexec]
      exact nofun
    | false =>
      have hexec : (system str room H netlocOk loads false).exec i (.listen config registry) ω w = (some i, { w with
          process := update w.process i (some { config, registry })
          busy := update w.busy i (some i) }) := if_neg (by rw [hω]; exact Bool.false_ne_true)
      rw [hexec]
      rintro b hb
      obtain rfl := Option.some.inj hb
      exact ⟨update_same _ _ _, fun _ _ => trivial⟩
  refine Triple.bind hlisten fun r => ?_
  cases r with
  | none => exact .raise fun _ _ _ => trivial
  | some b =>
    refine (Triple.bind (attempted publish_spec) fun result => ?_).conseq (fun w _ hw => hw b rfl)
      (fun _ _ _ h => h) fun _ _ _ h => h
    cases result with
    | ok _ =>
      refine Triple.bind (Q := fun _ _ => True) ?_ fun _ => .ret fun _ _ _ => trivial
      exact .perform stable_holds (fun w _ hw => hw.1) fun _ _ _ _ => trivial
    | error e =>
      refine Triple.bind (Q := fun _ _ => True) ?_ fun _ => .raise fun _ _ _ => trivial
      exact .perform stable_holds (fun w _ hw => hw.1) fun _ _ _ _ => trivial

end

/-! ## Observations -/

/-- A process shows the id on the port, and its catalog is the one given, as far as fingerprints show. -/
def Shows (str : PyStr → PyStr) (room x port : Nat) (current : Entries) (w : Site) : Prop :=
  ∃ b p, w.process b = some p ∧ p.observation = some x ∧ p.config.port = port ∧
    SameTools str room current p.registry

/-- What a verified answer says where it is given. -/
def Verified (str : PyStr → PyStr) (room : Nat) (H : Hash) (netlocOk : PyStr → Bool) (loads : Text → Option PyDict)
    (config : RunConfig) (x : Nat) (disk : Disk) (n : Nat) (answer : Answer) (w : Site) : Prop :=
  ∀ y ids, answer = .verified y ids → y = x ∧ ∃ current, ids = toolIds current ∧
    Shows str room x config.port current w ∧ (w.edits = n → disk.load H netlocOk loads config.sources = .ok current)

variable {config : RunConfig} {x : Nat}

theorem healthOf_some {port b x : Nat} (h : w.healthOf port b = some (some x)) :
    ∃ b p, w.process b = some p ∧ p.observation = some x ∧ p.config.port = port := by
  unfold Site.healthOf at h
  split at h
  · cases h
  next p hp =>
    split_ifs at h with hport
    exact ⟨b, p, hp, Option.some.inj h, hport⟩

theorem verified_unknown : Verified str room H netlocOk loads config x disk n .unknown w := nofun

/-- The second look: whoever still shows the id shows the catalog for which its receipt was written. -/
theorem certify_spec {current : Entries} {receipt : Receipt} (hid : receipt.observationId = x)
    (hfp : ∃ root toolDirs, observationFingerprint str room H root toolDirs current = some receipt.fingerprint) :
    (discipline str room H netlocOk loads).Triple i
      (fun w => Gathered (fun w => receipt ∈ w.written) disk n (disk.load H netlocOk loads config.sources) current w)
      (certify config x (toolIds current)) (Verified str room H netlocOk loads config x disk n) (fun _ _ => True) := by
  have hwritten : (discipline str room H netlocOk loads).Stable i fun w => receipt ∈ w.written :=
    fun _ _ hr hw => hr.1.written hw
  have hlook : (discipline str room H netlocOk loads).Triple i
      (Gathered (fun w => receipt ∈ w.written) disk n (disk.load H netlocOk loads config.sources) current)
      (ask (.health config.port))
      (fun r w => r = some (some x) → Verified str room H netlocOk loads config x disk n
        (.verified x (toolIds current)) w) (fun _ _ => True) := by
    refine .perform (stable_gathered hwritten) (fun _ _ _ => trivial) fun w ω hi hw hr y ids hanswer => ?_
    obtain ⟨rfl, rfl⟩ := Answer.verified.inj hanswer
    refine ⟨rfl, current, rfl, ?_, hw.2.2⟩
    have hsound : w.Sound str room H := hi
    have hhealth : w.healthOf config.port ω.answering = some (some x) := hr
    obtain ⟨b, p, hp, hx, hport⟩ := healthOf_some hhealth
    obtain ⟨-, r, hmem, hr', root, toolDirs, hshown⟩ := hsound.shown b p x hp hx
    obtain rfl : r = receipt := hsound.unique r hmem receipt hw.1.1 (hr'.trans hid.symm)
    obtain ⟨root', toolDirs', hcurrent⟩ := hfp
    exact ⟨b, p, hp, hx, hport, (fingerprint_inj hw.2.1 (hsound.named b p hp) hcurrent hshown).2.2⟩
  refine Triple.bind hlook fun latest => ?_
  by_cases hlatest : latest = some (some x)
  · rw [if_pos hlatest]
    exact .ret fun w _ hw => hw hlatest
  · rw [if_neg hlatest]
    exact .ret fun w _ _ => verified_unknown

theorem compare_spec :
    (discipline str room H netlocOk loads).Triple i (Since disk n) (compare str room H netlocOk loads config x)
      (Verified str room H netlocOk loads config x disk n) (fun _ _ => True) := by
  have hsince : (discipline str room H netlocOk loads).Stable i (Since disk n) := fun _ _ hr hw => (hw.later hr.1).1
  have hlook : (discipline str room H netlocOk loads).Triple i (Since disk n) (ask (.catalogReceipt config.dbPath))
      (fun r w => (∀ receipt, r = some receipt → receipt ∈ w.written) ∧ Since disk n w) (fun _ _ => True) := by
    refine .perform hsince (fun _ _ _ => trivial) fun w ω hi hw => ⟨fun receipt hr => ?_, hw⟩
    have hsound : w.Sound str room H := hi
    have hread : (if ω.fails then none else w.receipt config.dbPath) = some receipt := hr
    split_ifs at hread
    exact hsound.stored _ _ hread
  have hload : ∀ {P : Site → Prop}, (discipline str room H netlocOk loads).Stable i P →
      (discipline str room H netlocOk loads).Triple i (fun w => P w ∧ Since disk n w)
        (fromSources H netlocOk loads config.sources)
        (fun c => Gathered P disk n (disk.load H netlocOk loads config.sources) c) (fun _ _ => True) :=
    fun hP => (fromSources_spec hP _ _ _).conseq (fun _ _ h => h) (fun _ _ _ h => h) fun _ _ _ _ => trivial
  refine Triple.bind hlook fun r => ?_
  cases r with
  | none =>
    refine (Triple.bind (hload (Discipline.Stable.const True)) fun current => ?_).conseq (fun _ _ hw => ⟨trivial, hw.2⟩)
      (fun _ _ _ h => h) fun _ _ _ h => h
    exact .ret fun w _ _ => verified_unknown
  | some receipt =>
    have hwritten : (discipline str room H netlocOk loads).Stable i fun w => receipt ∈ w.written :=
      fun _ _ hr hw => hr.1.written hw
    refine (Triple.bind (hload hwritten) fun current => ?_).conseq (fun _ _ hw => ⟨hw.1 receipt rfl, hw.2⟩)
      (fun _ _ _ h => h) fun _ _ _ h => h
    by_cases hid : receipt.observationId = x
    · have hfingerprint : (discipline str room H netlocOk loads).Triple i
          (Gathered (fun w => receipt ∈ w.written) disk n (disk.load H netlocOk loads config.sources) current)
          (fingerprintOf str room H current config.sources)
          (fun t w =>
            Gathered (fun w => receipt ∈ w.written) disk n (disk.load H netlocOk loads config.sources) current w ∧
            ∃ root toolDirs, observationFingerprint str room H root toolDirs current = some t) (fun _ _ => True) :=
        (fingerprintOf_spec (stable_gathered hwritten) _ _).conseq (fun _ _ h => h) (fun _ _ _ h => h)
          fun _ _ _ _ => trivial
      simp only [if_pos hid]
      refine Triple.bind hfingerprint fun t => ?_
      by_cases ht : receipt.fingerprint = t
      · rw [if_pos ht]
        intro w hi hw
        exact certify_spec hid (ht ▸ hw.2) w hi hw.1
      · rw [if_neg ht]
        exact .ret fun w _ _ => verified_unknown
    · simp only [if_neg hid]
      exact .ret fun w _ _ => verified_unknown

/-- What an observation makes of the first look. -/
theorem observed_spec (config : RunConfig) (i : Nat) (health : Option (Option Nat)) :
    (discipline str room H netlocOk loads).Triple i (Since disk n)
      (orUnknown (observed str room H netlocOk loads config health))
      (fun answer w => ∀ y ids, answer = .verified y ids → health = some (some y) ∧
        Verified str room H netlocOk loads config y disk n answer w) (fun _ _ => True) := by
  have hraised : ∀ {m : Program Answer} {Q : Answer → Site → Prop}, (∀ w, Q .unknown w) →
      (discipline str room H netlocOk loads).Triple i (Since disk n) m Q (fun _ _ => True) →
      (discipline str room H netlocOk loads).Triple i (Since disk n) (orUnknown m) Q (fun _ _ => True) := by
    intro m Q hunknown hm
    refine Triple.bind hm.attempt fun result => ?_
    cases result with
    | ok answer => exact .ret fun _ _ hw => hw
    | error e => exact .ret fun w _ _ => hunknown w
  refine hraised (fun w => nofun) ?_
  rcases health with _ | _ | x
  · exact .ret fun w _ _ => nofun
  · exact .ret fun w _ _ => nofun
  · refine (compare_spec (x := x)).conseq (fun _ _ h => h) (fun answer w _ hw y ids hanswer => ?_) fun _ _ _ h => h
    obtain ⟨rfl, -⟩ := hw y ids hanswer
    exact ⟨rfl, hw⟩

/-! ## Runs -/

theorem disciplined : (discipline str room H netlocOk loads).Disciplined := by
  rintro i (config | pid | config)
  · exact buildServer_spec config
  · exact onSighup_spec.conseq (fun _ _ _ => trivial) (fun _ _ _ h => h) fun _ _ _ h => h
  · intro w hi _
    have hlook : (discipline str room H netlocOk loads).Triple i (Since w.disk w.edits) (ask (.health config.port))
        (fun _ => Since w.disk w.edits) (fun _ _ => True) :=
      .perform_keep (fun _ _ hr hw => (hw.later hr.1).1) (fun _ _ _ => trivial) fun _ _ _ hw => hw
    refine (Triple.bind hlook fun health => ?_) w hi (.now w)
    exact (observed_spec config i health).conseq (fun _ _ h => h) (fun _ _ _ _ => trivial) fun _ _ _ h => h

theorem covered_initial (disk : Disk) :
    (discipline str room H netlocOk loads).Covered (⟨Site.initial disk, []⟩ : Config Op Op.Ret Exn Answer Job Site) := by
  have hsound : (Site.initial disk).Sound str room H := by
    constructor
    · exact fun r hr => absurd hr List.not_mem_nil
    · exact fun x hx => absurd hx List.not_mem_nil
    · exact fun r hr => absurd hr List.not_mem_nil
    all_goals intros; contradiction
  exact .initial hsound fun i => ⟨rfl, rfl⟩

variable {c c' c₀ c₁ c₂ : Config Op Op.Ret Exn Answer Job Site}

theorem later_steps (h : (discipline str room H netlocOk loads).Covered c)
    {ok : Config Op Op.Ret Exn Answer Job Site → Move Job Oracle Env Empty → Prop}
    (hrun : (system str room H netlocOk loads false).Steps ok c c') : Later c.world c'.world := by
  refine hrun.invariant (P := fun c' => Later c.world c'.world) (.refl _) fun c₁ m c₂ hrun₁ _ hs hc => hc.trans ?_
  have hc₁ := h.steps disciplined hrun₁
  cases m with
  | start j =>
    obtain rfl := Option.some.inj hs
    exact .refl _
  | call i ω =>
    obtain ⟨j, o, k, ht, hw, -⟩ := System.step_call hs
    rw [hw]
    exact (moved_exec hc₁.inv ω (hc₁.requires ht)).later
  | crash i =>
    obtain ⟨j, o, k, -, hw, -⟩ := System.step_crash hs
    rw [hw]
    exact .refl _
  | env e =>
    obtain rfl := Option.some.inj hs
    exact (moved_env (i := 0) hc₁.inv e).later
  | offline f => exact nomatch f

/-- In a run of the system, thread `i` takes its first look in the step from `c₀` to `c`, and comes to a verified
answer in the step from `c₁` to `c₂`. -/
structure Observed (S : Observing) (i : Nat) (config : RunConfig) (x : Nat) (ids : List PyStr)
    (c₀ c c₁ c₂ : Config Op Op.Ret Exn Answer Job Site) : Prop where
  asked : c₀.threads[i]? = some ⟨.observe config, some (S.program (.observe config))⟩
  first : ∃ ω, S.step c₀ (.call i ω) = some c
  between : S.Steps (fun _ _ => True) c c₁
  last : ∃ ω, S.step c₁ (.call i ω) = some c₂
  answered : c₂.threads[i]? = some ⟨.observe config, some (.ret (.verified x ids))⟩

/-- Where no reload is begun inside another, a verified answer tells of one broker on the port that the control plane
is configured for: it held one catalog, under one observation id, from the first look to the answer; the
answer lists the tools of that catalog; and if no file was edited meanwhile, the manifests on disk show the same
entries. -/
theorem verified_serves {files : Disk} {ids : List PyStr}
    (hreach : (system str room H netlocOk loads false).Reachable (Site.initial files) c₀)
    (h : Observed (system str room H netlocOk loads false) i config x ids c₀ c c₁ c₂) :
    ∃ b p current,
      (∀ c', (system str room H netlocOk loads false).Steps (fun _ _ => True) c c' →
        (system str room H netlocOk loads false).Steps (fun _ _ => True) c' c₂ → c'.world.process b = some p) ∧
      p.observation = some x ∧ p.config.port = config.port ∧ toolIds p.registry = ids ∧
      SameTools str room current p.registry ∧
      (c₂.world.edits = c.world.edits → c.world.disk.load H netlocOk loads config.sources = .ok current) := by
  have hc₀ : (discipline str room H netlocOk loads).Covered c₀ := (covered_initial files).steps disciplined hreach
  obtain ⟨ω, hfirst⟩ := h.first
  have hc : (discipline str room H netlocOk loads).Covered c := hc₀.step disciplined hfirst
  -- the first look, and what is left of the thread after it
  obtain ⟨j, o, k, hthread, hworld, hthreads⟩ := System.step_call hfirst
  obtain ⟨rfl, hprog⟩ := Thread.mk.inj (Option.some.inj (h.asked.symm.trans hthread))
  obtain ⟨rfl, hk⟩ := Prog.call.inj (Option.some.inj hprog)
  obtain rfl := eq_of_heq hk
  have hleft := congrArg (·[i]?) hthreads
  simp only [List.getElem?_set_self (List.getElem?_eq_some_iff.1 hthread).1] at hleft
  have hsame : c.world = c₀.world := hworld
  have hwp := observed_spec config i (c₀.world.healthOf config.port ω.answering) c.world hc.inv (Since.now c.world)
  -- the condition it is left in holds of the answer
  obtain ⟨ω', hlast⟩ := h.last
  obtain ⟨j₁, o₁, k₁, hthread₁, -, -⟩ := System.step_call hlast
  obtain ⟨t, ht, hjob⟩ := h.between.keepsJobs i _ hleft
  obtain rfl : j₁ = .observe config := by
    obtain rfl := Option.some.inj (hthread₁.symm.trans ht)
    exact hjob
  have hanswer := hc.wp_run disciplined hleft hwp h.between hthread₁ hlast h.answered
  obtain ⟨hhealth, hverified⟩ := hanswer x ids rfl
  obtain ⟨-, current, rfl, ⟨b, p, hp, hx, hport, htools⟩, hload⟩ := hverified x ids rfl
  have hannounced : x ∈ c.world.announced := by
    obtain ⟨b₀, p₀, hp₀, hx₀, -⟩ := healthOf_some hhealth
    have hsound : c₀.world.Sound str room H := hc₀.inv
    exact hsame ▸ (hsound.shown b₀ p₀ x hp₀ hx₀).1
  refine ⟨b, p, current, fun c' hbefore hafter => ?_, hx, hport, htools.ids.symm, htools, hload⟩
  have hmid : x ∈ c'.world.announced := (later_steps hc hbefore).announced hannounced
  exact (later_steps (hc.steps disciplined hbefore) hafter).kept b p x hp hx hmid

/-! ## Two runs -/

namespace Sample

/-- A manifest of one tool, whose id the file itself is. -/
def data (id : Text) : PyDict := [
  (py "id", .str (py (String.ofList id))),
  (py "entrypoint", .dict [(py "port", .int 8000)])]

/-- A tools root with one manifest, that of the tool `id`. -/
def files (id : String) : Disk where
  resolve _ := ⟨py "/tools/t/toolyard.toml", Catalog.Sample.decoded⟩
  exists? _ := true
  read _ := some id.toList
  glob _ := [py "/tools/t/toolyard.toml"]

def ran : RunConfig := ⟨8080, py "broker.db", ⟨some (py "/tools"), []⟩⟩

def observing (nests : Bool) : Observing :=
  system id 10 Hash.marked (fun _ => true) (fun raw => some (data raw)) nests

def start : Config Op Op.Ret Exn Answer Job Site := ⟨Site.initial (files "t"), []⟩

abbrev Step : Type := Move Job Oracle Env Empty

def calls (i n : Nat) : List Step := List.replicate n (.call i ⟨false, 0⟩)

/-- A broker starts and serves. -/
def boot : List Step := .start (.broker ran) :: calls 0 10

/-- A reload has read the manifests when they are edited; a second one is run to its end inside the first, which
then goes on to replace the catalog. -/
def nested : List Step :=
  boot ++ .start (.reload 0) :: calls 1 7 ++ .env (.edit (files "u")) :: .start (.reload 0) :: calls 2 14 ++
    calls 1 1 ++ .start (.observe ran) :: calls 3 7

def answerOf (c : Config Op Op.Ret Exn Answer Job Site) (i : Nat) : Option Answer :=
  match c.threads[i]? with
  | some ⟨_, some (.ret answer)⟩ => some answer
  | _ => none

def servedTools (c : Config Op Op.Ret Exn Answer Job Site) : Option (List PyStr) :=
  (c.world.process 0).map fun p => toolIds p.registry

theorem answered_of {c : Config Op Op.Ret Exn Answer Job Site} {i : Nat} {answer : Answer}
    (h : answerOf c i = some answer) : ∃ j, c.threads[i]? = some ⟨j, some (.ret answer)⟩ := by
  unfold answerOf at h
  split at h
  next j a hthread =>
    obtain rfl := Option.some.inj h
    exact ⟨j, hthread⟩
  · cases h

/-- The broker starts, the observation is begun, it looks once, goes on, and answers. -/
theorem observation : ((observing false).run start boot).any (fun b =>
    ((observing false).step b (.start (.observe ran))).any fun c₀ =>
      ((observing false).step c₀ (.call 1 ⟨false, 0⟩)).any fun c => ((observing false).run c (calls 1 5)).any fun c₁ =>
        ((observing false).step c₁ (.call 1 ⟨false, 0⟩)).any fun c₂ =>
          b.threads.length = 1 ∧ answerOf c₂ 1 = some (.verified 0 [py "t"])) = true := by
  decide +kernel

end Sample

open CatalogObservation.Sample in
theorem verified_serves_t : ∃ c₀ c c₁ c₂, Observed (observing false) 1 ran 0 [py "t"] c₀ c c₁ c₂ ∧
    ∃ b p current, (∀ c', (observing false).Steps (fun _ _ => True) c c' → (observing false).Steps (fun _ _ => True) c' c₂ →
      c'.world.process b = some p) ∧
    p.observation = some 0 ∧ p.config.port = 8080 ∧ toolIds p.registry = [py "t"] ∧
    SameTools id 10 current p.registry ∧
    (c₂.world.edits = c.world.edits →
      c.world.disk.load Hash.marked (fun _ => true) (fun raw => some (data raw)) ran.sources = .ok current) := by
  obtain ⟨b, hboot, hb⟩ := (Option.any_eq_true _ _).1 observation
  obtain ⟨c₀, hbegin, hc₀⟩ := (Option.any_eq_true _ _).1 hb
  obtain ⟨c, hfirst, hc⟩ := (Option.any_eq_true _ _).1 hc₀
  obtain ⟨c₁, hbetween, hc₁⟩ := (Option.any_eq_true _ _).1 hc
  obtain ⟨c₂, hlast, hc₂⟩ := (Option.any_eq_true _ _).1 hc₁
  obtain ⟨hlength, hanswer⟩ := of_decide_eq_true hc₂
  have hasked : c₀.threads[1]? = some ⟨.observe ran, some ((observing false).program (.observe ran))⟩ := by
    obtain rfl := Option.some.inj hbegin
    exact List.getElem?_append_right hlength.le |>.trans (by rw [hlength]; rfl)
  have hrun : (observing false).Steps (fun _ _ => True) start b := .of_run hboot
  have hrun₁ : (observing false).Steps (fun _ _ => True) c c₁ := .of_run hbetween
  have hobserved : Observed (observing false) 1 ran 0 [py "t"] c₀ c c₁ c₂ := by
    refine ⟨hasked, ⟨_, hfirst⟩, hrun₁, ⟨_, hlast⟩, ?_⟩
    obtain ⟨j, hthread⟩ := answered_of hanswer
    have hwhole := ((System.Steps.refl.tail trivial hfirst).trans hrun₁).tail trivial hlast
    obtain ⟨t, ht, hjob⟩ := hwhole.keepsJobs 1 _ hasked
    obtain rfl := Option.some.inj (hthread.symm.trans ht)
    obtain rfl : j = .observe ran := hjob
    exact hthread
  exact ⟨c₀, c, c₁, c₂, hobserved, verified_serves (hrun.tail trivial hbegin) hobserved⟩

open CatalogObservation.Sample in
/-- CPython runs a signal handler inside a signal handler. The outer reload then puts back the catalog it had read
before, and the control plane verifies the one that is gone. -/
theorem nested_reload_deceives : ∃ c, (observing true).Reachable (Site.initial (files "t")) c ∧
    answerOf c 3 = some (.verified 1 [py "u"]) ∧ servedTools c = some [py "t"] := by
  have hrun : ((observing true).run start nested).any (fun c =>
      answerOf c 3 = some (.verified 1 [py "u"]) ∧ servedTools c = some [py "t"]) = true := by decide +kernel
  obtain ⟨c, hc, hanswer⟩ := (Option.any_eq_true _ _).1 hrun
  exact ⟨c, .of_run hc, of_decide_eq_true hanswer⟩

end Toolstack.Admin.CatalogObservation
