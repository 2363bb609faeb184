import Toolstack.Sps.Localfile

/-! No update of the vault is lost: whatever the threads and processes over one file do, its
content is that of the sets whose rename took effect, in the order they held the lock. -/

namespace Toolstack.Sps.Localfile

variable {Key Token : Type} {f : Fernet Key Token} {key : Key} {d₀ : Data}
  {s s' : State Key Token} {i : Nat} {a : Act}

/-- What a finished call told its caller, given the sections before it. -/
structure Section.Truthful (d₀ : Data) (c : Section) (earlier : List Section) : Prop where
  got : ∀ toolId field v, c.request = .get toolId field → c.result = some (.ok v) →
    v = (replay d₀ earlier).lookup toolId field
  stored : ∀ toolId field value v, c.request = .set toolId field value →
    c.result = some (.ok v) → c.renamed = true

def Truthful (d₀ : Data) : List Section → Prop
  | [] => True
  | c :: cs => c.Truthful d₀ cs ∧ Truthful d₀ cs

theorem Truthful.split {later earlier : List Section} {c : Section}
    (h : Truthful d₀ (later ++ c :: earlier)) : c.Truthful d₀ earlier := by
  induction later with
  | nil => exact h.1
  | cons x later ih => exact ih h.2

/-- What holds while thread `i` has the lock. -/
def Holding (key : Key) (d₀ : Data) (s : State Key Token) (i : Nat) : Pc → Prop
  | .locked r => ∃ earlier,
      s.sections = ⟨i, r, (s.vaults (s.threads i).vault).data, false, none⟩ :: earlier
  | .loaded r => ∃ before earlier, s.sections = ⟨i, r, before, false, none⟩ :: earlier ∧
      (s.vaults (s.threads i).vault).key = key ∧
      (s.vaults (s.threads i).vault).data = replay d₀ earlier
  | .writing previous => ∃ toolId field value before earlier,
      s.sections = ⟨i, .set toolId field value, before, false, none⟩ :: earlier ∧
      (s.vaults (s.threads i).vault).key = key ∧ previous = replay d₀ earlier ∧
      (s.vaults (s.threads i).vault).data = previous.assign toolId field value
  | .syncing _ => ∃ toolId field value before earlier,
      s.sections = ⟨i, .set toolId field value, before, true, none⟩ :: earlier
  | .leaving => ∃ c earlier, s.sections = c :: earlier ∧ c.thread = i ∧
      (c.result = some (.error ()) → c.renamed = false →
        (s.vaults (s.threads i).vault).data = replay d₀ earlier ∨
          (s.vaults (s.threads i).vault).data = c.before)
  | _ => True

structure Inv (f : Fernet Key Token) (key : Key) (d₀ : Data) (s : State Key Token) : Prop where
  content : f.decrypt key s.file.ciphertext = some (replay d₀ s.sections)
  lock : ∀ i, (s.threads i).pc.critical = true → s.lock = some i
  holding : ∀ i, (s.threads i).pc.critical = true → Holding key d₀ s i (s.threads i).pc
  truthful : Truthful d₀ s.sections

namespace State
variable (pc : Pc)

@[simp] theorem go_threads_self : (s.go i pc).threads i = { s.threads i with pc := pc } :=
  Function.update_self ..

theorem go_threads_ne {j : Nat} (h : j ≠ i) : (s.go i pc).threads j = s.threads j :=
  Function.update_of_ne h ..

@[simp] theorem go_vaults : (s.go i pc).vaults = s.vaults := rfl

@[simp] theorem setData_threads (v : Nat) (d : Data) : (s.setData v d).threads = s.threads := rfl

@[simp] theorem setData_sections (v : Nat) (d : Data) : (s.setData v d).sections = s.sections := rfl

@[simp] theorem note_vaults (g : Section → Section) : (s.note g).vaults = s.vaults := rfl

@[simp] theorem note_threads (g : Section → Section) : (s.note g).threads = s.threads := rfl

@[simp] theorem setData_self (v : Nat) (d : Data) :
    (s.setData v d).vaults v = { s.vaults v with data := d } := Function.update_self ..

theorem note_cons {c : Section} {cs : List Section} (h : s.sections = c :: cs) (g : Section → Section) :
    (s.note g).sections = g c :: cs := by
  simp only [note, h]

end State

namespace Inv

theorem start {file : Envelope Token} {vaults : Nat → Vault Key}
    (hfile : f.decrypt key file.ciphertext = some d₀) : Inv f key d₀ (.start file vaults) where
  content := hfile
  lock _ h := by cases h
  holding _ h := by cases h
  truthful := trivial

/-- A step of the only thread that may have the lock. -/
theorem of_alone (halone : ∀ j, j ≠ i → (s.threads j).pc.critical = false)
    (hthreads : ∀ j, j ≠ i → s'.threads j = s.threads j)
    (hcontent : f.decrypt key s'.file.ciphertext = some (replay d₀ s'.sections))
    (hlock : (s'.threads i).pc.critical = true → s'.lock = some i)
    (hholding : (s'.threads i).pc.critical = true → Holding key d₀ s' i (s'.threads i).pc)
    (htruthful : Truthful d₀ s'.sections) : Inv f key d₀ s' := by
  have hother : ∀ j, j ≠ i → (s'.threads j).pc.critical = true → False := fun j hj hc => by
    rw [hthreads j hj, halone j hj] at hc
    cases hc
  refine ⟨hcontent, fun j hc => ?_, fun j hc => ?_, htruthful⟩
  · by_cases hj : j = i
    · exact hj ▸ hlock (hj ▸ hc)
    · exact (hother j hj hc).elim
  · by_cases hj : j = i
    · exact hj ▸ hholding (hj ▸ hc)
    · exact (hother j hj hc).elim

/-- Who has the lock has it alone. -/
theorem alone (h : Inv f key d₀ s) (hi : (s.threads i).pc.critical = true) (j : Nat) (hj : j ≠ i) :
    (s.threads j).pc.critical = false := by
  cases hc : (s.threads j).pc.critical with
  | false => rfl
  | true => exact absurd (Option.some.inj ((h.lock j hc).symm.trans (h.lock i hi))) hj

/-- A step of a thread outside the lock, that leaves everything inside it as it is. -/
theorem outside (h : Inv f key d₀ s) (hi : (s'.threads i).pc.critical = false)
    (hthreads : ∀ j, j ≠ i → s'.threads j = s.threads j) (hfile : s'.file = s.file)
    (hlock : s'.lock = s.lock) (hvaults : s'.vaults = s.vaults) (hsections : s'.sections = s.sections) :
    Inv f key d₀ s' := by
  have hne : ∀ j, (s'.threads j).pc.critical = true → s'.threads j = s.threads j := fun j hc => by
    refine hthreads j fun hj => ?_
    rw [hj, hi] at hc
    cases hc
  refine ⟨by rw [hfile, hsections]; exact h.content, fun j hc => ?_, fun j hc => ?_,
    by rw [hsections]; exact h.truthful⟩
  · rw [hlock]
    exact h.lock j (hne j hc ▸ hc)
  · have hold := h.holding j (hne j hc ▸ hc)
    rw [hne j hc]
    unfold Holding at hold ⊢
    rw [hsections, hne j hc, hvaults]
    exact hold

/-- The section under way goes on: its thread keeps the lock. -/
theorem inside (h : Inv f key d₀ s) (hi : (s.threads i).pc.critical = true) {pc : Pc}
    (hthreads : s'.threads = (s.go i pc).threads) (hlock : s'.lock = s.lock)
    (hcontent : f.decrypt key s'.file.ciphertext = some (replay d₀ s'.sections))
    (hholding : Holding key d₀ s' i pc) (htruthful : Truthful d₀ s'.sections) : Inv f key d₀ s' := by
  refine of_alone (h.alone hi) (fun j hj => by rw [hthreads, State.go_threads_ne pc hj]) hcontent
    (fun _ => hlock.trans (h.lock i hi)) (fun _ => ?_) htruthful
  rw [hthreads, State.go_threads_self]
  exact hholding

/-- A call ends in `result`, and its vault is left with `d`. -/
theorem leave (h : Inv f key d₀ s) (hi : (s.threads i).pc.critical = true) {c : Section}
    {earlier : List Section} (hsec : s.sections = c :: earlier) (hthread : c.thread = i) {d : Data}
    {result : Except Unit (Option PyStr)}
    (hdata : result = .error () → c.renamed = false → d = replay d₀ earlier ∨ d = c.before)
    (hgot : ∀ toolId field v, c.request = .get toolId field → result = .ok v →
      v = (replay d₀ earlier).lookup toolId field)
    (hstored : ∀ toolId field value v, c.request = .set toolId field value → result = .ok v →
      c.renamed = true) :
    Inv f key d₀ ((((s.setData (s.threads i).vault d).note
      fun c => { c with result := some result }).go i .leaving)) := by
  have hnew : ((s.setData (s.threads i).vault d).note
      fun c => { c with result := some result }).sections = { c with result := some result } :: earlier :=
    State.note_cons (s := s.setData (s.threads i).vault d) hsec _
  refine h.inside hi rfl rfl ?_ ⟨_, earlier, hnew, hthread, fun hr hn => ?_⟩ ?_
  · change f.decrypt key s.file.ciphertext = some (replay d₀ ((s.setData (s.threads i).vault d).note
      fun c => { c with result := some result }).sections)
    rw [hnew, h.content, hsec]
    rfl
  · have hd := hdata (Option.some.inj hr) hn
    simpa using hd
  · change Truthful d₀ ((s.setData (s.threads i).vault d).note
      fun c => { c with result := some result }).sections
    have htruth := h.truthful
    rw [hsec] at htruth
    rw [hnew]
    exact ⟨⟨fun t fld v hreq hr => hgot t fld v hreq (Option.some.inj hr),
      fun t fld value v hreq hr => hstored t fld value v hreq (Option.some.inj hr)⟩, htruth.2⟩

/-- The same where the vault's data stay as they are. -/
theorem leave_same (h : Inv f key d₀ s) (hi : (s.threads i).pc.critical = true) {c : Section}
    {earlier : List Section} (hsec : s.sections = c :: earlier) (hthread : c.thread = i)
    {result : Except Unit (Option PyStr)}
    (hdata : result = .error () → c.renamed = false →
      (s.vaults (s.threads i).vault).data = replay d₀ earlier ∨
        (s.vaults (s.threads i).vault).data = c.before)
    (hgot : ∀ toolId field v, c.request = .get toolId field → result = .ok v →
      v = (replay d₀ earlier).lookup toolId field)
    (hstored : ∀ toolId field value v, c.request = .set toolId field value → result = .ok v →
      c.renamed = true) :
    Inv f key d₀ ((s.note fun c => { c with result := some result }).go i .leaving) := by
  have hsame : s.setData (s.threads i).vault (s.vaults (s.threads i).vault).data = s := by
    unfold State.setData
    rw [Function.update_eq_self]
  have hleave := h.leave hi hsec hthread hdata hgot hstored
  rwa [hsame] at hleave

/-- Every step of every thread keeps the invariant. -/
theorem step (h : Inv f key d₀ s) (hs : s.step f i a = some s') : Inv f key d₀ s' := by
  unfold State.step at hs
  simp only at hs
  split at hs
  · -- a call begins
    obtain rfl := Option.some.inj hs
    exact h.outside (i := i) (by simp [Pc.critical]) (fun j hj => Function.update_of_ne hj ..) rfl rfl
      rfl rfl
  · -- the mutex is taken
    split_ifs at hs
    obtain rfl := Option.some.inj hs
    exact h.outside (i := i) (by simp [Pc.critical]) (fun j hj => State.go_threads_ne _ hj) rfl rfl rfl
      rfl
  · -- the lock file cannot be used
    obtain rfl := Option.some.inj hs
    exact h.outside (i := i) (by simp [Pc.critical]) (fun j hj => State.go_threads_ne _ hj) rfl rfl rfl
      rfl
  · -- the lock is taken
    rename_i r hpc
    split_ifs at hs with hfree
    obtain rfl := Option.some.inj hs
    have hnobody : ∀ j, (s.threads j).pc.critical = false := fun j => by
      cases hc : (s.threads j).pc.critical with
      | false => rfl
      | true => cases hfree.symm.trans (h.lock j hc)
    refine of_alone (i := i) (fun j _ => hnobody j) (fun j hj => State.go_threads_ne _ hj) ?_
      (fun _ => rfl) (fun _ => ?_) ⟨⟨fun _ _ _ _ hr => ?_, fun _ _ _ _ _ hr => ?_⟩, h.truthful⟩
    · change f.decrypt key s.file.ciphertext = some (replay d₀ (_ :: s.sections))
      rw [replay]
      cases r <;> exact h.content
    · rw [State.go_threads_self]
      exact ⟨s.sections, by simp [State.go]⟩
    · cases hr
    · cases hr
  · -- the file is read
    rename_i r hpc
    have hcrit : (s.threads i).pc.critical = true := by rw [hpc]; rfl
    have hold := h.holding i hcrit
    rw [hpc] at hold
    obtain ⟨earlier, hsec⟩ := hold
    have hreplay : replay d₀ s.sections = replay d₀ earlier := by
      rw [hsec]
      cases r <;> rfl
    split at hs
    · rename_i d hreload
      obtain rfl := Option.some.inj hs
      unfold State.reloaded at hreload
      split_ifs at hreload
      have hkey := f.authentic _ _ _ _ _ hreload h.content
      refine h.inside hcrit rfl rfl h.content ⟨_, earlier, hsec, ?_, ?_⟩ h.truthful
      · simpa using hkey
      · have hd : d = replay d₀ earlier := by
          rw [hkey, h.content, hreplay] at hreload
          exact (Option.some.inj hreload).symm
        simpa using hd
    · obtain rfl := Option.some.inj hs
      exact h.leave_same hcrit hsec rfl (fun _ _ => .inr rfl) (fun _ _ _ _ hr => by cases hr)
        fun _ _ _ _ _ hr => by cases hr
  · -- reading the file raises
    rename_i r hpc
    obtain rfl := Option.some.inj hs
    have hcrit : (s.threads i).pc.critical = true := by rw [hpc]; rfl
    have hold := h.holding i hcrit
    rw [hpc] at hold
    obtain ⟨earlier, hsec⟩ := hold
    exact h.leave_same hcrit hsec rfl (fun _ _ => .inr rfl) (fun _ _ _ _ hr => by cases hr)
      fun _ _ _ _ _ hr => by cases hr
  · -- `get` takes its answer
    rename_i toolId field hpc
    obtain rfl := Option.some.inj hs
    have hcrit : (s.threads i).pc.critical = true := by rw [hpc]; rfl
    have hold := h.holding i hcrit
    rw [hpc] at hold
    obtain ⟨before, earlier, hsec, -, hdata⟩ := hold
    refine h.leave_same hcrit hsec rfl (fun _ _ => .inl hdata) (fun t fld v hreq hr => ?_)
      fun _ _ _ _ hreq _ => by cases hreq
    obtain ⟨rfl, rfl⟩ := Request.get.inj hreq
    rw [← Except.ok.inj hr, hdata]
  · -- `set` puts the candidate in place
    rename_i toolId field value hpc
    obtain rfl := Option.some.inj hs
    have hcrit : (s.threads i).pc.critical = true := by rw [hpc]; rfl
    have hold := h.holding i hcrit
    rw [hpc] at hold
    obtain ⟨before, earlier, hsec, hkey, hdata⟩ := hold
    refine h.inside hcrit rfl rfl h.content ⟨toolId, field, value, before, earlier, hsec, ?_, hdata, ?_⟩
      h.truthful
    · simpa using hkey
    · simp
  · -- writing raises, and the copy is put back
    rename_i previous hpc
    obtain rfl := Option.some.inj hs
    have hcrit : (s.threads i).pc.critical = true := by rw [hpc]; rfl
    have hold := h.holding i hcrit
    rw [hpc] at hold
    obtain ⟨toolId, field, value, before, earlier, hsec, -, hprev, -⟩ := hold
    exact h.leave hcrit hsec rfl (fun _ _ => .inl hprev) (fun _ _ _ _ hr => by cases hr)
      fun _ _ _ _ _ hr => by cases hr
  · -- the rename takes effect
    rename_i previous iv hpc
    obtain rfl := Option.some.inj hs
    have hcrit : (s.threads i).pc.critical = true := by rw [hpc]; rfl
    have hold := h.holding i hcrit
    rw [hpc] at hold
    obtain ⟨toolId, field, value, before, earlier, hsec, hkey, hprev, hdata⟩ := hold
    have htruth := h.truthful
    rw [hsec] at htruth
    refine h.inside hcrit rfl rfl ?_ ⟨toolId, field, value, before, earlier, ?_⟩ ?_
    · change f.decrypt key (f.encrypt _ iv _) = some (replay d₀ (State.note _ _).sections)
      rw [State.note_cons (by exact hsec), hkey, hdata, hprev, f.decrypt_encrypt]
      rfl
    · exact State.note_cons (by exact hsec) _
    · change Truthful d₀ (State.note _ _).sections
      rw [State.note_cons (by exact hsec)]
      exact ⟨⟨fun _ _ _ hreq => (by cases hreq), fun _ _ _ _ _ hr => (by cases hr)⟩, htruth.2⟩
  · -- syncing the directory raises
    rename_i previous hpc
    obtain rfl := Option.some.inj hs
    have hcrit : (s.threads i).pc.critical = true := by rw [hpc]; rfl
    have hold := h.holding i hcrit
    rw [hpc] at hold
    obtain ⟨toolId, field, value, before, earlier, hsec⟩ := hold
    exact h.leave hcrit hsec rfl (fun _ hn => by cases hn) (fun _ _ _ _ hr => by cases hr)
      fun _ _ _ _ _ hr => by cases hr
  · -- `set` returns
    rename_i previous hpc
    obtain rfl := Option.some.inj hs
    have hcrit : (s.threads i).pc.critical = true := by rw [hpc]; rfl
    have hold := h.holding i hcrit
    rw [hpc] at hold
    obtain ⟨toolId, field, value, before, earlier, hsec⟩ := hold
    exact h.leave_same hcrit hsec rfl (fun hr => by cases hr) (fun _ _ _ hreq => by cases hreq)
      fun _ _ _ _ _ _ => rfl
  · -- the lock is released
    rename_i hpc
    obtain rfl := Option.some.inj hs
    have hcrit : (s.threads i).pc.critical = true := by rw [hpc]; rfl
    exact of_alone (h.alone hcrit) (fun j hj => State.go_threads_ne _ hj) h.content
      (fun hc => by simp [Pc.critical] at hc) (fun hc => by simp [Pc.critical] at hc) h.truthful
  · -- the mutex is released
    obtain rfl := Option.some.inj hs
    exact h.outside (i := i) (by simp [Pc.critical]) (fun j hj => State.go_threads_ne _ hj) rfl rfl rfl
      rfl
  · cases hs

theorem run {acts : List (Nat × Act)} (h : Inv f key d₀ s) (hrun : s.run f acts = some s') :
    Inv f key d₀ s' := by
  induction acts generalizing s with
  | nil =>
    obtain rfl : s = s' := by simpa [State.run] using hrun
    exact h
  | cons a acts ih =>
    obtain ⟨s₁, hstep, hrest⟩ : ∃ s₁, s.step f a.1 a.2 = some s₁ ∧ s₁.run f acts = some s' := by
      simpa [State.run, List.foldlM_cons, Option.bind_eq_some_iff] using hrun
    exact ih (h.step hstep) hrest

end Inv

/-- The content of the vault is always that of the sets whose rename took effect, in the order
they held the lock, and each of them is seen where it was made and nowhere else. Those are all
the sets that returned, and those that raised after the rename. Every get returns what this
content was, and a set that raised before its rename left the content as it was, and the copy in
memory as it found it, in the file or before. -/
theorem vault_updates (f : Fernet Key Token) (key : Key) (d₀ : Data) (file : Envelope Token)
    (vaults : Nat → Vault Key) (acts : List (Nat × Act)) (s : State Key Token)
    (hfile : f.decrypt key file.ciphertext = some d₀)
    (hrun : (State.start file vaults).run f acts = some s) :
    f.decrypt key s.file.ciphertext = some (replay d₀ s.sections) ∧
    (∀ later c earlier, s.sections = later ++ c :: earlier →
      (∀ t fld value, c.request = .set t fld value → c.renamed = true →
        ∀ t' fld', (replay d₀ (c :: earlier)).lookup t' fld' =
          if t' = t ∧ fld' = fld then some value else (replay d₀ earlier).lookup t' fld') ∧
      (c.renamed = false → replay d₀ (c :: earlier) = replay d₀ earlier) ∧
      (∀ t fld value v, c.request = .set t fld value → c.result = some (.ok v) →
        c.renamed = true) ∧
      ∀ t fld v, c.request = .get t fld → c.result = some (.ok v) →
        v = (replay d₀ earlier).lookup t fld) ∧
    ∀ i, (s.threads i).pc = .leaving → ∃ c earlier, s.sections = c :: earlier ∧ c.thread = i ∧
      (c.result = some (.error ()) → c.renamed = false →
        f.decrypt key s.file.ciphertext = some (replay d₀ earlier) ∧
          ((s.vaults (s.threads i).vault).data = replay d₀ earlier ∨
            (s.vaults (s.threads i).vault).data = c.before)) := by
  have hinv : Inv f key d₀ s := (Inv.start hfile).run hrun
  have hkeep : ∀ (c : Section) earlier, c.renamed = false →
      replay d₀ (c :: earlier) = replay d₀ earlier := by
    intro c earlier hn
    rw [replay, hn]
    cases c.request <;> rfl
  refine ⟨hinv.content, fun later c earlier hsec => ?_, fun i hpc => ?_⟩
  · have htruth := hinv.truthful
    rw [hsec] at htruth
    refine ⟨fun t fld value hreq hr t' fld' => ?_, hkeep c earlier, htruth.split.stored,
      htruth.split.got⟩
    rw [replay, hreq, hr]
    exact Data.lookup_assign ..
  · have hold := hinv.holding i (by rw [hpc]; rfl)
    rw [hpc] at hold
    obtain ⟨c, earlier, hsec, hthread, hdata⟩ := hold
    refine ⟨c, earlier, hsec, hthread, fun hr hn => ⟨?_, hdata hr hn⟩⟩
    rw [hinv.content, hsec, hkeep c earlier hn]

/-! ## A set that raises after its rename -/

/-- The sets that returned, applied in the order they held the lock. -/
def replayReturned (d : Data) : List Section → Data
  | [] => d
  | c :: cs =>
    match c.request, c.result with
    | .set toolId field value, some (.ok _) => (replayReturned d cs).assign toolId field value
    | _, _ => replayReturned d cs

namespace Sample

def fernet : Fernet Unit Data where
  encrypt _ _ d := d
  decrypt _ d := some d
  decrypt_encrypt _ _ _ := rfl
  authentic _ _ _ _ _ _ _ := rfl

def vault : Vault Unit := ⟨⟨1, [], (0, 0, 0)⟩, (), []⟩

def start : State Unit Data := .start ⟨vault.header, []⟩ fun _ => vault

/-- A set by thread 0, which ends with `last`. -/
def setting (toolId : String) (last : Act) : List (Nat × Act) :=
  [.call 0 (.set (py toolId) (py "f") (py "v")), .enter, .lock, .reload, .proceed, .rename 0, last,
    .unlock, .exit].map (0, ·)

end Sample

theorem vault_updates_set : ∃ s, Sample.start.run Sample.fernet (Sample.setting "a" .synced) = some s ∧
    s.file.ciphertext = replay [] s.sections ∧ s.sections.length = 1 := by
  have hlen : (Sample.start.run Sample.fernet (Sample.setting "a" .synced)).map
      (fun s => s.sections.length) = some 1 := by decide +kernel
  obtain ⟨s, hs, hone⟩ := Option.map_eq_some_iff.1 hlen
  have hcontent := (vault_updates Sample.fernet () [] ⟨Sample.vault.header, []⟩ (fun _ => Sample.vault)
    (Sample.setting "a" .synced) s rfl hs).1
  exact ⟨s, hs, Option.some.inj hcontent, hone⟩

/-- The first set raises while the directory is synced, the second returns: the file holds both. -/
theorem unsynced_set_stays : ∃ s, Sample.start.run Sample.fernet
      (Sample.setting "a" .syncRaises ++ Sample.setting "b" .synced) = some s ∧
    s.file.ciphertext = [(py "a", [(py "f", py "v")]), (py "b", [(py "f", py "v")])] ∧
    replayReturned [] s.sections = [(py "b", [(py "f", py "v")])] := by
  have hfile : (Sample.start.run Sample.fernet
      (Sample.setting "a" .syncRaises ++ Sample.setting "b" .synced)).map
      (fun s => s.file.ciphertext) =
      some [(py "a", [(py "f", py "v")]), (py "b", [(py "f", py "v")])] := by decide +kernel
  have hreturned : (Sample.start.run Sample.fernet
      (Sample.setting "a" .syncRaises ++ Sample.setting "b" .synced)).map
      (fun s => replayReturned [] s.sections) = some [(py "b", [(py "f", py "v")])] := by
    decide +kernel
  obtain ⟨s, hs, heq⟩ := Option.map_eq_some_iff.1 hfile
  rw [hs] at hreturned
  exact ⟨s, hs, heq, Option.some.inj hreturned⟩

end Toolstack.Sps.Localfile
