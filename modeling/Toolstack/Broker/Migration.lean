import Toolstack.Broker.DbFile
import Toolstack.Broker.Inert

/-! Opening an earlier broker's database: nothing that is stored is lost or changed, and requests
that were never bound to an operation stay unclaimable. -/

namespace Toolstack.Broker

namespace DbFile

variable {f f' : DbFile} {uuid : Text} {fault : Option Fault}

/-! ## One opening -/

/-- `f'` is `f` in schema 3. Every row of `f` is there with every cell it had, and `NULL` in the
columns that were added; the installation has the identity it had, or `uuid`. -/
structure Migrated (uuid : Text) (f f' : DbFile) : Prop where
  version : f'.userVersion = 3
  callers : f'.callers = some (f.callers.getD .empty)
  tokens : f'.tokens = some (f.tokens.getD .empty)
  policies : f'.policies = some (f.policies.getD .empty)
  audit : f'.audit = some (f.audit.getD [])
  requests : ∃ t, f'.requests = some t ∧ (∀ c, c ∈ t.columns) ∧ f.requestTable.Grown t
  approvals : ∃ t, f'.approvals = some t ∧ (∀ c, c ∈ t.columns) ∧ f.approvalTable.Grown t
  metadata : ∃ t, f'.metadata = some t ∧
    t.rows = f.metadataTable.rows ++ if f.identity.isNone then [⟨installationUuid, uuid⟩] else []
  keyIndex : f'.keyIndex = true

theorem mem_all (c : LateColumn) : c ∈ LateColumn.all := by cases c <;> decide

theorem identify_eq (uuid : Text) (f : DbFile) : ∃ t, f.identify uuid = { f with metadata := some t } ∧
    t.rows = f.metadataTable.rows ++
      if f.identity.isNone then [⟨installationUuid, uuid⟩] else [] := by
  unfold identify
  have hnone : f.identity.isNone = true ↔
      ∀ row ∈ f.metadataTable.rows, Keyed.key row ≠ installationUuid := by
    rw [identity, Option.isNone_map, Option.isNone_iff_eq_none, Table.get?_eq_none_iff]
  split_ifs with hno hidentity hidentity
  · exact ⟨_, rfl, rfl⟩
  · exact absurd (hnone.2 hno) hidentity
  · exact absurd (hnone.1 hidentity) hno
  · exact ⟨_, rfl, (List.append_nil _).symm⟩

/-- The file before the index is created. -/
theorem addColumns_eq (f : DbFile) : f.createTables.addColumns.requests =
      some (f.requestTable.addAll LateColumn.all) ∧
    f.createTables.addColumns.approvals = some (f.approvalTable.addAll [.requestDigest]) := ⟨rfl, rfl⟩

theorem addColumns_keys (f : DbFile) : f.createTables.addColumns.keys = f.keys := by
  have hrequests : f.createTables.addColumns.requestTable = f.requestTable.addAll LateColumn.all := by
    rw [requestTable, f.addColumns_eq.1, Option.getD_some]
  rw [keys, hrequests, keys_addAll, keys]

theorem migrated_identify (hunique : f.createTables.addColumns.keys.Nodup) :
    Migrated uuid f { identify uuid { f.createTables.addColumns with
      keyIndex := true, unique := fun _ => hunique } with userVersion := 3 } := by
  obtain ⟨t, hfile, hrows⟩ := identify_eq uuid { f.createTables.addColumns with
    keyIndex := true, unique := fun _ => hunique }
  obtain ⟨hrequests, happrovals⟩ := f.addColumns_eq
  rw [hfile]
  exact {
    version := rfl
    callers := rfl
    tokens := rfl
    policies := rfl
    audit := rfl
    requests := ⟨_, hrequests, fun c => WideTable.mem_addAll (mem_all c) _, WideTable.grown_addAll _ _⟩
    approvals := ⟨_, happrovals, fun c => by
      cases c
      exact WideTable.mem_addAll (List.mem_singleton_self _) _, WideTable.grown_addAll _ _⟩
    metadata := ⟨t, rfl, hrows⟩
    keyIndex := rfl }

theorem initialise_cases (uuid : Text) (f : DbFile) :
    (3 < f.userVersion ∧ f.initialise uuid = .error .valueError) ∨
      (f.userVersion ≤ 3 ∧ ¬f.keys.Nodup ∧ f.initialise uuid = .error .integrityError) ∨
        f.userVersion ≤ 3 ∧ f.keys.Nodup ∧ ∃ f', f.initialise uuid = .ok f' ∧ Migrated uuid f f' := by
  unfold initialise
  split_ifs with hv
  · exact .inl ⟨hv, rfl⟩
  rw [← addColumns_keys f]
  by_cases hunique : f.createTables.addColumns.keys.Nodup
  · have hindex : f.createTables.addColumns.createIndex = .ok { f.createTables.addColumns with
      keyIndex := true, unique := fun _ => hunique } := dif_pos hunique
    rw [hindex]
    exact .inr (.inr ⟨by omega, hunique, _, rfl, migrated_identify hunique⟩)
  · have hindex : f.createTables.addColumns.createIndex = .error .integrityError := dif_neg hunique
    rw [hindex]
    exact .inr (.inl ⟨by omega, hunique, rfl⟩)

theorem openStore_refused {e : Exn} (h : f.initialise uuid = .error e) :
    ∃ e, f.openStore uuid fault = (.error e, f) := by
  unfold openStore
  rw [h]
  cases fault with
  | none => exact ⟨e, rfl⟩
  | some fault => cases fault <;> exact ⟨_, rfl⟩

/-! ## Any number of openings -/

/-- Nothing is left to do for an opening. -/
structure Complete (f : DbFile) : Prop where
  version : f.userVersion = 3
  callers : f.callers.isSome = true
  tokens : f.tokens.isSome = true
  policies : f.policies.isSome = true
  audit : f.audit.isSome = true
  requests : ∃ t, f.requests = some t ∧ ∀ c, c ∈ t.columns
  approvals : ∃ t, f.approvals = some t ∧ ∀ c, c ∈ t.columns
  metadata : f.metadata.isSome = true
  identity : f.identity.isSome = true
  keyIndex : f.keyIndex = true

theorem Migrated.identity (h : Migrated uuid f f') : f'.identity = some (f.identity.getD uuid) := by
  obtain ⟨t, ht, hrows⟩ := h.metadata
  have hget : t.get? installationUuid =
      (f.metadataTable.get? installationUuid).or (some ⟨installationUuid, uuid⟩) := by
    unfold Table.get?
    rw [hrows, List.find?_append]
    cases hfound : f.metadataTable.get? installationUuid with
    | some row =>
      have hfind : f.metadataTable.rows.find? (fun r => decide (Keyed.key r = installationUuid)) =
          some row := hfound
      rw [hfind, Option.some_or, Option.some_or]
    | none =>
      have hidentity : f.identity.isNone = true := by rw [DbFile.identity, hfound]; rfl
      have hfind : f.metadataTable.rows.find? (fun r => decide (Keyed.key r = installationUuid)) =
          none := hfound
      rw [hfind, if_pos hidentity]
      rfl
  rw [DbFile.identity, metadataTable, ht, Option.getD_some, hget, DbFile.identity]
  cases f.metadataTable.get? installationUuid <;> rfl

theorem Migrated.complete (h : Migrated uuid f f') : f'.Complete where
  version := h.version
  callers := by rw [h.callers]; rfl
  tokens := by rw [h.tokens]; rfl
  policies := by rw [h.policies]; rfl
  audit := by rw [h.audit]; rfl
  requests := h.requests.imp fun _ ht => ⟨ht.1, ht.2.1⟩
  approvals := h.approvals.imp fun _ ht => ⟨ht.1, ht.2.1⟩
  metadata := by
    obtain ⟨t, ht, -⟩ := h.metadata
    rw [ht]
    rfl
  identity := by rw [h.identity]; rfl
  keyIndex := h.keyIndex

theorem Complete.tables (h : f.Complete) : f.createTables.addColumns = f := by
  obtain ⟨requests, hrequests, hcolumns⟩ := h.requests
  obtain ⟨approvals, happrovals, hcolumns'⟩ := h.approvals
  have hall : requests.addAll LateColumn.all = requests :=
    WideTable.addAll_eq_self fun c _ => hcolumns c
  have hall' : approvals.addAll [.requestDigest] = approvals :=
    WideTable.addAll_eq_self fun c _ => hcolumns' c
  obtain ⟨callers, hcallers⟩ := Option.isSome_iff_exists.1 h.callers
  obtain ⟨tokens, htokens⟩ := Option.isSome_iff_exists.1 h.tokens
  obtain ⟨policies, hpolicies⟩ := Option.isSome_iff_exists.1 h.policies
  obtain ⟨audit, haudit⟩ := Option.isSome_iff_exists.1 h.audit
  obtain ⟨metadata, hmetadata⟩ := Option.isSome_iff_exists.1 h.metadata
  cases f
  subst hrequests happrovals hcallers htokens hpolicies haudit hmetadata
  simp only [createTables, addColumns, requestTable, approvalTable, metadataTable, Option.getD_some,
    hall, hall']

theorem Complete.initialise (h : f.Complete) : f.initialise uuid = .ok f := by
  have hindex : f.createIndex = .ok f := by
    have hunique : f.keys.Nodup := f.unique h.keyIndex
    have hkey := h.keyIndex
    cases f
    subst hkey
    exact dif_pos hunique
  have hidentify : f.identify uuid = f := by
    obtain ⟨metadata, hmetadata⟩ := Option.isSome_iff_exists.1 h.metadata
    obtain ⟨t, hfile, hrows⟩ := identify_eq uuid f
    rw [if_neg (by simp [Option.isNone_iff_eq_none, Option.isSome_iff_ne_none.1 h.identity]),
      List.append_nil] at hrows
    rw [hfile, Table.ext hrows, metadataTable, hmetadata]
    cases f
    subst hmetadata
    rfl
  have hversion := h.version
  unfold DbFile.initialise
  rw [if_neg (by omega), h.tables, hindex]
  simp only [bind, Except.bind, pure, Except.pure, hidentify]
  cases f
  subst hversion
  rfl

/-- One process opening the file: the identifier it draws, and what may go wrong. -/
structure Opening where
  uuid : Text
  fault : Option Fault := none

/-- The transaction is committed if its own statements do not fail. -/
def Opening.commits (o : Opening) : Bool :=
  match o.fault with
  | some (.before _) => false
  | _ => true

/-- Openings by any number of processes; each is one transaction, so they come one by one. -/
def openAll (f : DbFile) (opens : List Opening) : DbFile :=
  opens.foldl (fun f o => (f.openStore o.uuid o.fault).2) f

theorem openStore_ok {o : Opening} (h : f.initialise o.uuid = .ok f') :
    (f.openStore o.uuid o.fault).2 = if o.commits then f' else f := by
  unfold openStore Opening.commits
  rw [h]
  rcases o.fault with _ | _ | _ <;> rfl

theorem Complete.openAll (h : f.Complete) (opens : List Opening) : f.openAll opens = f := by
  induction opens with
  | nil => rfl
  | cons o opens ih =>
    have hopen : (f.openStore o.uuid o.fault).2 = f := by rw [openStore_ok h.initialise, ite_self]
    rw [DbFile.openAll, List.foldl_cons, hopen]
    exact ih

theorem openAll_cases (hv : f.userVersion ≤ 3) (hkeys : f.keys.Nodup) (opens : List Opening) :
    ((∀ o ∈ opens, o.commits = false) ∧ f.openAll opens = f) ∨
      ∃ o ∈ opens, o.commits = true ∧ Migrated o.uuid f (f.openAll opens) := by
  induction opens with
  | nil => exact .inl ⟨by simp, rfl⟩
  | cons o opens ih =>
    rcases f.initialise_cases o.uuid with ⟨hnew, -⟩ | ⟨-, hdup, -⟩ | ⟨-, -, f', hinit, hmigrated⟩
    · omega
    · exact absurd hkeys hdup
    · have hopen := openStore_ok hinit
      rw [openAll, List.foldl_cons, hopen]
      cases hcommits : o.commits with
      | true =>
        refine .inr ⟨o, List.mem_cons_self .., hcommits, ?_⟩
        have hrest : f'.openAll opens = f' := hmigrated.complete.openAll opens
        rw [if_pos rfl]
        change Migrated o.uuid f (f'.openAll opens)
        rwa [hrest]
      | false =>
        rw [if_neg (by decide)]
        rcases ih with ⟨hnone, hsame⟩ | ⟨o', hmem, hcommits', hlater⟩
        · exact .inl ⟨List.forall_mem_cons.2 ⟨hcommits, hnone⟩, hsame⟩
        · exact .inr ⟨o', List.mem_cons_of_mem o hmem, hcommits', hlater⟩

/-! ## Unbound requests -/

/-- The request was waiting or running in a database that lacks one of the binding columns. -/
def Legacy (f : DbFile) (r : Nat) : Prop :=
  (∃ c : LateColumn, c.binding = true ∧ c ∉ f.requestTable.columns) ∧
    ∃ row ∈ f.requestTable.rows, row.base.id = r ∧
      row.base.status ∈ [Status.pendingApproval, .received, .running]

theorem unbound_of_missing {columns : List LateColumn} {row : Wide RequestRow LateColumn.Value columns}
    {c : LateColumn} (hc : c.binding = true) (hread : row.read c = none) : (toRow row).Unbound := by
  cases c with
  | operationGeneration => exact .inl hread
  | policyBinding => exact .inr (.inl hread)
  | actionJson => exact .inr (.inr (.inl hread))
  | requestDigest => exact .inr (.inr (.inr hread))
  | idempotencyKey | payloadDigest | prunedAt => cases hc

theorem Migrated.get?_request (h : Migrated uuid f f')
    {row : Wide RequestRow LateColumn.Value f.requestTable.columns} (hrow : row ∈ f.requestTable.rows) :
    f'.db.requests.get? row.base.id =
      some (toRow (row.widen : Wide RequestRow LateColumn.Value f'.requestTable.columns)) := by
  obtain ⟨t, ht, -, hgrown⟩ := h.requests
  obtain rfl : f'.requestTable = t := by rw [requestTable, ht, Option.getD_some]
  have hmem : (row.widen : Wide RequestRow LateColumn.Value f'.requestTable.columns) ∈
      f'.requestTable.table.rows := by
    change _ ∈ f'.requestTable.rows
    rw [hgrown.rows]
    exact List.mem_map_of_mem hrow
  have hlook : f'.requestTable.table.get? row.base.id = some row.widen := Table.get?_of_mem hmem
  have hget := Table.get?_map f'.requestTable.table toRow (fun _ => rfl) row.base.id
  rw [hlook] at hget
  exact hget

theorem Migrated.inert (h : Migrated uuid f f') : f'.db.Inert f.Legacy := by
  rintro r ⟨⟨c, hbinding, hmissing⟩, row, hrow, rfl, hstatus⟩
  refine ⟨_, h.get?_request hrow, .inr ⟨?_, ?_⟩⟩
  · refine unbound_of_missing hbinding ?_
    obtain ⟨t, ht, hcolumns, -⟩ := h.requests
    have htable : f'.requestTable = t := by rw [requestTable, ht, Option.getD_some]
    exact (Wide.read_widen (htable ▸ hcolumns c)).trans (Wide.read_of_not_mem hmissing)
  · intro he
    simp only [toRow, Wide.widen] at he
    simp [he] at hstatus

/-! ## The result -/

theorem openAll_refused (h : 3 < f.userVersion ∨ ¬f.keys.Nodup) (opens : List Opening) :
    f.openAll opens = f ∧ ∀ o ∈ opens, ∃ e, (f.openStore o.uuid o.fault).1 = .error e := by
  have hrefused : ∀ o : Opening, ∃ e, f.openStore o.uuid o.fault = (.error e, f) := by
    intro o
    rcases f.initialise_cases o.uuid with ⟨-, hinit⟩ | ⟨-, -, hinit⟩ | ⟨hv, hkeys, -⟩
    · exact openStore_refused hinit
    · exact openStore_refused hinit
    · rcases h with hnew | hdup
      · omega
      · exact absurd hkeys hdup
  refine ⟨?_, fun o _ => (hrefused o).imp fun e he => congrArg Prod.fst he⟩
  induction opens with
  | nil => rfl
  | cons o opens ih =>
    obtain ⟨e, he⟩ := hrefused o
    rw [openAll, List.foldl_cons, he]
    exact ih

/-- Opening a database of schema 3 or earlier, by however many processes and whatever interrupts
them, keeps every value, adds `NULL`s and one identity, and is done once; a request that waited or
ran in a database without its bindings is never executed after it. A newer database, and one
whose keys the unique index refuses, is refused as it is. -/
theorem schema_migration (H : Hash) (f : DbFile) (opens : List Opening) :
    (3 < f.userVersion ∨ ¬f.keys.Nodup →
      f.openAll opens = f ∧ ∀ o ∈ opens, ∃ e, (f.openStore o.uuid o.fault).1 = .error e) ∧
    (f.userVersion ≤ 3 → f.keys.Nodup →
      (∀ uuid, (f.openStore uuid none).1 = .ok ()) ∧
      ((∀ o ∈ opens, o.commits = false) ∧ f.openAll opens = f ∨
        ∃ o ∈ opens, o.commits = true ∧ Migrated o.uuid f (f.openAll opens) ∧
          (f.openAll opens).identity = some (f.identity.getD o.uuid) ∧
          (f.openAll opens).Complete ∧ (∀ g : DbFile, g.Complete → ∀ later, g.openAll later = g) ∧
          ∀ (w : World) (ok : Config → Move → Prop) (c : Config), w.db = (f.openAll opens).db →
            w.log = [] → w.backups = [] → (broker H).Steps ok ⟨w, []⟩ c →
              ∀ r, f.Legacy r → Unexecuted c r)) := by
  refine ⟨fun h => openAll_refused h opens, fun hv hkeys => ⟨fun uuid => ?_, ?_⟩⟩
  · rcases f.initialise_cases uuid with ⟨hnew, -⟩ | ⟨-, hdup, -⟩ | ⟨-, -, f', hinit, -⟩
    · omega
    · exact absurd hkeys hdup
    · simp only [openStore, hinit]
  · rcases openAll_cases hv hkeys opens with hnone | ⟨o, hmem, hcommits, hmigrated⟩
    · exact .inl hnone
    · refine .inr ⟨o, hmem, hcommits, hmigrated, hmigrated.identity, hmigrated.complete,
        fun _ hg => hg.openAll, fun w ok c hdb hlog hbackups hrun r hr => ?_⟩
      have hinert : w.db.Inert f.Legacy := hdb ▸ hmigrated.inert
      exact (hinert.world hlog hbackups).unexecuted hrun hr

/-- Written by an earlier broker: two of the binding columns, and an approval of its own that is
still waiting. -/
def legacyFile : DbFile where
  userVersion := 1
  metadata := none
  callers := some ⟨[⟨1, "ann", 0, none⟩], by decide⟩
  tokens := some ⟨[⟨[], 1, 0, none⟩], by decide⟩
  policies := none
  requests := some
    { columns := [.operationGeneration, .policyBinding]
      table := ⟨[{ base := ⟨1, [], 1, "echo", "run", .pendingApproval, some (.obj []), none, none, 0, 0⟩
                   cell := fun
                     | .operationGeneration, _ => some ['g']
                     | .policyBinding, _ => some []
                     | _, _ => none }], by decide⟩ }
  approvals := some
    { columns := []
      table := ⟨[{ base := ⟨1, 1, [], .pending, 600, none, none, none, 0⟩, cell := nofun }], by decide⟩ }
  audit := none
  keyIndex := false
  unique := nofun

/-- A poll finds that the surface approved it. -/
def legacyPoll : List Move :=
  .start (.resolve Sample.context 1 (some 0) none) ::
    Sample.calls 0 { polled := .ok { outcome := .approved } } 10

/-- Two processes open the old database, and its request is refused when the surface approves it. -/
theorem schema_migration_legacy : ∃ c, (broker Sample.hash).run
    ⟨{ db := (legacyFile.openAll [⟨['u'], none⟩, ⟨['v'], none⟩]).db }, []⟩ legacyPoll = some c ∧
      Unexecuted c 1 := by
  have hruns : ((broker Sample.hash).run ⟨{ db := (legacyFile.openAll
      [⟨['u'], none⟩, ⟨['v'], none⟩]).db }, []⟩ legacyPoll).isSome = true := by decide +kernel
  obtain ⟨c, hc⟩ := Option.isSome_iff_exists.1 hruns
  have hlegacy : legacyFile.Legacy 1 :=
    ⟨⟨.actionJson, rfl, by decide⟩, _, List.mem_singleton_self _, rfl, by decide⟩
  obtain ⟨-, hopened⟩ := (schema_migration Sample.hash legacyFile [⟨['u'], none⟩, ⟨['v'], none⟩]).2
    (by decide) (by decide)
  rcases hopened with ⟨hnone, -⟩ | ⟨o, -, -, -, -, -, -, hunexecuted⟩
  · exact absurd (hnone _ (List.mem_cons_self ..)) (by decide)
  · exact ⟨c, hc, hunexecuted _ _ _ rfl rfl rfl (Interleave.System.Steps.of_run hc) 1 hlegacy⟩

/-- Two requests of one caller under one key, which the unique index refuses. -/
def twiceKeyed : DbFile where
  userVersion := 3
  metadata := none
  callers := none
  tokens := none
  policies := none
  requests := some
    { columns := [.idempotencyKey]
      table := ⟨[{ base := ⟨1, [], 1, "echo", "run", .completed, none, none, none, 0, 0⟩
                   cell := fun | .idempotencyKey, _ => some (py "k") | _, _ => none },
                 { base := ⟨2, [], 1, "echo", "run", .completed, none, none, none, 0, 0⟩
                   cell := fun | .idempotencyKey, _ => some (py "k") | _, _ => none }], by decide⟩ }
  approvals := none
  audit := none
  keyIndex := false
  unique := nofun

/-- A database of schema 3 that is not opened, and gets no identity. -/
theorem twice_keyed_refused : twiceKeyed.userVersion ≤ 3 ∧
    (twiceKeyed.openStore ['u'] none).1 = .error .integrityError ∧
    (twiceKeyed.openStore ['u'] none).2.identity = none := by
  decide +kernel

end DbFile

end Toolstack.Broker
