import Scryd.Storage.Reconcile

/-!
# What the mirror makes of the accounts

A reconciliation that gets through leaves one row for each configured account
and retires every other one, and its diff says which rows that changed.
-/

namespace Scryd.Loader

open Scryd.Storage

/-- An account of an accepted config. -/
abbrev LoadedConfig.Account (loaded : LoadedConfig) :=
  { account // account ∈ loaded.config.accounts }

variable {loaded : LoadedConfig}

/-- The entry of an account for the mirror. -/
def LoadedConfig.Account.snapshot (account : loaded.Account) : ConfigSnapshot :=
  .fromCfg account.1 (loaded.valid account.2).idMatches

/-- What `reconcile_from_config` makes of a config before it writes. -/
def LoadedConfig.snapshots (loaded : LoadedConfig) : List ConfigSnapshot :=
  loaded.config.accounts.attach.map fun account => LoadedConfig.Account.snapshot account

/-- Different accounts of an accepted config have different ids. -/
theorem LoadedConfig.Account.eq_of_id {first second : loaded.Account}
    (same : first.1.id = second.1.id) : first = second :=
  Subtype.ext (List.inj_on_of_nodup_map loaded.ids_nodup first.2 second.2 same)

theorem LoadedConfig.Account.snapshot_mem (account : loaded.Account) :
    account.snapshot ∈ loaded.snapshots :=
  List.mem_map_of_mem (List.mem_attach _ account)

/-- The entry of an account is the only one under its id. -/
theorem LoadedConfig.Account.lastEntry (account : loaded.Account) :
    Storage.lastEntry loaded.snapshots account.snapshot.id = some account.snapshot := by
  obtain ⟨last, isLast⟩ := lastEntry_isSome account.snapshot_mem
  obtain ⟨entry, sameId⟩ := lastEntry_mem isLast
  obtain ⟨other, _, rfl⟩ := List.mem_map.mp entry
  have same : other = account := Account.eq_of_id (congrArg AccountId.text sameId)
  rw [isLast, same]

theorem LoadedConfig.snapshots_ids_nodup (loaded : LoadedConfig) :
    (loaded.snapshots.map (·.id)).Nodup := by
  rw [LoadedConfig.snapshots, List.map_map]
  apply List.Nodup.map_on
  · intro first _ second _ same
    exact LoadedConfig.Account.eq_of_id (congrArg AccountId.text same)
  · exact List.nodup_attach.mpr (List.Nodup.of_map _ loaded.ids_nodup)

theorem LoadedConfig.mem_snapshots_iff (snap : ConfigSnapshot) :
    snap ∈ loaded.snapshots ↔ ∃ account : loaded.Account, account.snapshot = snap := by
  simp [LoadedConfig.snapshots]

end Scryd.Loader

namespace Scryd.Storage

open Scryd.Foundation Scryd.Loader

section Columns

/-- `serde_json` on lists of strings. -/
structure FoldersJson where
  encode : List String → String
  decode : String → Option (List String)
  lossless : ∀ folders, decode (encode folders) = some folders

/-- `structural_changed`, which compares the lists of folders encoded. -/
def structuralChangedJson (json : FoldersJson) (prev : AccountRow) (snap : ConfigSnapshot) :
    Bool :=
  decide (prev.host ≠ snap.host) || decide (prev.port ≠ snap.port) ||
    decide (prev.username ≠ snap.username) ||
    decide (json.encode prev.folders ≠ json.encode snap.folders) || !prev.active

/-- Different lists have different encodings. -/
theorem structuralChangedJson_eq (json : FoldersJson) (prev : AccountRow)
    (snap : ConfigSnapshot) :
    structuralChangedJson json prev snap = structuralChanged prev snap := by
  have sameFolders : json.encode prev.folders = json.encode snap.folders ↔
      prev.folders = snap.folders := by
    constructor
    · intro same
      have decoded := congrArg json.decode same
      rw [json.lossless, json.lossless] at decoded
      exact Option.some.inj decoded
    · exact congrArg json.encode
  simp only [structuralChangedJson, structuralChanged, ne_eq, sameFolders]

end Columns

section Diff

variable {now : Int}

theorem fetchAccount_eq_some_iff (store : Store) (id : AccountId) (row : AccountRow) :
    fetchAccount store id = some row ↔ row ∈ store.accounts.rows ∧ row.accountId = id := by
  constructor
  · intro found
    exact ⟨List.mem_of_find?_eq_some found, by simpa using List.find?_some found⟩
  · rintro ⟨stored, rfl⟩
    exact Table.find?_eq_some SameAccount.symmetric _ _ stored (decide_eq_true rfl)
      fun other same => of_decide_eq_true same

/-- Mirroring one account does not show in another one's row. -/
theorem fetchAccount_mirror (store : Store) {snap : ConfigSnapshot} {id : AccountId}
    (other : id ≠ snap.id) :
    fetchAccount (mirror now store snap) id = fetchAccount store id := by
  apply Option.ext
  intro row
  rw [fetchAccount_eq_some_iff, fetchAccount_eq_some_iff]
  constructor
  · rintro ⟨stored, rfl⟩
    exact ⟨(mem_mirror_iff store other).mp stored, rfl⟩
  · rintro ⟨stored, rfl⟩
    exact ⟨(mem_mirror_iff store other).mpr stored, rfl⟩

/-- The configured accounts without a row. -/
def addedIds (configured : List ConfigSnapshot) (store : Store) : List AccountId :=
  (configured.filter fun snap => (fetchAccount store snap.id).isNone).map (·.id)

/-- The configured accounts whose row is inactive or differs. -/
def updatedIds (configured : List ConfigSnapshot) (store : Store) : List AccountId :=
  (configured.filter fun snap =>
    (fetchAccount store snap.id).any fun prev => structuralChanged prev snap).map (·.id)

/-- What the first loop reports does not depend on the accounts mirrored before. -/
theorem mirrorAll_perform (failure : StorageError)
    (next : ReconcileDiff → Script Store StorageError ReconcileDiff)
    {configured : List ConfigSnapshot} (apart : (configured.map (·.id)).Nodup)
    (diff : ReconcileDiff) (store : Store) :
    (mirrorAll now configured diff next).perform failure none store =
      (next { diff with
        added := diff.added ++ addedIds configured store
        updated := diff.updated ++ updatedIds configured store }).perform failure none
        (mirrored now configured store) := by
  induction configured generalizing diff store with
  | nil => simp [mirrorAll, addedIds, updatedIds, mirrored]
  | cons snap rest inductionHypothesis =>
      rw [List.map_cons, List.nodup_cons] at apart
      have untouched : ∀ other ∈ rest,
          fetchAccount (mirror now store snap) other.id = fetchAccount store other.id := by
        intro other later
        apply fetchAccount_mirror
        intro same
        exact apart.1 (same ▸ List.mem_map_of_mem later)
      have sameAdded : addedIds rest (mirror now store snap) = addedIds rest store := by
        unfold addedIds
        rw [List.filter_congr fun other later => by rw [untouched other later]]
      have sameUpdated : updatedIds rest (mirror now store snap) = updatedIds rest store := by
        unfold updatedIds
        rw [List.filter_congr fun other later => by rw [untouched other later]]
      have later := fun reported =>
        inductionHypothesis apart.2 reported (mirror now store snap)
      simp only [sameAdded, sameUpdated] at later
      rcases mirror_cases now store snap with
        ⟨⟨prev, found⟩, _, updated⟩ | ⟨found, _, inserted, _⟩
      · rw [updated] at later
        simp only [mirrorAll, Script.perform, found, later, addedIds, updatedIds, mirrored,
          List.foldl_cons, updated, List.filter_cons, Option.isNone_some, Option.any_some]
        cases structuralChanged prev snap <;> simp
      · simp only [mirrorAll, Script.perform, found, inserted, later, addedIds, updatedIds,
          mirrored, List.foldl_cons, List.filter_cons, Option.isNone_none, Option.any_none]
        simp

theorem inactivateAll_perform (failure : StorageError) (ids : List AccountId)
    (diff : ReconcileDiff) (store : Store) :
    (inactivateAll now ids diff).perform failure none store =
      (.ok { diff with inactivated := diff.inactivated ++ ids }, inactivated now ids store) := by
  induction ids generalizing diff store with
  | nil => simp [inactivateAll, inactivated]
  | cons id rest inductionHypothesis =>
      simp only [inactivateAll, Script.perform, inductionHypothesis, List.append_assoc,
        List.singleton_append, inactivated, List.foldl_cons]

/-- The diff of a reconciliation, and the content it leaves behind. -/
theorem reconcileFromConfig_diff (failure : StorageError) {configured : List ConfigSnapshot}
    (apart : (configured.map (·.id)).Nodup) (store : Store) :
    (reconcileFromConfig now configured).perform failure none store =
      (.ok ⟨addedIds configured store, updatedIds configured store, staleIds configured store⟩,
        inactivated now (staleIds configured store) (mirrored now configured store)) := by
  rw [reconcileFromConfig, mirrorAll_perform failure _ apart, Script.perform_issue_none _ rfl,
    staleIds_mirrored fun snap entry => List.mem_map_of_mem entry, inactivateAll_perform]
  rfl

end Diff

section Rows

variable {now : Int} {configured : List ConfigSnapshot}

/-- An account that is no longer configured: its time changes with its flag. -/
def retired (now : Int) (row : AccountRow) : AccountRow :=
  { row with active := false, mirroredAt := if row.active then now else row.mirroredAt }

/-- The content a reconciliation leaves behind. -/
def reconciled (now : Int) (configured : List ConfigSnapshot) (store : Store) : Store :=
  inactivated now (staleIds configured store) (mirrored now configured store)

theorem mem_staleIds_iff (store : Store) (id : AccountId) :
    id ∈ staleIds configured store ↔ id ∉ configured.map (·.id) ∧
      ∃ row ∈ store.accounts.rows, row.accountId = id ∧ row.active = true := by
  simp only [staleIds, List.mem_map, List.mem_filter, Bool.and_eq_true, decide_eq_true_eq]
  constructor
  · rintro ⟨row, ⟨stored, active, unconfigured⟩, rfl⟩
    exact ⟨unconfigured, row, stored, rfl, active⟩
  · rintro ⟨unconfigured, row, stored, rfl, active⟩
    exact ⟨row, ⟨stored, active, unconfigured⟩, rfl⟩

/-- An entry is the row of its account after the first loop. -/
theorem mirrored_row_eq (apart : (configured.map (·.id)).Nodup) {snap : ConfigSnapshot}
    (entry : snap ∈ configured) {store : Store} {row : AccountRow}
    (stored : row ∈ (mirrored now configured store).accounts.rows)
    (same : row.accountId = snap.id) : row = snap.row now := by
  obtain ⟨last, isLast⟩ := lastEntry_isSome entry
  obtain ⟨lastEntry, sameId⟩ := lastEntry_mem isLast
  have lastSnap : last = snap := List.inj_on_of_nodup_map apart lastEntry entry sameId
  subst lastSnap
  exact Table.eq_of_conflict SameAccount.symmetric _ stored (lastEntry_row_mem isLast store) same

theorem snap_row_mem_mirrored (apart : (configured.map (·.id)).Nodup) {snap : ConfigSnapshot}
    (entry : snap ∈ configured) (store : Store) :
    snap.row now ∈ (mirrored now configured store).accounts.rows := by
  obtain ⟨last, isLast⟩ := lastEntry_isSome entry
  obtain ⟨lastEntry, sameId⟩ := lastEntry_mem isLast
  have lastSnap : last = snap := List.inj_on_of_nodup_map apart lastEntry entry sameId
  subst lastSnap
  exact lastEntry_row_mem isLast store

/-- The second loop retires the accounts that no entry names. -/
theorem retired_eq {store : Store} {prev : AccountRow} (stored : prev ∈ store.accounts.rows)
    (unnamed : prev.accountId ∉ configured.map (·.id)) :
    (if prev.accountId ∈ staleIds configured store then
      { prev with active := false, mirroredAt := now } else prev) = retired now prev := by
  by_cases active : prev.active = true
  · have stale := (mem_staleIds_iff store _).mpr ⟨unnamed, prev, stored, rfl, active⟩
    rw [if_pos stale, retired, if_pos active]
  · have fresh : prev.accountId ∉ staleIds configured store := by
      intro stale
      obtain ⟨_, other, otherStored, sameId, otherActive⟩ := (mem_staleIds_iff store _).mp stale
      rw [Table.eq_of_conflict SameAccount.symmetric _ otherStored stored sameId] at otherActive
      exact active otherActive
    rw [if_neg fresh, retired, if_neg active, ← Bool.eq_false_iff.mpr active]

/-- After a reconciliation there is a row for each entry and each other row is retired. -/
theorem mem_reconciled_iff (apart : (configured.map (·.id)).Nodup) (store : Store)
    (row : AccountRow) :
    row ∈ (reconciled now configured store).accounts.rows ↔
      (∃ snap ∈ configured, row = snap.row now) ∨
        ∃ prev ∈ store.accounts.rows, prev.accountId ∉ configured.map (·.id) ∧
          row = retired now prev := by
  have fresh : ∀ id ∈ configured.map (·.id), id ∉ staleIds configured store :=
    fun id named stale => ((mem_staleIds_iff store id).mp stale).1 named
  rw [reconciled, inactivated_rows, List.mem_map]
  constructor
  · rintro ⟨source, stored, rfl⟩
    by_cases named : source.accountId ∈ configured.map (·.id)
    · obtain ⟨snap, entry, sameId⟩ := List.mem_map.mp named
      rw [if_neg (fresh _ named)]
      exact .inl ⟨snap, entry, mirrored_row_eq apart entry stored sameId.symm⟩
    · have before := (mem_mirrored_iff named store).mp stored
      exact .inr ⟨source, before, named, retired_eq before named⟩
  · rintro (⟨snap, entry, rfl⟩ | ⟨prev, stored, unnamed, rfl⟩)
    · exact ⟨snap.row now, snap_row_mem_mirrored apart entry store,
        if_neg (fresh _ (List.mem_map_of_mem entry))⟩
    · exact ⟨prev, (mem_mirrored_iff unnamed store).mpr stored, retired_eq stored unnamed⟩

theorem inactivated_frame (ids : List AccountId) (store : Store) :
    inactivated now ids store =
      { store with accounts := (inactivated now ids store).accounts } := by
  induction ids using List.reverseRecOn with
  | nil => rfl
  | append_singleton ids id inductionHypothesis =>
      rw [inactivated, List.foldl_append, List.foldl_cons, List.foldl_nil]
      unfold inactivated at inductionHypothesis
      rw [inductionHypothesis]
      rfl

theorem reconciled_frame (store : Store) :
    reconciled now configured store =
      { store with accounts := (reconciled now configured store).accounts } := by
  rw [reconciled, inactivated_frame, mirrored_frame]

end Rows

section Result

variable {loaded : LoadedConfig}

/-- Whether an account of the config has an id. -/
def Configured (loaded : LoadedConfig) (id : AccountId) : Prop :=
  ∃ account : loaded.Account, account.1.id = id.text

theorem configured_iff (id : AccountId) :
    Configured loaded id ↔ id ∈ loaded.snapshots.map (·.id) := by
  simp only [List.mem_map, LoadedConfig.mem_snapshots_iff]
  constructor
  · rintro ⟨account, same⟩
    exact ⟨_, ⟨account, rfl⟩, AccountId.eq_of_text same⟩
  · rintro ⟨_, ⟨account, rfl⟩, same⟩
    exact ⟨account, congrArg AccountId.text same⟩

/-- A row that differs from the account configured under its id, or is inactive. -/
def Outdated (account : AccountCfg) (row : AccountRow) : Prop :=
  row.active = false ∨ row.host ≠ account.host ∨ row.port ≠ account.port ∨
    row.username ≠ account.user ∨ row.folders ≠ account.folders.getD ["INBOX"]

theorem structuralChanged_iff (account : loaded.Account) (row : AccountRow) :
    structuralChanged row account.snapshot = true ↔ Outdated account.1 row := by
  simp only [structuralChanged, Bool.or_eq_true, decide_eq_true_iff, Bool.not_eq_true']
  constructor
  · rintro ((((host | port) | username) | folders) | inactive)
    · exact .inr (.inl host)
    · exact .inr (.inr (.inl port))
    · exact .inr (.inr (.inr (.inl username)))
    · exact .inr (.inr (.inr (.inr folders)))
    · exact .inl inactive
  · rintro (inactive | host | port | username | folders)
    · exact .inr inactive
    · exact .inl (.inl (.inl (.inl host)))
    · exact .inl (.inl (.inl (.inr port)))
    · exact .inl (.inl (.inr username))
    · exact .inl (.inr folders)

/-- The accounts are the configured ones, as the config has them, and the retired others; the
rest of the database is as before; and the diff lists what changed. -/
structure MirrorsConfig (loaded : LoadedConfig) (now : Int) (before : Store)
    (diff : ReconcileDiff) (after : Store) : Prop where
  rows : ∀ row, row ∈ after.accounts.rows ↔
    (∃ account : loaded.Account, row = ⟨account.snapshot.id, account.1.host, account.1.port,
      account.1.user, account.1.folders.getD ["INBOX"], true, now⟩) ∨
    ∃ prev ∈ before.accounts.rows, ¬ Configured loaded prev.accountId ∧ row = retired now prev
  active : ∀ id, (∃ row ∈ after.accounts.rows, row.accountId = id ∧ row.active = true) ↔
    Configured loaded id
  frame : after = { before with accounts := after.accounts }
  added : ∀ id, id ∈ diff.added ↔
    Configured loaded id ∧ ∀ row ∈ before.accounts.rows, row.accountId ≠ id
  updated : ∀ id, id ∈ diff.updated ↔
    ∃ account : loaded.Account, account.1.id = id.text ∧
      ∃ row ∈ before.accounts.rows, row.accountId = id ∧ Outdated account.1 row
  inactivated : ∀ id, id ∈ diff.inactivated ↔
    ¬ Configured loaded id ∧
      ∃ row ∈ before.accounts.rows, row.accountId = id ∧ row.active = true
  disjoint : (diff.added ++ diff.updated ++ diff.inactivated).Nodup

theorem snap_of_configured {id : AccountId} (configured : Configured loaded id) :
    ∃ snap ∈ loaded.snapshots, snap.id = id := by
  obtain ⟨account, same⟩ := configured
  exact ⟨account.snapshot, account.snapshot_mem, AccountId.eq_of_text same⟩

/-- The first loop adds the configured accounts that had no row. -/
theorem mem_addedIds_iff (store : Store) (id : AccountId) :
    id ∈ addedIds loaded.snapshots store ↔
      Configured loaded id ∧ ∀ row ∈ store.accounts.rows, row.accountId ≠ id := by
  simp only [addedIds, List.mem_map, List.mem_filter, Option.isNone_iff_eq_none,
    fetchAccount_eq_none_iff]
  constructor
  · rintro ⟨snap, ⟨entry, absent⟩, rfl⟩
    exact ⟨(configured_iff _).mpr (List.mem_map_of_mem entry), absent⟩
  · rintro ⟨configured, absent⟩
    obtain ⟨snap, entry, rfl⟩ := snap_of_configured configured
    exact ⟨snap, ⟨entry, absent⟩, rfl⟩

/-- The first loop updates the configured accounts whose row was outdated. -/
theorem mem_updatedIds_iff (store : Store) (id : AccountId) :
    id ∈ updatedIds loaded.snapshots store ↔
      ∃ account : loaded.Account, account.1.id = id.text ∧
        ∃ row ∈ store.accounts.rows, row.accountId = id ∧ Outdated account.1 row := by
  simp only [updatedIds, List.mem_map, List.mem_filter, Option.any_eq_true]
  constructor
  · rintro ⟨snap, ⟨entry, row, found, changed⟩, rfl⟩
    obtain ⟨account, rfl⟩ := (LoadedConfig.mem_snapshots_iff snap).mp entry
    obtain ⟨stored, same⟩ := (fetchAccount_eq_some_iff store _ row).mp found
    exact ⟨account, rfl, row, stored, same, (structuralChanged_iff account row).mp changed⟩
  · rintro ⟨account, sameText, row, stored, same, outdated⟩
    have sameId : account.snapshot.id = id := AccountId.eq_of_text sameText
    refine ⟨account.snapshot, ⟨account.snapshot_mem, row, ?_, ?_⟩, sameId⟩
    · exact (fetchAccount_eq_some_iff store _ row).mpr ⟨stored, same.trans sameId.symm⟩
    · exact (structuralChanged_iff account row).mpr outdated

theorem staleIds_nodup (configured : List ConfigSnapshot) (store : Store) :
    (staleIds configured store).Nodup := by
  apply List.Nodup.map_on
  · intro first firstListed second secondListed same
    exact Table.eq_of_conflict SameAccount.symmetric _ (List.mem_filter.mp firstListed).1
      (List.mem_filter.mp secondListed).1 same
  · exact (Table.nodup SameAccount.reflexive store.accounts).filter _

/-- No account is in two of the lists of a diff, or in one of them twice. -/
theorem diff_nodup (store : Store) :
    (addedIds loaded.snapshots store ++ updatedIds loaded.snapshots store ++
      staleIds loaded.snapshots store).Nodup := by
  have apart := loaded.snapshots_ids_nodup
  have added : (addedIds loaded.snapshots store).Nodup :=
    (List.filter_sublist.map _).nodup apart
  have updated : (updatedIds loaded.snapshots store).Nodup :=
    (List.filter_sublist.map _).nodup apart
  rw [List.nodup_append', List.nodup_append']
  refine ⟨⟨added, updated, ?_⟩, staleIds_nodup _ _, ?_⟩
  · intro id isAdded isUpdated
    obtain ⟨_, _, row, stored, same, _⟩ := (mem_updatedIds_iff store id).mp isUpdated
    exact ((mem_addedIds_iff store id).mp isAdded).2 row stored same
  · intro id reported stale
    have unconfigured := ((mem_staleIds_iff store id).mp stale).1
    rcases List.mem_append.mp reported with isAdded | isUpdated
    · exact unconfigured ((configured_iff id).mp ((mem_addedIds_iff store id).mp isAdded).1)
    · obtain ⟨account, same, _⟩ := (mem_updatedIds_iff store id).mp isUpdated
      exact unconfigured ((configured_iff id).mp ⟨account, same⟩)

/-- A diff that reports nothing. -/
def ReconcileDiff.Unchanged (diff : ReconcileDiff) : Prop :=
  diff.added = [] ∧ diff.updated = [] ∧ diff.inactivated = []

theorem mirrorsConfig_reconciled (loaded : LoadedConfig) (now : Int) (store : Store) :
    MirrorsConfig loaded now store
      ⟨addedIds loaded.snapshots store, updatedIds loaded.snapshots store,
        staleIds loaded.snapshots store⟩ (reconciled now loaded.snapshots store) where
  rows row := by
    simp only [mem_reconciled_iff loaded.snapshots_ids_nodup store, ← configured_iff,
      LoadedConfig.mem_snapshots_iff]
    constructor
    · rintro (⟨_, ⟨account, rfl⟩, rfl⟩ | isRetired)
      · exact .inl ⟨account, rfl⟩
      · exact .inr isRetired
    · rintro (⟨account, rfl⟩ | isRetired)
      · exact .inl ⟨account.snapshot, ⟨account, rfl⟩, rfl⟩
      · exact .inr isRetired
  active id := by
    simp only [mem_reconciled_iff loaded.snapshots_ids_nodup store]
    constructor
    · rintro ⟨_, ⟨snap, entry, rfl⟩ | ⟨prev, _, _, rfl⟩, rfl, active⟩
      · exact (configured_iff _).mpr (List.mem_map_of_mem entry)
      · cases active
    · intro configured
      obtain ⟨snap, entry, rfl⟩ := snap_of_configured configured
      exact ⟨snap.row now, .inl ⟨snap, entry, rfl⟩, rfl, rfl⟩
  frame := reconciled_frame store
  added := mem_addedIds_iff store
  updated := mem_updatedIds_iff store
  inactivated id := by
    rw [mem_staleIds_iff, ← configured_iff]
  disjoint := diff_nodup store

/-- A mirrored config is not mirrored again. -/
theorem unchanged_of_mirrorsConfig {now : Int} {before after : Store} {diff : ReconcileDiff}
    (mirrors : MirrorsConfig loaded now before diff after) :
    ReconcileDiff.Unchanged ⟨addedIds loaded.snapshots after,
      updatedIds loaded.snapshots after, staleIds loaded.snapshots after⟩ := by
  refine ⟨?_, ?_, ?_⟩
  · apply List.eq_nil_iff_forall_not_mem.mpr
    intro id isAdded
    obtain ⟨configured, absent⟩ := (mem_addedIds_iff after id).mp isAdded
    obtain ⟨row, stored, same, _⟩ := (mirrors.active id).mpr configured
    exact absent row stored same
  · apply List.eq_nil_iff_forall_not_mem.mpr
    intro id isUpdated
    obtain ⟨account, sameText, row, stored, same, outdated⟩ :=
      (mem_updatedIds_iff after id).mp isUpdated
    rcases (mirrors.rows row).mp stored with ⟨other, rfl⟩ | ⟨prev, _, unconfigured, rfl⟩
    · have sameAccount : account = other :=
        LoadedConfig.Account.eq_of_id (sameText.trans (congrArg AccountId.text same).symm)
      subst sameAccount
      simp [Outdated] at outdated
    · exact unconfigured ⟨account, sameText.trans (congrArg AccountId.text same).symm⟩
  · apply List.eq_nil_iff_forall_not_mem.mpr
    intro id stale
    obtain ⟨unconfigured, isActive⟩ := (mem_staleIds_iff after id).mp stale
    exact unconfigured ((configured_iff id).mp ((mirrors.active id).mp isActive))

/-- A reconciliation that gets through mirrors the config, and the next one finds nothing to
change. -/
theorem reconcileFromConfig_mirrors (loaded : LoadedConfig) (now : Int)
    (failure : StorageError) (fault : Option Nat) {before after : Store} {diff : ReconcileDiff}
    (succeeded : (reconcileFromConfig now loaded.snapshots).perform failure fault before =
      (.ok diff, after)) :
    MirrorsConfig loaded now before diff after ∧
      ∀ laterNow laterFailure laterFault laterDiff last,
        (reconcileFromConfig laterNow loaded.snapshots).perform laterFailure laterFault after =
          (.ok laterDiff, last) → laterDiff.Unchanged := by
  have result := Script.perform_none_of_ok succeeded
  rw [reconcileFromConfig_diff failure loaded.snapshots_ids_nodup, Prod.mk.injEq,
    Except.ok.injEq] at result
  obtain ⟨rfl, rfl⟩ := result
  have mirrors := mirrorsConfig_reconciled loaded now before
  refine ⟨mirrors, ?_⟩
  intro laterNow laterFailure laterFault laterDiff last laterSucceeded
  have laterResult := Script.perform_none_of_ok laterSucceeded
  rw [reconcileFromConfig_diff laterFailure loaded.snapshots_ids_nodup, Prod.mk.injEq,
    Except.ok.injEq] at laterResult
  obtain ⟨rfl, _⟩ := laterResult
  exact unchanged_of_mirrorsConfig mirrors

end Result

section Sample

private def inbox (id host : String) : AccountCfg := ⟨id, host, 993, "me", none⟩

/-- A config that moved one account to another host and replaced another one. -/
def movedConfig : LoadedConfig where
  config := ⟨⟨["INBOX"]⟩, [inbox "office" "imap.example.net", inbox "fresh" "imap.example.org"]⟩
  accepted := by decide

private def mirroredRow (id : AccountId) : AccountRow :=
  ⟨id, "imap.example.org", 993, "me", ["INBOX"], true, 1⟩

private def office : AccountId := ⟨"office", by decide, by decide⟩

private def fresh : AccountId := ⟨"fresh", by decide, by decide⟩

private def gone : AccountId := ⟨"gone", by decide, by decide⟩

/-- The accounts as an earlier config had them. -/
def earlierAccounts : Table AccountRow SameAccount := ⟨[mirroredRow office, mirroredRow gone], by
  decide⟩

theorem reconcileFromConfig_mirrors_moved :
    ∃ after, MirrorsConfig movedConfig 2 (.fresh earlierAccounts)
        ⟨[fresh], [office], [gone]⟩ after ∧
      ∀ laterNow laterFailure laterFault laterDiff last,
        (reconcileFromConfig laterNow movedConfig.snapshots).perform laterFailure laterFault
          after = (.ok laterDiff, last) → laterDiff.Unchanged :=
  ⟨_, reconcileFromConfig_mirrors movedConfig 2 uniqueFailed none rfl⟩

end Sample

end Scryd.Storage
