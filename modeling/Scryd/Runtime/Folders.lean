import Scryd.Imap.Scheduler
import Scryd.Storage.Mirror

/-!
# The folder list of an account

`validate`, the scheduler and the mirror resolve the optional list of an
account each on its own.  Only `validate` falls back to `[sync].folders`.
-/

namespace Scryd.Runtime

open Scryd.Foundation Scryd.Storage Scryd.Imap Scryd.Loader

variable {loaded : LoadedConfig}

/-- After the mirror has run, the row of an account is its entry. -/
theorem fetchAccount_reconciled (account : loaded.Account) (now : Int) (failure : StorageError)
    (store : Store) :
    fetchAccount ((reconcileFromConfig now loaded.snapshots).perform failure none store).2
      account.snapshot.id = some (account.snapshot.row now) := by
  obtain ⟨diff, performed⟩ := reconcileFromConfig_perform now failure loaded.snapshots store
  have mirrored : account.snapshot.row now ∈
      (mirrored now loaded.snapshots store).accounts.rows :=
    lastEntry_row_mem account.lastEntry store
  have kept : (account.snapshot.row now).accountId ∉ staleIds loaded.snapshots store := by
    intro stale
    obtain ⟨row, isStale, sameId⟩ := List.mem_map.mp stale
    have unconfigured := (List.mem_filter.mp isStale).2
    rw [sameId, Bool.and_eq_true, decide_eq_true_eq] at unconfigured
    exact unconfigured.2 (List.mem_map_of_mem account.snapshot_mem)
  rw [performed]
  apply Table.find?_eq_some SameAccount.symmetric _ _ (mem_inactivated mirrored kept)
  · exact decide_eq_true rfl
  · intro other sameId
    exact of_decide_eq_true sameId

/-- The scheduler keeps the account's folders of the keys. -/
def Supervises (keys : List SupervisorKey) (id : String) (folders : List String) : Prop :=
  ∀ folder, (id, folder) ∈ keys ↔ folder ∈ folders

/-- The keys of one account are its folders: no other account has its id. -/
theorem supervises_desiredKeys (account : loaded.Account) :
    Supervises (desiredKeys loaded.config) account.1.id (supervisedFolders account.1) := by
  intro folder
  simp only [desiredKeys, List.mem_flatMap, List.mem_map, Prod.mk.injEq]
  constructor
  · rintro ⟨other, configured, chosen, listed, sameId, rfl⟩
    have same : (⟨other, configured⟩ : loaded.Account) = account :=
      LoadedConfig.Account.eq_of_id sameId
    rwa [← same]
  · intro listed
    exact ⟨account.1, account.2, folder, listed, rfl, rfl⟩

/-- The folders that are validated, supervised from the start and after any reload, and mirrored
for an account are one list. -/
structure OneFolderList (account : loaded.Account) (handles : List SupervisorKey) (now : Int)
    (failure : StorageError) (store : Store) : Prop where
  desired : Supervises (desiredKeys loaded.config) account.1.id
    ((foldersForAccount loaded.config.sync account.1).take maxConnectionsPerAccount)
  started : Supervises (spawnDiffAgainstConfig loaded.config []) account.1.id
    ((foldersForAccount loaded.config.sync account.1).take maxConnectionsPerAccount)
  reloaded : Supervises (Scheduler.reconcile loaded.config handles) account.1.id
    ((foldersForAccount loaded.config.sync account.1).take maxConnectionsPerAccount)
  mirrored : (fetchAccount ((reconcileFromConfig now loaded.snapshots).perform failure none store).2
    account.snapshot.id).map (·.folders) = some (foldersForAccount loaded.config.sync account.1)

/-- The two fallbacks give the same list exactly when none is needed or they are the same. -/
theorem fallbacks_agree_iff (sync : SyncCfg) (account : AccountCfg) :
    account.folders.getD ["INBOX"] = foldersForAccount sync account ↔
      account.folders.isSome ∨ sync.folders = ["INBOX"] := by
  unfold foldersForAccount
  cases account.folders with
  | some folders => exact iff_of_true rfl (.inl rfl)
  | none =>
      rw [Option.getD_none, Option.getD_none, eq_comm]
      exact ⟨.inr, fun either => either.resolve_left nofun⟩

/-- For every accepted config and account of it, whatever ran and whatever was stored before:
there is one folder list exactly when the account has its own or `[sync].folders` is the inbox
alone. -/
theorem one_folder_list_iff (account : loaded.Account) (handles : List SupervisorKey) (now : Int)
    (failure : StorageError) (store : Store) :
    OneFolderList account handles now failure store ↔
      account.1.folders.isSome ∨ loaded.config.sync.folders = ["INBOX"] := by
  rw [← fallbacks_agree_iff]
  constructor
  · intro one
    have mirrored := one.mirrored
    rw [fetchAccount_reconciled] at mirrored
    exact Option.some.inj mirrored
  · intro same
    have desired := supervises_desiredKeys account
    rw [supervisedFolders, same] at desired
    refine ⟨desired, fun folder => ?_, fun folder => ?_, ?_⟩
    · rw [mem_spawnDiffAgainstConfig]
      simpa using desired folder
    · rw [Scheduler.mem_reconcile]
      exact desired folder
    · rw [fetchAccount_reconciled]
      exact congrArg some same

section Sample

/-- An account without folders of its own under a default of the archive. -/
def archiveByDefault : LoadedConfig where
  config := ⟨⟨["Archive"]⟩, [⟨"work", "imap.example.org", 993, "me@example.org", none⟩]⟩
  accepted := by decide

def archiveAccount : archiveByDefault.Account :=
  ⟨⟨"work", "imap.example.org", 993, "me@example.org", none⟩, List.mem_cons_self⟩

/-- The archive is validated, the inbox is supervised and mirrored. -/
theorem default_archive_is_not_supervised :
    ¬ OneFolderList archiveAccount [] 0 uniqueFailed (.fresh Table.empty) := by
  intro one
  have archived := (one.desired "Archive").mpr (by decide)
  revert archived
  decide

end Sample

end Scryd.Runtime
