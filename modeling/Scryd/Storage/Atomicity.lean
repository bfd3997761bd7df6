import Scryd.Storage.DaemonRuns
import Scryd.Storage.Reconcile

/-!
# What a failed write leaves behind

`with_writer` opens no transaction, so a writer operation that fails midway
keeps what its earlier statements did.  For each operation this is compared
with the rule that a failed operation changes nothing.
-/

namespace Scryd.Storage

open Scryd.Foundation

section SyncState

theorem SyncStateUpdate.assignments_commute (update : SyncStateUpdate) :
    update.assignments.Pairwise fun first second => ∀ row,
      first (second row) = second (first row) := by
  rw [SyncStateUpdate.assignments, List.pairwise_filterMap]
  simp only [id, List.pairwise_cons, List.mem_cons, List.not_mem_nil, or_false,
    forall_eq_or_imp, forall_eq, Option.map_eq_some_iff, List.Pairwise.nil]
  and_intros <;> first
    | (rintro _ ⟨value, _, rfl⟩ _ ⟨other, _, rfl⟩ row; rfl)
    | simp

theorem SyncStateUpdate.of_mem_assignments {update : SyncStateUpdate}
    {change : SyncStateRow → SyncStateRow} (membership : change ∈ update.assignments)
    (row : SyncStateRow) : change (change row) = change row ∧
      (change row).accountId = row.accountId ∧ (change row).folder = row.folder := by
  obtain ⟨assignment, listed, set⟩ := List.mem_filterMap.mp membership
  rw [id] at set
  subst set
  simp only [List.mem_cons, List.not_mem_nil, or_false, eq_comm (a := some change),
    Option.map_eq_some_iff] at listed
  rcases listed with ⟨_, _, rfl⟩ | ⟨_, _, rfl⟩ | ⟨_, _, rfl⟩ | ⟨_, _, rfl⟩ | ⟨_, _, rfl⟩ |
    ⟨_, _, rfl⟩ | ⟨_, _, rfl⟩ <;> exact ⟨rfl, rfl, rfl⟩

variable {accountId : AccountId} {folder : String}

/-- The field assignments on their own never fail. -/
theorem execute_assignments (changes : List (SyncStateRow → SyncStateRow)) (store : Store) :
    execute (changes.map fun change current =>
        (.ok (Store.setSync current accountId folder change) : Except StorageError Store)) store =
      (.ok (), changes.foldl (fun current change => current.setSync accountId folder change)
        store) := by
  induction changes generalizing store with
  | nil => rfl
  | cons change rest inductionHypothesis =>
      simp only [List.map_cons, execute, List.foldl_cons]
      exact inductionHypothesis _

/-- An assignment that keeps the folder's row keeps the store. -/
theorem setSync_eq_self {store : Store} {row : SyncStateRow}
    (found : getSyncState store accountId folder = some row)
    {change : SyncStateRow → SyncStateRow} (keeps : change row = row) :
    store.setSync accountId folder change = store := by
  obtain ⟨stored, sameAccount, sameFolder⟩ := (getSyncState_eq_some_iff _ _ _ _).mp found
  have sameRows : store.syncState.rows.map (setWhere accountId folder change) =
      store.syncState.rows := by
    conv_rhs => rw [← List.map_id store.syncState.rows]
    apply List.map_congr_left
    intro other otherStored
    by_cases matched : other.accountId = accountId ∧ other.folder = folder
    · have isRow : other = row := store.syncState.eq_of_conflict SameFolder.symmetric
        otherStored stored ⟨matched.1.trans sameAccount.symm, matched.2.trans sameFolder.symm⟩
      rw [isRow, setWhere, if_pos ⟨sameAccount, sameFolder⟩, keeps]
      rfl
    · exact if_neg matched
  unfold Store.setSync
  have sameTable : store.syncState.update (setWhere accountId folder change) (by
      intro left right same
      simpa [SameFolder] using same) = store.syncState := Table.ext sameRows
  rw [sameTable]

/-- Some of an update's assignments keep the store exactly when each of them writes what
the row already holds. -/
theorem assigned_eq_self_iff {store : Store} {row : SyncStateRow}
    (found : getSyncState store accountId folder = some row) {update : SyncStateUpdate}
    {changes : List (SyncStateRow → SyncStateRow)} (some_of : changes.Sublist update.assignments) :
    changes.foldl (fun current change => current.setSync accountId folder change) store = store ↔
      ∀ change ∈ changes, change row = row := by
  constructor
  · intro same
    obtain ⟨next, executed, assigned, _⟩ := execute_setSync accountId folder changes store
    rw [execute_assignments, same] at executed
    cases executed
    rw [found, Option.map_some, Option.some.injEq] at assigned
    have plain : applyChanges changes row =
        changes.foldl (fun current change => change current) row := by
      have included : ∀ change ∈ changes, change ∈ update.assignments :=
        fun _ membership => some_of.subset membership
      clear assigned same found some_of
      induction changes generalizing row with
      | nil => rfl
      | cons change rest inductionHypothesis =>
          have keys := (SyncStateUpdate.of_mem_assignments
            (included change List.mem_cons_self) row).2
          rw [applyChanges_cons, List.foldl_cons, ← keys.1, ← keys.2]
          exact inductionHypothesis fun later membership =>
            included later (List.mem_cons_of_mem change membership)
    apply fixed_of_foldl_fixed
      (fun change membership state =>
        (SyncStateUpdate.of_mem_assignments (some_of.subset membership) state).1)
      (update.assignments_commute.sublist some_of)
    rw [← plain]
    exact assigned.symm
  · intro keep
    clear some_of
    induction changes with
    | nil => rfl
    | cons change rest inductionHypothesis =>
        rw [List.foldl_cons, setSync_eq_self found (keep change List.mem_cons_self)]
        exact inductionHypothesis fun later membership =>
          keep later (List.mem_cons_of_mem change membership)

/-- When a failing `update_sync_state` is harmless: it fails before it writes anything, or
the fields it has written by then hold these values already. -/
def SyncFaultHarmless (accountId : AccountId) (folder : String) (update : SyncStateUpdate)
    (store : Store) : Option Nat → Prop
  | none => True
  | some 0 => True
  | some (fields + 1) =>
      match getSyncState store accountId folder with
      | none => store.hasAccount accountId = false
      | some row => ∀ change ∈ update.assignments.take fields, change row = row

/-- A fault after the row was made to exist leaves the assignments issued by then. -/
theorem updateSyncState_cut {update : SyncStateUpdate} {store next : Store}
    (ensured : ensureSyncRow accountId folder store = .ok next) (fields : Nat) :
    updateSyncState (some (fields + 1)) accountId folder update store =
      (.error ioFailed, (update.assignments.take fields).foldl
        (fun current change => current.setSync accountId folder change) next) := by
  simp only [updateSyncState, SyncStateUpdate.script, List.take_succ_cons, List.cons_append,
    execute, ensured, ← List.map_take]
  rw [execute_append (execute_assignments _ _)]
  rfl

theorem updateSyncState_allOrNothing_iff (update : SyncStateUpdate) (store : Store)
    (fault : Option (Fin (update.script accountId folder).length)) :
    AllOrNothing store (updateSyncState (fault.map Fin.val) accountId folder update store) ↔
      SyncFaultHarmless accountId folder update store (fault.map Fin.val) := by
  cases fault with
  | none =>
      simp only [Option.map_none, SyncFaultHarmless, iff_true]
      rcases execute_ensure_setSync accountId folder update.assignments store with
        ⟨next, executed, _⟩ | failed
      · have done : updateSyncState none accountId folder update store = (.ok (), next) :=
          executed
        rw [done]
        exact allOrNothing_ok _ _ _
      · have refused : updateSyncState none accountId folder update store =
            (.error foreignKeyFailed, store) := by
          simp only [updateSyncState, SyncStateUpdate.script, execute, failed]
        rw [refused]
        exact (allOrNothing_error_iff _ _ _).mpr rfl
  | some index =>
      obtain ⟨position, issued⟩ := index
      cases position with
      | zero =>
          simp only [Option.map_some, SyncFaultHarmless, iff_true]
          exact (allOrNothing_error_iff _ _ _).mpr rfl
      | succ fields =>
          simp only [Option.map_some, SyncFaultHarmless]
          rcases ensureSyncRow_cases accountId folder store with
            ⟨⟨row, found⟩, ensured⟩ | ⟨missing, ⟨known, syncState, ensured, created⟩ |
              ⟨unknown, refused⟩⟩
          · rw [updateSyncState_cut ensured, allOrNothing_error_iff, found]
            exact assigned_eq_self_iff found (List.take_sublist _ _)
          · rw [updateSyncState_cut ensured, allOrNothing_error_iff, missing]
            simp only [known, Bool.true_eq_false, iff_false]
            intro same
            -- The row is there now, and no assignment takes it away.
            obtain ⟨last, executed, assigned, _⟩ := execute_setSync accountId folder
              (update.assignments.take fields) { store with syncState := syncState }
            rw [execute_assignments, same] at executed
            cases executed
            rw [missing, created] at assigned
            cases assigned
          · have result : updateSyncState (some (fields + 1)) accountId folder update store =
                (.error foreignKeyFailed, store) := by
              simp only [updateSyncState, SyncStateUpdate.script, List.take_succ_cons,
                List.cons_append, execute, refused]
            rw [result, allOrNothing_error_iff, missing]
            exact iff_of_true rfl unknown

end SyncState

section Reconcile

variable {now : Int} {configured : List ConfigSnapshot} {store : Store}

/-- An account the second loop has reached is another one than before. -/
theorem inactivated_ne_self {count : Nat} (some_done : 0 < count)
    (some_stale : 0 < (staleIds configured store).length) :
    inactivated now ((staleIds configured store).take count) (mirrored now configured store) ≠
      store := by
  intro same
  obtain ⟨id, rest, stale⟩ := List.exists_cons_of_length_pos some_stale
  have listed : id ∈ (staleIds configured store).take count := by
    obtain ⟨before, rfl⟩ := Nat.exists_eq_succ_of_ne_zero (Nat.pos_iff_ne_zero.mp some_done)
    rw [stale, List.take_succ_cons]
    exact List.mem_cons_self
  have inStale : id ∈ staleIds configured store := List.mem_of_mem_take listed
  obtain ⟨row, inFilter, sameId⟩ := List.mem_map.mp inStale
  obtain ⟨stored, passes⟩ := List.mem_filter.mp inFilter
  rw [Bool.and_eq_true, decide_eq_true_eq] at passes
  rw [← same] at stored
  have inactive := inactive_of_inactivated stored (by rw [sameId]; exact listed)
  rw [passes.1] at inactive
  cases inactive

/-- When a failing `reconcile_from_config` is harmless: no statement fails, or it fails
before the first account is inactivated and every account it has mirrored by then had
exactly this row, mirrored in the same second. -/
def ReconcileFaultHarmless (now : Int) (configured : List ConfigSnapshot) (store : Store) :
    Option Nat → Prop
  | none => True
  | some fault =>
      2 * configured.length + 1 + (staleIds configured store).length ≤ fault ∨
      (fault ≤ 2 * configured.length + 1 ∧
        Mirrored now (configured.take (fault / 2)) store)

theorem reconcileFromConfig_allOrNothing_iff (now : Int) (configured : List ConfigSnapshot)
    (store : Store) (fault : Option Nat) :
    AllOrNothing store ((reconcileFromConfig now configured).perform ioFailed fault store) ↔
      ReconcileFaultHarmless now configured store fault := by
  cases fault with
  | none =>
      obtain ⟨diff, performed⟩ := reconcileFromConfig_perform now ioFailed configured store
      rw [performed]
      simpa only [ReconcileFaultHarmless, iff_true] using allOrNothing_ok _ _ _
  | some fault =>
      have mirroredOnly : fault ≤ 2 * configured.length + 1 →
          fault < 2 * configured.length + 1 + (staleIds configured store).length →
          (mirrored now (configured.take (fault / 2)) store = store ↔
            ReconcileFaultHarmless now configured store (some fault)) := by
        intro early issued
        rw [mirrored_eq_self_iff, ReconcileFaultHarmless]
        constructor
        · exact fun settled => .inr ⟨early, settled⟩
        · rintro (late | settled)
          · omega
          · exact settled.2
      rcases reconcileFromConfig_cut now ioFailed configured store fault with
        ⟨early, cut⟩ | ⟨position, issued, rfl, cut⟩ | ⟨late, diff, done⟩
      · rw [cut, allOrNothing_error_iff]
        exact mirroredOnly (by omega) (by omega)
      · rw [cut, allOrNothing_error_iff]
        cases position with
        | zero =>
            have whole : (2 * configured.length + 1 + 0) / 2 = configured.length := by omega
            rw [← mirroredOnly (by omega) (by omega), whole, List.take_length, List.take_zero]
            exact Iff.rfl
        | succ position =>
            -- The second loop never restores anything.
            refine iff_of_false (inactivated_ne_self (Nat.succ_pos position) (by omega)) ?_
            rintro (late | settled) <;> omega
      · rw [done]
        exact iff_of_true (allOrNothing_ok _ _ _) (.inl late)

end Reconcile

section DaemonRuns

theorem beginRun_allOrNothing_iff (now : Int) (version : String) (pid : Int)
    (runs : DaemonRuns) (fault : Option Nat) :
    AllOrNothing runs ((beginRun now version pid).perform ioFailed fault runs) ↔
      fault ≠ some 2 := by
  rcases fault with _ | _ | _ | _ | fault
  · rw [beginRun_perform]
    simpa using allOrNothing_ok _ _ _
  · simpa [beginRun] using (allOrNothing_error_iff runs runs ioFailed).mpr rfl
  · simpa [beginRun, Script.perform] using (allOrNothing_error_iff runs runs ioFailed).mpr rfl
  · simp only [beginRun, Script.perform, allOrNothing_error_iff, ne_eq, not_true, iff_false]
    intro same
    have grown := congrArg DaemonRuns.sequence same
    exact absurd grown (Nat.succ_ne_self runs.sequence)
  · simpa [beginRun, Script.perform] using allOrNothing_ok _ _ _

end DaemonRuns

/-- When the writer operations are all-or-nothing, for every state, argument and failing
statement. -/
theorem writer_allOrNothing_iff (accountId : AccountId) (folder : String)
    (update : SyncStateUpdate) (syncFault : Option (Fin (update.script accountId folder).length))
    (now : Int) (configured : List ConfigSnapshot) (version : String) (pid : Int)
    (fault : Option Nat) (store : Store) (runs : DaemonRuns) :
    (AllOrNothing store (updateSyncState (syncFault.map Fin.val) accountId folder update store) ↔
      SyncFaultHarmless accountId folder update store (syncFault.map Fin.val)) ∧
    (AllOrNothing store ((reconcileFromConfig now configured).perform ioFailed fault store) ↔
      ReconcileFaultHarmless now configured store fault) ∧
    (AllOrNothing runs ((beginRun now version pid).perform ioFailed fault runs) ↔
      fault ≠ some 2) :=
  ⟨updateSyncState_allOrNothing_iff update store syncFault,
    reconcileFromConfig_allOrNothing_iff now configured store fault,
    beginRun_allOrNothing_iff now version pid runs fault⟩

section Sample

/-- One folder of one account, fetched up to UID 600 of epoch 1. -/
def syncedStore : Store :=
  (updateSyncState none sampleAccountId "INBOX"
    { uidvalidity := some 1, lastSeenUid := some 600 }
    (mirrored 0 [⟨sampleAccountId, "imap.example.org", 993, "user@example.org", ["INBOX"]⟩]
      (.fresh .empty))).2

/-- The reset for epoch 2, failing at its last statement, pairs the new epoch with the old
watermark. -/
theorem failed_reset_pairs_new_epoch_with_old_watermark :
    (updateSyncState (some 2) sampleAccountId "INBOX"
      { uidvalidity := some 2, lastSeenUid := some 0 } syncedStore).1 = .error ioFailed ∧
    watermark syncedStore sampleAccountId "INBOX" = (some 1, 600) ∧
    watermark (updateSyncState (some 2) sampleAccountId "INBOX"
      { uidvalidity := some 2, lastSeenUid := some 0 } syncedStore).2 sampleAccountId "INBOX" =
        (some 2, 600) ∧
    ¬ AllOrNothing syncedStore (updateSyncState (some 2) sampleAccountId "INBOX"
      { uidvalidity := some 2, lastSeenUid := some 0 } syncedStore) := by
  have before : watermark syncedStore sampleAccountId "INBOX" = (some 1, 600) := by decide
  have after : watermark (updateSyncState (some 2) sampleAccountId "INBOX"
      { uidvalidity := some 2, lastSeenUid := some 0 } syncedStore).2 sampleAccountId "INBOX" =
        (some 2, 600) := by decide
  refine ⟨rfl, before, after, ?_⟩
  intro allOrNothing
  rw [allOrNothing ioFailed rfl, before] at after
  cases after

end Sample

end Scryd.Storage
