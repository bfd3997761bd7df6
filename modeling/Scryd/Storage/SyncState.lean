import Scryd.Storage.Schema
import Scryd.Foundation.Run

/-!
# The `sync_state` relation

`update_sync_state` issues one statement to make the row exist and one more
for every field that is set, each committed on its own.
-/

namespace Scryd.Storage

open Scryd.Foundation

def AccountHealth.asStr : AccountHealth → String
  | .unknown => "unknown"
  | .active => "active"
  | .degraded => "degraded"
  | .authRejected => "auth-rejected"
  | .quotaExceeded => "quota-exceeded"
  | .unreachable => "unreachable"
  | .tlsFailed => "tls-failed"

def AccountHealth.fromStr : String → Except StorageError AccountHealth
  | "unknown" => .ok .unknown
  | "active" => .ok .active
  | "degraded" => .ok .degraded
  | "auth-rejected" => .ok .authRejected
  | "quota-exceeded" => .ok .quotaExceeded
  | "unreachable" => .ok .unreachable
  | "tls-failed" => .ok .tlsFailed
  | other => .error (.invalidHealth other)

theorem AccountHealth.fromStr_asStr (health : AccountHealth) :
    fromStr health.asStr = .ok health := by
  cases health <;> rfl

/-- Only the fields that are set are written. -/
structure SyncStateUpdate where
  uidvalidity : Option Nat := none
  lastSeenUid : Option Nat := none
  lastFullSyncAt : Option Int := none
  lastIdleAt : Option Int := none
  lastError : Option (Option String) := none
  accountHealth : Option AccountHealth := none
  backoffUntil : Option (Option Int) := none

/-- `StorageHandle::get_sync_state`. -/
def getSyncState (store : Store) (accountId : AccountId) (folder : String) :
    Option SyncStateRow :=
  store.syncState.rows.find? fun row => decide (row.accountId = accountId ∧ row.folder = folder)

/-- The row the schema's defaults give. -/
def SyncStateRow.initial (accountId : AccountId) (folder : String) : SyncStateRow where
  accountId := accountId
  folder := folder
  uidvalidity := none
  lastSeenUid := 0
  lastFullSyncAt := none
  lastIdleAt := none
  lastError := none
  accountHealth := .unknown
  backoffUntil := none

/-- `INSERT INTO sync_state (account_id, folder) ... ON CONFLICT DO NOTHING`. -/
def ensureSyncRow (accountId : AccountId) (folder : String) (store : Store) :
    Except StorageError Store :=
  match store.syncState.insert? (.initial accountId folder) with
  | none => .ok store
  | some syncState =>
      if store.hasAccount accountId then .ok { store with syncState := syncState }
      else .error foreignKeyFailed

/-- The effect of `UPDATE sync_state SET ... WHERE account_id = ?2 AND folder = ?3`
on one row.  No such statement assigns a key column. -/
def setWhere (accountId : AccountId) (folder : String) (change : SyncStateRow → SyncStateRow)
    (row : SyncStateRow) : SyncStateRow :=
  if row.accountId = accountId ∧ row.folder = folder then
    { change row with accountId := row.accountId, folder := row.folder }
  else
    row

@[simp] theorem setWhere_accountId (accountId : AccountId) (folder : String)
    (change : SyncStateRow → SyncStateRow) (row : SyncStateRow) :
    (setWhere accountId folder change row).accountId = row.accountId := by
  unfold setWhere
  split <;> rfl

@[simp] theorem setWhere_folder (accountId : AccountId) (folder : String)
    (change : SyncStateRow → SyncStateRow) (row : SyncStateRow) :
    (setWhere accountId folder change row).folder = row.folder := by
  unfold setWhere
  split <;> rfl

def Store.setSync (store : Store) (accountId : AccountId) (folder : String)
    (change : SyncStateRow → SyncStateRow) : Store :=
  { store with syncState := store.syncState.update (setWhere accountId folder change) (by
      intro left right same
      simpa [SameFolder] using same) }

/-- The assignments of an update, in the order the statements are issued. -/
def SyncStateUpdate.assignments (update : SyncStateUpdate) :
    List (SyncStateRow → SyncStateRow) :=
  [update.uidvalidity.map fun v row => { row with uidvalidity := some v },
    update.lastSeenUid.map fun v row => { row with lastSeenUid := v },
    update.lastFullSyncAt.map fun v row => { row with lastFullSyncAt := some v },
    update.lastIdleAt.map fun v row => { row with lastIdleAt := some v },
    update.lastError.map fun v row => { row with lastError := v },
    update.accountHealth.map fun v row => { row with accountHealth := v },
    update.backoffUntil.map fun v row => { row with backoffUntil := v }].filterMap id

/-- The statements of `update_sync_state`. -/
def SyncStateUpdate.script (update : SyncStateUpdate) (accountId : AccountId)
    (folder : String) : List (Store → Except StorageError Store) :=
  ensureSyncRow accountId folder ::
    update.assignments.map fun change current => .ok (current.setSync accountId folder change)

def ioFailed : StorageError := .sqlite "disk I/O error"

/-- `StorageHandle::update_sync_state`.  `cut` is the number of statements after which
the database fails, if it does; what is committed by then stays. -/
def updateSyncState (cut : Option Nat) (accountId : AccountId) (folder : String)
    (update : SyncStateUpdate) (store : Store) : Except StorageError Unit × Store :=
  match cut with
  | none => execute (update.script accountId folder) store
  | some committed =>
      execute ((update.script accountId folder).take committed ++ [fun _ => .error ioFailed]) store

/-- Assign in turn, without touching the key columns. -/
def applyChanges (changes : List (SyncStateRow → SyncStateRow)) (row : SyncStateRow) :
    SyncStateRow :=
  changes.foldl (fun current change =>
    { change current with accountId := current.accountId, folder := current.folder }) row

@[simp] theorem applyChanges_nil (row : SyncStateRow) : applyChanges [] row = row := rfl

@[simp] theorem applyChanges_cons (change : SyncStateRow → SyncStateRow)
    (rest : List (SyncStateRow → SyncStateRow)) (row : SyncStateRow) :
    applyChanges (change :: rest) row =
      applyChanges rest { change row with accountId := row.accountId, folder := row.folder } :=
  rfl

/-- The epoch and the watermark of a row, the pair the fetch path relies on. -/
def SyncStateRow.watermark (row : SyncStateRow) : Option Nat × Nat :=
  (row.uidvalidity, row.lastSeenUid)

/-- What an update makes of the pair. -/
def SyncStateUpdate.mergeWatermark (update : SyncStateUpdate) (pair : Option Nat × Nat) :
    Option Nat × Nat :=
  (update.uidvalidity.or pair.1, update.lastSeenUid.getD pair.2)

/-- The assignments after the first two. -/
def SyncStateUpdate.details (update : SyncStateUpdate) : List (SyncStateRow → SyncStateRow) :=
  { update with uidvalidity := none, lastSeenUid := none }.assignments

theorem SyncStateUpdate.assignments_eq (update : SyncStateUpdate) :
    update.assignments =
      (update.uidvalidity.map fun v row => { row with uidvalidity := some v }).toList ++
        (update.lastSeenUid.map fun v row => { row with lastSeenUid := v }).toList ++
          update.details := by
  rcases update with ⟨uidvalidity, lastSeenUid, _, _, _, _, _⟩
  cases uidvalidity <;> cases lastSeenUid <;> rfl

theorem SyncStateUpdate.watermark_of_mem_details {update : SyncStateUpdate}
    {change : SyncStateRow → SyncStateRow} (membership : change ∈ update.details)
    (row : SyncStateRow) : (change row).watermark = row.watermark := by
  obtain ⟨assignment, listed, set⟩ := List.mem_filterMap.mp membership
  rw [id] at set
  subst set
  simp only [List.mem_cons, List.not_mem_nil, or_false, Option.map_none, reduceCtorEq, false_or,
    eq_comm (a := some change), Option.map_eq_some_iff] at listed
  rcases listed with ⟨_, _, rfl⟩ | ⟨_, _, rfl⟩ | ⟨_, _, rfl⟩ | ⟨_, _, rfl⟩ | ⟨_, _, rfl⟩ <;> rfl

/-- What no assignment changes, and no key column decides, stays. -/
theorem applyChanges_keeps {Value : Type} {project : SyncStateRow → Value}
    (offKey : ∀ row accountId folder,
      project { row with accountId := accountId, folder := folder } = project row)
    {changes : List (SyncStateRow → SyncStateRow)}
    (keep : ∀ change ∈ changes, ∀ row, project (change row) = project row)
    (row : SyncStateRow) : project (applyChanges changes row) = project row := by
  induction changes generalizing row with
  | nil => rfl
  | cons change rest inductionHypothesis =>
      rw [applyChanges_cons, inductionHypothesis fun later membership =>
        keep later (List.mem_cons_of_mem change membership), offKey]
      exact keep change List.mem_cons_self row

theorem watermark_applyChanges {changes : List (SyncStateRow → SyncStateRow)}
    (keep : ∀ change ∈ changes, ∀ row, (change row).watermark = row.watermark)
    (row : SyncStateRow) : (applyChanges changes row).watermark = row.watermark :=
  applyChanges_keeps (fun _ _ _ => rfl) keep row

/-- The assignments of the pair, followed by others, assign the pair. -/
theorem SyncStateUpdate.watermark_pair (update : SyncStateUpdate)
    {changes : List (SyncStateRow → SyncStateRow)}
    (keep : ∀ change ∈ changes, ∀ row, (change row).watermark = row.watermark)
    (row : SyncStateRow) :
    (applyChanges
      ((update.uidvalidity.map fun v row => { row with uidvalidity := some v }).toList ++
        (update.lastSeenUid.map fun v row => { row with lastSeenUid := v }).toList ++ changes)
      row).watermark = update.mergeWatermark row.watermark := by
  cases epoch : update.uidvalidity <;> cases seen : update.lastSeenUid <;>
    simp only [Option.map_none, Option.map_some, Option.toList_none, Option.toList_some,
      List.nil_append, List.cons_append, applyChanges_cons] <;>
    rw [watermark_applyChanges keep] <;>
    simp [SyncStateRow.watermark, mergeWatermark, epoch, seen]

theorem SyncStateUpdate.watermark_assignments (update : SyncStateUpdate) (row : SyncStateRow) :
    (applyChanges update.assignments row).watermark = update.mergeWatermark row.watermark := by
  rw [assignments_eq]
  exact update.watermark_pair (fun change membership => watermark_of_mem_details membership) row

/-- Some of the assignments: none of the pair is assigned yet, all of it is, or the
epoch is new and the watermark still the old one. -/
theorem SyncStateUpdate.watermark_take (update : SyncStateUpdate) (count : Nat)
    (row : SyncStateRow) :
    (applyChanges (update.assignments.take count) row).watermark = row.watermark ∨
    (applyChanges (update.assignments.take count) row).watermark =
      update.mergeWatermark row.watermark ∨
    (count = 1 ∧ update.uidvalidity.isSome ∧ update.lastSeenUid.isSome ∧
      (applyChanges (update.assignments.take count) row).watermark =
        (update.uidvalidity, row.lastSeenUid)) := by
  have keep : ∀ count, ∀ change ∈ update.details.take count, ∀ row,
      (change row).watermark = row.watermark := fun count change membership =>
    watermark_of_mem_details (List.mem_of_mem_take membership)
  have through := fun count => update.watermark_pair (keep count) row
  rw [assignments_eq]
  cases epoch : update.uidvalidity <;> cases seen : update.lastSeenUid <;>
    rw [epoch, seen] at through
  · exact .inl (watermark_applyChanges (keep count) row)
  · cases count with
    | zero => exact .inl rfl
    | succ count => exact .inr (.inl (through count))
  · cases count with
    | zero => exact .inl rfl
    | succ count => exact .inr (.inl (through count))
  · rcases count with _ | _ | count
    · exact .inl rfl
    · exact .inr (.inr ⟨rfl, rfl, rfl, rfl⟩)
    · exact .inr (.inl (through count))

theorem getSyncState_eq_some_iff (store : Store) (accountId : AccountId) (folder : String)
    (row : SyncStateRow) :
    getSyncState store accountId folder = some row ↔
      row ∈ store.syncState.rows ∧ row.accountId = accountId ∧ row.folder = folder := by
  constructor
  · intro found
    exact ⟨List.mem_of_find?_eq_some found, by simpa using List.find?_some found⟩
  · rintro ⟨stored, rfl, rfl⟩
    apply store.syncState.find?_eq_some SameFolder.symmetric _ stored (by simp)
    intro other passes
    simpa [SameFolder] using passes

theorem getSyncState_setSync (store : Store) (accountId : AccountId) (folder : String)
    (change : SyncStateRow → SyncStateRow) :
    getSyncState (store.setSync accountId folder change) accountId folder =
      (getSyncState store accountId folder).map fun row =>
        { change row with accountId := row.accountId, folder := row.folder } := by
  simp only [getSyncState, Store.setSync, Table.update_rows, List.find?_map]
  have sameTest : ((fun row : SyncStateRow =>
      decide (row.accountId = accountId ∧ row.folder = folder)) ∘
        setWhere accountId folder change) =
      fun row => decide (row.accountId = accountId ∧ row.folder = folder) := by
    funext row
    simp
  rw [sameTest]
  cases found : store.syncState.rows.find? fun row =>
      decide (row.accountId = accountId ∧ row.folder = folder) with
  | none => rfl
  | some row =>
      have matched : row.accountId = accountId ∧ row.folder = folder := by
        simpa using List.find?_some found
      simp [setWhere, matched]

/-- Field assignments never fail, and compose. -/
theorem execute_setSync (accountId : AccountId) (folder : String)
    (changes : List (SyncStateRow → SyncStateRow)) (store : Store) :
    ∃ next, execute (changes.map fun change current =>
        (.ok (Store.setSync current accountId folder change) : Except StorageError Store))
        store = (.ok (), next) ∧
      getSyncState next accountId folder =
        (getSyncState store accountId folder).map (applyChanges changes) ∧
      next.accounts = store.accounts ∧ next.messages = store.messages ∧
      next.indexQueue = store.indexQueue := by
  induction changes generalizing store with
  | nil => exact ⟨store, rfl, by cases getSyncState store accountId folder <;> rfl, rfl, rfl, rfl⟩
  | cons change rest inductionHypothesis =>
      obtain ⟨next, executed, found, frame⟩ :=
        inductionHypothesis (store.setSync accountId folder change)
      refine ⟨next, executed, ?_, frame⟩
      rw [found, getSyncState_setSync]
      cases getSyncState store accountId folder <;> rfl

/-- Making the row exist: it is there already, it is created with the defaults,
or its account is unknown and the statement fails. -/
theorem ensureSyncRow_cases (accountId : AccountId) (folder : String) (store : Store) :
    ((∃ row, getSyncState store accountId folder = some row) ∧
      ensureSyncRow accountId folder store = .ok store) ∨
    (getSyncState store accountId folder = none ∧
      ((store.hasAccount accountId = true ∧
          ∃ syncState, ensureSyncRow accountId folder store =
            .ok { store with syncState := syncState } ∧
          getSyncState { store with syncState := syncState } accountId folder =
            some (.initial accountId folder)) ∨
        (store.hasAccount accountId = false ∧
          ensureSyncRow accountId folder store = .error foreignKeyFailed))) := by
  cases inserted : store.syncState.insert? (.initial accountId folder) with
  | none =>
      obtain ⟨row, stored, same⟩ := (Table.insert?_eq_none_iff _ _).mp inserted
      apply Or.inl
      refine ⟨⟨row, ?_⟩, by simp [ensureSyncRow, inserted]⟩
      exact (getSyncState_eq_some_iff _ _ _ _).mpr ⟨stored, same.1, same.2⟩
  | some syncState =>
      apply Or.inr
      refine ⟨?_, ?_⟩
      · cases found : getSyncState store accountId folder with
        | none => rfl
        | some row =>
            have stored := (getSyncState_eq_some_iff _ _ _ _).mp found
            have refused := (Table.insert?_eq_none_iff store.syncState
              (.initial accountId folder)).mpr ⟨row, stored.1, stored.2⟩
            rw [refused] at inserted
            cases inserted
      · cases known : store.hasAccount accountId with
        | true =>
            apply Or.inl
            refine ⟨rfl, syncState, by simp [ensureSyncRow, inserted, known], ?_⟩
            rw [getSyncState_eq_some_iff, Table.insert?_rows inserted]
            exact ⟨by simp, rfl, rfl⟩
        | false => exact .inr ⟨rfl, by simp [ensureSyncRow, inserted, known]⟩

/-- Making the row exist and then assigning some fields: the row has the new values, or
its account is unknown and nothing changes. -/
theorem execute_ensure_setSync (accountId : AccountId) (folder : String)
    (changes : List (SyncStateRow → SyncStateRow)) (store : Store) :
    (∃ next, execute (ensureSyncRow accountId folder :: changes.map fun change current =>
        (.ok (Store.setSync current accountId folder change) : Except StorageError Store))
        store = (.ok (), next) ∧
      getSyncState next accountId folder = some (applyChanges changes
        ((getSyncState store accountId folder).getD (.initial accountId folder))) ∧
      next.accounts = store.accounts ∧ next.messages = store.messages ∧
      next.indexQueue = store.indexQueue) ∨
    ensureSyncRow accountId folder store = .error foreignKeyFailed := by
  rcases ensureSyncRow_cases accountId folder store with
    ⟨⟨row, found⟩, ensured⟩ | ⟨missing, ⟨_, syncState, ensured, created⟩ | ⟨_, failed⟩⟩
  · obtain ⟨next, executed, merged, frame⟩ := execute_setSync accountId folder changes store
    apply Or.inl
    refine ⟨next, by simp only [execute, ensured, executed], ?_, frame⟩
    rw [merged, found]
    rfl
  · obtain ⟨next, executed, merged, frame⟩ := execute_setSync accountId folder changes
      { store with syncState := syncState }
    apply Or.inl
    refine ⟨next, by simp only [execute, ensured, executed], ?_, frame⟩
    rw [merged, created, missing]
    rfl
  · exact .inr failed

/-- The assignments of an update that are issued before the database fails. -/
def SyncStateUpdate.issued (update : SyncStateUpdate) :
    Option Nat → List (SyncStateRow → SyncStateRow)
  | none => update.assignments
  | some committed => update.assignments.take (committed - 1)

/-- What `update_sync_state` makes of the row: its account is unknown or no statement is
committed, and nothing changes; or the row exists and has every value that was issued. -/
theorem updateSyncState_row (cut : Option Nat) (accountId : AccountId) (folder : String)
    (update : SyncStateUpdate) (store : Store) :
    ∃ result next, updateSyncState cut accountId folder update store = (result, next) ∧
      (next.accounts = store.accounts ∧ next.messages = store.messages ∧
        next.indexQueue = store.indexQueue) ∧
      (((cut = some 0 ∨ ensureSyncRow accountId folder store = .error foreignKeyFailed) ∧
          (∃ err, result = .error err) ∧ next = store) ∨
        ((result = .ok () → cut = none) ∧
          (∃ prior, ensureSyncRow accountId folder store = .ok prior) ∧ cut ≠ some 0 ∧
          getSyncState next accountId folder = some (applyChanges (update.issued cut)
            ((getSyncState store accountId folder).getD (.initial accountId folder))))) := by
  have ensured : (∃ prior, ensureSyncRow accountId folder store = .ok prior) ∨
      ensureSyncRow accountId folder store = .error foreignKeyFailed := by
    rcases ensureSyncRow_cases accountId folder store with
      ⟨_, ensured⟩ | ⟨_, ⟨_, _, ensured, _⟩ | ⟨_, failed⟩⟩
    · exact .inl ⟨_, ensured⟩
    · exact .inl ⟨_, ensured⟩
    · exact .inr failed
  rcases ensured with ⟨prior, ensured⟩ | failed
  · rcases execute_ensure_setSync accountId folder (update.issued cut) store with
      ⟨next, executed, assigned, frame⟩ | failed
    · cases cut with
      | none =>
          exact ⟨.ok (), next, executed, frame, .inr ⟨fun _ => rfl, ⟨prior, ensured⟩, nofun,
            assigned⟩⟩
      | some committed =>
          cases committed with
          | zero =>
              exact ⟨.error ioFailed, store, rfl, ⟨rfl, rfl, rfl⟩,
                .inl ⟨.inl rfl, ⟨ioFailed, rfl⟩, rfl⟩⟩
          | succ count =>
              refine ⟨.error ioFailed, next, ?_, frame, .inr ⟨nofun, ⟨prior, ensured⟩, nofun,
                assigned⟩⟩
              simp only [SyncStateUpdate.issued, Nat.add_sub_cancel, List.map_take] at executed
              simp only [updateSyncState, SyncStateUpdate.script, List.take_succ_cons]
              rw [execute_append executed]
              rfl
    · rw [ensured] at failed
      cases failed
  · cases cut with
    | none =>
        exact ⟨.error foreignKeyFailed, store,
          by simp only [updateSyncState, SyncStateUpdate.script, execute, failed],
          ⟨rfl, rfl, rfl⟩, .inl ⟨.inr failed, ⟨foreignKeyFailed, rfl⟩, rfl⟩⟩
    | some committed =>
        cases committed with
        | zero =>
            exact ⟨.error ioFailed, store, rfl, ⟨rfl, rfl, rfl⟩,
              .inl ⟨.inl rfl, ⟨ioFailed, rfl⟩, rfl⟩⟩
        | succ count =>
            exact ⟨.error foreignKeyFailed, store,
              by simp only [updateSyncState, SyncStateUpdate.script, List.take_succ_cons,
                List.cons_append, execute, failed],
              ⟨rfl, rfl, rfl⟩, .inl ⟨.inr failed, ⟨foreignKeyFailed, rfl⟩, rfl⟩⟩

/-- The stored pair of a folder; a folder without a row has the schema's defaults. -/
def watermark (store : Store) (accountId : AccountId) (folder : String) : Option Nat × Nat :=
  ((getSyncState store accountId folder).getD (.initial accountId folder)).watermark

/-- The specification of `update_sync_state`: it writes no other relation; if it succeeds
the pair is merged; if not, the pair is the old one, the merged one or, when the database
failed between the two statements, a mixture. -/
theorem updateSyncState_spec (cut : Option Nat) (accountId : AccountId) (folder : String)
    (update : SyncStateUpdate) (store : Store) :
    ∃ result next, updateSyncState cut accountId folder update store = (result, next) ∧
      (next.accounts = store.accounts ∧ next.messages = store.messages ∧
        next.indexQueue = store.indexQueue) ∧
      (result = .ok () → watermark next accountId folder =
        update.mergeWatermark (watermark store accountId folder)) ∧
      (watermark next accountId folder = watermark store accountId folder ∨
        watermark next accountId folder =
          update.mergeWatermark (watermark store accountId folder) ∨
        (cut = some 2 ∧ update.uidvalidity.isSome ∧ update.lastSeenUid.isSome ∧
          watermark next accountId folder =
            (update.uidvalidity, (watermark store accountId folder).2))) := by
  obtain ⟨result, next, updated, frame, outcome⟩ :=
    updateSyncState_row cut accountId folder update store
  refine ⟨result, next, updated, frame, ?_⟩
  rcases outcome with ⟨_, ⟨err, failed⟩, unchanged⟩ | ⟨complete, _, issued, assigned⟩
  · subst failed unchanged
    exact ⟨nofun, .inl rfl⟩
  · simp only [watermark, assigned, Option.getD_some]
    cases cut with
    | none =>
        have merged := update.watermark_assignments
          ((getSyncState store accountId folder).getD (.initial accountId folder))
        exact ⟨fun _ => merged, .inr (.inl merged)⟩
    | some committed =>
        refine ⟨fun accepted => absurd (complete accepted) nofun, ?_⟩
        cases committed with
        | zero => exact absurd rfl issued
        | succ count =>
            rcases update.watermark_take count
                ((getSyncState store accountId folder).getD (.initial accountId folder)) with
              same | merged | ⟨one, epoch, seen, mixed⟩
            · exact .inl same
            · exact .inr (.inl merged)
            · exact .inr (.inr ⟨by rw [one], epoch, seen, mixed⟩)

section Health

/-- The stored health of a folder. -/
def accountHealth (store : Store) (accountId : AccountId) (folder : String) : AccountHealth :=
  ((getSyncState store accountId folder).getD (.initial accountId folder)).accountHealth

/-- An update of a single field is committed: the row exists or can be created, and the
database does not fail before the second statement. -/
def FieldCommits (cut : Option Nat) (accountId : AccountId) (folder : String) (store : Store) :
    Prop :=
  (∃ prior, ensureSyncRow accountId folder store = .ok prior) ∧
    ∀ committed, cut = some committed → 2 ≤ committed

theorem SyncStateUpdate.accountHealth_of_mem_assignments {update : SyncStateUpdate}
    (unset : update.accountHealth = none) {change : SyncStateRow → SyncStateRow}
    (membership : change ∈ update.assignments) (row : SyncStateRow) :
    (change row).accountHealth = row.accountHealth := by
  obtain ⟨assignment, listed, set⟩ := List.mem_filterMap.mp membership
  rw [id] at set
  subst set
  simp only [unset, List.mem_cons, List.not_mem_nil, or_false, Option.map_none, reduceCtorEq,
    false_or, eq_comm (a := some change), Option.map_eq_some_iff] at listed
  rcases listed with ⟨_, _, rfl⟩ | ⟨_, _, rfl⟩ | ⟨_, _, rfl⟩ | ⟨_, _, rfl⟩ | ⟨_, _, rfl⟩ |
    ⟨_, _, rfl⟩ <;> rfl

theorem SyncStateUpdate.mem_assignments_of_mem_issued {update : SyncStateUpdate}
    {cut : Option Nat} {change : SyncStateRow → SyncStateRow}
    (membership : change ∈ update.issued cut) : change ∈ update.assignments := by
  cases cut with
  | none => exact membership
  | some committed => exact List.mem_of_mem_take membership

/-- An update without a health leaves the stored one. -/
theorem accountHealth_updateSyncState_unset (cut : Option Nat) (accountId : AccountId)
    (folder : String) {update : SyncStateUpdate} (unset : update.accountHealth = none)
    (store : Store) :
    accountHealth (updateSyncState cut accountId folder update store).2 accountId folder =
      accountHealth store accountId folder := by
  obtain ⟨result, next, updated, _, outcome⟩ :=
    updateSyncState_row cut accountId folder update store
  rw [updated]
  rcases outcome with ⟨_, _, unchanged⟩ | ⟨_, _, _, assigned⟩
  · rw [unchanged]
  · simp only [accountHealth, assigned, Option.getD_some]
    exact @applyChanges_keeps _ SyncStateRow.accountHealth (fun _ _ _ => rfl) _
      (fun change membership => SyncStateUpdate.accountHealth_of_mem_assignments unset
        (SyncStateUpdate.mem_assignments_of_mem_issued membership)) _

/-- An update of the health alone changes it exactly when it is committed. -/
theorem accountHealth_updateSyncState_set (cut : Option Nat) (accountId : AccountId)
    (folder : String) (health : AccountHealth) (store : Store) :
    (FieldCommits cut accountId folder store →
      accountHealth (updateSyncState cut accountId folder { accountHealth := some health } store).2
        accountId folder = health) ∧
    (¬ FieldCommits cut accountId folder store →
      accountHealth (updateSyncState cut accountId folder { accountHealth := some health } store).2
        accountId folder = accountHealth store accountId folder) := by
  obtain ⟨result, next, updated, _, outcome⟩ :=
    updateSyncState_row cut accountId folder { accountHealth := some health } store
  rw [updated]
  rcases outcome with ⟨uncommitted, _, unchanged⟩ | ⟨_, ensured, issued, assigned⟩
  · refine ⟨fun commits => ?_, fun _ => by rw [unchanged]⟩
    rcases uncommitted with cut | failed
    · exact absurd (commits.2 0 cut) (by omega)
    · obtain ⟨prior, ensured⟩ := commits.1
      rw [ensured] at failed
      cases failed
  · simp only [accountHealth, assigned, Option.getD_some]
    rcases cut with _ | _ | _ | count
    · exact ⟨fun _ => rfl, fun refused => absurd ⟨ensured, nofun⟩ refused⟩
    · exact absurd rfl issued
    · refine ⟨fun commits => ?_, fun _ => rfl⟩
      exact absurd (commits.2 1 rfl) (by omega)
    · refine ⟨fun _ => ?_, fun refused => absurd ⟨ensured, fun committed same => ?_⟩ refused⟩
      · simp [SyncStateUpdate.issued, SyncStateUpdate.assignments]
      · cases same
        omega

end Health

end Scryd.Storage
