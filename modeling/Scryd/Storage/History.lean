import Scryd.Foundation.Grown
import Scryd.Storage.Messages
import Scryd.Storage.Queue
import Scryd.Storage.Mirror

/-!
# Histories of the database

All operations that write to `meta.sqlite`, in any order and with faults.  No
row of an account, a folder or a message is ever lost, a tombstone stays, and
the foreign keys hold.
-/

namespace Scryd.Storage

open Scryd.Foundation

section Relations

/-- What becomes of a message: its content may be replaced and it may be tombstoned, once. -/
def KeptMessage (row later : MessageRow) : Prop :=
  later = { row with
    rawPath := later.rawPath
    bodyMd := later.bodyMd
    sizeBytes := later.sizeBytes
    tombstonedAt := later.tombstonedAt } ∧
  (row.tombstonedAt ≠ none → later.tombstonedAt = row.tombstonedAt)

def KeptFolder (row later : SyncStateRow) : Prop :=
  later.accountId = row.accountId ∧ later.folder = row.folder

def KeptAccount (row later : AccountRow) : Prop := later.accountId = row.accountId

structure Store.Precedes (before after : Store) : Prop where
  accounts : Grown KeptAccount before.accounts.rows after.accounts.rows
  syncState : Grown KeptFolder before.syncState.rows after.syncState.rows
  messages : Grown KeptMessage before.messages.rows after.messages.rows

/-- The foreign keys of the schema. -/
structure Store.Intact (store : Store) : Prop where
  syncState : ∀ row ∈ store.syncState.rows, store.hasAccount row.accountId = true
  messages : ∀ row ∈ store.messages.rows, store.hasAccount row.accountId = true

/-- What every statement does to the database. -/
structure Store.Develops (before after : Store) : Prop where
  precedes : before.Precedes after
  intact : before.Intact → after.Intact

theorem KeptAccount.refl (row : AccountRow) : KeptAccount row row := rfl

theorem KeptFolder.refl (row : SyncStateRow) : KeptFolder row row := ⟨rfl, rfl⟩

theorem KeptMessage.refl (row : MessageRow) : KeptMessage row row := ⟨rfl, fun _ => rfl⟩

theorem KeptMessage.trans {first second third : MessageRow} (one : KeptMessage first second)
    (two : KeptMessage second third) : KeptMessage first third := by
  refine ⟨?_, fun tombstoned => ?_⟩
  · rw [two.1, one.1]
  · have still := one.2 tombstoned
    rw [two.2 (still ▸ tombstoned), still]

theorem KeptMessage.accountId {row later : MessageRow} (kept : KeptMessage row later) :
    later.accountId = row.accountId := by
  rw [kept.1]

theorem Store.Precedes.refl (store : Store) : store.Precedes store where
  accounts := .refl KeptAccount.refl _
  syncState := .refl KeptFolder.refl _
  messages := .refl KeptMessage.refl _

theorem Store.Precedes.trans {first second third : Store} (one : first.Precedes second)
    (two : second.Precedes third) : first.Precedes third where
  accounts := one.accounts.trans two.accounts fun _ _ _ here later => Eq.trans later here
  syncState := one.syncState.trans two.syncState
    fun _ _ _ here later => ⟨later.1.trans here.1, later.2.trans here.2⟩
  messages := one.messages.trans two.messages fun _ _ _ => KeptMessage.trans

theorem Store.Develops.refl (store : Store) : store.Develops store := ⟨.refl store, id⟩

theorem Store.Develops.trans {first second third : Store} (one : first.Develops second)
    (two : second.Develops third) : first.Develops third :=
  ⟨one.precedes.trans two.precedes, fun intact => two.intact (one.intact intact)⟩

theorem hasAccount_iff {store : Store} {id : AccountId} :
    store.hasAccount id = true ↔ ∃ row ∈ store.accounts.rows, row.accountId = id := by
  simp [Store.hasAccount]

/-- A known account stays known. -/
theorem Store.Precedes.hasAccount {before after : Store} (precedes : before.Precedes after)
    {id : AccountId} (known : before.hasAccount id = true) : after.hasAccount id = true := by
  obtain ⟨row, stored, rfl⟩ := hasAccount_iff.mp known
  obtain ⟨later, isLater, same⟩ := precedes.accounts.later stored
  exact hasAccount_iff.mpr ⟨later, isLater, same⟩

/-- Rows that are new have to belong to a known account. -/
theorem Store.Precedes.develops {before after : Store} (precedes : before.Precedes after)
    (syncState : ∀ row ∈ after.syncState.rows,
      (∃ old ∈ before.syncState.rows, old.accountId = row.accountId) ∨
        before.hasAccount row.accountId = true)
    (messages : ∀ row ∈ after.messages.rows,
      (∃ old ∈ before.messages.rows, old.accountId = row.accountId) ∨
        before.hasAccount row.accountId = true) : before.Develops after := by
  refine ⟨precedes, fun intact => ⟨fun row stored => ?_, fun row stored => ?_⟩⟩
  · rcases syncState row stored with ⟨old, isOld, same⟩ | known
    · exact precedes.hasAccount (same ▸ intact.syncState old isOld)
    · exact precedes.hasAccount known
  · rcases messages row stored with ⟨old, isOld, same⟩ | known
    · exact precedes.hasAccount (same ▸ intact.messages old isOld)
    · exact precedes.hasAccount known

end Relations

section Operations

theorem insertMessage_develops (env : ThreadEnv) (m : MessageInsert) :
    Extends Store.Develops (insertMessage env m) := by
  intro store next inserted
  rcases insertMessage_ok inserted with ⟨-, rfl⟩ | ⟨-, known, messages, rfl, rows⟩
  · refine Store.Precedes.develops ⟨.refl KeptAccount.refl _, .refl KeptFolder.refl _,
      .map (fun row => ?_) _⟩ (fun row stored => .inl ⟨row, stored, rfl⟩) fun row stored => ?_
    · rw [MessageInsert.refresh]
      split
      · exact ⟨rfl, fun _ => rfl⟩
      · exact .refl row
    · obtain ⟨old, isOld, rfl⟩ := List.mem_map.mp stored
      exact .inl ⟨old, isOld, (m.refresh_accountId old).symm⟩
  · refine Store.Precedes.develops ⟨.refl KeptAccount.refl _, .refl KeptFolder.refl _, ?_⟩
      (fun row stored => .inl ⟨row, stored, rfl⟩) fun row stored => ?_
    · show Grown KeptMessage store.messages.rows messages.rows
      rw [rows]
      exact .append KeptMessage.refl _ _
    · have isRow : row ∈ messages.rows := stored
      rw [rows] at isRow
      rcases List.mem_append.mp isRow with old | new
      · exact .inl ⟨row, old, rfl⟩
      · rw [List.mem_singleton.mp new]
        exact .inr known

theorem tombstone_develops (now : Int) (id : String) (store : Store) :
    store.Develops (tombstone now id store) := by
  refine Store.Precedes.develops ⟨.refl KeptAccount.refl _, .refl KeptFolder.refl _,
    .map (fun row => ?_) _⟩ (fun row stored => .inl ⟨row, stored, rfl⟩) fun row stored => ?_
  · rw [tombstoneRow]
    split
    next matched => exact ⟨rfl, fun tombstoned => absurd matched.2 tombstoned⟩
    next => exact .refl row
  · obtain ⟨old, isOld, rfl⟩ := List.mem_map.mp stored
    exact .inl ⟨old, isOld, (tombstoneRow_accountId now id old).symm⟩

/-- Statements on the queue. -/
theorem Store.Develops.of_frame {before after : Store} (accounts : after.accounts = before.accounts)
    (syncState : after.syncState = before.syncState) (messages : after.messages = before.messages) :
    before.Develops after := by
  obtain ⟨_, _, _, _⟩ := after
  cases accounts
  cases syncState
  cases messages
  exact ⟨⟨.refl KeptAccount.refl _, .refl KeptFolder.refl _, .refl KeptMessage.refl _⟩,
    fun intact => ⟨intact.syncState, intact.messages⟩⟩

theorem ensureSyncRow_develops (accountId : AccountId) (folder : String) :
    Extends Store.Develops (ensureSyncRow accountId folder) := by
  intro store next ensured
  unfold ensureSyncRow at ensured
  split at ensured
  · cases ensured
    exact .refl store
  next syncState inserted =>
    split at ensured
    next known =>
      cases ensured
      have rows := Table.insert?_rows inserted
      refine Store.Precedes.develops ⟨.refl KeptAccount.refl _, ?_, .refl KeptMessage.refl _⟩
        (fun row stored => ?_) fun row stored => .inl ⟨row, stored, rfl⟩
      · show Grown KeptFolder store.syncState.rows syncState.rows
        rw [rows]
        exact .append KeptFolder.refl _ _
      · have isRow : row ∈ syncState.rows := stored
        rw [rows] at isRow
        rcases List.mem_append.mp isRow with old | new
        · exact .inl ⟨row, old, rfl⟩
        · rw [List.mem_singleton.mp new]
          exact .inr known
    next => cases ensured

theorem setSync_develops (accountId : AccountId) (folder : String)
    (change : SyncStateRow → SyncStateRow) (store : Store) :
    store.Develops (store.setSync accountId folder change) := by
  refine Store.Precedes.develops ⟨.refl KeptAccount.refl _, .map (fun row => ?_) _,
    .refl KeptMessage.refl _⟩ (fun row stored => ?_) fun row stored => .inl ⟨row, stored, rfl⟩
  · exact ⟨setWhere_accountId accountId folder change row,
      setWhere_folder accountId folder change row⟩
  · obtain ⟨old, isOld, rfl⟩ := List.mem_map.mp stored
    exact .inl ⟨old, isOld, (setWhere_accountId accountId folder change old).symm⟩

/-- However many of its statements go through. -/
theorem updateSyncState_develops (cut : Option Nat) (accountId : AccountId) (folder : String)
    (update : SyncStateUpdate) (store : Store) :
    store.Develops (updateSyncState cut accountId folder update store).2 := by
  have script : ∀ statement ∈ update.script accountId folder, Extends Store.Develops statement := by
    rw [SyncStateUpdate.script, List.forall_mem_cons]
    refine ⟨ensureSyncRow_develops accountId folder, fun statement issued => ?_⟩
    obtain ⟨change, -, rfl⟩ := List.mem_map.mp issued
    intro current next done
    cases done
    exact setSync_develops accountId folder change current
  unfold updateSyncState
  split
  · exact execute_extends .refl (fun _ _ _ => .trans) script store
  next committed =>
    refine execute_extends .refl (fun _ _ _ => .trans) (List.forall_mem_append.mpr ⟨?_, ?_⟩) store
    · exact fun statement issued => script statement (List.mem_of_mem_take issued)
    · rw [List.forall_mem_singleton]
      intro _ _ done
      cases done

theorem accountChange_develops {change : AccountRow → AccountRow}
    (keeps : ∀ row, (change row).accountId = row.accountId) {before after : Store}
    (accounts : after.accounts.rows = before.accounts.rows.map change)
    (syncState : after.syncState = before.syncState) (messages : after.messages = before.messages) :
    before.Develops after := by
  refine Store.Precedes.develops ⟨?_, ?_, ?_⟩ ?_ ?_
  · rw [accounts]
    exact .map keeps _
  · rw [syncState]
    exact .refl KeptFolder.refl _
  · rw [messages]
    exact .refl KeptMessage.refl _
  · rw [syncState]
    exact fun row stored => .inl ⟨row, stored, rfl⟩
  · rw [messages]
    exact fun row stored => .inl ⟨row, stored, rfl⟩

theorem insertAccount_develops (now : Int) (snap : ConfigSnapshot) :
    Extends Store.Develops (insertAccount now snap) := by
  intro store next inserted
  unfold insertAccount at inserted
  split at inserted
  · cases inserted
  next accounts accepted =>
    cases inserted
    refine Store.Precedes.develops ⟨?_, .refl KeptFolder.refl _, .refl KeptMessage.refl _⟩
      (fun row stored => .inl ⟨row, stored, rfl⟩) fun row stored => .inl ⟨row, stored, rfl⟩
    show Grown KeptAccount store.accounts.rows accounts.rows
    rw [Table.insert?_rows accepted]
    exact .append KeptAccount.refl _ _

theorem mirrorAll_extending (now : Int) (configured : List ConfigSnapshot) (diff : ReconcileDiff)
    {next : ReconcileDiff → Script Store StorageError ReconcileDiff}
    (rest : ∀ diff, (next diff).Extending Store.Develops) :
    (mirrorAll now configured diff next).Extending Store.Develops := by
  induction configured generalizing diff with
  | nil => exact rest diff
  | cons snap configured inductionHypothesis =>
      refine .issue (fun store after same => Except.ok.inj same ▸ .refl store) fun store => ?_
      split
      · exact .issue (insertAccount_develops now snap) fun _ => inductionHypothesis _
      · refine .issue (fun current after done => ?_) fun _ => inductionHypothesis _
        cases done
        exact accountChange_develops (setMirrored_accountId now snap) rfl rfl rfl

theorem inactivateAll_extending (now : Int) (ids : List AccountId) (diff : ReconcileDiff) :
    (inactivateAll now ids diff).Extending Store.Develops := by
  induction ids generalizing diff with
  | nil => exact .done diff
  | cons id rest inductionHypothesis =>
      refine .issue (fun current after done => ?_) fun _ => inductionHypothesis _
      cases done
      exact accountChange_develops (setInactive_accountId now id) rfl rfl rfl

theorem reconcileFromConfig_develops (now : Int) (configured : List ConfigSnapshot)
    (failure : StorageError) (fault : Option Nat) (store : Store) :
    store.Develops ((reconcileFromConfig now configured).perform failure fault store).2 := by
  refine Script.Extending.perform .refl (fun _ _ _ => .trans)
    (mirrorAll_extending now configured {} fun diff => ?_)
    failure fault store
  exact .issue (fun store after same => Except.ok.inj same ▸ .refl store)
    fun store => inactivateAll_extending now (staleIds configured store) diff

end Operations

section Histories

inductive StorageEvent where
  | insertMessage (env : ThreadEnv) (m : MessageInsert)
  | tombstone (now : Int) (id : String)
  | enqueue (now : Int) (id : String)
  | deleteQueueRow (id : String)
  | markFailed (now : Int) (id err : String) (maxAttempts : Nat)
  | reenqueueAllMessages (now : Int)
  | updateSyncState (cut : Option Nat) (accountId : AccountId) (folder : String)
      (update : SyncStateUpdate)
  | reconcileFromConfig (now : Int) (configured : List ConfigSnapshot) (failure : StorageError)
      (fault : Option Nat)

/-- The content after an operation, failing or not. -/
def storageStep (store : Store) : StorageEvent → Store
  | .insertMessage env m => ((insertMessage env m store).toOption).getD store
  | .tombstone now id => tombstone now id store
  | .enqueue now id => enqueue now id store
  | .deleteQueueRow id => deleteQueueRow id store
  | .markFailed now id err maxAttempts => (markFailed now id err maxAttempts store).2
  | .reenqueueAllMessages now => (reenqueueAllMessages now store).2
  | .updateSyncState cut accountId folder update =>
      (updateSyncState cut accountId folder update store).2
  | .reconcileFromConfig now configured failure fault =>
      ((reconcileFromConfig now configured).perform failure fault store).2

theorem storageStep_develops (store : Store) (event : StorageEvent) :
    store.Develops (storageStep store event) := by
  cases event with
  | insertMessage env m =>
      rw [storageStep]
      cases inserted : insertMessage env m store with
      | error => exact .refl store
      | ok next => exact insertMessage_develops env m store next inserted
  | tombstone now id => exact tombstone_develops now id store
  | enqueue now id =>
      obtain ⟨accounts, syncState, messages⟩ := enqueue_frame now id store
      exact .of_frame accounts syncState messages
  | deleteQueueRow id => exact .of_frame rfl rfl rfl
  | markFailed now id err maxAttempts =>
      rw [storageStep, markFailed]
      split
      · exact .refl store
      · exact .of_frame rfl rfl rfl
  | reenqueueAllMessages now => exact .of_frame rfl rfl rfl
  | updateSyncState cut accountId folder update =>
      exact updateSyncState_develops cut accountId folder update store
  | reconcileFromConfig now configured failure fault =>
      exact reconcileFromConfig_develops now configured failure fault store

/-- Whatever is written and wherever it fails, no account, folder or message is lost or mistaken
for another one, a tombstone stays as it is, and each folder and message belongs to an account. -/
theorem storage_history (accounts : Table AccountRow SameAccount)
    (events later : List StorageEvent) :
    let before := run storageStep (.fresh accounts) events
    let after := run storageStep before later
    before.Precedes after ∧ after.Intact := by
  intro before after
  have fresh : (Store.fresh accounts).Intact :=
    ⟨List.forall_mem_nil _, List.forall_mem_nil _⟩
  have first : (Store.fresh accounts).Develops before :=
    run_extends .refl (fun _ _ _ => .trans) storageStep_develops _ events
  have second : before.Develops after :=
    run_extends .refl (fun _ _ _ => .trans) storageStep_develops _ later
  exact ⟨second.precedes, second.intact (first.intact fresh)⟩

/-- A reconciliation that gets through leaves a row for each account it names. -/
theorem hasAccount_of_reconciled {now : Int} {configured : List ConfigSnapshot}
    {failure : StorageError} {fault : Option Nat} {before after : Store} {diff : ReconcileDiff}
    (succeeded : (reconcileFromConfig now configured).perform failure fault before =
      (.ok diff, after))
    {id : AccountId} (named : id ∈ configured.map (·.id)) : after.hasAccount id = true := by
  obtain ⟨snap, entry, rfl⟩ := List.mem_map.mp named
  obtain ⟨last, isLast⟩ := lastEntry_isSome entry
  have performed : ∃ diff, (reconcileFromConfig now configured).perform failure none before =
      (.ok diff, inactivated now (staleIds configured before) (mirrored now configured before)) :=
    reconcileFromConfig_perform now failure configured before
  obtain ⟨_, performed⟩ := performed
  have isAfter : after = _ :=
    congrArg Prod.snd ((Script.perform_none_of_ok succeeded).symm.trans performed)
  have stored : last.row now ∈ (mirrored now configured before).accounts.rows :=
    lastEntry_row_mem isLast before
  rw [hasAccount_iff, isAfter, inactivated_rows]
  refine ⟨_, List.mem_map_of_mem stored, ?_⟩
  split <;> exact (lastEntry_mem isLast).2

/-- Once the accounts of a config are mirrored, no foreign key refuses a row of one of them,
whatever is written in between. -/
theorem mirrored_accounts_accepted {now : Int} {configured : List ConfigSnapshot}
    {failure : StorageError} {fault : Option Nat} {before after : Store} {diff : ReconcileDiff}
    (succeeded : (reconcileFromConfig now configured).perform failure fault before =
      (.ok diff, after))
    (events : List StorageEvent) :
    let reached := run storageStep after events
    ∀ id ∈ configured.map (·.id),
      (∀ env m, m.accountId = id →
        (∃ next, insertMessage env m reached = .ok next) ∨
          insertMessage env m reached = .error messageIdTaken) ∧
      ∀ folder, ∃ next, ensureSyncRow id folder reached = .ok next := by
  intro reached id named
  have developed : after.Develops reached :=
    run_extends .refl (fun _ _ _ => .trans) storageStep_develops after events
  have known := developed.precedes.hasAccount (hasAccount_of_reconciled succeeded named)
  refine ⟨fun env m isAccount => ?_, fun folder => ?_⟩
  · unfold insertMessage
    split
    · exact .inl ⟨_, rfl⟩
    · split
      · exact .inr rfl
      · rw [isAccount, if_pos known]
        exact .inl ⟨_, rfl⟩
  · unfold ensureSyncRow
    split
    · exact ⟨_, rfl⟩
    · rw [if_pos known]
      exact ⟨_, rfl⟩

def workSnapshot : ConfigSnapshot := ⟨sampleAccountId, "mail.example.org", 993, "me", ["INBOX"]⟩

/-- The account is mirrored, and a later config drops it. -/
theorem mirrored_accounts_accepted_dropped :
    let start := (reconcileFromConfig 5 [workSnapshot]).perform ioFailed none (.fresh .empty)
    let reached := run storageStep start.2 [.reconcileFromConfig 9 [] ioFailed none]
    ∀ folder, ∃ next, ensureSyncRow sampleAccountId folder reached = .ok next := by
  intro start reached
  have succeeded : start = (.ok ⟨[sampleAccountId], [], []⟩, start.2) := rfl
  exact (mirrored_accounts_accepted succeeded [.reconcileFromConfig 9 [] ioFailed none]
    sampleAccountId List.mem_cons_self).2

end Histories

end Scryd.Storage
