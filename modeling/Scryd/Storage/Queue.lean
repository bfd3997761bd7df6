import Scryd.Storage.Schema

/-!
# The `index_queue` relation

A row marks a message that still has to be indexed.  Enqueueing is
`INSERT OR IGNORE`; the drainer deletes the row by message id.
-/

namespace Scryd.Storage

open Scryd.Foundation

/-- `StorageHandle::enqueue`. -/
def enqueue (now : Int) (id : String) (store : Store) : Store :=
  match store.indexQueue.insert? ⟨id, 0, none, now, false, none⟩ with
  | none => store
  | some indexQueue => { store with indexQueue := indexQueue }

/-- Whether the queue holds a row for a message. -/
def Store.Queued (store : Store) (id : String) : Prop :=
  ∃ row ∈ store.indexQueue.rows, row.messageId = id

theorem enqueue_frame (now : Int) (id : String) (store : Store) :
    (enqueue now id store).accounts = store.accounts ∧
      (enqueue now id store).syncState = store.syncState ∧
      (enqueue now id store).messages = store.messages := by
  unfold enqueue
  split
  · exact ⟨rfl, rfl, rfl⟩
  · exact ⟨rfl, rfl, rfl⟩

/-- After `enqueue` the message is queued, and no other message's row changed. -/
theorem queued_enqueue_iff (now : Int) (id other : String) (store : Store) :
    (enqueue now id store).Queued other ↔ other = id ∨ store.Queued other := by
  unfold enqueue
  cases inserted : store.indexQueue.insert? ⟨id, 0, none, now, false, none⟩ with
  | none =>
      obtain ⟨row, stored, same⟩ := (Table.insert?_eq_none_iff _ _).mp inserted
      constructor
      · exact fun queued => .inr queued
      · rintro (rfl | queued)
        · exact ⟨row, stored, same⟩
        · exact queued
  | some indexQueue =>
      simp only [Store.Queued, Table.insert?_rows inserted, List.mem_append, List.mem_singleton]
      constructor
      · rintro ⟨row, stored | rfl, same⟩
        · exact .inr ⟨row, stored, same⟩
        · exact .inl same.symm
      · rintro (rfl | ⟨row, stored, same⟩)
        · exact ⟨_, .inr rfl, rfl⟩
        · exact ⟨row, .inl stored, same⟩

/-- `enqueue` adds nothing exactly when the message is queued already. -/
theorem enqueue_unchanged_iff (now : Int) (id : String) (store : Store) :
    (enqueue now id store).indexQueue.rows = store.indexQueue.rows ↔ store.Queued id := by
  unfold enqueue
  cases inserted : store.indexQueue.insert? ⟨id, 0, none, now, false, none⟩ with
  | none =>
      obtain ⟨row, stored, same⟩ := (Table.insert?_eq_none_iff _ _).mp inserted
      exact iff_of_true rfl ⟨row, stored, same⟩
  | some indexQueue =>
      apply iff_of_false
      · intro unchanged
        have lengths := congrArg List.length unchanged
        rw [Table.insert?_rows inserted, List.length_append, List.length_singleton] at lengths
        omega
      · rintro ⟨row, stored, rfl⟩
        have refused := (Table.insert?_eq_none_iff store.indexQueue
          ⟨row.messageId, 0, none, now, false, none⟩).mpr ⟨row, stored, rfl⟩
        rw [refused] at inserted
        cases inserted

/-- `StorageHandle::pop_batch`: up to `limit` drainable rows, oldest first. -/
def popBatch (order : ScanOrder) (limit : Nat) (store : Store) : List IndexQueueRow :=
  (sortBy (fun row => toLex (row.queuedAt, order.rank row.messageId))
    (store.indexQueue.rows.filter fun row => !row.failedPermanent)).take limit

theorem mem_of_mem_popBatch {order : ScanOrder} {limit : Nat} {store : Store}
    {row : IndexQueueRow} (popped : row ∈ popBatch order limit store) :
    row ∈ store.indexQueue.rows ∧ row.failedPermanent = false := by
  have ranked := List.mem_of_mem_take popped
  rw [mem_sortBy, List.mem_filter, Bool.not_eq_true'] at ranked
  exact ranked

/-- A batch has at most one row for a message. -/
theorem popBatch_nodup (order : ScanOrder) (limit : Nat) (store : Store) :
    ((popBatch order limit store).map IndexQueueRow.messageId).Nodup := by
  have stored : (store.indexQueue.rows.map IndexQueueRow.messageId).Nodup :=
    List.pairwise_map.mpr store.indexQueue.consistent
  have filtered := (List.filter_sublist (p := fun row : IndexQueueRow => !row.failedPermanent)
    (l := store.indexQueue.rows)).map IndexQueueRow.messageId |>.nodup stored
  have ranked := ((sortBy_perm (fun row : IndexQueueRow =>
    toLex (row.queuedAt, order.rank row.messageId)) _).map IndexQueueRow.messageId).nodup_iff.mpr
      filtered
  exact ((List.take_sublist limit _).map IndexQueueRow.messageId).nodup ranked

/-- An empty batch means that every row that is left has failed permanently. -/
theorem popBatch_eq_nil_iff (order : ScanOrder) {limit : Nat} (positive : 0 < limit)
    (store : Store) :
    popBatch order limit store = [] ↔
      ∀ row ∈ store.indexQueue.rows, row.failedPermanent = true := by
  rw [popBatch, List.take_eq_nil_iff]
  simp only [Nat.ne_of_gt positive, false_or]
  rw [List.eq_nil_iff_forall_not_mem]
  simp only [mem_sortBy, List.mem_filter, Bool.not_eq_true', not_and, Bool.not_eq_false]

/-- `StorageHandle::delete_queue_row`. -/
def deleteQueueRow (id : String) (store : Store) : Store :=
  { store with indexQueue := store.indexQueue.delete fun row => decide (row.messageId = id) }

theorem queued_deleteQueueRow_iff (id other : String) (store : Store) :
    (deleteQueueRow id store).Queued other ↔ other ≠ id ∧ store.Queued other := by
  simp only [Store.Queued, deleteQueueRow, Table.delete_rows, List.mem_filter,
    Bool.not_eq_true', decide_eq_false_iff_not]
  constructor
  · rintro ⟨row, ⟨stored, kept⟩, rfl⟩
    exact ⟨kept, row, stored, rfl⟩
  · rintro ⟨different, row, stored, rfl⟩
    exact ⟨row, ⟨stored, different⟩, rfl⟩

/-- `UPDATE index_queue SET attempts, last_error, failed_permanent, last_failed_at`. -/
def recordFailure (now : Int) (id err : String) (attempts : Nat) (permanent : Bool)
    (row : IndexQueueRow) : IndexQueueRow :=
  if row.messageId = id then
    { row with
      attempts := attempts
      lastError := some err
      failedPermanent := permanent
      lastFailedAt := some now }
  else
    row

@[simp] theorem recordFailure_messageId (now : Int) (id err : String) (attempts : Nat)
    (permanent : Bool) (row : IndexQueueRow) :
    (recordFailure now id err attempts permanent row).messageId = row.messageId := by
  unfold recordFailure
  split <;> rfl

/-- `StorageHandle::mark_failed`.  Returns whether the row is now permanently failed. -/
def markFailed (now : Int) (id err : String) (maxAttempts : Nat) (store : Store) :
    Bool × Store :=
  match store.indexQueue.rows.find? fun row => decide (row.messageId = id) with
  | none => (false, store)
  | some current =>
      let attempts := current.attempts + 1
      let permanent := decide (maxAttempts ≤ attempts)
      let change := recordFailure now id err attempts permanent
      (permanent, { store with indexQueue := store.indexQueue.update change (by
        intro left right same
        simpa [SameQueued, change] using same) })

/-- A failure counts up the one row of the message. -/
theorem markFailed_stored {store : Store} {row : IndexQueueRow}
    (stored : row ∈ store.indexQueue.rows) (now : Int) (err : String) (maxAttempts : Nat) :
    (markFailed now row.messageId err maxAttempts store).2.indexQueue.rows =
        store.indexQueue.rows.map (recordFailure now row.messageId err (row.attempts + 1)
          (decide (maxAttempts ≤ row.attempts + 1))) ∧
      (markFailed now row.messageId err maxAttempts store).2.messages = store.messages := by
  have found := store.indexQueue.find?_eq_some SameQueued.symmetric
    (fun other => decide (other.messageId = row.messageId)) stored (decide_eq_true rfl)
    (fun other same => of_decide_eq_true same)
  simp only [markFailed, found, Table.update_rows, and_self]

/-- The ids of the messages that are not tombstoned. -/
def Store.liveIds (store : Store) : List String :=
  (store.messages.rows.filter fun row => decide (row.tombstonedAt = none)).map
    MessageRow.messageId

/-- `StorageHandle::reenqueue_all_messages`: an `INSERT OR REPLACE` of a row for each live
message.  Returns the number of rows inserted. -/
def reenqueueAllMessages (now : Int) (store : Store) : Nat × Store :=
  let inserted := store.liveIds.map fun id => IndexQueueRow.mk id 0 none now false none
  (inserted.length, { store with indexQueue := inserted.foldl Table.replace store.indexQueue })

/-- The most recent failed row, as `queue_health` reports it. -/
structure QueueLastError where
  messageId : String
  error : String
  attempts : Nat
  deriving DecidableEq

structure QueueHealth where
  depth : Nat
  failedPermanent : Nat
  lastError : Option QueueLastError
  deriving DecidableEq

/-- The order `last_failed_at DESC, queued_at DESC` sorts by.  `NULL` comes last and
the scan order breaks the ties. -/
def failureRank (order : ScanOrder) (row : IndexQueueRow) : Nat ×ₗ Int ×ₗ Int ×ₗ Nat :=
  toLex (if row.lastFailedAt.isSome then 1 else 0, toLex (row.lastFailedAt.getD 0,
    toLex (row.queuedAt, order.rank row.messageId)))

/-- `WHERE last_error IS NOT NULL ORDER BY ... LIMIT 1`. -/
def latestFailure (order : ScanOrder) (rows : List IndexQueueRow) : Option IndexQueueRow :=
  (sortBy (fun row => OrderDual.toDual (failureRank order row))
    (rows.filter fun row => row.lastError.isSome)).head?

def IndexQueueRow.report (row : IndexQueueRow) : QueueLastError :=
  ⟨row.messageId, row.lastError.getD "", row.attempts⟩

/-- `StorageHandle::queue_health`. -/
def queueHealth (order : ScanOrder) (store : Store) : QueueHealth where
  depth := (store.indexQueue.rows.filter fun row => !row.failedPermanent).length
  failedPermanent := (store.indexQueue.rows.filter fun row => row.failedPermanent).length
  lastError := (latestFailure order store.indexQueue.rows).map IndexQueueRow.report

end Scryd.Storage
