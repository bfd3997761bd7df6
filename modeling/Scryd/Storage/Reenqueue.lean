import Scryd.Storage.Queue
import Scryd.Storage.Threading

/-!
# Rebuilding the queue

`reenqueue_all_messages` is to wipe the queue and enqueue every message that is
not tombstoned.  It replaces the rows of those messages and deletes no others.
-/

namespace Scryd.Storage

open Scryd.Foundation

variable {now : Int} {store : Store}

theorem mem_liveIds {id : String} :
    id ∈ store.liveIds ↔
      ∃ message ∈ store.messages.rows, message.messageId = id ∧ message.tombstonedAt = none := by
  simp only [Store.liveIds, List.mem_map, List.mem_filter, decide_eq_true_eq, and_assoc]
  exact exists_congr fun message => and_congr_right fun stored => and_comm

theorem liveIds_nodup (store : Store) : store.liveIds.Nodup := by
  refine List.pairwise_map.mpr ((store.messages.consistent.filter _).imp ?_)
  exact fun apart same => apart (.inl same)

/-- The rows that are inserted, after the ones whose messages are not live. -/
theorem reenqueueAllMessages_rows (now : Int) (store : Store) :
    (reenqueueAllMessages now store).2.indexQueue.rows =
      (store.indexQueue.rows.filter fun row => decide (row.messageId ∉ store.liveIds)) ++
        store.liveIds.map fun id => IndexQueueRow.mk id 0 none now false none := by
  have apart : (store.liveIds.map fun id => IndexQueueRow.mk id 0 none now false none).Pairwise
      fun earlier later => ¬ SameQueued earlier later := List.pairwise_map.mpr (liveIds_nodup store)
  rw [reenqueueAllMessages, Table.foldl_replace_rows apart]
  simp only [List.forall_mem_map, SameQueued]
  congr 2
  funext row
  congr 1
  exact propext ⟨fun free queued => free _ queued rfl, fun absent id live same =>
    absent (same ▸ live)⟩

/-- After `reenqueue_all_messages` the queue has one row for each live message and no other, none
of them with a failure, and the count returned is theirs. -/
structure RebuildsQueue (now : Int) (store : Store) : Prop where
  messages : ((reenqueueAllMessages now store).2.indexQueue.rows.map
    IndexQueueRow.messageId).Perm store.liveIds
  fresh : ∀ row ∈ (reenqueueAllMessages now store).2.indexQueue.rows,
    row.attempts = 0 ∧ row.lastError = none ∧ row.failedPermanent = false
  count : (reenqueueAllMessages now store).1 =
    (reenqueueAllMessages now store).2.indexQueue.rows.length

/-- The queue is rebuilt exactly when it held no rows but those of live messages: the row of a
message that is tombstoned or gone stays as it was. -/
theorem rebuildsQueue_iff (now : Int) (store : Store) :
    RebuildsQueue now store ↔
      ∀ row ∈ store.indexQueue.rows, ∃ message ∈ store.messages.rows,
        message.messageId = row.messageId ∧ message.tombstonedAt = none := by
  simp only [← mem_liveIds]
  constructor
  · intro rebuilt row queued
    by_contra dead
    have kept : row ∈ (reenqueueAllMessages now store).2.indexQueue.rows := by
      rw [reenqueueAllMessages_rows]
      exact List.mem_append_left _ (List.mem_filter.mpr ⟨queued, decide_eq_true dead⟩)
    exact dead (rebuilt.messages.mem_iff.mp (List.mem_map_of_mem kept))
  · intro live
    have none_kept : (store.indexQueue.rows.filter fun row =>
        decide (row.messageId ∉ store.liveIds)) = [] := by
      refine List.filter_eq_nil_iff.mpr fun row queued => ?_
      simpa using live row queued
    have rows := reenqueueAllMessages_rows now store
    rw [none_kept, List.nil_append] at rows
    refine ⟨?_, ?_, ?_⟩
    · rw [rows, List.map_map]
      exact .of_eq (List.map_id _)
    · rw [rows, List.forall_mem_map]
      exact fun _ _ => ⟨rfl, rfl, rfl⟩
    · rw [rows]
      rfl

section Sample

/-- A mail that was queued and then tombstoned. -/
def queuedAndTombstoned : Store :=
  tombstone 10 "work:a" (enqueue 5 "work:a"
    (run messageStep (.fresh oneAccount) [.insert { minted := "x" } (threadMail 1 "a" [])]))

/-- Its row is still in the queue, although nothing was enqueued. -/
theorem reenqueue_keeps_tombstoned : ¬ RebuildsQueue 20 queuedAndTombstoned := by
  intro rebuilt
  have counted := rebuilt.count
  revert counted
  decide

end Sample

end Scryd.Storage
