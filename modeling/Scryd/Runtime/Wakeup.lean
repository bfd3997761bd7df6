import Scryd.Foundation.Wakeup
import Scryd.Runtime.Delivery

/-!
# Waking the drainer

`submit` enqueues a message and then calls `notify_one`.  The drainer pops a
batch and, if that is empty, waits for `notified()`; the poll timer is only
there in case a notification is lost.  None is, except with a submit that is
dropped between the two calls.
-/

namespace Scryd.Runtime

open Scryd.Foundation Scryd.Storage
open Scryd.Search (indexerBatch)

/-- Where `Drainer::run` stands. -/
inductive DrainerPhase where
  | loopHead
  | processing (row : IndexQueueRow) (rest : List IndexQueueRow)
  /-- The batch was empty; `notified()` is not polled yet. -/
  | idle
  | waiting
  | backingOff

/-- How `process` leaves the queue row. -/
inductive Processed where
  | deleted
  | failed (now : Int) (err : String) (maxAttempts : Nat)
  | kept

structure DrainerTask where
  store : Store
  /-- The stored permit of the `Notify`. -/
  notified : Bool
  /-- Submits that have enqueued and not called `notify_one` yet. -/
  unnotified : Nat
  /-- A submit was dropped there since a batch was last empty. -/
  dropped : Bool
  phase : DrainerPhase

inductive DrainerTaskEvent where
  /-- A submit reaches `insert_message`. -/
  | insert (threads : ThreadEnv) (m : MessageInsert)
  /-- A submit reaches `enqueue`. -/
  | enqueue (now : Int) (id : String)
  | notifyOne
  /-- The future of a submit that has enqueued is dropped. -/
  | drop
  | tombstone (now : Int) (id : String)
  /-- `pop_batch` returns. -/
  | pop
  | popFails
  /-- The next row of the batch is processed. -/
  | process (outcome : Processed)
  /-- The drainer starts to wait for `notified()`. -/
  | wait
  | timer

def DrainerTask.booted (store : Store) : DrainerTask := ⟨store, false, 0, false, .loopHead⟩

def Processed.apply (id : String) (store : Store) : Processed → Store
  | .deleted => deleteQueueRow id store
  | .failed now err maxAttempts => (markFailed now id err maxAttempts store).2
  | .kept => store

variable (order : ScanOrder)

def DrainerTask.step (task : DrainerTask) : DrainerTaskEvent → DrainerTask
  | .insert threads m =>
      match insertMessage threads m task.store with
      | .error _ => task
      | .ok store => { task with store := store }
  | .enqueue now id =>
      { task with store := enqueue now id task.store, unnotified := task.unnotified + 1 }
  | .notifyOne =>
      match task.unnotified, task.phase with
      | 0, _ => task
      | left + 1, .waiting => { task with unnotified := left, phase := .loopHead }
      | left + 1, _ => { task with unnotified := left, notified := true }
  | .drop =>
      match task.unnotified with
      | 0 => task
      | left + 1 => { task with unnotified := left, dropped := true }
  | .tombstone now id => { task with store := tombstone now id task.store }
  | .pop =>
      match task.phase with
      | .loopHead =>
          match popBatch order indexerBatch task.store with
          | [] => { task with phase := .idle, dropped := false }
          | row :: rest => { task with phase := .processing row rest }
      | _ => task
  | .popFails =>
      match task.phase with
      | .loopHead => { task with phase := .backingOff }
      | _ => task
  | .process outcome =>
      match task.phase with
      | .processing row rest =>
          { task with
            store := outcome.apply row.messageId task.store
            phase :=
              match rest with
              | [] => .loopHead
              | next :: later => .processing next later }
      | _ => task
  | .wait =>
      match task.phase with
      | .idle =>
          if task.notified then { task with notified := false, phase := .loopHead }
          else { task with phase := .waiting }
      | _ => task
  | .timer =>
      match task.phase with
      | .waiting => { task with phase := .loopHead }
      | .backingOff => { task with phase := .loopHead }
      | _ => task

section Simulation

/-- There is something to pop. -/
def HasBatch (store : Store) : Prop := popBatch order indexerBatch store ≠ []

instance : DecidablePred (HasBatch order) :=
  fun store => inferInstanceAs (Decidable (popBatch order indexerBatch store ≠ []))

def DrainerPhase.view : DrainerPhase → ConsumerPhase
  | .loopHead => .awake
  | .processing _ _ => .draining
  | .idle => .drowsy
  | .waiting => .asleep
  | .backingOff => .backingOff

/-- The drainer and the submits as a consumer and its producers. -/
def DrainerTask.view (task : DrainerTask) : Workshop Store :=
  ⟨task.store, task.notified, task.unnotified, task.dropped, task.phase.view⟩

variable {order} {task : DrainerTask}

theorem hasBatch_congr {store other : Store} (same : store.indexQueue = other.indexQueue) :
    HasBatch order store ↔ HasBatch order other := by
  rw [HasBatch, HasBatch, popBatch, popBatch, same]

/-- A batch is missing when all rows have failed permanently. -/
theorem hasBatch_iff (store : Store) :
    HasBatch order store ↔ ∃ row ∈ store.indexQueue.rows, row.failedPermanent = false := by
  rw [HasBatch, ne_eq, popBatch_eq_nil_iff order (by decide)]
  simp only [not_forall, Bool.not_eq_true, exists_prop]

/-- Each step is a step of the consumer or of a producer, or a change that leaves the queue
alone. -/
theorem watched_step (watched : Workshop.Watched (HasBatch order) task.view)
    (event : DrainerTaskEvent) :
    Workshop.Watched (HasBatch order) (task.step order event).view := by
  obtain ⟨store, notified, unnotified, dropped, phase⟩ := task
  cases event with
  | insert threads m =>
      rw [DrainerTask.step]
      cases inserted : insertMessage threads m store with
      | error reason => exact watched
      | ok next =>
          have sameQueue := (insertMessage_frame inserted).2.2
          exact watched.touch (hasBatch_congr sameQueue).mp
  | tombstone now id =>
      exact watched.touch (hasBatch_congr rfl).mp
  | enqueue now id => exact watched.step (.produce (enqueue now id))
  | notifyOne =>
      have signalled := watched.step .signal
      cases unnotified <;> cases phase <;> exact signalled
  | drop =>
      have abandoned := watched.step .abandon
      cases unnotified <;> exact abandoned
  | pop =>
      have looked := watched.step .look
      cases phase with
      | loopHead =>
          cases popped : popBatch order indexerBatch store with
          | nil =>
              have nothing : ¬ HasBatch order store := not_not.mpr popped
              simp only [Workshop.step, DrainerTask.view, DrainerPhase.view, nothing,
                if_false] at looked
              simp only [DrainerTask.step, popped]
              exact looked
          | cons row rest =>
              simp only [DrainerTask.step, popped]
              exact .of_draining rfl
      | processing row rest => exact watched
      | idle => exact watched
      | waiting => exact watched
      | backingOff => exact watched
  | popFails =>
      have stumbled := watched.step .stumble
      cases phase <;> exact stumbled
  | process outcome =>
      cases phase with
      | processing row rest =>
          cases rest with
          | nil => exact watched.step (.consume (outcome.apply row.messageId ·) true)
          | cons next later => exact watched.step (.consume (outcome.apply row.messageId ·) false)
      | loopHead => exact watched
      | idle => exact watched
      | waiting => exact watched
      | backingOff => exact watched
  | wait =>
      have dozed := watched.step .doze
      cases phase with
      | idle => cases notified <;> exact dozed
      | processing row rest => exact watched
      | loopHead => exact watched
      | waiting => exact watched
      | backingOff => exact watched
  | timer =>
      have woken := watched.step .timer
      cases phase <;> exact woken

/-- Nothing that can still be indexed lies in the queue while the drainer waits, unless a submit
is about to notify it or was dropped. -/
theorem no_lost_wakeup (order : ScanOrder) (store : Store) (events : List DrainerTaskEvent) :
    let reached := run (DrainerTask.step order) (.booted store) events
    reached.phase = .waiting → reached.unnotified = 0 → reached.dropped = false →
      ∀ row ∈ reached.store.indexQueue.rows, row.failedPermanent = true := by
  intro reached waiting noneLeft noneDropped row queued
  have preserved : ∀ (task : DrainerTask) event, Workshop.Watched (HasBatch order) task.view →
      Workshop.Watched (HasBatch order) (task.step order event).view :=
    fun _ event watched => watched_step watched event
  have started : Workshop.Watched (HasBatch order) (DrainerTask.booted store).view :=
    .of_busy nofun nofun
  have watched : Workshop.Watched (HasBatch order) reached.view :=
    run_preserves preserved started events
  by_contra pending
  have ready : HasBatch order reached.store :=
    (hasBatch_iff _).mpr ⟨row, queued, Bool.eq_false_iff.mpr pending⟩
  have asleep : reached.view.phase = .asleep := congrArg DrainerPhase.view waiting
  rcases (watched.asleep asleep).2 ready with outstanding | missed
  · exact absurd noneLeft outstanding.ne'
  · exact Bool.false_ne_true (noneDropped.symm.trans missed)

end Simulation

section Sample

/-- The mail is enqueued when the drainer has already found nothing, and cannot be indexed. -/
def lateMail : List DrainerTaskEvent :=
  [.pop, .enqueue 0 "m", .notifyOne, .wait, .pop,
    .process (.failed 0 "unreadable" 1), .pop, .wait]

theorem no_lost_wakeup_late :
    ∃ row ∈ (run (DrainerTask.step .byText) (.booted (.fresh .empty))
      lateMail).store.indexQueue.rows, row.failedPermanent = true :=
  ⟨_, List.mem_cons_self, no_lost_wakeup .byText (.fresh .empty) lateMail rfl rfl rfl _
    List.mem_cons_self⟩

end Sample

end Scryd.Runtime
