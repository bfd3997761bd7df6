import Scryd.Runtime.Ingest
import Scryd.Search.Retry

/-!
# Submitting over what earlier calls left

The upsert refreshes the content of a row and leaves its id and its tombstone
alone, and `enqueue` only knows the rows that are still queued.  What a submit
achieves, and what a repeated one changes, is therefore decided by the row of
its key and by the queue.
-/

namespace Scryd.Runtime

open Scryd.Foundation Scryd.Storage Scryd.Mime Scryd.Imap

/-- The calls that write the rows and the queue.  A drain processes a queue row that it has
read earlier, with an indexer of any outcome. -/
inductive StoreCall where
  | submit (env : CallEnv) (fetched : FetchedMessage)
  | tombstone (now : Int) (id : String)
  | drain (outside : Search.Outside Unit) (row : IndexQueueRow)

variable (platform : Platform)

def storeCall (world : World) : StoreCall → World
  | .submit env fetched => (submit platform env fetched world).2
  | .tombstone now id => { world with store := tombstone now id world.store }
  | .drain outside row =>
      { world with store := (Search.Drain.process outside ⟨world.store, (), []⟩ row).store }

variable {platform} {env : CallEnv} {fetched : FetchedMessage} {parsed : ParsedMessage}
  {world : World}

section Outcome

/-- A submit that returns `Ok` for a parsed message has inserted its row and enqueued its id. -/
theorem submit_ok (parses : (outcome platform fetched).message? = some parsed)
    (accepted : (submit platform env fetched world).1 = .ok ()) :
    ∃ store, insertMessage env.threads (toInsert platform fetched parsed) world.store = .ok store ∧
      (submit platform env fetched world).2.store =
        enqueue env.now (messageId platform fetched parsed) store := by
  simp only [submit, parses] at accepted ⊢
  rcases submitParsed_cases platform env fetched parsed world with
    ⟨_, _, result⟩ | ⟨_, ⟨_, _, _, result⟩ | ⟨store, _, inserted, ⟨_, _, result⟩ | ⟨_, result⟩⟩⟩
  · rw [result] at accepted
    cases accepted
  · rw [result] at accepted
    cases accepted
  · rw [result] at accepted
    cases accepted
  · exact ⟨store, inserted, by rw [result]⟩

/-- When the key has a row, only a failing statement keeps a submit from returning `Ok`. -/
theorem submit_ok_of_stored (parses : (outcome platform fetched).message? = some parsed)
    (stored : ∃ row ∈ world.store.messages.rows, row.key = fetched.key)
    (faultFree : env.faultFree) : (submit platform env fetched world).1 = .ok () := by
  obtain ⟨noRawFault, noInsertFault, noEnqueueFault⟩ := faultFree
  have refreshes := @insertMessage_stored (toInsert platform fetched parsed) world.store stored
    env.threads
  simp only [submit, parses]
  rcases submitParsed_cases platform env fetched parsed world with
    ⟨rawFails, _⟩ | ⟨_, ⟨_, reason, refused, _⟩ |
      ⟨_, _, _, ⟨enqueueFails, _⟩ | ⟨_, result⟩⟩⟩
  · simp [noRawFault] at rawFails
  · simp [attempt, noInsertFault, refreshes] at refused
  · simp [noEnqueueFault] at enqueueFails
  · rw [result]

theorem submit_faultFree_of_ok (parses : (outcome platform fetched).message? = some parsed)
    (accepted : (submit platform env fetched world).1 = .ok ()) : env.faultFree := by
  simp only [submit, parses] at accepted
  rcases submitParsed_cases platform env fetched parsed world with
    ⟨_, _, result⟩ | ⟨noRawFault, ⟨_, _, _, result⟩ |
      ⟨_, noInsertFault, _, ⟨_, _, result⟩ | ⟨noEnqueueFault, _⟩⟩⟩
  · rw [result] at accepted
    cases accepted
  · rw [result] at accepted
    cases accepted
  · rw [result] at accepted
    cases accepted
  · exact ⟨noRawFault, noInsertFault, noEnqueueFault⟩

end Outcome

section Visibility

/-- The id of the message leads to a live row with its identity and its body. -/
def Visible (platform : Platform) (fetched : FetchedMessage) (parsed : ParsedMessage)
    (store : Store) : Prop :=
  ∃ row, getMessage store (messageId platform fetched parsed) = some row ∧
    row.tombstonedAt = none ∧ row.accountId = fetched.accountId ∧ row.folder = fetched.folder ∧
    row.serverUid = fetched.serverUid ∧ row.uidvalidity = fetched.uidvalidity ∧
    row.bodyMd = parsed.bodyMd

theorem visible_iff (platform : Platform) (fetched : FetchedMessage) (parsed : ParsedMessage)
    (store : Store) : Visible platform fetched parsed store ↔
      ∃ row ∈ store.messages.rows, row.messageId = messageId platform fetched parsed ∧
        row.tombstonedAt = none ∧ row.key = fetched.key ∧ row.bodyMd = parsed.bodyMd := by
  simp only [Visible, getMessage_eq_some_iff, MessageRow.key, FetchedMessage.key,
    MessageKey.mk.injEq, and_assoc]

/-- A row that has the key of the message already is live and has the id of the message too. -/
def KeyAvailable (platform : Platform) (fetched : FetchedMessage) (parsed : ParsedMessage)
    (store : Store) : Prop :=
  ∀ row ∈ store.messages.rows, row.key = fetched.key →
    row.messageId = messageId platform fetched parsed ∧ row.tombstonedAt = none

/-- What a successful submit wrote is visible exactly when its key was available. -/
theorem visible_submit_iff (parses : (outcome platform fetched).message? = some parsed)
    (accepted : (submit platform env fetched world).1 = .ok ()) :
    Visible platform fetched parsed (submit platform env fetched world).2.store ↔
      KeyAvailable platform fetched parsed world.store := by
  obtain ⟨store, inserted, after⟩ := submit_ok parses accepted
  rw [visible_iff, after, (enqueue_frame _ _ _).2.2]
  rcases insertMessage_ok inserted with ⟨⟨row, stored, sameKey⟩, rfl⟩ |
    ⟨free, _, messages, rfl, rows⟩
  · rw [toInsert_key] at sameKey
    constructor
    · rintro ⟨_, refreshed, isId, live, isKey, _⟩ other otherStored otherKey
      obtain ⟨old, oldStored, rfl⟩ := List.mem_map.mp refreshed
      rw [MessageInsert.refresh_key] at isKey
      have same := world.store.messages.eq_of_conflict SameMessage.symmetric otherStored oldStored
        (.inr (otherKey.trans isKey.symm))
      rw [same]
      rw [MessageInsert.refresh_messageId] at isId
      rw [MessageInsert.refresh, toInsert_key, if_pos isKey] at live
      exact ⟨isId, live⟩
    · intro available
      obtain ⟨isId, live⟩ := available row stored sameKey
      refine ⟨(toInsert platform fetched parsed).refresh row,
        List.mem_map_of_mem stored, ?_, ?_, ?_, ?_⟩
      · rw [MessageInsert.refresh_messageId, isId]
      · rw [MessageInsert.refresh, toInsert_key, if_pos sameKey]
        exact live
      · rw [MessageInsert.refresh_key, sameKey]
      · rw [MessageInsert.refresh, toInsert_key, if_pos sameKey]
        rfl
  · apply iff_of_true
    · refine ⟨world.store.newRow env.threads (toInsert platform fetched parsed), ?_, rfl, rfl, rfl,
        rfl⟩
      rw [rows]
      exact List.mem_append_right _ (List.mem_singleton.mpr rfl)
    · intro row stored sameKey
      exact absurd sameKey (free row stored).1

/-- If a submit of a message that parses returns `Ok`, the message is visible. -/
def SubmitVisible (platform : Platform) (world : World) : StoreCall → Prop
  | .submit env fetched => ∀ parsed, (outcome platform fetched).message? = some parsed →
      (submit platform env fetched world).1 = .ok () →
      Visible platform fetched parsed (submit platform env fetched world).2.store
  | _ => True

/-- A submit none of whose statements fails finds its key available. -/
def SubmitAvailable (platform : Platform) (world : World) : StoreCall → Prop
  | .submit env fetched => ∀ parsed, (outcome platform fetched).message? = some parsed →
      env.faultFree → KeyAvailable platform fetched parsed world.store
  | _ => True

theorem submitVisible_iff (world : World) (call : StoreCall) :
    SubmitVisible platform world call ↔ SubmitAvailable platform world call := by
  cases call with
  | tombstone | drain => exact Iff.rfl
  | submit env fetched =>
      constructor
      · intro visible parsed parses faultFree row stored sameKey
        have accepted := submit_ok_of_stored parses ⟨row, stored, sameKey⟩ faultFree
        exact (visible_submit_iff parses accepted).mp (visible parsed parses accepted) row stored
          sameKey
      · intro available parsed parses accepted
        exact (visible_submit_iff parses accepted).mpr
          (available parsed parses (submit_faultFree_of_ok parses accepted))

/-- Along a run of submits, tombstones and drains, all that is submitted successfully is visible
exactly when each key is available at its submit. -/
theorem submits_visible_iff (platform : Platform) (accounts : Table AccountRow SameAccount)
    (calls : List StoreCall) :
    Guarded (storeCall platform) (SubmitVisible platform) (.fresh accounts) calls ↔
      Guarded (storeCall platform) (SubmitAvailable platform) (.fresh accounts) calls := by
  constructor
  · exact fun visible => visible.imp fun world call => (submitVisible_iff world call).mp
  · exact fun available => available.imp fun world call => (submitVisible_iff world call).mpr

/-- A mail that came back after it was tombstoned: its submit succeeds and it stays hidden. -/
theorem resubmitted_tombstone_hidden :
    ¬ Guarded (storeCall samplePlatform) (SubmitVisible samplePlatform) (.fresh workAccounts)
      [.submit {} (sampleMail "INBOX" 1 [97]), .tombstone 5 "work:a@example.org",
        .submit {} (sampleMail "INBOX" 1 [97])] := by
  intro visible
  obtain ⟨row, found, live, _⟩ := visible.2.2.1 (sampleParse [97]) rfl rfl
  have hidden : (getMessage (run (storeCall samplePlatform) (.fresh workAccounts)
      [.submit {} (sampleMail "INBOX" 1 [97]), .tombstone 5 "work:a@example.org",
        .submit {} (sampleMail "INBOX" 1 [97])]).store "work:a@example.org").map
          (·.tombstonedAt) = some (some 5) := by decide
  have same := congrArg (Option.map (·.tombstonedAt)) found
  rw [Option.map_some, live] at same
  exact absurd (same.symm.trans hidden) (by decide)

end Visibility

section Replay

/-- The rows are the same, and so is the work that is queued for the index. -/
def Unchanged (before after : World) : Prop :=
  after.store.messages.rows = before.store.messages.rows ∧
    after.store.indexQueue.rows = before.store.indexQueue.rows

/-- A submit that gets as far as its insert finds the row of its key with the content of the
message; and one that gets as far as its enqueue finds the message queued. -/
def ReplaySafe (platform : Platform) (env : CallEnv) (fetched : FetchedMessage)
    (parsed : ParsedMessage) (store : Store) : Prop :=
  env.rawFault = none → env.insertFault = none →
    (∀ row ∈ store.messages.rows, row.key = fetched.key →
      row.bodyMd = parsed.bodyMd ∧ row.sizeBytes = fetched.rawBytes.length ∧
        row.rawPath = submitPath platform fetched parsed) ∧
    (env.enqueueFault = none → store.Queued (messageId platform fetched parsed))

/-- Over a row of its key, a submit changes nothing exactly when it is safe. -/
theorem submit_unchanged_iff (parses : (outcome platform fetched).message? = some parsed)
    (stored : ∃ row ∈ world.store.messages.rows, row.key = fetched.key) :
    Unchanged world (submit platform env fetched world).2 ↔
      ReplaySafe platform env fetched parsed world.store := by
  have refreshes := @insertMessage_stored (toInsert platform fetched parsed) world.store stored
    env.threads
  have rows := world.store.refreshMessage_unchanged_iff (toInsert platform fetched parsed)
  simp only [submit, parses, Unchanged, ReplaySafe]
  rcases submitParsed_cases platform env fetched parsed world with
    ⟨rawFails, _, result⟩ | ⟨noRawFault, ⟨_, reason, refused, result⟩ |
      ⟨store, noInsertFault, inserted, rest⟩⟩
  · rw [result]
    apply iff_of_true ⟨rfl, rfl⟩
    intro noRawFault
    simp [noRawFault] at rawFails
  · rw [result]
    apply iff_of_true ⟨rfl, rfl⟩
    intro _ noInsertFault
    simp [attempt, noInsertFault, refreshes] at refused
  · rw [refreshes, Except.ok.injEq] at inserted
    subst inserted
    simp only [noRawFault, noInsertFault, true_implies]
    rcases rest with ⟨enqueueFails, _, result⟩ | ⟨noEnqueueFault, result⟩
    · have notReached : env.enqueueFault ≠ none := by
        intro none
        simp [none] at enqueueFails
      simp only [result, rows, notReached, false_implies, and_true]
      exact and_iff_left rfl
    · simp only [result, enqueue_frame, rows, noEnqueueFault, true_implies]
      exact and_congr_right fun _ =>
        enqueue_unchanged_iff env.now _ (world.store.refreshMessage _)

theorem process_messages {σ : Type} (outside : Search.Outside σ) (drain : Search.Drain σ)
    (row : IndexQueueRow) :
    (Search.Drain.process outside drain row).store.messages = drain.store.messages := by
  unfold Search.Drain.process
  split
  · rfl
  · split
    · rfl
    · unfold markFailed
      split <;> rfl

/-- A key that has a row keeps one. -/
theorem storeCall_keepsKey (platform : Platform) (world : World) (call : StoreCall)
    {key : MessageKey} (stored : ∃ row ∈ world.store.messages.rows, row.key = key) :
    ∃ row ∈ (storeCall platform world call).store.messages.rows, row.key = key := by
  cases call with
  | tombstone now id =>
      obtain ⟨row, rowStored, isKey⟩ := stored
      exact ⟨tombstoneRow now id row, List.mem_map_of_mem rowStored,
        (tombstoneRow_key now id row).trans isKey⟩
  | drain outside row =>
      simp only [storeCall, process_messages]
      exact stored
  | submit env fetched =>
      simp only [storeCall]
      rcases submit_messages platform env fetched world with
        same | ⟨parsed, store, _, inserted, same⟩
      · rwa [same]
      · rw [same]
        obtain ⟨own, _, frame⟩ := insertMessage_effect inserted
        by_cases isOwn : key = (toInsert platform fetched parsed).key
        · rwa [isOwn]
        · obtain ⟨row, rowStored, isKey⟩ := stored
          exact ⟨row, (frame row (isKey ▸ isOwn)).mpr rowStored, isKey⟩

/-- A message that was once submitted successfully, then any calls, then the same message again:
this changes nothing exactly when its row still has its content and its queue row is still
there, as far as the second submit gets. -/
theorem replay_unchanged_iff (platform : Platform) (accounts : Table AccountRow SameAccount)
    (before after : List StoreCall) (env again : CallEnv) {fetched : FetchedMessage}
    {parsed : ParsedMessage} (parses : (outcome platform fetched).message? = some parsed)
    (ingested : (submit platform env fetched
      (run (storeCall platform) (.fresh accounts) before)).1 = .ok ()) :
    Unchanged
        (run (storeCall platform) (.fresh accounts) (before ++ .submit env fetched :: after))
        (submit platform again fetched
          (run (storeCall platform) (.fresh accounts)
            (before ++ .submit env fetched :: after))).2 ↔
      ReplaySafe platform again fetched parsed
        (run (storeCall platform) (.fresh accounts)
          (before ++ .submit env fetched :: after)).store := by
  apply submit_unchanged_iff parses
  rw [run_append, run_cons]
  apply @run_preserves _ _ (storeCall platform)
    (fun world : World => ∃ row ∈ world.store.messages.rows, row.key = fetched.key)
  · exact fun world call stored => storeCall_keepsKey platform world call stored
  · obtain ⟨store, inserted, isStore⟩ := submit_ok parses ingested
    simp only [storeCall, isStore, enqueue_frame]
    exact (insertMessage_effect inserted).1

/-- An indexer that accepts everything. -/
def acceptAll : Search.Outside Unit := ⟨fun _ state => (.ok (), state), fun _ => 0⟩

def sampleQueueRow : IndexQueueRow := ⟨"work:a@example.org", 0, none, 0, false, none⟩

/-- Once the mail is indexed and its queue row deleted, submitting it again queues it again. -/
theorem replay_after_drain_requeues :
    (outcome samplePlatform (sampleMail "INBOX" 1 [97])).message? = some (sampleParse [97]) ∧
      (submit samplePlatform {} (sampleMail "INBOX" 1 [97]) (.fresh workAccounts)).1 = .ok () ∧
      ¬ Unchanged
        (run (storeCall samplePlatform) (.fresh workAccounts)
          [.submit {} (sampleMail "INBOX" 1 [97]), .drain acceptAll sampleQueueRow])
        (submit samplePlatform {} (sampleMail "INBOX" 1 [97])
          (run (storeCall samplePlatform) (.fresh workAccounts)
            [.submit {} (sampleMail "INBOX" 1 [97]), .drain acceptAll sampleQueueRow])).2 := by
  refine ⟨rfl, rfl, fun unchanged => ?_⟩
  have lengths := congrArg List.length unchanged.2
  exact absurd lengths (by decide)

theorem replay_while_pending_unchanged :
    Unchanged
        (run (storeCall samplePlatform) (.fresh workAccounts)
          [.submit {} (sampleMail "INBOX" 1 [97])])
        (submit samplePlatform {} (sampleMail "INBOX" 1 [97])
          (run (storeCall samplePlatform) (.fresh workAccounts)
            [.submit {} (sampleMail "INBOX" 1 [97])])).2 := by
  have parses : (outcome samplePlatform (sampleMail "INBOX" 1 [97])).message? =
      some (sampleParse [97]) := rfl
  refine (replay_unchanged_iff samplePlatform workAccounts [] [] {} {} parses rfl).mpr ?_
  intro _ _
  constructor
  · decide
  · exact fun _ => ⟨sampleQueueRow, by decide⟩

end Replay

end Scryd.Runtime
