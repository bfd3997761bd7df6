import Scryd.Foundation.Run
import Scryd.Runtime.Ingest
import Scryd.Search.Drainer

/-!
# Delivery of content to the indexer

`StorageMessageSink::submit` and `Drainer::process` share the queue row of a
message: the one inserts the row and then enqueues the id, the other reads the
row, submits a document and then deletes the id from the queue.  Any number of
submits run beside one drainer, in any interleaving of these steps.
-/

namespace Scryd.Runtime

open Scryd.Foundation Scryd.Storage Scryd.Mime Scryd.Imap
open Scryd.Search (IndexSubmit documentOf buildDocument indexerBatch)

/-- Where `process` stands. -/
inductive Processing where
  | idle
  | missing (id : String)
  | loaded (submission : IndexSubmit)
  | indexed (id : String)
  deriving DecidableEq

/-- The message between its read and the deletion of its queue row. -/
def Processing.inFlight : Processing → Option String
  | .idle => none
  | .missing id => some id
  | .loaded submission => some submission.messageId
  | .indexed id => some id

structure Delivery where
  store : Store
  /-- The ids of the submits that have written their row but not yet enqueued it. -/
  inserted : List String
  /-- The rows of the current tick that `process` has yet to take up. -/
  batch : List IndexQueueRow
  processing : Processing
  /-- What the indexer was given, the latest first. -/
  submitted : List IndexSubmit

def Delivery.fresh (accounts : Table AccountRow SameAccount) : Delivery :=
  ⟨.fresh accounts, [], [], .idle, []⟩

/-- The document last submitted for a message. -/
def Delivery.lastSubmitted (state : Delivery) (id : String) : Option String :=
  (state.submitted.find? fun submission => decide (submission.messageId = id)).map (·.document)

inductive DeliveryEvent where
  /-- A submit reaches `insert_message`. -/
  | insert (threads : ThreadEnv) (fetched : FetchedMessage)
  /-- A submit that has inserted its row reaches `enqueue`. -/
  | enqueue (now : Int) (id : String)
  /-- The drainer takes its next step. -/
  | drain

variable (platform : Platform) (order : ScanOrder)

/-- A submit has written its row and still has to enqueue the id. -/
def Delivery.wrote (state : Delivery) (store : Store) (id : String) : Delivery :=
  { state with store := store, inserted := id :: state.inserted }

def insertStep (threads : ThreadEnv) (fetched : FetchedMessage) (state : Delivery) : Delivery :=
  match (outcome platform fetched).message? with
  | none => state
  | some parsed =>
      match insertMessage threads (toInsert platform fetched parsed) state.store with
      | .error _ => state
      | .ok store => state.wrote store (messageId platform fetched parsed)

def enqueueStep (now : Int) (id : String) (state : Delivery) : Delivery :=
  if id ∈ state.inserted then
    { state with store := enqueue now id state.store, inserted := state.inserted.erase id }
  else
    state

def drainStep (state : Delivery) : Delivery :=
  match state.processing with
  | .idle =>
      match state.batch with
      | [] => { state with batch := popBatch order indexerBatch state.store }
      | row :: rest =>
          match getMessage state.store row.messageId with
          | none => { state with batch := rest, processing := .missing row.messageId }
          | some message =>
              { state with
                batch := rest
                processing := .loaded ⟨row.messageId, documentOf message⟩ }
  | .loaded submission =>
      { state with
        processing := .indexed submission.messageId
        submitted := submission :: state.submitted }
  | .missing id => { state with store := deleteQueueRow id state.store, processing := .idle }
  | .indexed id => { state with store := deleteQueueRow id state.store, processing := .idle }

def deliver (state : Delivery) : DeliveryEvent → Delivery
  | .insert threads fetched => insertStep platform threads fetched state
  | .enqueue now id => enqueueStep now id state
  | .drain => drainStep order state

/-- A submit that succeeds is its two steps in sequence. -/
theorem submit_eq_steps {env : CallEnv} {fetched : FetchedMessage} {parsed : ParsedMessage}
    {world : World} {state : Delivery} (same : state.store = world.store)
    (parsedEq : (outcome platform fetched).message? = some parsed)
    (accepted : (submit platform env fetched world).1 = .ok ()) :
    (submit platform env fetched world).2.store =
      (enqueueStep env.now (messageId platform fetched parsed)
        (insertStep platform env.threads fetched state)).store := by
  simp only [submit, parsedEq] at accepted ⊢
  rcases submitParsed_cases platform env fetched parsed world with
    ⟨_, _, result⟩ | ⟨_, ⟨_, _, _, result⟩ | ⟨store, _, inserted, rest⟩⟩
  · rw [result] at accepted
    cases accepted
  · rw [result] at accepted
    cases accepted
  · rcases rest with ⟨_, _, result⟩ | ⟨_, result⟩
    · rw [result] at accepted
      cases accepted
    · rw [result]
      simp [insertStep, enqueueStep, Delivery.wrote, parsedEq, same, inserted]

/-- Taking up a row and submitting it is what `process` does between two deletions. -/
theorem drain_eq_process {state : Delivery} (idle : state.processing = .idle)
    {row : IndexQueueRow} {rest : List IndexQueueRow} (taken : state.batch = row :: rest)
    (queue : Option Store) {submission : IndexSubmit}
    (found : Search.submissionFor ⟨queue, fun _ => some state.store⟩ row = some submission) :
    drainStep order (drainStep order state) =
      { state with
        batch := rest
        processing := .indexed submission.messageId
        submitted := submission :: state.submitted } := by
  simp only [Search.submissionFor, Option.bind_some, Option.map_eq_some_iff] at found
  obtain ⟨message, read, rfl⟩ := found
  simp [drainStep, idle, taken, read]

/-- When no submit and no `process` is under way, a message that is not queued was last
submitted with its current content. -/
def UpToDate (state : Delivery) : Prop :=
  state.inserted = [] → state.processing = .idle →
    ∀ row ∈ state.store.messages.rows, ¬ state.store.Queued row.messageId →
      state.lastSubmitted row.messageId = some (documentOf row)

/-- The message will be enqueued, or is queued and not being processed: the drainer is going
to read it again. -/
def Pending (state : Delivery) (id : String) : Prop :=
  id ∈ state.inserted ∨ (state.store.Queued id ∧ state.processing.inFlight ≠ some id)

/-- The drainer has read, or the indexer was last given, the current content of the row. -/
def Current (state : Delivery) (row : MessageRow) : Prop :=
  state.processing = .loaded ⟨row.messageId, documentOf row⟩ ∨
    (state.lastSubmitted row.messageId = some (documentOf row) ∧
      ∀ document, state.processing ≠ .loaded ⟨row.messageId, document⟩)

/-- A submit may replace the body of a stored row only under the row's own id, or while that
row is still going to be read; and it may enqueue a message that is in flight only if the
drainer has its current content, or another submit is about to enqueue it again. -/
def DeliverySafe (state : Delivery) : DeliveryEvent → Prop
  | .insert _ fetched =>
      ∀ parsed, (outcome platform fetched).message? = some parsed →
        ∀ row ∈ state.store.messages.rows, row.key = fetched.key →
          messageId platform fetched parsed = row.messageId ∨ parsed.bodyMd = row.bodyMd ∨
            Pending state row.messageId
  | .enqueue _ id =>
      state.processing.inFlight = some id →
        ∀ row ∈ state.store.messages.rows, row.messageId = id →
          id ∈ state.inserted.erase id ∨ Current state row
  | .drain => True

/-- Every row is on its way to the indexer or has arrived there. -/
def Tracked (state : Delivery) : Prop :=
  ∀ row ∈ state.store.messages.rows, Pending state row.messageId ∨ Current state row

theorem Tracked.upToDate {state : Delivery} (tracked : Tracked state) : UpToDate state := by
  intro settled idle row stored unqueued
  rcases tracked row stored with (inserted | queued) | loaded | last
  · rw [settled] at inserted
    cases inserted
  · exact absurd queued.1 unqueued
  · rw [idle] at loaded
    cases loaded
  · exact last.1

variable {platform order}

theorem Pending.mono {state next : Delivery} {id : String} (pending : Pending state id)
    (inserted : id ∈ state.inserted → id ∈ next.inserted)
    (queued : state.store.Queued id → next.store.Queued id)
    (processing : next.processing = state.processing) : Pending next id := by
  rcases pending with waiting | ⟨isQueued, notInFlight⟩
  · exact .inl (inserted waiting)
  · exact .inr ⟨queued isQueued, by rwa [processing]⟩

theorem Current.congr {state next : Delivery} {row changed : MessageRow}
    (current : Current state row) (id : changed.messageId = row.messageId)
    (document : documentOf changed = documentOf row)
    (processing : next.processing = state.processing)
    (submitted : next.submitted = state.submitted) : Current next changed := by
  simpa only [Current, Delivery.lastSubmitted, id, document, processing, submitted] using current

theorem documentOf_refresh {m : MessageInsert} {row : MessageRow}
    (same : row.key = m.key → m.bodyMd = row.bodyMd) :
    documentOf (m.refresh row) = documentOf row := by
  unfold MessageInsert.refresh
  split
  next sameKey => simp [documentOf, same sameKey]
  next => rfl

theorem insertStep_cases (threads : ThreadEnv) (fetched : FetchedMessage) (state : Delivery) :
    Runtime.insertStep platform threads fetched state = state ∨
      ∃ parsed store, (outcome platform fetched).message? = some parsed ∧
        insertMessage threads (toInsert platform fetched parsed) state.store = .ok store ∧
        Runtime.insertStep platform threads fetched state =
          state.wrote store (messageId platform fetched parsed) := by
  unfold Runtime.insertStep
  split
  · exact .inl rfl
  next parsed parsedEq =>
    split
    · exact .inl rfl
    next store insertedEq => exact .inr ⟨parsed, store, parsedEq, insertedEq, rfl⟩

theorem Tracked.insertStep {state : Delivery} (tracked : Tracked state) {threads : ThreadEnv}
    {fetched : FetchedMessage} (safe : DeliverySafe platform state (.insert threads fetched)) :
    Tracked (Runtime.insertStep platform threads fetched state) := by
  rcases @insertStep_cases platform threads fetched state with
    same | ⟨parsed, store, parsedEq, insertedEq, same⟩
  · rw [same]
    exact tracked
  · rw [same]
    have queue := (insertMessage_frame insertedEq).2.2
    have stillPending : ∀ {id}, Pending state id →
        Pending (state.wrote store (messageId platform fetched parsed)) id := by
      intro id pending
      apply pending.mono
      · exact List.mem_cons_of_mem _
      · simp only [Delivery.wrote, Store.Queued, queue, imp_self]
      · rfl
    intro row stored
    rcases insertMessage_ok insertedEq with ⟨_, refreshed⟩ | ⟨_, _, messages, appended, rows⟩
    · -- The row of the key got a new body; the guard says who reads it.
      simp only [Delivery.wrote, refreshed, Store.refreshMessage, Table.update_rows,
        List.mem_map] at stored
      obtain ⟨old, oldStored, rfl⟩ := stored
      rw [MessageInsert.refresh_messageId]
      have unchanged : (old.key = fetched.key → parsed.bodyMd = old.bodyMd) →
          Pending (state.wrote store (messageId platform fetched parsed)) old.messageId ∨
          Current (state.wrote store (messageId platform fetched parsed))
            ((toInsert platform fetched parsed).refresh old) := by
        intro sameBody
        rcases tracked old oldStored with pending | current
        · exact .inl (stillPending pending)
        · exact .inr (current.congr (MessageInsert.refresh_messageId _ old)
            (documentOf_refresh sameBody) rfl rfl)
      by_cases sameKey : old.key = fetched.key
      · rcases safe parsed parsedEq old oldStored sameKey with sameId | sameBody | pending
        · rw [← sameId]
          exact .inl (.inl List.mem_cons_self)
        · exact unchanged fun _ => sameBody
        · exact .inl (stillPending pending)
      · exact unchanged fun same => absurd same sameKey
    · simp only [Delivery.wrote, appended, rows, List.mem_append, List.mem_singleton] at stored
      rcases stored with old | rfl
      · rcases tracked row old with pending | current
        · exact .inl (stillPending pending)
        · exact .inr (current.congr rfl rfl rfl rfl)
      · exact .inl (.inl List.mem_cons_self)

theorem Tracked.enqueueStep {state : Delivery} (tracked : Tracked state) {now : Int}
    {id : String} (safe : DeliverySafe platform state (.enqueue now id)) :
    Tracked (Runtime.enqueueStep now id state) := by
  unfold Runtime.enqueueStep
  split
  next waiting =>
    intro row stored
    have rows := (enqueue_frame now id state.store).2.2
    rw [rows] at stored
    by_cases isId : row.messageId = id
    · by_cases inFlight : state.processing.inFlight = some id
      · -- The queue row is there already and `process` is about to delete it.
        rcases safe inFlight row stored isId with again | current
        · exact .inl (.inl (by rw [isId]; exact again))
        · exact .inr (current.congr rfl rfl rfl rfl)
      · apply Or.inl
        apply Or.inr
        refine ⟨?_, by rwa [isId]⟩
        exact (queued_enqueue_iff now id row.messageId state.store).mpr (.inl isId)
    · rcases tracked row stored with pending | current
      · apply Or.inl
        refine (pending.mono ?_ ?_ rfl)
        · exact (List.mem_erase_of_ne isId).mpr
        · exact fun queued => (queued_enqueue_iff now id _ state.store).mpr (.inr queued)
      · exact .inr (current.congr rfl rfl rfl rfl)
  next absent => exact tracked

theorem lastSubmitted_cons (state : Delivery) (submission : IndexSubmit) (id : String) :
    ({ state with
        processing := .indexed submission.messageId
        submitted := submission :: state.submitted } : Delivery).lastSubmitted id =
      if submission.messageId = id then some submission.document
      else state.lastSubmitted id := by
  simp only [Delivery.lastSubmitted, List.find?_cons]
  by_cases isId : submission.messageId = id
  · simp [isId]
  · simp [isId]

/-- Taking a row up moves its message from the queue into the drainer's hands, with the
content it has at that time. -/
theorem Tracked.read {state : Delivery} (tracked : Tracked state)
    (idle : state.processing = .idle) (row : IndexQueueRow) (rest : List IndexQueueRow) :
    Tracked (match getMessage state.store row.messageId with
      | none => { state with batch := rest, processing := .missing row.messageId }
      | some message =>
          { state with
            batch := rest
            processing := .loaded ⟨row.messageId, documentOf message⟩ }) := by
  have others : ∀ next : Delivery, next.store = state.store → next.inserted = state.inserted →
      next.submitted = state.submitted → next.processing.inFlight = some row.messageId →
      ∀ message ∈ state.store.messages.rows, message.messageId ≠ row.messageId →
        Pending next message.messageId ∨ Current next message := by
    intro next store inserted submitted inFlight message stored other
    rcases tracked message stored with (waiting | queued) | loaded | last
    · exact .inl (.inl (by rwa [inserted]))
    · apply Or.inl
      apply Or.inr
      refine ⟨by rw [store]; exact queued.1, ?_⟩
      rw [inFlight]
      intro same
      exact other (Option.some.inj same).symm
    · rw [idle] at loaded
      cases loaded
    · apply Or.inr
      apply Or.inr
      refine ⟨?_, ?_⟩
      · rw [Delivery.lastSubmitted, submitted]
        exact last.1
      · intro document isLoaded
        rw [isLoaded] at inFlight
        exact other (Option.some.inj inFlight)
  cases found : getMessage state.store row.messageId with
  | none =>
      intro message stored
      exact others { state with batch := rest, processing := .missing row.messageId }
        rfl rfl rfl rfl message stored ((getMessage_eq_none_iff _ _).mp found message stored)
  | some read =>
      intro message stored
      by_cases same : message.messageId = row.messageId
      · have isRead := (getMessage_eq_some_iff _ _ _).mpr ⟨stored, same⟩
        rw [found] at isRead
        cases isRead
        exact .inr (.inl (by rw [same]))
      · exact others { state with
            batch := rest, processing := .loaded ⟨row.messageId, documentOf read⟩ }
          rfl rfl rfl rfl message stored same

theorem Tracked.index {state : Delivery} (tracked : Tracked state) {submission : IndexSubmit}
    (loaded : state.processing = .loaded submission) :
    Tracked { state with
      processing := .indexed submission.messageId
      submitted := submission :: state.submitted } := by
  intro row stored
  rcases tracked row stored with (waiting | queued) | isLoaded | last
  · exact .inl (.inl waiting)
  · apply Or.inl
    apply Or.inr
    refine ⟨queued.1, ?_⟩
    have notInFlight := queued.2
    rw [loaded] at notInFlight
    exact notInFlight
  · rw [loaded] at isLoaded
    cases isLoaded
    apply Or.inr
    apply Or.inr
    refine ⟨?_, by intro document impossible; cases impossible⟩
    rw [lastSubmitted_cons, if_pos rfl]
  · have other : submission.messageId ≠ row.messageId := by
      intro same
      apply last.2 submission.document
      rw [loaded, ← same]
    apply Or.inr
    apply Or.inr
    refine ⟨?_, by intro document impossible; cases impossible⟩
    rw [lastSubmitted_cons, if_neg other]
    exact last.1

/-- Deleting the queue row loses nothing: what was enqueued meanwhile is covered by the guard
of `enqueue`. -/
theorem Tracked.deleteRow {state : Delivery} (tracked : Tracked state) {id : String}
    (inFlight : state.processing.inFlight = some id)
    (notLoaded : ∀ submission, state.processing ≠ .loaded submission) :
    Tracked { state with store := deleteQueueRow id state.store, processing := .idle } := by
  intro row stored
  rcases tracked row stored with (waiting | queued) | isLoaded | last
  · exact .inl (.inl waiting)
  · apply Or.inl
    apply Or.inr
    refine ⟨?_, nofun⟩
    apply (queued_deleteQueueRow_iff id row.messageId state.store).mpr
    refine ⟨?_, queued.1⟩
    intro same
    apply queued.2
    rw [inFlight, same]
  · exact absurd isLoaded (notLoaded _)
  · exact .inr (.inr ⟨last.1, by intro document impossible; cases impossible⟩)

theorem Tracked.drainStep {state : Delivery} (tracked : Tracked state) :
    Tracked (Runtime.drainStep order state) := by
  unfold Runtime.drainStep
  split
  next idle =>
    split
    next =>
      intro row stored
      exact (tracked row stored).imp (fun pending => pending.mono (fun here => here)
        (fun here => here) rfl) fun current => current.congr rfl rfl rfl rfl
    next row rest _ => exact tracked.read idle row rest
  next submission loaded => exact tracked.index loaded
  next id missing =>
    apply tracked.deleteRow
    · rw [missing]
      rfl
    · intro submission impossible
      rw [missing] at impossible
      cases impossible
  next id indexed =>
    apply tracked.deleteRow
    · rw [indexed]
      rfl
    · intro submission impossible
      rw [indexed] at impossible
      cases impossible

theorem Tracked.deliver {state : Delivery} (tracked : Tracked state) {event : DeliveryEvent}
    (safe : DeliverySafe platform state event) :
    Tracked (Runtime.deliver platform order state event) := by
  cases event with
  | insert threads fetched => exact tracked.insertStep safe
  | enqueue now id => exact tracked.enqueueStep safe
  | drain => exact tracked.drainStep

/-- In a run whose steps are all safe no update is lost. -/
theorem no_lost_update_of_safe (platform : Platform) (order : ScanOrder)
    (accounts : Table AccountRow SameAccount) (events : List DeliveryEvent)
    (safe : Guarded (deliver platform order) (DeliverySafe platform)
      (Delivery.fresh accounts) events) :
    Always (deliver platform order) UpToDate (Delivery.fresh accounts) events := by
  have start : Tracked (Delivery.fresh accounts) := by
    intro row stored
    cases stored
  have always := always_of_guarded
    (fun state event (tracked : Tracked state) safe => tracked.deliver safe) start safe
  exact always.imp fun state => Tracked.upToDate

section Sample

/-- A mail is indexed, fetched again with another body and indexed again. -/
def refreshedMail : List DeliveryEvent :=
  [.insert {} (sampleMail "INBOX" 1 [97]), .enqueue 0 "work:a@example.org",
    .drain, .drain, .drain, .drain,
    .insert {} (sampleMail "INBOX" 1 [97, 98]), .enqueue 1 "work:a@example.org",
    .drain, .drain, .drain, .drain]

theorem refreshed_mail_up_to_date :
    Always (deliver samplePlatform .byText) UpToDate (Delivery.fresh workAccounts)
      refreshedMail := by
  refine no_lost_update_of_safe samplePlatform .byText workAccounts refreshedMail
    ⟨?_, ?_, trivial, trivial, trivial, trivial, ?_, ?_, trivial, trivial, trivial, trivial,
      trivial⟩
  · intro parsed _ row stored
    cases stored
  · intro inFlight
    cases inFlight
  · intro parsed parsedEq row stored _
    cases parsedEq
    left
    revert row
    decide
  · intro inFlight
    cases inFlight

/-- The same, but the mail is fetched again between the drainer's read and its delete. -/
def racingRefresh : List DeliveryEvent :=
  [.insert {} (sampleMail "INBOX" 1 [97]), .enqueue 0 "work:a@example.org", .drain, .drain,
    .insert {} (sampleMail "INBOX" 1 [97, 98]), .enqueue 1 "work:a@example.org",
    .drain, .drain]

theorem racing_refresh_lost :
    ¬ Always (deliver samplePlatform .byText) UpToDate (Delivery.fresh workAccounts)
      racingRefresh := by
  intro always
  have settled := always.last (by decide) (by decide)
  have emptyQueue : (run (deliver samplePlatform .byText) (Delivery.fresh workAccounts)
      racingRefresh).store.indexQueue.rows = [] := by decide
  have unqueued : ∀ id, ¬ (run (deliver samplePlatform .byText) (Delivery.fresh workAccounts)
      racingRefresh).store.Queued id := by
    rintro id ⟨row, stored, _⟩
    rw [emptyQueue] at stored
    cases stored
  have stale : ∃ row ∈ (run (deliver samplePlatform .byText) (Delivery.fresh workAccounts)
      racingRefresh).store.messages.rows,
      (run (deliver samplePlatform .byText) (Delivery.fresh workAccounts)
        racingRefresh).lastSubmitted row.messageId ≠ some (documentOf row) := by decide
  obtain ⟨row, stored, different⟩ := stale
  exact different (settled row stored (unqueued row.messageId))

end Sample

end Scryd.Runtime
