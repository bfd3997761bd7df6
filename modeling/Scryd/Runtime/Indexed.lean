import Scryd.Runtime.Delivery
import Scryd.Runtime.SegmentIds
import Scryd.Search.Retry

/-!
# The index that the drainer fills

The submits and the drainer once more, this time beside the witchcraft database
and with everything that may go wrong: an indexer call that stops between two
segments, storage calls of the drainer that fail, and a process that is killed
and started again over the store and the index as they are.
-/

namespace Scryd.Runtime

open Scryd.Foundation Scryd.Storage Scryd.Mime Scryd.Imap
open Scryd.Search (IndexSubmit IndexDoc WitchcraftDb WitchcraftIndexer Fault documentOf
  maxSegmentsPerMessage maxAttempts sanitizeError segmentUuid)

/-- The store with its sinks and its drainer, and the indexer. -/
structure Indexing (db : WitchcraftDb) where
  delivery : Delivery
  indexer : WitchcraftIndexer db
  /-- The message and the error of a failed submission that is yet to be recorded. -/
  failing : Option (String × String)

def Indexing.fresh (db : WitchcraftDb) (accounts : Table AccountRow SameAccount) : Indexing db :=
  ⟨.fresh accounts, .openBlocking db.empty, none⟩

inductive IndexingEvent where
  | insert (threads : ThreadEnv) (fetched : FetchedMessage)
  | enqueue (now : Int) (id : String)
  /-- The drainer takes its next step, and a call of the indexer fails as the fault says. -/
  | drain (now : Int) (fault : Fault)
  /-- The next storage call of the drainer fails. -/
  | storageFails
  | flushEmbeddings (failure : Option String)
  | flushIndex (failure : Option String)
  /-- The process is killed and started again. -/
  | restart

section Steps

variable {db : WitchcraftDb} (platform : Platform) (order : ScanOrder)

/-- The next step of `tick` and `process`. -/
def Indexing.drain (now : Int) (fault : Fault) (state : Indexing db) : Indexing db :=
  match state.failing with
  | some (id, error) =>
      { state with
        delivery := { state.delivery with
          store := (markFailed now id (sanitizeError error) maxAttempts state.delivery.store).2 }
        failing := none }
  | none =>
      match state.delivery.processing with
      | .loaded submission =>
          match state.indexer.submit submission fault with
          | (.ok _, indexer) =>
              { state with delivery := drainStep order state.delivery, indexer := indexer }
          | (.error error, indexer) =>
              { delivery := { state.delivery with processing := .idle }
                indexer := indexer
                failing := some (submission.messageId, error.text) }
      | _ => { state with delivery := drainStep order state.delivery }

/-- What `tick` and `process` do when a storage call returns `Err`: an unread queue, a message
that cannot be loaded, a queue row that stays, a failure that is not counted. -/
def Indexing.storageFails (state : Indexing db) : Indexing db :=
  match state.failing with
  | some _ => { state with failing := none }
  | none =>
      match state.delivery.processing with
      | .idle =>
          { state with delivery := { state.delivery with batch := state.delivery.batch.tail } }
      | .loaded _ => state
      | _ => { state with delivery := { state.delivery with processing := .idle } }

/-- A new process finds the store and the database, and no task at work. -/
def Indexing.restart (state : Indexing db) : Indexing db where
  delivery := { state.delivery with inserted := [], batch := [], processing := .idle }
  indexer := .openBlocking state.indexer.content
  failing := none

def indexing (state : Indexing db) : IndexingEvent → Indexing db
  | .insert threads fetched =>
      { state with delivery := insertStep platform threads fetched state.delivery }
  | .enqueue now id => { state with delivery := enqueueStep now id state.delivery }
  | .drain now fault => state.drain order now fault
  | .storageFails => state.storageFails
  | .flushEmbeddings failure => { state with indexer := (state.indexer.flushEmbeddings failure).2 }
  | .flushIndex failure => { state with indexer := (state.indexer.flushIndex failure).2 }
  | .restart => state.restart

/-- The submits are as safe as `DeliverySafe` asks for, and no process is killed between the two
writes of a submit, unless the message is queued anyway. -/
def IndexingSafe (state : Indexing db) : IndexingEvent → Prop
  | .insert threads fetched => DeliverySafe platform state.delivery (.insert threads fetched)
  | .enqueue now id => DeliverySafe platform state.delivery (.enqueue now id)
  | .restart => ∀ id ∈ state.delivery.inserted, state.delivery.store.Queued id
  | _ => True

end Steps

/-- Embedding and clustering leave the documents alone. -/
structure KeepsDocuments (db : WitchcraftDb) : Prop where
  embedChunks : ∀ limit content, db.stored (db.embedChunks limit content) = db.stored content
  embedFailed : ∀ content, db.stored (db.embedFailed content) = db.stored content
  indexChunks : ∀ content, db.stored (db.indexChunks content) = db.stored content

/-- No two messages of the store share a segment UUID. -/
def SegmentIdsApart (store : Store) : Prop :=
  ∀ first ∈ store.messages.rows, ∀ second ∈ store.messages.rows,
    SegmentsApart first.messageId second.messageId

def HasMessage (store : Store) (id : String) : Prop :=
  ∃ row ∈ store.messages.rows, row.messageId = id

section Index

variable {db : WitchcraftDb}

/-- The index holds every segment of a document of the message. -/
def Holds (content : db.Content) (id document : String) : Prop :=
  ∀ doc ∈ (IndexSubmit.mk id document).docs, db.stored content doc.uuid = some doc

/-- A call of the indexer adds the first segments of the document, and all of them if it
returns `Ok`. -/
theorem submit_content (indexer : WitchcraftIndexer db) (submission : IndexSubmit)
    (fault : Fault) :
    (∃ after, indexer.submit submission fault = (.ok (), after) ∧
      after.content = submission.docs.foldl db.addDoc indexer.content) ∨
    (∃ error after reached, indexer.submit submission fault = (.error error, after) ∧
      after.content = (submission.docs.take reached).foldl db.addDoc indexer.content) := by
  rw [WitchcraftIndexer.submit, WitchcraftIndexer.addDocs]
  rcases indexer.mutate_cases fault (submission.docs.map fun doc content =>
      db.addDoc content doc) "add_doc: " with ⟨done, _⟩ | ⟨reached, _, _, failed⟩
  · exact .inl ⟨_, done, by rw [List.foldl_map]⟩
  · exact .inr ⟨_, _, reached, failed, by rw [← List.map_take, List.foldl_map]⟩

theorem stored_addDocs {docs : List IndexDoc} {content : db.Content} {uuid : String}
    {doc : IndexDoc} (stored : db.stored (docs.foldl db.addDoc content) uuid = some doc) :
    (doc ∈ docs ∧ doc.uuid = uuid) ∨ db.stored content uuid = some doc := by
  induction docs generalizing content with
  | nil => exact .inr stored
  | cons first rest inductionHypothesis =>
      rcases inductionHypothesis stored with ⟨member, sameUuid⟩ | earlier
      · exact .inl ⟨List.mem_cons_of_mem first member, sameUuid⟩
      · rw [db.stored_addDoc] at earlier
        split at earlier
        next here =>
          cases earlier
          exact .inl ⟨List.mem_cons_self, here.symm⟩
        next => exact .inr earlier

theorem mem_docs {submission : IndexSubmit} {doc : IndexDoc} (member : doc ∈ submission.docs) :
    doc.messageId = submission.messageId ∧ doc.seg < maxSegmentsPerMessage := by
  obtain ⟨position, atPosition⟩ := List.getElem?_of_mem member
  obtain ⟨seg, id⟩ := IndexSubmit.docs_indexed atPosition
  obtain ⟨inside, _⟩ := List.getElem?_eq_some_iff.mp atPosition
  exact ⟨id, seg ▸ inside.trans_le submission.docs_length_le⟩

theorem holds_submit (submission : IndexSubmit) (content : db.Content) :
    Holds (submission.docs.foldl db.addDoc content) submission.messageId submission.document := by
  intro doc member
  exact WitchcraftDb.stored_addDocs_of_mem submission.docs_uuid_nodup member content

/-- Segments of one message never replace those of another one with other UUIDs. -/
theorem Holds.addDocs {content : db.Content} {id document : String}
    (holds : Holds content id document) {submission : IndexSubmit}
    (apart : SegmentsApart id submission.messageId) (other : id ≠ submission.messageId)
    {docs : List IndexDoc} (segments : docs ⊆ submission.docs) :
    Holds (docs.foldl db.addDoc content) id document := by
  intro doc member
  rw [WitchcraftDb.stored_addDocs_of_notMem]
  · exact holds doc member
  · intro shared
    obtain ⟨added, addedMember, sameUuid⟩ := List.mem_map.mp shared
    obtain ⟨addedId, addedInside⟩ := mem_docs (segments addedMember)
    obtain ⟨docId, docInside⟩ := mem_docs member
    rw [IndexDoc.uuid, IndexDoc.uuid, addedId, docId] at sameUuid
    exact other (apart _ _ docInside addedInside sameUuid.symm).1

end Index

section Drainer

/-- The next store has all the messages and all the queue rows of this one. -/
structure Extends (store next : Store) : Prop where
  messages : ∀ id, HasMessage store id → HasMessage next id
  queued : ∀ id, store.Queued id → next.Queued id

theorem Extends.refl (store : Store) : Extends store store := ⟨fun _ => id, fun _ => id⟩

theorem extends_insertMessage {threads : ThreadEnv} {m : MessageInsert} {store next : Store}
    (inserted : insertMessage threads m store = .ok next) : Extends store next := by
  refine ⟨?_, ?_⟩
  · rintro id ⟨row, stored, same⟩
    rcases insertMessage_ok inserted with ⟨_, rfl⟩ | ⟨_, _, messages, rfl, rows⟩
    · refine ⟨m.refresh row, ?_, by rw [MessageInsert.refresh_messageId, same]⟩
      rw [Store.refreshMessage, Table.update_rows]
      exact List.mem_map_of_mem stored
    · exact ⟨row, by rw [rows]; exact List.mem_append_left _ stored, same⟩
  · intro id queued
    rwa [Store.Queued, (insertMessage_frame inserted).2.2]

theorem extends_enqueue (now : Int) (id : String) (store : Store) :
    Extends store (enqueue now id store) := by
  refine ⟨?_, fun other queued => (queued_enqueue_iff now id other store).mpr (.inr queued)⟩
  intro other has
  rwa [HasMessage, (enqueue_frame now id store).2.2]

theorem extends_markFailed (now : Int) (id error : String) (attempts : Nat) (store : Store) :
    (markFailed now id error attempts store).2.messages = store.messages ∧
      Extends store (markFailed now id error attempts store).2 := by
  unfold markFailed
  split
  · exact ⟨rfl, .refl store⟩
  · refine ⟨rfl, fun _ has => has, ?_⟩
    rintro other ⟨row, queued, same⟩
    exact ⟨_, List.mem_map_of_mem queued, by rw [recordFailure_messageId, same]⟩

theorem extends_insertStep (platform : Platform) (threads : ThreadEnv) (fetched : FetchedMessage)
    (state : Delivery) :
    Extends state.store (insertStep platform threads fetched state).store := by
  rcases @insertStep_cases platform threads fetched state with
    same | ⟨parsed, store, _, inserted, same⟩
  · rw [same]
    exact .refl _
  · rw [same]
    exact extends_insertMessage inserted

theorem extends_enqueueStep (now : Int) (id : String) (state : Delivery) :
    Extends state.store (enqueueStep now id state).store := by
  unfold enqueueStep
  split
  · exact extends_enqueue now id state.store
  · exact .refl _

/-- The step is about to delete the queue row of the message. -/
def Processing.Deletes (id : String) (processing : Processing) : Prop :=
  processing = .missing id ∨ processing = .indexed id

theorem Processing.Deletes.inFlight {processing : Processing} {id : String}
    (deletes : processing.Deletes id) : processing.inFlight = some id := by
  rcases deletes with rfl | rfl
  · rfl
  · rfl

theorem Processing.not_deletes_idle (id : String) : ¬ Processing.idle.Deletes id := by
  rintro (missing | indexed)
  · cases missing
  · cases indexed

theorem Processing.not_deletes_loaded (submission : IndexSubmit) (id : String) :
    ¬ (Processing.loaded submission).Deletes id := by
  rintro (missing | indexed)
  · cases missing
  · cases indexed

/-- Everything the drainer's next step can do. -/
theorem drainStep_cases (order : ScanOrder) (state : Delivery) :
    (state.processing = .idle ∧ state.batch = [] ∧ drainStep order state =
      { state with batch := popBatch order Search.indexerBatch state.store }) ∨
    (∃ row rest, state.processing = .idle ∧ state.batch = row :: rest ∧
      ((getMessage state.store row.messageId = none ∧ drainStep order state =
          { state with batch := rest, processing := .missing row.messageId }) ∨
        ∃ message, getMessage state.store row.messageId = some message ∧ drainStep order state =
          { state with
            batch := rest, processing := .loaded ⟨row.messageId, documentOf message⟩ })) ∨
    (∃ submission, state.processing = .loaded submission ∧ drainStep order state =
      { state with
        processing := .indexed submission.messageId
        submitted := submission :: state.submitted }) ∨
    (∃ id, state.processing.Deletes id ∧ drainStep order state =
      { state with store := deleteQueueRow id state.store, processing := .idle }) := by
  cases at_work : state.processing with
  | idle =>
      cases taken : state.batch with
      | nil => exact .inl ⟨rfl, rfl, by simp only [drainStep, at_work, taken]⟩
      | cons row rest =>
          refine .inr (.inl ⟨row, rest, rfl, rfl, ?_⟩)
          cases found : getMessage state.store row.messageId with
          | none => exact .inl ⟨rfl, by simp only [drainStep, at_work, taken, found]⟩
          | some message =>
              exact .inr ⟨message, rfl, by simp only [drainStep, at_work, taken, found]⟩
  | missing id => exact .inr (.inr (.inr ⟨id, .inl rfl, by simp only [drainStep, at_work]⟩))
  | loaded submission =>
      exact .inr (.inr (.inl ⟨submission, rfl, by simp only [drainStep, at_work]⟩))
  | indexed id => exact .inr (.inr (.inr ⟨id, .inr rfl, by simp only [drainStep, at_work]⟩))

theorem drainStep_frame (order : ScanOrder) (state : Delivery) :
    (drainStep order state).store.messages = state.store.messages ∧
      (drainStep order state).inserted = state.inserted := by
  rcases drainStep_cases order state with
    ⟨_, _, step⟩ | ⟨_, _, _, _, ⟨_, step⟩ | ⟨_, _, step⟩⟩ | ⟨_, _, step⟩ | ⟨_, _, step⟩
  all_goals
    rw [step]
    exact ⟨rfl, rfl⟩

/-- What the drainer holds is queued, once, and what it has read or submitted is in the store. -/
structure Held (state : Delivery) : Prop where
  batch : ∀ row ∈ state.batch, state.store.Queued row.messageId
  apart : (state.batch.map IndexQueueRow.messageId).Nodup
  inFlight : ∀ id, state.processing.inFlight = some id →
    id ∉ state.batch.map IndexQueueRow.messageId
  loaded : ∀ submission, state.processing = .loaded submission →
    state.store.Queued submission.messageId ∧ HasMessage state.store submission.messageId
  submitted : ∀ submission ∈ state.submitted, HasMessage state.store submission.messageId

namespace Held

variable {state : Delivery}

theorem fresh (accounts : Table AccountRow SameAccount) : Held (.fresh accounts) := by
  refine ⟨?_, List.nodup_nil, ?_, ?_, ?_⟩
  · intro row member
    cases member
  · intro id inFlight
    cases inFlight
  · intro submission loaded
    cases loaded
  · intro submission member
    cases member

theorem extended (held : Held state) {next : Delivery} (grown : Extends state.store next.store)
    (batch : next.batch = state.batch) (processing : next.processing = state.processing)
    (submitted : next.submitted = state.submitted) : Held next := by
  refine ⟨?_, by rw [batch]; exact held.apart, ?_, ?_, ?_⟩
  · intro row member
    rw [batch] at member
    exact grown.queued _ (held.batch row member)
  · rw [batch, processing]
    exact held.inFlight
  · intro submission loaded
    rw [processing] at loaded
    obtain ⟨queued, has⟩ := held.loaded submission loaded
    exact ⟨grown.queued _ queued, grown.messages _ has⟩
  · intro submission member
    rw [submitted] at member
    exact grown.messages _ (held.submitted submission member)

/-- Dropping the message in flight and the first rows of the batch. -/
theorem dropped (held : Held state) {rows : List IndexQueueRow}
    (fewer : rows.Sublist state.batch) :
    Held { state with batch := rows, processing := .idle } := by
  refine ⟨?_, (fewer.map _).nodup held.apart, ?_, ?_, held.submitted⟩
  · intro row member
    exact held.batch row (fewer.subset member)
  · intro id inFlight
    cases inFlight
  · intro submission loaded
    cases loaded

theorem popped (held : Held state) (order : ScanOrder) (idle : state.processing = .idle) :
    Held { state with batch := popBatch order Search.indexerBatch state.store } := by
  refine ⟨?_, popBatch_nodup order _ _, ?_, held.loaded, held.submitted⟩
  · intro row member
    exact ⟨row, (mem_of_mem_popBatch member).1, rfl⟩
  · intro id inFlight
    dsimp only at inFlight
    rw [idle] at inFlight
    cases inFlight

/-- Taking the next row of the batch. -/
theorem taken (held : Held state) {row : IndexQueueRow} {rest : List IndexQueueRow}
    (batch : state.batch = row :: rest) {processing : Processing}
    (inFlight : processing.inFlight = some row.messageId)
    (loaded : ∀ submission, processing = .loaded submission →
      HasMessage state.store submission.messageId) :
    Held { state with batch := rest, processing := processing } := by
  have queued := held.batch
  have apart := held.apart
  rw [batch] at queued
  rw [batch, List.map_cons, List.nodup_cons] at apart
  refine ⟨?_, apart.2, ?_, ?_, held.submitted⟩
  · intro other member
    exact queued other (List.mem_cons_of_mem row member)
  · intro id isInFlight
    dsimp only at isInFlight
    rw [inFlight] at isInFlight
    cases isInFlight
    exact apart.1
  · intro submission isLoaded
    dsimp only at isLoaded
    refine ⟨?_, loaded submission isLoaded⟩
    rw [isLoaded] at inFlight
    have sameId : submission.messageId = row.messageId := Option.some.inj inFlight
    rw [sameId]
    exact queued row List.mem_cons_self

theorem drainStep (held : Held state) (order : ScanOrder) :
    Held (Runtime.drainStep order state) := by
  rcases drainStep_cases order state with
    ⟨idle, _, step⟩ | ⟨row, rest, _, batch, ⟨_, step⟩ | ⟨message, found, step⟩⟩ |
      ⟨submission, loaded, step⟩ | ⟨id, deletes, step⟩
  · rw [step]
    exact held.popped order idle
  · rw [step]
    exact held.taken batch rfl (by intro submission impossible; cases impossible)
  · rw [step]
    refine held.taken batch rfl ?_
    intro submission isLoaded
    cases isLoaded
    exact ⟨message, (getMessage_eq_some_iff _ _ _).mp found⟩
  · rw [step]
    have inFlight := held.inFlight submission.messageId (by rw [loaded]; rfl)
    refine ⟨held.batch, held.apart, ?_, ?_, ?_⟩
    · intro id isInFlight
      cases isInFlight
      exact inFlight
    · intro other impossible
      cases impossible
    · intro other member
      rcases List.mem_cons.mp member with rfl | earlier
      · exact (held.loaded other loaded).2
      · exact held.submitted other earlier
  · rw [step]
    have inFlight := deletes.inFlight
    refine ⟨?_, held.apart, ?_, ?_, held.submitted⟩
    · intro row member
      refine (queued_deleteQueueRow_iff id row.messageId state.store).mpr
        ⟨?_, held.batch row member⟩
      rintro rfl
      exact held.inFlight _ inFlight (List.mem_map_of_mem member)
    · intro other isInFlight
      cases isInFlight
    · intro submission impossible
      cases impossible

end Held

/-- A message that is let go before its queue row is deleted is queued still. -/
theorem Tracked.dropped {state : Delivery} (tracked : Tracked state) (held : Held state)
    (rows : List IndexQueueRow) :
    Tracked { state with batch := rows, processing := .idle } := by
  intro row stored
  rcases tracked row stored with (waiting | queued) | loaded | last
  · exact .inl (.inl waiting)
  · exact .inl (.inr ⟨queued.1, by intro impossible; cases impossible⟩)
  · exact .inl (.inr ⟨(held.loaded _ loaded).1, by intro impossible; cases impossible⟩)
  · exact .inr (.inr ⟨last.1, by intro document impossible; cases impossible⟩)

theorem Tracked.extended {state : Delivery} (tracked : Tracked state) {store : Store}
    (messages : store.messages = state.store.messages) (grown : Extends state.store store) :
    Tracked { state with store := store } := by
  intro row stored
  dsimp only at stored
  rw [messages] at stored
  rcases tracked row stored with pending | current
  · exact .inl (pending.mono (fun waiting => waiting) (grown.queued _) rfl)
  · exact .inr (current.congr rfl rfl rfl rfl)

end Drainer

section Calls

variable {db : WitchcraftDb} (order : ScanOrder) (now : Int) (fault : Fault)
  (state : Indexing db)

/-- Everything the drainer's next step can do to the store and the index. -/
theorem Indexing.drain_cases :
    (∃ id error, state.failing = some (id, error) ∧ state.drain order now fault =
      ⟨{ state.delivery with
          store := (markFailed now id (sanitizeError error) maxAttempts state.delivery.store).2 },
        state.indexer, none⟩) ∨
    (state.failing = none ∧ (∀ submission, state.delivery.processing ≠ .loaded submission) ∧
      state.drain order now fault =
        ⟨drainStep order state.delivery, state.indexer, none⟩) ∨
    (state.failing = none ∧ ∃ submission after,
      state.delivery.processing = .loaded submission ∧
      after.content = submission.docs.foldl db.addDoc state.indexer.content ∧
      state.drain order now fault =
        ⟨drainStep order state.delivery, after, none⟩) ∨
    (state.failing = none ∧ ∃ submission after reached error,
      state.delivery.processing = .loaded submission ∧
      after.content = (submission.docs.take reached).foldl db.addDoc state.indexer.content ∧
      state.drain order now fault =
        ⟨{ state.delivery with processing := .idle }, after,
          some (submission.messageId, error)⟩) := by
  unfold Indexing.drain
  cases recorded : state.failing with
  | some failed => exact .inl ⟨failed.1, failed.2, rfl, rfl⟩
  | none =>
      refine .inr ?_
      cases at_work : state.delivery.processing with
      | loaded submission =>
          rcases submit_content state.indexer submission fault with
            ⟨after, done, content⟩ | ⟨error, after, reached, failed, content⟩
          · refine .inr (.inl ⟨rfl, submission, after, rfl, content, ?_⟩)
            simp only [done]
          · refine .inr (.inr ⟨rfl, submission, after, reached, error.text, rfl, content, ?_⟩)
            simp only [failed]
      | idle =>
          exact .inl ⟨rfl, (by intro submission impossible; cases impossible), rfl⟩
      | missing id =>
          exact .inl ⟨rfl, (by intro submission impossible; cases impossible), rfl⟩
      | indexed id =>
          exact .inl ⟨rfl, (by intro submission impossible; cases impossible), rfl⟩

/-- A storage call that fails makes the drainer let go of the message, or go on to the next. -/
theorem Indexing.storageFails_cases :
    state.storageFails.indexer = state.indexer ∧
      (state.storageFails.delivery = state.delivery ∨
        ∃ rows, rows.Sublist state.delivery.batch ∧ state.storageFails.delivery =
          { state.delivery with batch := rows, processing := .idle }) := by
  unfold Indexing.storageFails
  split
  · exact ⟨rfl, .inl rfl⟩
  · split
    next idle =>
      refine ⟨rfl, .inr ⟨_, List.tail_sublist _, ?_⟩⟩
      rw [← idle]
    · exact ⟨rfl, .inl rfl⟩
    · exact ⟨rfl, .inr ⟨_, .refl _, rfl⟩⟩

theorem KeepsDocuments.flushEmbeddings (keeps : KeepsDocuments db)
    (indexer : WitchcraftIndexer db) (failure : Option String) :
    db.stored (indexer.flushEmbeddings failure).2.content = db.stored indexer.content := by
  unfold WitchcraftIndexer.flushEmbeddings
  split
  · split
    · exact keeps.embedFailed _
    · exact keeps.embedChunks _ _
  · rfl

theorem KeepsDocuments.flushIndex (keeps : KeepsDocuments db)
    (indexer : WitchcraftIndexer db) (failure : Option String) :
    db.stored (indexer.flushIndex failure).2.content = db.stored indexer.content := by
  unfold WitchcraftIndexer.flushIndex
  split
  · exact keeps.indexChunks _
  · exact keeps.indexChunks _

end Calls

section Moves

variable {db : WitchcraftDb} (platform : Platform) (order : ScanOrder)

/-- What a step does to the part of the state that the drainer and the index share. -/
inductive Move (state next : Indexing db) : Prop where
  /-- The store grew, or the index did some work on its documents. -/
  | extended (grown : Extends state.delivery.store next.delivery.store)
      (batch : next.delivery.batch = state.delivery.batch)
      (processing : next.delivery.processing = state.delivery.processing)
      (submitted : next.delivery.submitted = state.delivery.submitted)
      (content : db.stored next.indexer.content = db.stored state.indexer.content)
  | drained (notLoaded : ∀ submission, state.delivery.processing ≠ .loaded submission)
      (delivery : next.delivery = drainStep order state.delivery)
      (content : db.stored next.indexer.content = db.stored state.indexer.content)
  | indexed (submission : IndexSubmit)
      (loaded : state.delivery.processing = .loaded submission)
      (delivery : next.delivery = drainStep order state.delivery)
      (content : next.indexer.content =
        submission.docs.foldl db.addDoc state.indexer.content)
  | refused (submission : IndexSubmit) (reached : Nat)
      (loaded : state.delivery.processing = .loaded submission)
      (delivery : next.delivery = { state.delivery with processing := .idle })
      (content : next.indexer.content =
        (submission.docs.take reached).foldl db.addDoc state.indexer.content)
  | dropped (inserted : List String) (rows : List IndexQueueRow)
      (fewer : rows.Sublist state.delivery.batch)
      (delivery : next.delivery =
        { state.delivery with inserted := inserted, batch := rows, processing := .idle })
      (content : db.stored next.indexer.content = db.stored state.indexer.content)

theorem indexing_move (keeps : KeepsDocuments db) (state : Indexing db)
    (event : IndexingEvent) : Move order state (indexing platform order state event) := by
  cases event with
  | insert threads fetched =>
      have grown := extends_insertStep platform threads fetched state.delivery
      rcases @insertStep_cases platform threads fetched state.delivery with
        same | ⟨_, _, _, _, same⟩
      · refine .extended grown ?_ ?_ ?_ rfl
        all_goals rw [indexing, same]
      · refine .extended grown ?_ ?_ ?_ rfl
        all_goals
          rw [indexing, same]
          rfl
  | enqueue now id =>
      refine .extended (extends_enqueueStep now id state.delivery) ?_ ?_ ?_ rfl
      all_goals
        rw [indexing, enqueueStep]
        split
      all_goals rfl
  | drain now fault =>
      rw [indexing]
      rcases state.drain_cases order now fault with
        ⟨id, error, _, step⟩ | ⟨_, notLoaded, step⟩ |
          ⟨_, submission, after, loaded, content, step⟩ |
            ⟨_, submission, after, reached, error, loaded, content, step⟩
      · rw [step]
        exact .extended (extends_markFailed now id _ maxAttempts _).2 rfl rfl rfl rfl
      · rw [step]
        exact .drained notLoaded rfl rfl
      · rw [step]
        exact .indexed submission loaded rfl content
      · rw [step]
        exact .refused submission reached loaded rfl content
  | storageFails =>
      obtain ⟨sameIndexer, moves⟩ := state.storageFails_cases
      have content := congrArg (fun indexer => db.stored indexer.content) sameIndexer
      rw [indexing]
      rcases moves with same | ⟨rows, fewer, dropped⟩
      · exact .extended (by rw [same]; exact .refl _) (by rw [same]) (by rw [same])
          (by rw [same]) content
      · exact .dropped state.delivery.inserted rows fewer dropped content
  | flushEmbeddings failure =>
      exact .extended (.refl _) rfl rfl rfl (keeps.flushEmbeddings state.indexer failure)
  | flushIndex failure =>
      exact .extended (.refl _) rfl rfl rfl (keeps.flushIndex state.indexer failure)
  | restart => exact .dropped [] [] (List.nil_sublist _) rfl rfl

variable {platform order} {state next : Indexing db}

/-- No step loses a message. -/
theorem Move.hasMessage (move : Move order state next) {id : String}
    (has : HasMessage state.delivery.store id) : HasMessage next.delivery.store id := by
  have drained : HasMessage (drainStep order state.delivery).store id := by
    rwa [HasMessage, (drainStep_frame order state.delivery).1]
  cases move with
  | extended grown => exact grown.messages id has
  | drained _ delivery => rwa [delivery]
  | indexed _ _ delivery => rwa [delivery]
  | refused _ _ _ delivery => rwa [delivery]
  | dropped _ _ _ delivery => rwa [delivery]

theorem Move.held (move : Move order state next) (held : Held state.delivery) :
    Held next.delivery := by
  cases move with
  | extended grown batch processing submitted =>
      exact held.extended grown batch processing submitted
  | drained _ delivery =>
      rw [delivery]
      exact held.drainStep order
  | indexed _ _ delivery =>
      rw [delivery]
      exact held.drainStep order
  | refused _ _ _ delivery =>
      rw [delivery]
      exact held.dropped (.refl _)
  | dropped inserted rows fewer delivery =>
      rw [delivery]
      have dropped := held.dropped fewer
      exact ⟨dropped.batch, dropped.apart, dropped.inFlight, dropped.loaded, dropped.submitted⟩

end Moves

section Invariant

variable {db : WitchcraftDb} {platform : Platform} {order : ScanOrder} {state next : Indexing db}

/-- What is stored under a UUID is a segment of that UUID, of a message of the store. -/
def KnownSegment (store : Store) (uuid : String) (doc : IndexDoc) : Prop :=
  doc.uuid = uuid ∧ doc.seg < maxSegmentsPerMessage ∧ HasMessage store doc.messageId

structure Accounted (state : Indexing db) : Prop where
  held : Held state.delivery
  stored : ∀ uuid doc, db.stored state.indexer.content uuid = some doc →
    KnownSegment state.delivery.store uuid doc

theorem Accounted.fresh (db : WitchcraftDb) (accounts : Table AccountRow SameAccount) :
    Accounted (.fresh db accounts) := by
  refine ⟨.fresh accounts, ?_⟩
  intro uuid doc stored
  rw [Indexing.fresh, WitchcraftIndexer.openBlocking, db.stored_empty] at stored
  cases stored

theorem Accounted.addDocs (accounted : Accounted state) {submission : IndexSubmit}
    (loaded : state.delivery.processing = .loaded submission) {docs : List IndexDoc}
    (segments : docs ⊆ submission.docs) {uuid : String} {doc : IndexDoc}
    (stored : db.stored (docs.foldl db.addDoc state.indexer.content) uuid = some doc) :
    KnownSegment state.delivery.store uuid doc := by
  rcases stored_addDocs stored with ⟨added, sameUuid⟩ | earlier
  · obtain ⟨sameId, inside⟩ := mem_docs (segments added)
    refine ⟨sameUuid, inside, ?_⟩
    rw [sameId]
    exact (accounted.held.loaded submission loaded).2
  · exact accounted.stored uuid doc earlier

theorem Accounted.move (accounted : Accounted state) (move : Move order state next) :
    Accounted next := by
  refine ⟨move.held accounted.held, ?_⟩
  intro uuid doc stored
  have known : KnownSegment state.delivery.store uuid doc := by
    cases move with
    | extended _ _ _ _ content => exact accounted.stored uuid doc (by rwa [content] at stored)
    | drained _ _ content => exact accounted.stored uuid doc (by rwa [content] at stored)
    | indexed submission loaded _ content =>
        rw [content] at stored
        exact accounted.addDocs loaded (List.Subset.refl _) stored
    | refused submission reached loaded _ content =>
        rw [content] at stored
        exact accounted.addDocs loaded (List.take_subset reached _) stored
    | dropped _ _ _ _ content => exact accounted.stored uuid doc (by rwa [content] at stored)
  exact ⟨known.1, known.2.1, move.hasMessage known.2.2⟩

/-- What was last submitted for a message is in the index, or the message is queued still, after
a submission that failed. -/
def IndexedOrQueued (state : Indexing db) : Prop :=
  ∀ id document, state.delivery.lastSubmitted id = some document →
    Holds state.indexer.content id document ∨
      (state.delivery.store.Queued id ∧ ¬ state.delivery.processing.Deletes id)

theorem hasMessage_of_lastSubmitted {delivery : Delivery} (held : Held delivery)
    {id document : String} (last : delivery.lastSubmitted id = some document) :
    HasMessage delivery.store id := by
  obtain ⟨submission, found, _⟩ := Option.map_eq_some_iff.mp last
  have has := held.submitted submission (List.mem_of_find?_eq_some found)
  have sameId := List.find?_some found
  rwa [of_decide_eq_true sameId] at has

theorem IndexedOrQueued.carried (before : IndexedOrQueued state)
    (submitted : next.delivery.submitted = state.delivery.submitted)
    (queued : ∀ id, state.delivery.store.Queued id → ¬ state.delivery.processing.Deletes id →
      next.delivery.store.Queued id ∧ ¬ next.delivery.processing.Deletes id)
    (content : db.stored next.indexer.content = db.stored state.indexer.content) :
    IndexedOrQueued next := by
  intro id document last
  rw [Delivery.lastSubmitted, submitted] at last
  rcases before id document last with holds | waiting
  · apply Or.inl
    intro doc member
    rw [content]
    exact holds doc member
  · exact .inr (queued id waiting.1 waiting.2)

/-- Segments of a message in flight do not touch those of the others. -/
theorem IndexedOrQueued.other (before : IndexedOrQueued state) (held : Held state.delivery)
    (apart : SegmentIdsApart state.delivery.store) {submission : IndexSubmit}
    (loaded : state.delivery.processing = .loaded submission) {docs : List IndexDoc}
    (segments : docs ⊆ submission.docs) {id document : String}
    (last : state.delivery.lastSubmitted id = some document)
    (other : id ≠ submission.messageId) :
    Holds (docs.foldl db.addDoc state.indexer.content) id document ∨
      state.delivery.store.Queued id := by
  rcases before id document last with holds | waiting
  · apply Or.inl
    obtain ⟨row, stored, rfl⟩ := hasMessage_of_lastSubmitted held last
    obtain ⟨loadedRow, loadedStored, sameId⟩ := (held.loaded submission loaded).2
    refine holds.addDocs ?_ other segments
    rw [← sameId]
    exact apart row stored loadedRow loadedStored
  · exact .inr waiting.1

theorem IndexedOrQueued.drained (before : IndexedOrQueued state) (held : Held state.delivery)
    (notLoaded : ∀ submission, state.delivery.processing ≠ .loaded submission)
    (delivery : next.delivery = drainStep order state.delivery)
    (content : db.stored next.indexer.content = db.stored state.indexer.content) :
    IndexedOrQueued next := by
  rcases drainStep_cases order state.delivery with
    ⟨idle, _, step⟩ | ⟨row, rest, idle, _, ⟨absent, step⟩ | ⟨message, _, step⟩⟩ |
      ⟨submission, loaded, _⟩ | ⟨id, deletes, step⟩
  · rw [step] at delivery
    refine before.carried (by rw [delivery]) ?_ content
    intro id queued deletes
    rw [delivery]
    exact ⟨queued, deletes⟩
  · -- A message that was submitted is still in the store, so it is not the missing one.
    intro id document last
    rw [step] at delivery
    rw [delivery] at last
    rcases before id document last with holds | waiting
    · exact .inl fun doc member => by rw [content]; exact holds doc member
    · refine .inr ⟨by rw [delivery]; exact waiting.1, ?_⟩
      rw [delivery]
      rintro (missing | indexed)
      · cases missing
        obtain ⟨stored, inStore, sameId⟩ := hasMessage_of_lastSubmitted held last
        exact (getMessage_eq_none_iff _ _).mp absent stored inStore sameId
      · cases indexed
  · rw [step] at delivery
    refine before.carried (by rw [delivery]) ?_ content
    intro id queued deletes
    rw [delivery]
    exact ⟨queued, Processing.not_deletes_loaded _ id⟩
  · exact absurd loaded (notLoaded submission)
  · rw [step] at delivery
    refine before.carried (by rw [delivery]) ?_ content
    intro other queued notDeleted
    rw [delivery]
    refine ⟨(queued_deleteQueueRow_iff id other _).mpr ⟨?_, queued⟩,
      Processing.not_deletes_idle other⟩
    rintro rfl
    exact notDeleted deletes

theorem IndexedOrQueued.move (before : IndexedOrQueued state) (held : Held state.delivery)
    (apart : SegmentIdsApart state.delivery.store) (move : Move order state next) :
    IndexedOrQueued next := by
  cases move with
  | extended grown batch processing submitted content =>
      refine before.carried submitted ?_ content
      intro id queued deletes
      exact ⟨grown.queued id queued, by rwa [processing]⟩
  | drained notLoaded delivery content => exact before.drained held notLoaded delivery content
  | indexed submission loaded delivery content =>
      intro id document last
      rw [drainStep, loaded] at delivery
      rw [delivery] at last ⊢
      rw [content]
      rw [lastSubmitted_cons] at last
      split at last
      next sameId =>
        cases last
        subst sameId
        exact .inl (holds_submit submission state.indexer.content)
      next different =>
        rcases before.other held apart loaded (List.Subset.refl _) last (Ne.symm different) with
          holds | queued
        · exact .inl holds
        · refine .inr ⟨queued, ?_⟩
          rintro (missing | indexed)
          · cases missing
          · cases indexed
            exact different rfl
  | refused submission reached loaded delivery content =>
      intro id document last
      rw [delivery] at last ⊢
      rw [content]
      by_cases sameId : id = submission.messageId
      · subst sameId
        exact .inr ⟨(held.loaded submission loaded).1, Processing.not_deletes_idle _⟩
      · rcases before.other held apart loaded (List.take_subset reached _) last sameId with
          holds | queued
        · exact .inl holds
        · exact .inr ⟨queued, Processing.not_deletes_idle id⟩
  | dropped inserted rows fewer delivery content =>
      refine before.carried (by rw [delivery]) ?_ content
      intro id queued _
      rw [delivery]
      exact ⟨queued, Processing.not_deletes_idle id⟩

/-- No step makes a message queued less, or read less, than it has to be. -/
theorem Tracked.indexing (tracked : Tracked state.delivery) (held : Held state.delivery)
    {event : IndexingEvent} (safe : IndexingSafe platform state event) :
    Tracked (Runtime.indexing platform order state event).delivery := by
  cases event with
  | insert threads fetched => exact tracked.insertStep safe
  | enqueue now id => exact @Tracked.enqueueStep platform _ tracked now id safe
  | drain now fault =>
      rw [Runtime.indexing]
      rcases state.drain_cases order now fault with
        ⟨id, error, _, step⟩ | ⟨_, _, step⟩ | ⟨_, _, _, _, _, step⟩ |
          ⟨_, _, _, _, _, _, _, step⟩
      · rw [step]
        obtain ⟨messages, grown⟩ := extends_markFailed now id (sanitizeError error) maxAttempts
          state.delivery.store
        exact tracked.extended messages grown
      · rw [step]
        exact tracked.drainStep
      · rw [step]
        exact tracked.drainStep
      · rw [step]
        exact tracked.dropped held state.delivery.batch
  | storageFails =>
      rw [Runtime.indexing]
      rcases state.storageFails_cases.2 with same | ⟨rows, _, dropped⟩
      · rw [same]
        exact tracked
      · rw [dropped]
        exact tracked.dropped held rows
  | flushEmbeddings failure => exact tracked
  | flushIndex failure => exact tracked
  | restart =>
      -- Only the messages between the two writes of their submit depend on the lost tasks.
      intro row stored
      rcases tracked.dropped held [] row stored with (waiting | queued) | loaded | last
      · exact .inl (.inr ⟨safe _ waiting, by intro impossible; cases impossible⟩)
      · exact .inl (.inr queued)
      · cases loaded
      · exact .inr (.inr last)

theorem SegmentIdsApart.before {store next : Store} (apart : SegmentIdsApart next)
    (grown : ∀ id, HasMessage store id → HasMessage next id) : SegmentIdsApart store := by
  intro first firstStored second secondStored
  obtain ⟨firstNext, firstInNext, firstId⟩ := grown _ ⟨first, firstStored, rfl⟩
  obtain ⟨secondNext, secondInNext, secondId⟩ := grown _ ⟨second, secondStored, rfl⟩
  rw [← firstId, ← secondId]
  exact apart firstNext firstInNext secondNext secondInNext

end Invariant

section Runs

variable {db : WitchcraftDb}

/-- Each segment in the index lies under its own UUID, is one of the first eight, and its message
can be read. -/
def SegmentsKnown (state : Indexing db) : Prop :=
  ∀ uuid doc, db.stored state.indexer.content uuid = some doc →
    doc.uuid = uuid ∧ doc.seg < maxSegmentsPerMessage ∧
      ∃ message, getMessage state.delivery.store doc.messageId = some message

/-- When no submit and no `process` is under way and no two messages share a segment UUID, the
index holds all segments of each message that is not queued, with its current content. -/
def Indexed (state : Indexing db) : Prop :=
  SegmentIdsApart state.delivery.store → state.delivery.inserted = [] →
    state.delivery.processing = .idle →
      ∀ row ∈ state.delivery.store.messages.rows,
        ¬ state.delivery.store.Queued row.messageId →
          Holds state.indexer.content row.messageId (documentOf row)

theorem accounted_run (platform : Platform) (order : ScanOrder) (keeps : KeepsDocuments db)
    (accounts : Table AccountRow SameAccount) (events : List IndexingEvent) :
    Accounted (run (indexing platform order) (.fresh db accounts) events) := by
  refine run_preserves ?_ (.fresh db accounts) events
  intro state event accounted
  exact accounted.move (indexing_move platform order keeps state event)

/-- Whatever fails, and whenever the process is killed, the index never holds a segment of a
message that the store does not have. -/
theorem segments_known (platform : Platform) (order : ScanOrder) (keeps : KeepsDocuments db)
    (accounts : Table AccountRow SameAccount) (events : List IndexingEvent) :
    SegmentsKnown (run (indexing platform order) (.fresh db accounts) events) := by
  intro uuid doc stored
  obtain ⟨sameUuid, inside, message, inStore, sameId⟩ :=
    (accounted_run platform order keeps accounts events).stored uuid doc stored
  exact ⟨sameUuid, inside, message, (getMessage_eq_some_iff _ _ _).mpr ⟨inStore, sameId⟩⟩

/-- What safe steps keep. -/
structure CaughtUp (state : Indexing db) : Prop where
  held : Held state.delivery
  tracked : Tracked state.delivery
  indexed : SegmentIdsApart state.delivery.store → IndexedOrQueued state

theorem CaughtUp.upToDate {state : Indexing db} (caughtUp : CaughtUp state) : Indexed state := by
  intro apart settled idle row stored unqueued
  have last := caughtUp.tracked.upToDate settled idle row stored unqueued
  exact (caughtUp.indexed apart _ _ last).resolve_right fun waiting => unqueued waiting.1

theorem always_caughtUp (platform : Platform) (order : ScanOrder) (keeps : KeepsDocuments db)
    {accounts : Table AccountRow SameAccount} {events : List IndexingEvent}
    (safe : Guarded (indexing platform order) (IndexingSafe platform) (.fresh db accounts)
      events) :
    Always (indexing platform order) CaughtUp (.fresh db accounts) events := by
  refine always_of_guarded ?_ ⟨.fresh accounts, ?_, ?_⟩ safe
  · rintro state event ⟨held, tracked, before⟩ stepSafe
    have move := indexing_move platform order keeps state event
    refine ⟨move.held held, tracked.indexing held stepSafe, ?_⟩
    intro apart
    have apartBefore := apart.before fun id => move.hasMessage
    exact (before apartBefore).move held apartBefore move
  · intro row stored
    cases stored
  · intro _ id document last
    cases last

end Runs

section Sample

theorem sampleDb_keepsDocuments : KeepsDocuments Search.sampleDb :=
  ⟨fun _ _ => rfl, fun _ => rfl, fun _ => rfl⟩

/-- The first submission of a mail fails, the process is killed behind the second one, and the
third one goes through. -/
def thirdAttempt : List IndexingEvent :=
  [.insert {} (sampleMail "INBOX" 1 [97]), .enqueue 0 "work:a@example.org",
    .drain 0 {}, .drain 0 {}, .drain 0 ⟨some 0, "database is locked"⟩, .drain 1 {},
    .drain 1 {}, .drain 1 {}, .drain 1 {}, .restart,
    .drain 2 {}, .drain 2 {}, .drain 2 {}, .flushEmbeddings none, .drain 2 {}]

theorem segments_known_third_attempt :
    SegmentsKnown (run (indexing samplePlatform .byText) (.fresh Search.sampleDb workAccounts)
      thirdAttempt) :=
  segments_known samplePlatform .byText sampleDb_keepsDocuments workAccounts thirdAttempt

theorem thirdAttempt_safe : Guarded (indexing samplePlatform .byText)
    (IndexingSafe samplePlatform) (.fresh Search.sampleDb workAccounts) thirdAttempt := by
  refine ⟨?_, ?_, trivial, trivial, trivial, trivial, trivial, trivial, trivial, ?_,
    trivial, trivial, trivial, trivial, trivial, trivial⟩
  · intro parsed _ row stored
    cases stored
  · intro inFlight
    cases inFlight
  · intro id inserted
    cases inserted

end Sample

end Scryd.Runtime
