import Scryd.Foundation.Autocommit
import Scryd.Foundation.Overlay
import Scryd.Search.Witchcraft

/-!
# The calls of `WitchcraftIndexer`

Every call of the `Indexer` trait on the witchcraft database, with the steps
that may fail, next to the indexer in memory that the tests use.  The database
itself is a parameter, known by what its calls do to the stored documents and
to the number of those that wait for an embedding.
-/

namespace Scryd.Search

open Scryd.Foundation

/-- `witchcraft::DB` and the functions that work on it. -/
structure WitchcraftDb where
  Content : Type
  empty : Content
  addDoc : Content → IndexDoc → Content
  removeDoc : Content → String → Content
  /-- `embed_chunks` with its limit, when it goes through. -/
  embedChunks : Nat → Content → Content
  /-- What an `embed_chunks` that fails leaves behind. -/
  embedFailed : Content → Content
  indexChunks : Content → Content
  stored : Content → String → Option IndexDoc
  /-- The number of documents without an embedding. -/
  unembedded : Content → Nat
  stored_empty : ∀ uuid, stored empty uuid = none
  stored_addDoc : ∀ content doc uuid,
    stored (addDoc content doc) uuid = if uuid = doc.uuid then some doc else stored content uuid
  stored_removeDoc : ∀ content gone uuid,
    stored (removeDoc content gone) uuid = if uuid = gone then none else stored content uuid
  unembedded_empty : unembedded empty = 0
  unembedded_addDoc : ∀ content doc, 0 < unembedded (addDoc content doc)
  unembedded_removeDoc : ∀ content gone,
    unembedded (removeDoc content gone) ≤ unembedded content
  unembedded_embedChunks : ∀ limit content,
    unembedded (embedChunks limit content) + min limit (unembedded content) = unembedded content
  unembedded_embedFailed : ∀ content, unembedded (embedFailed content) ≤ unembedded content
  unembedded_indexChunks : ∀ content, unembedded (indexChunks content) = unembedded content

inductive IndexError where
  | upstream (message : String)
  | io (message : String)
  deriving DecidableEq

/-- The `Display` form of the error. -/
def IndexError.text : IndexError → String
  | .upstream message => "upstream witchcraft error: " ++ message
  | .io message => "io: " ++ message

/-- How a loop of database calls fails: how many of them go through, and the error of the
next one. -/
structure Fault where
  after : Option Nat := none
  message : String := ""
  deriving DecidableEq

/-- `State` of the handle: the database and the `dirty` flag. -/
structure WitchcraftIndexer (db : WitchcraftDb) where
  content : db.Content
  dirty : Bool

namespace WitchcraftIndexer

variable {db : WitchcraftDb}

/-- `open_blocking`. -/
def openBlocking (content : db.Content) : WitchcraftIndexer db := ⟨content, false⟩

/-- The segment loop of `submit`. -/
def addDocs (db : WitchcraftDb) (docs : List IndexDoc) : Script db.Content IndexError Unit :=
  .sequence (docs.map fun doc content => db.addDoc content doc)

/-- The loop of `remove`. -/
def removeDocs (db : WitchcraftDb) (id : String) : Script db.Content IndexError Unit :=
  .sequence ((List.range maxSegmentsPerMessage).map fun idx content =>
    db.removeDoc content (segmentUuid id idx))

/-- A loop over the database that sets the flag when it is through. -/
def mutate (indexer : WitchcraftIndexer db) (loop : Script db.Content IndexError Unit)
    (label : String) (fault : Fault) : Except IndexError Unit × WitchcraftIndexer db :=
  match loop.perform (.upstream (label ++ fault.message)) fault.after indexer.content with
  | (.ok _, content) => (.ok (), ⟨content, true⟩)
  | (.error error, content) => (.error error, { indexer with content := content })

def submit (indexer : WitchcraftIndexer db) (submission : IndexSubmit) (fault : Fault) :
    Except IndexError Unit × WitchcraftIndexer db :=
  indexer.mutate (addDocs db submission.docs) "add_doc: " fault

def remove (indexer : WitchcraftIndexer db) (id : String) (fault : Fault) :
    Except IndexError Unit × WitchcraftIndexer db :=
  indexer.mutate (removeDocs db id) "remove_doc: " fault

def truncate (_ : WitchcraftIndexer db) : Except IndexError Unit × WitchcraftIndexer db :=
  (.ok (), ⟨db.empty, false⟩)

/-- `flush_embeddings`, where `embed_chunks` may fail with a message. -/
def flushEmbeddings (indexer : WitchcraftIndexer db) (failure : Option String) :
    Except IndexError Nat × WitchcraftIndexer db :=
  if indexer.dirty then
    match failure with
    | some message =>
        (.error (.upstream ("embed_chunks: " ++ message)),
          { indexer with content := db.embedFailed indexer.content })
    | none =>
        let embedded := min flushEmbedBatch (db.unembedded indexer.content)
        (.ok embedded, ⟨db.embedChunks flushEmbedBatch indexer.content,
          if embedded < flushEmbedBatch then false else indexer.dirty⟩)
  else
    (.ok 0, indexer)

/-- `flush_index`, where `index_chunks` may fail with a message. -/
def flushIndex (indexer : WitchcraftIndexer db) (failure : Option String) :
    Except IndexError Unit × WitchcraftIndexer db :=
  let clustered := { indexer with content := db.indexChunks indexer.content }
  match failure with
  | some message => (.error (.upstream ("index_chunks: " ++ message)), clustered)
  | none => (.ok (), clustered)

end WitchcraftIndexer

/-- The calls of the trait that change the index, with the failures of their steps. -/
inductive IndexerCall where
  | submit (submission : IndexSubmit) (fault : Fault)
  | remove (id : String) (fault : Fault)
  | truncate
  | flushEmbeddings (failure : Option String)
  | flushIndex (failure : Option String)

/-- What a call leaves behind. -/
def WitchcraftIndexer.step {db : WitchcraftDb} (indexer : WitchcraftIndexer db) :
    IndexerCall → WitchcraftIndexer db
  | .submit submission fault => (indexer.submit submission fault).2
  | .remove id fault => (indexer.remove id fault).2
  | .truncate => indexer.truncate.2
  | .flushEmbeddings failure => (indexer.flushEmbeddings failure).2
  | .flushIndex failure => (indexer.flushIndex failure).2

/-- `InMemoryIndexer`: pairs of a message id and its document. -/
structure InMemoryIndexer where
  docs : List (String × String)

namespace InMemoryIndexer

def submit (indexer : InMemoryIndexer) (submission : IndexSubmit) : InMemoryIndexer :=
  ⟨indexer.docs.filter (fun entry => decide (entry.1 ≠ submission.messageId)) ++
    [(submission.messageId, submission.document)]⟩

def remove (indexer : InMemoryIndexer) (id : String) : InMemoryIndexer :=
  ⟨indexer.docs.filter fun entry => decide (entry.1 ≠ id)⟩

def truncate (_ : InMemoryIndexer) : InMemoryIndexer := ⟨[]⟩

/-- The two flushes are the trait's defaults, which do nothing. -/
def step (indexer : InMemoryIndexer) : IndexerCall → InMemoryIndexer
  | .submit submission _ => indexer.submit submission
  | .remove id _ => indexer.remove id
  | .truncate => indexer.truncate
  | .flushEmbeddings _ => indexer
  | .flushIndex _ => indexer

end InMemoryIndexer

section Loops

variable {db : WitchcraftDb} (indexer : WitchcraftIndexer db) (fault : Fault)

/-- A loop that goes through sets the flag, one that stops early leaves it as it was. -/
theorem WitchcraftIndexer.mutate_cases (changes : List (db.Content → db.Content))
    (label : String) :
    (indexer.mutate (.sequence changes) label fault =
      (.ok (), ⟨changes.foldl (fun current change => change current) indexer.content, true⟩) ∧
        fault.after.filter (· < changes.length) = none) ∨
    (∃ reached, fault.after = some reached ∧ reached < changes.length ∧
      indexer.mutate (.sequence changes) label fault =
        (.error (.upstream (label ++ fault.message)),
          ⟨(changes.take reached).foldl (fun current change => change current) indexer.content,
            indexer.dirty⟩)) := by
  have performed := Script.perform_sequence
    (IndexError.upstream (label ++ fault.message)) changes fault.after indexer.content
  cases early : fault.after.filter (· < changes.length) with
  | none =>
      rw [early] at performed
      exact .inl ⟨by simp only [mutate, performed], rfl⟩
  | some reached =>
      rw [early] at performed
      obtain ⟨stops, inside⟩ := Option.filter_eq_some_iff.mp early
      exact .inr ⟨reached, stops, of_decide_eq_true inside, by simp only [mutate, performed]⟩

end Loops

section Refinement

/-- A call for one message, and the same call of the trait, when none of its steps fails. -/
inductive MessageCall where
  | submit (document : String)
  | remove
  | truncate

def MessageCall.on (id : String) : MessageCall → IndexerCall
  | .submit document => .submit ⟨id, document⟩ {}
  | .remove => .remove id {}
  | .truncate => .truncate

/-- The documents submitted since the message was last removed, the newest one first. -/
def MessageCall.liveAfter : List String → List MessageCall → List String :=
  run fun documents call =>
    match call with
    | .submit document => document :: documents
    | .remove => []
    | .truncate => []

/-- No document but the newest one has segments that the newest one does not cover. -/
def NewestLongest : List String → Prop
  | [] => True
  | newest :: older => ∀ document ∈ older,
      (splitForIndex document).length ≤ (splitForIndex newest).length

/-- What is stored under the segment UUIDs of a message are the segments of the document that
the indexer in memory keeps for it. -/
def Refines {db : WitchcraftDb} (id : String) (indexer : WitchcraftIndexer db)
    (inMemory : InMemoryIndexer) : Prop :=
  ∀ doc, (∃ idx, db.stored indexer.content (segmentUuid id idx) = some doc) ↔
    ∃ document, (id, document) ∈ inMemory.docs ∧ doc ∈ (IndexSubmit.mk id document).docs

theorem segmentUuid_injective (id : String) {first second : Nat}
    (same : segmentUuid id first = segmentUuid id second) : first = second := by
  simp only [segmentUuid] at same
  split at same
  next firstZero =>
    split at same
    next secondZero => rw [firstZero, secondZero]
    next =>
      have lengths := congrArg (fun text => text.toList.length) same
      simp at lengths
  next =>
    split at same
    next =>
      have lengths := congrArg (fun text => text.toList.length) same
      simp at lengths
    next =>
      have characters := congrArg String.toList same
      simp only [String.toList_append, List.append_cancel_left_eq] at characters
      exact toString_nat_injective (String.toList_injective characters)

theorem IndexSubmit.docs_getElem? (submission : IndexSubmit) (idx : Nat) :
    submission.docs[idx]? = (splitForIndex submission.document)[idx]?.map fun body =>
      ⟨submission.messageId, idx, (splitForIndex submission.document).length, body⟩ := by
  simp only [IndexSubmit.docs, List.getElem?_mapIdx]

/-- Every document of a submission knows which segment it is. -/
theorem IndexSubmit.docs_indexed {submission : IndexSubmit} {idx : Nat} {doc : IndexDoc}
    (found : submission.docs[idx]? = some doc) :
    doc.seg = idx ∧ doc.messageId = submission.messageId := by
  rw [submission.docs_getElem?] at found
  obtain ⟨body, _, rfl⟩ := Option.map_eq_some_iff.mp found
  exact ⟨rfl, rfl⟩

theorem IndexSubmit.docs_length_le (submission : IndexSubmit) :
    submission.docs.length ≤ maxSegmentsPerMessage := by
  rw [submission.docs_length]
  exact splitForIndex_length_le submission.document

theorem IndexSubmit.docs_uuid_nodup (submission : IndexSubmit) :
    (submission.docs.map IndexDoc.uuid).Nodup := by
  rw [List.Nodup, List.pairwise_map, List.pairwise_iff_getElem]
  intro first second firstInside secondInside before same
  obtain ⟨firstSeg, firstId⟩ := IndexSubmit.docs_indexed (List.getElem?_eq_getElem firstInside)
  obtain ⟨secondSeg, secondId⟩ :=
    IndexSubmit.docs_indexed (List.getElem?_eq_getElem secondInside)
  rw [IndexDoc.uuid, IndexDoc.uuid, firstSeg, firstId, secondSeg, secondId] at same
  exact Nat.ne_of_lt before (segmentUuid_injective submission.messageId same)

variable {db : WitchcraftDb}

theorem WitchcraftDb.stored_addDocs_of_notMem {docs : List IndexDoc} {uuid : String}
    (other : uuid ∉ docs.map IndexDoc.uuid) (content : db.Content) :
    db.stored (docs.foldl db.addDoc content) uuid = db.stored content uuid := by
  induction docs generalizing content with
  | nil => rfl
  | cons doc rest inductionHypothesis =>
      rw [List.map_cons, List.mem_cons, not_or] at other
      rw [List.foldl_cons, inductionHypothesis other.2, db.stored_addDoc, if_neg other.1]

theorem WitchcraftDb.stored_addDocs_of_mem {docs : List IndexDoc} {doc : IndexDoc}
    (apart : (docs.map IndexDoc.uuid).Nodup) (member : doc ∈ docs) (content : db.Content) :
    db.stored (docs.foldl db.addDoc content) doc.uuid = some doc := by
  induction docs generalizing content with
  | nil => cases member
  | cons first rest inductionHypothesis =>
      rw [List.map_cons, List.nodup_cons] at apart
      rw [List.foldl_cons]
      rcases List.mem_cons.mp member with rfl | inRest
      · rw [stored_addDocs_of_notMem apart.1, db.stored_addDoc, if_pos rfl]
      · exact inductionHypothesis apart.2 inRest _

theorem WitchcraftDb.stored_removeDocs (uuids : List String) (content : db.Content)
    (uuid : String) :
    db.stored (uuids.foldl db.removeDoc content) uuid =
      if uuid ∈ uuids then none else db.stored content uuid := by
  induction uuids generalizing content with
  | nil => rfl
  | cons gone rest inductionHypothesis =>
      rw [List.foldl_cons, inductionHypothesis, db.stored_removeDoc]
      by_cases here : uuid = gone
      · simp [here]
      · simp [here]

/-- The segments of a submission lie over what is stored for the message. -/
theorem WitchcraftDb.stored_submission (submission : IndexSubmit) (content : db.Content)
    (idx : Nat) :
    db.stored (submission.docs.foldl db.addDoc content) (segmentUuid submission.messageId idx) =
      submission.docs[idx]?.or (db.stored content (segmentUuid submission.messageId idx)) := by
  cases found : submission.docs[idx]? with
  | some doc =>
      obtain ⟨seg, id⟩ := IndexSubmit.docs_indexed found
      have uuid : segmentUuid submission.messageId idx = doc.uuid := by
        rw [IndexDoc.uuid, seg, id]
      rw [uuid, stored_addDocs_of_mem submission.docs_uuid_nodup (List.mem_of_getElem? found)]
      rfl
  | none =>
      rw [Option.none_or]
      apply stored_addDocs_of_notMem
      intro member
      obtain ⟨doc, docMember, same⟩ := List.mem_map.mp member
      obtain ⟨position, atPosition⟩ := List.getElem?_of_mem docMember
      obtain ⟨seg, id⟩ := IndexSubmit.docs_indexed atPosition
      rw [IndexDoc.uuid, seg, id] at same
      rw [segmentUuid_injective _ same, found] at atPosition
      cases atPosition

/-- The three runs side by side: the database shows the live documents over each other, the
indexer in memory keeps the newest. -/
structure Overwritten (id : String) (indexer : WitchcraftIndexer db)
    (inMemory : InMemoryIndexer) (documents : List String) : Prop where
  stored : ∀ idx, db.stored indexer.content (segmentUuid id idx) =
    overlay (documents.map fun document => (IndexSubmit.mk id document).docs) idx
  inMemory : inMemory.docs = (documents.head?.map fun document => (id, document)).toList

namespace Overwritten

variable {id : String} {indexer : WitchcraftIndexer db} {inMemory : InMemoryIndexer}
  {documents : List String}

theorem submit (overwritten : Overwritten id indexer inMemory documents) (document : String) :
    Overwritten id (indexer.submit ⟨id, document⟩ {}).2 (inMemory.submit ⟨id, document⟩)
      (document :: documents) := by
  rcases indexer.mutate_cases {} ((IndexSubmit.mk id document).docs.map fun doc content =>
      db.addDoc content doc) "add_doc: " with ⟨done, _⟩ | ⟨reached, impossible, _⟩
  · constructor
    · intro idx
      have lies := db.stored_submission ⟨id, document⟩ indexer.content idx
      rw [WitchcraftIndexer.submit, WitchcraftIndexer.addDocs, done, List.foldl_map,
        List.map_cons, overlay_cons, ← overwritten.stored idx]
      exact lies
    · rw [InMemoryIndexer.submit, overwritten.inMemory]
      cases documents with
      | nil => rfl
      | cons newest older => simp
  · cases impossible

theorem remove (overwritten : Overwritten id indexer inMemory documents) :
    Overwritten id (indexer.remove id {}).2 (inMemory.remove id) [] := by
  rcases indexer.mutate_cases {} ((List.range maxSegmentsPerMessage).map fun idx content =>
      db.removeDoc content (segmentUuid id idx)) "remove_doc: " with
    ⟨done, _⟩ | ⟨reached, impossible, _⟩
  · constructor
    · intro idx
      have removed := db.stored_removeDocs
        ((List.range maxSegmentsPerMessage).map (segmentUuid id)) indexer.content
        (segmentUuid id idx)
      rw [List.foldl_map] at removed
      rw [WitchcraftIndexer.remove, WitchcraftIndexer.removeDocs, done, List.foldl_map,
        List.map_nil, overlay_nil, removed]
      split
      next => rfl
      next beyond =>
        rw [overwritten.stored idx, overlay_eq_none_iff]
        intro page member
        obtain ⟨document, _, rfl⟩ := List.mem_map.mp member
        apply (IndexSubmit.docs_length_le _).trans
        by_contra inside
        exact beyond (List.mem_map_of_mem (List.mem_range.mpr (Nat.lt_of_not_le inside)))
    · rw [InMemoryIndexer.remove, overwritten.inMemory]
      cases documents with
      | nil => rfl
      | cons newest older => simp
  · cases impossible

theorem truncate : Overwritten id indexer.truncate.2 inMemory.truncate [] :=
  ⟨fun idx => db.stored_empty (segmentUuid id idx), rfl⟩

/-- The whole run, call by call. -/
theorem calls (overwritten : Overwritten id indexer inMemory documents)
    (calls : List MessageCall) :
    Overwritten id (run WitchcraftIndexer.step indexer (calls.map (MessageCall.on id)))
      (run InMemoryIndexer.step inMemory (calls.map (MessageCall.on id)))
      (MessageCall.liveAfter documents calls) := by
  induction calls generalizing indexer inMemory documents with
  | nil => exact overwritten
  | cons call rest inductionHypothesis =>
      apply inductionHypothesis
      cases call with
      | submit document => exact overwritten.submit document
      | remove => exact overwritten.remove
      | truncate => exact @truncate db id indexer inMemory

/-- Only the newest document shows exactly when it is the longest. -/
theorem refines_iff (overwritten : Overwritten id indexer inMemory documents) :
    Refines id indexer inMemory ↔ NewestLongest documents := by
  simp only [Refines, overwritten.stored, overwritten.inMemory]
  cases documents with
  | nil => simp [NewestLongest]
  | cons newest older =>
      have shows := @shows_newest_iff _ IndexDoc.seg (IndexSubmit.mk id newest).docs
        (older.map fun document => (IndexSubmit.mk id document).docs) (by
          intro page member position entry found
          rw [← List.map_cons (f := fun document => (IndexSubmit.mk id document).docs)] at member
          obtain ⟨document, _, rfl⟩ := List.mem_map.mp member
          exact (IndexSubmit.docs_indexed found).1)
      simp only [List.forall_mem_map, IndexSubmit.docs_length] at shows
      simpa [NewestLongest] using shows

end Overwritten

/-- The index holds for a message what the indexer in memory holds exactly when, since the
last removal, no document had more segments than the last one. -/
theorem refines_inMemory_iff (db : WitchcraftDb) (id : String) (calls : List MessageCall) :
    Refines id
        (run WitchcraftIndexer.step (.openBlocking db.empty) (calls.map (MessageCall.on id)))
        (run InMemoryIndexer.step ⟨[]⟩ (calls.map (MessageCall.on id))) ↔
      NewestLongest (MessageCall.liveAfter [] calls) := by
  have start : Overwritten id (.openBlocking db.empty) ⟨[]⟩ [] :=
    ⟨fun idx => db.stored_empty (segmentUuid id idx), rfl⟩
  exact (start.calls calls).refines_iff

end Refinement

section Tables

/-- The database as the drainer's model keeps it: a table of documents and the list of those
that wait. -/
def WitchcraftDb.tables (embedder : EmbedChunks) : WitchcraftDb where
  Content := Table IndexDoc SameUuid × List Unembedded
  empty := (.empty, [])
  addDoc content doc := (content.1.replace doc, content.2 ++ [⟨doc, true⟩])
  removeDoc content gone :=
    (content.1.delete fun doc => decide (doc.uuid = gone),
      content.2.filter fun waiting => decide (waiting.doc.uuid ≠ gone))
  embedChunks limit content := (content.1, embedder.remaining limit content.2)
  embedFailed content := content
  indexChunks content := content
  stored content uuid := content.1.rows.find? fun doc => decide (doc.uuid = uuid)
  unembedded content := content.2.length
  stored_empty _ := rfl
  stored_addDoc content doc uuid := by
    rw [Table.replace, List.find?_append, List.find?_filter]
    by_cases same : uuid = doc.uuid
    · subst same
      rw [if_pos rfl, List.find?_eq_none.mpr]
      · simp
      · intro stored _ both
        obtain ⟨apart, replaced⟩ := of_decide_eq_true both
        exact of_decide_eq_true apart (of_decide_eq_true replaced)
    · rw [if_neg same, List.find?_singleton, if_neg (by simpa using Ne.symm same), Option.or_none]
      congr 1
      funext stored
      by_cases here : stored.uuid = uuid
      · simp [here, SameUuid, same]
      · simp [here]
  stored_removeDoc content gone uuid := by
    rw [Table.delete_rows, List.find?_filter]
    by_cases same : uuid = gone
    · subst same
      simp
    · rw [if_neg same]
      congr 1
      funext stored
      by_cases here : stored.uuid = uuid
      · simp [here, same]
      · simp [here]
  unembedded_empty := rfl
  unembedded_addDoc _ _ := by simp
  unembedded_removeDoc _ _ := List.length_filter_le _ _
  unembedded_embedChunks limit content := embedder.length limit content.2
  unembedded_embedFailed _ := Nat.le_refl _
  unembedded_indexChunks _ := rfl

/-- The state of the drainer's model as a handle. -/
def State.handle (embedder : EmbedChunks) (state : State) :
    WitchcraftIndexer (.tables embedder) :=
  ⟨(state.documents, state.unembedded), state.dirty⟩

theorem State.handle_foldl_addDoc (embedder : EmbedChunks) (docs : List IndexDoc)
    (state : State) :
    ((docs.foldl State.addDoc state).handle embedder).content =
      docs.foldl (WitchcraftDb.tables embedder).addDoc (state.handle embedder).content := by
  induction docs generalizing state with
  | nil => rfl
  | cons doc rest inductionHypothesis => exact inductionHypothesis (state.addDoc doc)

/-- The drainer's model submits as the trait does when nothing fails. -/
theorem State.handle_submit (embedder : EmbedChunks) (state : State) (submission : IndexSubmit) :
    (state.handle embedder).submit submission {} =
      (.ok (), (Search.submit state submission).handle embedder) := by
  rcases (state.handle embedder).mutate_cases {} (submission.docs.map fun doc content =>
      (WitchcraftDb.tables embedder).addDoc content doc) "add_doc: " with
    ⟨done, _⟩ | ⟨reached, impossible, _⟩
  · rw [WitchcraftIndexer.submit, WitchcraftIndexer.addDocs, done, List.foldl_map]
    congr 2
    exact (state.handle_foldl_addDoc embedder submission.docs).symm
  · cases impossible

/-- It embeds as the trait does, too. -/
theorem State.handle_flushEmbeddings (embedder : EmbedChunks) (state : State) :
    (state.handle embedder).flushEmbeddings none =
      (.ok (Search.flushEmbeddings embedder state).1,
        (Search.flushEmbeddings embedder state).2.handle embedder) := by
  cases dirty : state.dirty with
  | false =>
      simp only [WitchcraftIndexer.flushEmbeddings, Search.flushEmbeddings, State.handle, dirty,
        Bool.false_eq_true, if_false]
  | true =>
      simp only [WitchcraftIndexer.flushEmbeddings, Search.flushEmbeddings, State.handle, dirty,
        if_true]
      congr 2
      change (if min flushEmbedBatch state.unembedded.length < flushEmbedBatch then false
        else true) = !decide (min flushEmbedBatch state.unembedded.length < flushEmbedBatch)
      by_cases fewer : min flushEmbedBatch state.unembedded.length < flushEmbedBatch
      · simp only [fewer, if_true, decide_true, Bool.not_true]
      · simp only [fewer, if_false, decide_false, Bool.not_false]

end Tables

section Flag

variable {db : WitchcraftDb}

/-- A document without an embedding keeps the flag set, and `flush_embeddings` at work. -/
def FlagSound (indexer : WitchcraftIndexer db) : Prop :=
  0 < db.unembedded indexer.content → indexer.dirty = true

/-- A submit that fails behind its first segment finds the flag set already. -/
def FailsOnlyDirty (indexer : WitchcraftIndexer db) : IndexerCall → Prop
  | .submit submission fault => ∀ reached, fault.after = some reached → 0 < reached →
      reached < (splitForIndex submission.document).length → indexer.dirty = true
  | _ => True

theorem WitchcraftDb.unembedded_addDocs_pos {docs : List IndexDoc} (some_doc : docs ≠ [])
    (content : db.Content) : 0 < db.unembedded (docs.foldl db.addDoc content) := by
  rcases List.eq_nil_or_concat docs with empty | ⟨earlier, last, rfl⟩
  · exact absurd empty some_doc
  · rw [List.concat_eq_append, List.foldl_append]
    exact db.unembedded_addDoc _ last

theorem WitchcraftDb.unembedded_removeDocs_le (uuids : List String) (content : db.Content) :
    db.unembedded (uuids.foldl db.removeDoc content) ≤ db.unembedded content := by
  induction uuids generalizing content with
  | nil => exact Nat.le_refl _
  | cons gone rest inductionHypothesis =>
      exact (inductionHypothesis _).trans (db.unembedded_removeDoc content gone)

theorem flagSound_submit_iff {indexer : WitchcraftIndexer db} (sound : FlagSound indexer)
    (submission : IndexSubmit) (fault : Fault) :
    FlagSound (indexer.submit submission fault).2 ↔
      FailsOnlyDirty indexer (.submit submission fault) := by
  rw [WitchcraftIndexer.submit, WitchcraftIndexer.addDocs]
  rcases indexer.mutate_cases fault (submission.docs.map fun doc content =>
      db.addDoc content doc) "add_doc: " with ⟨done, through⟩ | ⟨reached, stops, inside, failed⟩
  · rw [done]
    refine iff_of_true (fun _ => rfl) ?_
    intro reached stops _ inside
    rw [stops, List.length_map, submission.docs_length, Option.filter_some,
      if_pos (decide_eq_true inside)] at through
    cases through
  · rw [List.length_map, submission.docs_length] at inside
    rw [failed, ← List.map_take, List.foldl_map]
    by_cases first : reached = 0
    · subst first
      refine iff_of_true (fun waiting => sound waiting) ?_
      intro other otherStops positive
      rw [stops] at otherStops
      cases otherStops
      exact absurd positive (Nat.lt_irrefl 0)
    · have added : submission.docs.take reached ≠ [] := by
        rw [Ne, List.take_eq_nil_iff, not_or]
        refine ⟨first, List.ne_nil_of_length_pos ?_⟩
        rw [submission.docs_length]
        exact Nat.zero_lt_of_lt inside
      have waiting := db.unembedded_addDocs_pos added indexer.content
      constructor
      · intro after _ _ _ _
        exact after waiting
      · intro dirty _
        exact dirty reached stops (Nat.pos_of_ne_zero first) inside

theorem FlagSound.remove {indexer : WitchcraftIndexer db} (sound : FlagSound indexer)
    (id : String) (fault : Fault) : FlagSound (indexer.remove id fault).2 := by
  rw [WitchcraftIndexer.remove, WitchcraftIndexer.removeDocs]
  rcases indexer.mutate_cases fault ((List.range maxSegmentsPerMessage).map fun idx content =>
      db.removeDoc content (segmentUuid id idx)) "remove_doc: " with
    ⟨done, _⟩ | ⟨reached, _, _, failed⟩
  · rw [done]
    exact fun _ => rfl
  · rw [failed, ← List.map_take, List.foldl_map]
    intro waiting
    have fewer := db.unembedded_removeDocs_le
      (((List.range maxSegmentsPerMessage).take reached).map (segmentUuid id)) indexer.content
    rw [List.foldl_map] at fewer
    exact sound (Nat.lt_of_lt_of_le waiting fewer)

/-- The flag is only cleared by a call that embedded all there was. -/
theorem FlagSound.flushEmbeddings {indexer : WitchcraftIndexer db} (sound : FlagSound indexer)
    (failure : Option String) : FlagSound (indexer.flushEmbeddings failure).2 := by
  unfold WitchcraftIndexer.flushEmbeddings
  split
  next dirty =>
    cases failure with
    | some message => exact fun _ => dirty
    | none =>
        have left := db.unembedded_embedChunks flushEmbedBatch indexer.content
        intro waiting
        dsimp only at waiting ⊢
        rw [if_neg (by omega)]
        exact dirty
  next => exact sound

/-- What a single call does to a sound flag. -/
theorem flagSound_step_iff (indexer : WitchcraftIndexer db) (call : IndexerCall)
    (sound : FlagSound indexer) :
    FlagSound (indexer.step call) ↔ FailsOnlyDirty indexer call := by
  cases call with
  | submit submission fault => exact flagSound_submit_iff sound submission fault
  | remove id fault => exact iff_of_true (sound.remove id fault) trivial
  | truncate =>
      refine iff_of_true (fun waiting => ?_) trivial
      rw [WitchcraftIndexer.step, WitchcraftIndexer.truncate, db.unembedded_empty] at waiting
      cases waiting
  | flushEmbeddings failure => exact iff_of_true (sound.flushEmbeddings failure) trivial
  | flushIndex failure =>
      refine iff_of_true (fun waiting => ?_) trivial
      cases failure with
      | none => exact sound (db.unembedded_indexChunks indexer.content ▸ waiting)
      | some message => exact sound (db.unembedded_indexChunks indexer.content ▸ waiting)

/-- The flag is sound in every state exactly when nothing waited at the start and no submit
fails halfway on a clear flag. -/
theorem flag_sound_iff (db : WitchcraftDb) (content : db.Content) (calls : List IndexerCall) :
    Always WitchcraftIndexer.step FlagSound (.openBlocking content) calls ↔
      db.unembedded content = 0 ∧
        Guarded WitchcraftIndexer.step FailsOnlyDirty (.openBlocking content) calls := by
  have opened : FlagSound (.openBlocking content) ↔ db.unembedded content = 0 := by
    simp [FlagSound, WitchcraftIndexer.openBlocking]
  constructor
  · intro always
    refine ⟨opened.mp always.head, ?_⟩
    exact (always_iff_guarded flagSound_step_iff always.head calls).mp always
  · rintro ⟨clear, guarded⟩
    exact (always_iff_guarded flagSound_step_iff (opened.mpr clear) calls).mpr guarded

end Flag

section Sample

/-- A document of one long word. -/
def wordOf (size : Nat) : String := String.ofList (List.replicate size 'x')

theorem one_lt_segments_of_long {size : Nat} (long : segmentTargetChars + snapWindow < size) :
    1 < (splitForIndex (wordOf size)).length := by
  apply two_le_splitForIndex_length
  rwa [wordOf, String.toList_ofList, List.length_replicate]

def sampleDb : WitchcraftDb := .tables .oldestFirst

theorem shorter_document_keeps_old_segments :
    let calls := [.submit (wordOf 2400), .submit "x"].map (MessageCall.on "work:a@example.org")
    ¬ Refines "work:a@example.org"
      (run WitchcraftIndexer.step (.openBlocking sampleDb.empty) calls)
      (run InMemoryIndexer.step ⟨[]⟩ calls) := by
  intro calls refines
  have start : Overwritten "work:a@example.org" (.openBlocking sampleDb.empty) ⟨[]⟩ [] :=
    ⟨fun idx => sampleDb.stored_empty _, rfl⟩
  have longest := (start.calls [.submit (wordOf 2400), .submit "x"]).refines_iff.mp refines
  have covered := longest (wordOf 2400) List.mem_cons_self
  have single : (splitForIndex "x").length = 1 := by decide
  have size : segmentTargetChars + snapWindow < 2400 := by decide
  have several := one_lt_segments_of_long size
  omega

/-- A process was killed between `submit` and the flush, or a submit failed behind its first
segment: either way a document waits and the flag is clear. -/
theorem unembedded_with_clear_flag :
    ¬ Always WitchcraftIndexer.step FlagSound
        (.openBlocking (sampleDb.addDoc sampleDb.empty ⟨"work:a@example.org", 0, 1, "x"⟩)) [] ∧
      ¬ Always WitchcraftIndexer.step FlagSound (.openBlocking sampleDb.empty)
        [.submit ⟨"work:a@example.org", (wordOf 2400)⟩ ⟨some 1, "database is locked"⟩] := by
  constructor
  · intro always
    have dirty := always.head (sampleDb.unembedded_addDoc _ _)
    cases dirty
  · intro always
    have size : segmentTargetChars + snapWindow < 2400 := by decide
    have keeps := (flagSound_step_iff _ _ always.1).mp always.2
    have dirty := keeps 1 rfl Nat.one_pos (one_lt_segments_of_long size)
    cases dirty

end Sample

end Scryd.Search
