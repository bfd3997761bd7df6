import Scryd.Foundation.Table
import Scryd.Foundation.Ranking
import Scryd.Search.Document

/-!
# `WitchcraftIndexer`

The handle around the witchcraft database: a message becomes up to eight
documents, embedding is deferred and bounded per call, and a search collapses
the best documents to the best messages.  The engine itself is a parameter.
-/

namespace Scryd.Search

open Scryd.Foundation

/-- `usize::MAX` on the 64-bit targets. -/
def usizeMax : Nat := 2 ^ 64 - 1

def flushEmbedBatch : Nat := 4

/-- A witchcraft document: one segment, with the message it belongs to as metadata. -/
structure IndexDoc where
  messageId : String
  seg : Nat
  of : Nat
  body : String
  deriving DecidableEq

/-- `segment_uuid`.  The UUID v5 of a name is the name here. -/
def segmentUuid (id : String) (idx : Nat) : String :=
  if idx = 0 then id else id ++ "#" ++ toString idx

def IndexDoc.uuid (doc : IndexDoc) : String := segmentUuid doc.messageId doc.seg

def SameUuid (left right : IndexDoc) : Prop := left.uuid = right.uuid

instance : DecidableRel SameUuid := fun _ _ => inferInstanceAs (Decidable (_ = _))

theorem SameUuid.reflexive (doc : IndexDoc) : SameUuid doc doc := rfl

theorem SameUuid.symmetric (left right : IndexDoc) (same : SameUuid left right) :
    SameUuid right left := Eq.symm same

structure IndexSubmit where
  messageId : String
  document : String
  deriving DecidableEq

/-- A document that waits for its embedding, and whether this process submitted it. -/
structure Unembedded where
  doc : IndexDoc
  submitted : Bool
  deriving DecidableEq

/-- The database behind the mutex and the `dirty` flag. -/
structure State where
  documents : Table IndexDoc SameUuid
  unembedded : List Unembedded
  dirty : Bool

/-- `open_blocking` over a database with documents that an earlier process left without
an embedding. -/
def State.opened (documents : Table IndexDoc SameUuid) (inherited : List IndexDoc) : State :=
  ⟨documents, inherited.map fun doc => ⟨doc, false⟩, false⟩

/-- `witchcraft::embed_chunks`: it embeds `limit` of the waiting documents, or all of them,
and which ones is its choice. -/
structure EmbedChunks where
  remaining : Nat → List Unembedded → List Unembedded
  sublist : ∀ limit waiting, (remaining limit waiting).Sublist waiting
  length : ∀ limit waiting,
    (remaining limit waiting).length + min limit waiting.length = waiting.length

/-- The embedder that takes the oldest documents first. -/
def EmbedChunks.oldestFirst : EmbedChunks where
  remaining limit waiting := waiting.drop limit
  sublist limit waiting := List.drop_sublist limit waiting
  length limit waiting := by
    rw [List.length_drop]
    omega

/-- The documents of a submission. -/
def IndexSubmit.docs (submission : IndexSubmit) : List IndexDoc :=
  let segments := splitForIndex submission.document
  segments.mapIdx fun idx body => ⟨submission.messageId, idx, segments.length, body⟩

@[simp] theorem IndexSubmit.docs_length (submission : IndexSubmit) :
    submission.docs.length = (splitForIndex submission.document).length := by
  simp [IndexSubmit.docs]

/-- `DB::add_doc`: insert or replace, and wait for the embedding. -/
def State.addDoc (state : State) (doc : IndexDoc) : State :=
  { state with
    documents := state.documents.replace doc
    unembedded := state.unembedded ++ [⟨doc, true⟩] }

/-- `WitchcraftIndexer::submit`. -/
def submit (state : State) (submission : IndexSubmit) : State :=
  { submission.docs.foldl State.addDoc state with dirty := true }

theorem foldl_addDoc_unembedded (docs : List IndexDoc) (state : State) :
    (docs.foldl State.addDoc state).unembedded =
      state.unembedded ++ docs.map fun doc => ⟨doc, true⟩ := by
  induction docs generalizing state with
  | nil => simp
  | cons doc rest inductionHypothesis =>
      rw [List.foldl_cons, inductionHypothesis]
      simp [State.addDoc]

@[simp] theorem submit_unembedded (state : State) (submission : IndexSubmit) :
    (submit state submission).unembedded =
      state.unembedded ++ submission.docs.map fun doc => ⟨doc, true⟩ :=
  foldl_addDoc_unembedded submission.docs state

@[simp] theorem submit_dirty (state : State) (submission : IndexSubmit) :
    (submit state submission).dirty = true := rfl

/-- `flush_embeddings`, with the number of documents embedded. -/
def flushEmbeddings (embedder : EmbedChunks) (state : State) : Nat × State :=
  if state.dirty then
    let embedded := min flushEmbedBatch state.unembedded.length
    (embedded, { state with
      unembedded := embedder.remaining flushEmbedBatch state.unembedded
      dirty := !decide (embedded < flushEmbedBatch) })
  else
    (0, state)

end Scryd.Search
