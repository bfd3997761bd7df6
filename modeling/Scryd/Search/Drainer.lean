import Scryd.Foundation.Run
import Scryd.Search.Witchcraft
import Scryd.Storage.Messages
import Scryd.Storage.Queue

/-!
# The drainer

The loop that hands queued messages to the indexer and embeds in bounded
rounds after every non-empty tick.  What other tasks do to the store meanwhile
is the environment's choice.
-/

namespace Scryd.Search

open Scryd.Foundation Scryd.Storage

def indexerBatch : Nat := 32

def indexRebuildThreshold : Nat := 256

/-- `build_document` of a row. -/
def documentOf (row : MessageRow) : String :=
  buildDocument row.subject row.senderAddr row.senderName row.bodyMd

theorem bodyMd_length_le_documentOf (row : MessageRow) :
    row.bodyMd.toList.length ≤ (documentOf row).toList.length := by
  simp only [documentOf, buildDocument, String.toList_append, List.length_append]
  omega

/-- The stores that one iteration reads: `pop_batch` first, then `get_message` for each row.
A read that fails sees none. -/
structure TickEnv where
  queue : Option Store
  seen : String → Option Store

def batch (order : ScanOrder) (env : TickEnv) : Option (List IndexQueueRow) :=
  env.queue.map (popBatch order indexerBatch)

/-- What `process` submits for a row, if the message can be read and is still there. -/
def submissionFor (env : TickEnv) (row : IndexQueueRow) : Option IndexSubmit :=
  (env.seen row.messageId).bind fun store =>
    (getMessage store row.messageId).map fun message => ⟨row.messageId, documentOf message⟩

/-- `Drainer::process`, on the side of the indexer. -/
def process (env : TickEnv) (state : State) (row : IndexQueueRow) : State :=
  match submissionFor env row with
  | some submission => submit state submission
  | none => state

/-- `Drainer::tick`, with the number of rows attempted. -/
def tick (order : ScanOrder) (env : TickEnv) (state : State) : Option (Nat × State) :=
  (batch order env).map fun rows => (rows.length, rows.foldl (process env) state)

/-- The bounded embed loop of one iteration, with the embeds counted so far. -/
def flushLoop (embedder : EmbedChunks) : Nat → State → Nat → State × Nat
  | 0, state, embeds => (state, embeds)
  | rounds + 1, state, embeds =>
      match flushEmbeddings embedder state with
      | (0, next) => (next, embeds)
      | (embedded + 1, next) =>
          flushLoop embedder rounds next (min (embeds + (embedded + 1)) usizeMax)

def flushRounds : Nat := max (indexerBatch / 4) 1

structure DrainerState where
  indexer : State
  embedsSinceLastIndex : Nat
  /-- How often `flush_index` ran. -/
  indexPasses : Nat
  /-- Whether the loop is at the idle wait. -/
  idle : Bool

def DrainerState.started (indexer : State) : DrainerState := ⟨indexer, 0, 0, false⟩

/-- One iteration of `Drainer::run`. -/
def iterate (order : ScanOrder) (embedder : EmbedChunks) (drainer : DrainerState)
    (env : TickEnv) : DrainerState :=
  match tick order env drainer.indexer with
  | none => { drainer with idle := false }
  | some (0, indexer) =>
      { indexer := indexer
        embedsSinceLastIndex := 0
        indexPasses :=
          if 0 < drainer.embedsSinceLastIndex then drainer.indexPasses + 1
          else drainer.indexPasses
        idle := true }
  | some (_ + 1, indexer) =>
      let (flushed, embeds) :=
        flushLoop embedder flushRounds indexer drainer.embedsSinceLastIndex
      if indexRebuildThreshold ≤ embeds then ⟨flushed, 0, drainer.indexPasses + 1, false⟩
      else ⟨flushed, embeds, drainer.indexPasses, false⟩

section Tick

/-- The documents that a batch adds to the index. -/
def batchDocs (env : TickEnv) (rows : List IndexQueueRow) : List IndexDoc :=
  rows.flatMap fun row => ((submissionFor env row).map IndexSubmit.docs).getD []

theorem process_effect (env : TickEnv) (state : State) (row : IndexQueueRow) :
    (process env state row).unembedded =
        state.unembedded ++ (batchDocs env [row]).map (fun doc => ⟨doc, true⟩) ∧
      (process env state row).dirty =
        (state.dirty || decide (0 < (batchDocs env [row]).length)) := by
  unfold process
  cases found : submissionFor env row with
  | none => simp [batchDocs, found]
  | some submission =>
      have some_segment := splitForIndex_length_pos submission.document
      simp [batchDocs, found, some_segment]

/-- A tick adds the documents of its batch, and marks the database dirty for them. -/
theorem foldl_process_effect (env : TickEnv) (rows : List IndexQueueRow) (state : State) :
    (rows.foldl (process env) state).unembedded =
        state.unembedded ++ (batchDocs env rows).map (fun doc => ⟨doc, true⟩) ∧
      (rows.foldl (process env) state).dirty =
        (state.dirty || decide (0 < (batchDocs env rows).length)) := by
  induction rows generalizing state with
  | nil => simp [batchDocs]
  | cons row rest inductionHypothesis =>
      have first := process_effect env state row
      have later := inductionHypothesis (process env state row)
      have split : batchDocs env (row :: rest) = batchDocs env [row] ++ batchDocs env rest := by
        simp [batchDocs]
      rw [List.foldl_cons, later.1, later.2, first.1, first.2, split]
      constructor
      · simp
      · rw [Bool.or_assoc, ← Bool.decide_or]
        congr 2
        rw [List.length_append]
        simp only [eq_iff_iff]
        omega

end Tick

section Flush

/-- The flag tells the truth: a clean database has nothing to embed. -/
def Settled (state : State) : Prop := state.dirty = false → state.unembedded = []

theorem flushLoop_clean (embedder : EmbedChunks) (rounds : Nat) {state : State}
    (clean : state.dirty = false) (embeds : Nat) :
    flushLoop embedder rounds state embeds = (state, embeds) := by
  cases rounds with
  | zero => rfl
  | succ rounds => simp [flushLoop, flushEmbeddings, clean]

/-- One call embeds a slice, keeps the order of what waits and leaves a truthful flag. -/
theorem flushEmbeddings_effect (embedder : EmbedChunks) {state : State}
    (settled : Settled state) :
    (flushEmbeddings embedder state).1 = min flushEmbedBatch state.unembedded.length ∧
      (flushEmbeddings embedder state).2.unembedded.length +
        min flushEmbedBatch state.unembedded.length = state.unembedded.length ∧
      Settled (flushEmbeddings embedder state).2 := by
  unfold flushEmbeddings
  cases flag : state.dirty with
  | false => simp [settled flag, Settled]
  | true =>
      have kept := embedder.length flushEmbedBatch state.unembedded
      refine ⟨rfl, kept, ?_⟩
      simp only [if_true, Settled]
      intro cleared
      apply List.eq_nil_of_length_eq_zero
      simp at cleared
      omega

theorem flushLoop_effect (embedder : EmbedChunks) (rounds : Nat) {state : State}
    (settled : Settled state) (embeds : Nat) :
    (flushLoop embedder rounds state embeds).1.unembedded.length =
        state.unembedded.length - flushEmbedBatch * rounds ∧
      Settled (flushLoop embedder rounds state embeds).1 := by
  induction rounds generalizing state embeds with
  | zero => exact ⟨rfl, settled⟩
  | succ rounds inductionHypothesis =>
      obtain ⟨count, kept, next⟩ := flushEmbeddings_effect embedder settled
      have batchSize : flushEmbedBatch = 4 := rfl
      simp only [flushLoop]
      split
      next after result =>
        rw [result] at count kept next
        dsimp only at count kept next ⊢
        exact ⟨by omega, next⟩
      next embedded after result =>
        rw [result] at count kept next
        dsimp only at count kept next
        obtain ⟨length, flag⟩ :=
          inductionHypothesis next (min (embeds + (embedded + 1)) usizeMax)
        refine ⟨?_, flag⟩
        rw [length, Nat.mul_succ]
        omega

end Flush

section Backlog

/-- The number of documents that wait for their embedding, computed from the inputs of the
loop alone, and whether this process has submitted any. -/
structure Backlog where
  waiting : Nat
  live : Bool

/-- A non-empty tick adds the segments of its documents and embeds one batch of documents. -/
def Backlog.next (order : ScanOrder) (backlog : Backlog) (env : TickEnv) : Backlog :=
  match batch order env with
  | some (row :: rest) =>
      let added := (batchDocs env (row :: rest)).length
      let live := backlog.live || decide (0 < added)
      ⟨if live then backlog.waiting + added - indexerBatch else backlog.waiting, live⟩
  | _ => backlog

/-- When a tick finds the queue empty, nothing is left of what was submitted. -/
def ClearWhenIdle (order : ScanOrder) (backlog : Backlog) (env : TickEnv) : Prop :=
  batch order env = some [] → backlog.live = true → backlog.waiting = 0

/-- At the idle wait every document this process submitted is embedded. -/
def IdleEmbedded (drainer : DrainerState) : Prop :=
  drainer.idle = true → ∀ waiting ∈ drainer.indexer.unembedded, waiting.submitted = false

/-- The database has as many waiting documents as the backlog says. -/
structure Tracks (state : State) (backlog : Backlog) : Prop where
  waiting : state.unembedded.length = backlog.waiting
  settled : backlog.live = true → Settled state
  untouched : backlog.live = false → state.dirty = false ∧
    ∀ waiting ∈ state.unembedded, waiting.submitted = false

variable {order : ScanOrder} {embedder : EmbedChunks}

/-- Everything an iteration can do to the indexer: nothing when the queue is empty or cannot
be read, else submit the batch and run the embed loop. -/
theorem iterate_cases (drainer : DrainerState) (env : TickEnv) :
    (batch order env = none ∧
      (iterate order embedder drainer env).indexer = drainer.indexer ∧
      (iterate order embedder drainer env).idle = false) ∨
    (batch order env = some [] ∧
      (iterate order embedder drainer env).indexer = drainer.indexer ∧
      (iterate order embedder drainer env).idle = true) ∨
    (∃ row rest, batch order env = some (row :: rest) ∧
      (iterate order embedder drainer env).idle = false ∧
      ∃ embeds, (iterate order embedder drainer env).indexer =
        (flushLoop embedder flushRounds ((row :: rest).foldl (process env) drainer.indexer)
          embeds).1) := by
  cases popped : batch order env with
  | none => exact .inl ⟨rfl, by simp [iterate, tick, popped]⟩
  | some rows =>
      cases rows with
      | nil => exact .inr (.inl ⟨rfl, by simp [iterate, tick, popped]⟩)
      | cons row rest =>
          apply Or.inr
          apply Or.inr
          refine ⟨row, rest, rfl, ?_⟩
          simp only [iterate, tick, popped, Option.map_some, List.length_cons]
          split
          · exact ⟨rfl, _, rfl⟩
          · exact ⟨rfl, _, rfl⟩

theorem Tracks.iterate {drainer : DrainerState} {backlog : Backlog}
    (tracks : Tracks drainer.indexer backlog) (env : TickEnv) :
    Tracks (Search.iterate order embedder drainer env).indexer (backlog.next order env) := by
  rcases @iterate_cases order embedder drainer env with
    ⟨popped, same, _⟩ | ⟨popped, same, _⟩ | ⟨row, rest, popped, _, embeds, flushed⟩
  · rw [same]
    simpa only [Backlog.next, popped] using tracks
  · rw [same]
    simpa only [Backlog.next, popped] using tracks
  · obtain ⟨added, dirty⟩ := foldl_process_effect env (row :: rest) drainer.indexer
    rw [flushed]
    simp only [Backlog.next, popped]
    cases live : backlog.live || decide (0 < (batchDocs env (row :: rest)).length) with
    | false =>
        -- Nothing was submitted so far, and the flag keeps the embed loop from running.
        simp only [Bool.or_eq_false_iff, decide_eq_false_iff_not, Nat.not_lt,
          Nat.le_zero] at live
        have none_added := List.eq_nil_of_length_eq_zero live.2
        obtain ⟨clean, inherited⟩ := tracks.untouched live.1
        rw [none_added, clean] at dirty
        rw [none_added, List.map_nil, List.append_nil] at added
        rw [flushLoop_clean embedder flushRounds dirty]
        refine ⟨?_, by simp, fun _ => ⟨dirty, ?_⟩⟩
        · rw [added]
          exact tracks.waiting
        · rw [added]
          exact inherited
    | true =>
        have settled : Settled ((row :: rest).foldl (process env) drainer.indexer) := by
          intro clean
          rw [dirty, Bool.or_eq_false_iff, decide_eq_false_iff_not, Nat.not_lt,
            Nat.le_zero] at clean
          simp only [clean.2, lt_self_iff_false, decide_false, Bool.or_false] at live
          rw [added, tracks.settled live clean.1, List.eq_nil_of_length_eq_zero clean.2]
          rfl
        obtain ⟨length, truthful⟩ := flushLoop_effect embedder flushRounds settled embeds
        have capacity : flushEmbedBatch * flushRounds = indexerBatch := by decide
        refine ⟨?_, fun _ => truthful, by simp⟩
        rw [length, capacity, added, List.length_append, List.length_map, tracks.waiting]
        simp

/-- A clear backlog is enough, whichever documents the embedder takes first. -/
theorem idleEmbedded_of_clear {drainer : DrainerState} {backlog : Backlog}
    (tracks : Tracks drainer.indexer backlog) {env : TickEnv}
    (clear : ClearWhenIdle order backlog env) :
    IdleEmbedded (Search.iterate order embedder drainer env) := by
  intro idle
  rcases @iterate_cases order embedder drainer env with
    ⟨_, _, busy⟩ | ⟨popped, same, _⟩ | ⟨_, _, _, busy, _⟩
  · rw [busy] at idle
    cases idle
  · rw [same]
    cases live : backlog.live with
    | false => exact (tracks.untouched live).2
    | true =>
        have empty : drainer.indexer.unembedded = [] := by
          apply List.eq_nil_of_length_eq_zero
          rw [tracks.waiting]
          exact clear popped live
        rw [empty]
        simp
  · rw [busy] at idle
    cases idle

end Backlog

section OldestFirst

variable {order : ScanOrder}

/-- What waits longest is embedded first, so the newest document waits to the end. -/
def NewestSubmitted (state : State) (backlog : Backlog) : Prop :=
  backlog.live = true → ∀ last, state.unembedded.getLast? = some last → last.submitted = true

theorem flushLoop_oldestFirst (rounds : Nat) (state : State) (embeds : Nat) :
    ∃ embedded, (flushLoop .oldestFirst rounds state embeds).1.unembedded =
      state.unembedded.drop embedded := by
  induction rounds generalizing state embeds with
  | zero => exact ⟨0, rfl⟩
  | succ rounds inductionHypothesis =>
      have slice : ∃ taken, (flushEmbeddings .oldestFirst state).2.unembedded =
          state.unembedded.drop taken := by
        unfold flushEmbeddings
        split
        · exact ⟨flushEmbedBatch, rfl⟩
        · exact ⟨0, rfl⟩
      obtain ⟨taken, first⟩ := slice
      simp only [flushLoop]
      split
      next after result =>
        rw [result] at first
        exact ⟨taken, first⟩
      next embedded after result =>
        rw [result] at first
        obtain ⟨later, rest⟩ :=
          inductionHypothesis after (min (embeds + (embedded + 1)) usizeMax)
        exact ⟨taken + later, by rw [rest, first, List.drop_drop]⟩

theorem NewestSubmitted.iterate {drainer : DrainerState} {backlog : Backlog}
    (newest : NewestSubmitted drainer.indexer backlog) (env : TickEnv) :
    NewestSubmitted (Search.iterate order .oldestFirst drainer env).indexer
      (backlog.next order env) := by
  rcases @iterate_cases order .oldestFirst drainer env with
    ⟨popped, same, _⟩ | ⟨popped, same, _⟩ | ⟨row, rest, popped, _, embeds, flushed⟩
  · rw [same]
    simpa only [Backlog.next, popped] using newest
  · rw [same]
    simpa only [Backlog.next, popped] using newest
  · obtain ⟨added, _⟩ := foldl_process_effect env (row :: rest) drainer.indexer
    obtain ⟨embedded, left⟩ := flushLoop_oldestFirst flushRounds
      ((row :: rest).foldl (process env) drainer.indexer) embeds
    rw [flushed]
    simp only [Backlog.next, popped, NewestSubmitted, left, added]
    intro live last isLast
    rw [List.getLast?_drop] at isLast
    split at isLast
    · cases isLast
    · rw [List.getLast?_append] at isLast
      cases docs : batchDocs env (row :: rest) with
      | nil =>
          rw [docs] at live isLast
          exact newest (by simpa using live) last isLast
      | cons doc docs' =>
          rw [docs, List.getLast?_map, List.getLast?_cons] at isLast
          cases isLast
          rfl

/-- With this embedder a clear backlog is also needed. -/
theorem clear_of_idleEmbedded {drainer : DrainerState} {backlog : Backlog}
    (tracks : Tracks drainer.indexer backlog) (newest : NewestSubmitted drainer.indexer backlog)
    {env : TickEnv} (embedded : IdleEmbedded (Search.iterate order .oldestFirst drainer env)) :
    ClearWhenIdle order backlog env := by
  intro popped live
  rcases @iterate_cases order .oldestFirst drainer env with
    ⟨other, _⟩ | ⟨_, same, idle⟩ | ⟨_, _, other, _⟩
  · rw [popped] at other
    cases other
  · have all := embedded idle
    rw [same] at all
    rw [← tracks.waiting]
    cases last : drainer.indexer.unembedded.getLast? with
    | none => simpa using last
    | some newestDoc =>
        have fromEarlier := all newestDoc (List.mem_of_getLast? last)
        rw [newest live newestDoc last] at fromEarlier
        cases fromEarlier
  · rw [popped] at other
    cases other

end OldestFirst

theorem tracks_opened (documents : Table IndexDoc SameUuid) (inherited : List IndexDoc) :
    Tracks (State.opened documents inherited) ⟨inherited.length, false⟩ := by
  refine ⟨by simp [State.opened], by simp, fun _ => ⟨rfl, ?_⟩⟩
  intro waiting member
  obtain ⟨doc, _, rfl⟩ := List.mem_map.mp member
  rfl

theorem backlog_clear_of_oldestFirst {order : ScanOrder} {documents : Table IndexDoc SameUuid}
    {inherited : List IndexDoc} {ticks : List TickEnv}
    (always : Always (iterate order .oldestFirst) IdleEmbedded
      (.started (.opened documents inherited)) ticks) :
    Guarded (Backlog.next order) (ClearWhenIdle order) ⟨inherited.length, false⟩ ticks := by
  let related := fun (drainer : DrainerState) (backlog : Backlog) =>
    Tracks drainer.indexer backlog ∧ NewestSubmitted drainer.indexer backlog
  apply @guarded_of_simulation _ _ _ _ _ related _ _ _ _ _ _ _ _ always
  · intro drainer backlog env both
    exact ⟨both.1.iterate env, both.2.iterate env⟩
  · intro drainer backlog env both embedded
    exact clear_of_idleEmbedded both.1 both.2 embedded
  · refine ⟨tracks_opened documents inherited, ?_⟩
    intro live
    cases live

/-- The idle wait is reached with everything embedded, whichever documents the embedder picks,
exactly when every idle tick finds the backlog worked off. -/
theorem idle_embedded_iff_backlog_clear (order : ScanOrder)
    (documents : Table IndexDoc SameUuid) (inherited : List IndexDoc) (ticks : List TickEnv) :
    (∀ embedder, Always (iterate order embedder) IdleEmbedded
        (.started (.opened documents inherited)) ticks) ↔
      Guarded (Backlog.next order) (ClearWhenIdle order) ⟨inherited.length, false⟩ ticks := by
  constructor
  · intro always
    exact backlog_clear_of_oldestFirst (always .oldestFirst)
  · intro guarded embedder
    let related := fun (drainer : DrainerState) (backlog : Backlog) =>
      Tracks drainer.indexer backlog
    apply @always_of_simulation _ _ _ _ _ related _ _ _ _ _ _ _ _ _ guarded
    · intro drainer backlog env tracks
      exact tracks.iterate env
    · intro drainer backlog env tracks clear
      exact idleEmbedded_of_clear tracks clear
    · exact tracks_opened documents inherited
    · intro idle
      cases idle

section Sample

/-- Mail with a body that needs at least two segments. -/
def longRow (uid : Nat) : MessageRow where
  messageId := "work:" ++ toString uid ++ "@example.org"
  accountId := sampleAccountId
  folder := "INBOX"
  serverUid := uid
  uidvalidity := 1
  headerMessageId := some (toString uid ++ "@example.org")
  inReplyTo := none
  references := []
  threadId := "t"
  senderAddr := "you@example.org"
  senderName := none
  recipientsTo := []
  recipientsCc := []
  subject := none
  dateUnix := 0
  rawPath := ""
  bodyMd := String.ofList (List.replicate 2400 'x')
  sizeBytes := 2400
  tombstonedAt := none

def longRows : List MessageRow := (List.range 17).map longRow

/-- Seventeen such messages wait in the queue. -/
def busyStore : Store where
  accounts := .empty
  syncState := .empty
  messages := ⟨longRows, by decide⟩
  indexQueue := ⟨longRows.map fun row => ⟨row.messageId, 0, none, 0, false, none⟩, by decide⟩

def busyTick : TickEnv := ⟨some busyStore, fun _ => some busyStore⟩

def idleTick : TickEnv :=
  ⟨some { busyStore with indexQueue := .empty }, fun _ => some busyStore⟩

theorem submissionFor_long {row : IndexQueueRow} (queued : row ∈ busyStore.indexQueue.rows) :
    ∃ submission, submissionFor busyTick row = some submission ∧
      segmentTargetChars + snapWindow < submission.document.toList.length := by
  obtain ⟨message, stored, rfl⟩ := List.mem_map.mp queued
  have found : getMessage busyStore message.messageId = some message :=
    (getMessage_eq_some_iff _ _ _).mpr ⟨stored, rfl⟩
  refine ⟨⟨message.messageId, documentOf message⟩, by simp [submissionFor, busyTick, found], ?_⟩
  obtain ⟨uid, _, rfl⟩ := List.mem_map.mp stored
  have sizes : segmentTargetChars + snapWindow < 2400 := by decide
  have body : (longRow uid).bodyMd.toList.length = 2400 := by
    simp only [longRow, String.toList_ofList, List.length_replicate]
  have whole := bodyMd_length_le_documentOf (longRow uid)
  dsimp only
  omega

/-- Messages that need several segments outnumber the documents one tick embeds. -/
theorem two_mul_length_le_batchDocs {env : TickEnv} {rows : List IndexQueueRow}
    (long : ∀ row ∈ rows, ∃ submission, submissionFor env row = some submission ∧
      segmentTargetChars + snapWindow < submission.document.toList.length) :
    2 * rows.length ≤ (batchDocs env rows).length := by
  induction rows with
  | nil => simp
  | cons row rest inductionHypothesis =>
      obtain ⟨submission, found, size⟩ := long row List.mem_cons_self
      have segments := two_le_splitForIndex_length size
      have later := inductionHypothesis fun other member =>
        long other (List.mem_cons_of_mem row member)
      simp only [batchDocs, List.flatMap_cons, found, Option.map_some, Option.getD_some,
        List.length_append, IndexSubmit.docs_length, List.length_cons] at later ⊢
      omega

theorem idle_with_unembedded_segments :
    ¬ Always (iterate .byText .oldestFirst) IdleEmbedded (.started (.opened .empty []))
      [busyTick, idleTick] := by
  intro always
  have clear := (backlog_clear_of_oldestFirst always).2.1
  have size : (popBatch .byText indexerBatch busyStore).length = 17 := by decide
  have many : 2 * 17 ≤ (batchDocs busyTick (popBatch .byText indexerBatch busyStore)).length := by
    rw [← size]
    apply two_mul_length_le_batchDocs
    intro row popped
    apply submissionFor_long
    have ranked := List.mem_of_mem_take popped
    rw [mem_sortBy] at ranked
    exact List.mem_of_mem_filter ranked
  cases popped : popBatch .byText indexerBatch busyStore with
  | nil =>
      rw [popped] at size
      cases size
  | cons row rest =>
      have batchEq : batch .byText busyTick = some (row :: rest) := by
        simp only [batch, busyTick, Option.map_some, popped]
      rw [popped] at many
      simp only [Backlog.next, batchEq, ClearWhenIdle] at clear
      have idle : batch .byText idleTick = some [] := by decide
      have capacity : indexerBatch = 32 := rfl
      have left := clear idle (by simp; omega)
      simp only [Bool.false_or, decide_eq_true_eq] at left
      rw [if_pos (by omega)] at left
      simp only [List.length_nil] at left
      omega

end Sample

end Scryd.Search
