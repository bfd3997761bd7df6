import Scryd.Runtime.Indexed

/-!
# The drainer comes to rest

Once the submits are done, the drainer works off the queue, whatever the indexer
answers: each round costs the queue a row or an attempt.
-/

namespace Scryd.Runtime

open Scryd.Foundation Scryd.Storage Scryd.Mime Scryd.Imap
open Scryd.Search (IndexSubmit WitchcraftDb Fault documentOf maxAttempts sanitizeError
  PermanentExact attemptsLeft attemptsLeft_filter_lt attemptsLeft_map_lt indexerBatch)

/-- The message has a queue row that has not failed permanently. -/
def Drainable (store : Store) (id : String) : Prop :=
  ∃ row ∈ store.indexQueue.rows, row.messageId = id ∧ row.failedPermanent = false

section Queue

variable {store : Store} {id other : String}

theorem Drainable.of_queue {next : Store} (drainable : Drainable store id)
    (same : next.indexQueue = store.indexQueue) : Drainable next id := by
  rwa [Drainable, same]

theorem Drainable.enqueue (drainable : Drainable store id) (now : Int) (other : String) :
    Drainable (Storage.enqueue now other store) id := by
  obtain ⟨row, queued, same, active⟩ := drainable
  unfold Storage.enqueue
  split
  · exact ⟨row, queued, same, active⟩
  next indexQueue inserted =>
    refine ⟨row, ?_, same, active⟩
    rw [Table.insert?_rows inserted]
    exact List.mem_append_left _ queued

theorem Drainable.deleteQueueRow (drainable : Drainable store id) (different : id ≠ other) :
    Drainable (Storage.deleteQueueRow other store) id := by
  obtain ⟨row, queued, rfl, active⟩ := drainable
  refine ⟨row, ?_, rfl, active⟩
  rw [Storage.deleteQueueRow, Table.delete_rows, List.mem_filter]
  exact ⟨queued, by simpa using different⟩

theorem Drainable.markFailed (drainable : Drainable store id) (different : id ≠ other)
    (failed : Drainable store other) (now : Int) (error : String) :
    Drainable (Storage.markFailed now other error maxAttempts store).2 id := by
  obtain ⟨row, queued, rfl, active⟩ := drainable
  obtain ⟨current, stored, rfl, _⟩ := failed
  refine ⟨row, ?_, rfl, active⟩
  rw [(markFailed_stored stored now error maxAttempts).1]
  refine List.mem_map.mpr ⟨row, queued, ?_⟩
  rw [recordFailure, if_neg different]

theorem permanentExact_enqueue (exact : PermanentExact store.indexQueue.rows) (now : Int)
    (id : String) : PermanentExact (enqueue now id store).indexQueue.rows := by
  unfold enqueue
  split
  · exact exact
  next indexQueue inserted =>
    intro row member
    rw [Table.insert?_rows inserted, List.mem_append, List.mem_singleton] at member
    rcases member with old | rfl
    · exact exact row old
    · simp [maxAttempts]

/-- A failure that is recorded costs an attempt. -/
theorem attemptsLeft_markFailed_lt (exact : PermanentExact store.indexQueue.rows)
    (drainable : Drainable store id) (now : Int) (error : String) :
    attemptsLeft (markFailed now id error maxAttempts store).2.indexQueue.rows <
      attemptsLeft store.indexQueue.rows := by
  obtain ⟨row, stored, rfl, active⟩ := drainable
  rw [(markFailed_stored stored now error maxAttempts).1]
  refine attemptsLeft_map_lt stored (exact.lt_of_drainable stored active) ?_ ?_
  · intro other member
    unfold recordFailure
    split
    next sameId =>
      rw [store.indexQueue.eq_of_conflict SameQueued.symmetric member stored sameId]
      exact Nat.le_succ _
    next => exact Nat.le_refl _
  · rw [recordFailure, if_pos rfl]
    exact Nat.lt_succ_self _

/-- A queue row that is deleted costs all its attempts. -/
theorem attemptsLeft_deleteQueueRow_lt (exact : PermanentExact store.indexQueue.rows)
    (drainable : Drainable store id) :
    attemptsLeft (deleteQueueRow id store).indexQueue.rows <
      attemptsLeft store.indexQueue.rows := by
  obtain ⟨row, stored, rfl, active⟩ := drainable
  rw [deleteQueueRow, Table.delete_rows]
  exact attemptsLeft_filter_lt stored (by simp) (exact.lt_of_drainable stored active)

end Queue

/-- What the drainer holds or has to record is drainable, and the flags of the queue are exact. -/
structure Draining {db : WitchcraftDb} (state : Indexing db) : Prop where
  exact : PermanentExact state.delivery.store.indexQueue.rows
  batch : ∀ row ∈ state.delivery.batch, Drainable state.delivery.store row.messageId
  inFlight : ∀ id, state.delivery.processing.inFlight = some id →
    Drainable state.delivery.store id
  failing : ∀ id error, state.failing = some (id, error) → state.delivery.processing = .idle ∧
    id ∉ state.delivery.batch.map IndexQueueRow.messageId ∧ Drainable state.delivery.store id

section Steps

variable {db : WitchcraftDb} {platform : Platform} {order : ScanOrder} {state : Indexing db}

theorem Draining.fresh (db : WitchcraftDb) (accounts : Table AccountRow SameAccount) :
    Draining (.fresh db accounts) := by
  refine ⟨?_, ?_, ?_, ?_⟩
  · intro row member
    cases member
  · intro row member
    cases member
  · intro id inFlight
    cases inFlight
  · intro id error failing
    cases failing

/-- A step of the sinks. -/
theorem Draining.extended (draining : Draining state) {delivery : Delivery}
    (batch : delivery.batch = state.delivery.batch)
    (processing : delivery.processing = state.delivery.processing)
    (exact : PermanentExact delivery.store.indexQueue.rows)
    (kept : ∀ id, Drainable state.delivery.store id → Drainable delivery.store id) :
    Draining { state with delivery := delivery } := by
  refine ⟨exact, ?_, ?_, ?_⟩
  · intro row member
    exact kept _ (draining.batch row (by rwa [batch] at member))
  · intro id inFlight
    exact kept id (draining.inFlight id (by rwa [processing] at inFlight))
  · intro id error failing
    obtain ⟨idle, apart, drainable⟩ := draining.failing id error failing
    exact ⟨processing.trans idle, by rwa [batch], kept id drainable⟩

/-- Letting go of the message in flight. -/
theorem Draining.dropped (draining : Draining state) (inserted : List String)
    {rows : List IndexQueueRow} (fewer : rows.Sublist state.delivery.batch)
    (indexer : Search.WitchcraftIndexer db) :
    Draining ⟨{ state.delivery with inserted := inserted, batch := rows, processing := .idle },
      indexer, none⟩ := by
  refine ⟨draining.exact, ?_, ?_, ?_⟩
  · intro row member
    exact draining.batch row (fewer.subset member)
  · intro id inFlight
    cases inFlight
  · intro id error failing
    cases failing

theorem Draining.drainStep (draining : Draining state) (held : Held state.delivery)
    (indexer : Search.WitchcraftIndexer db) :
    Draining ⟨Runtime.drainStep order state.delivery, indexer, none⟩ := by
  have nothing : ∀ (delivery : Delivery) id error, (none : Option (String × String)) =
      some (id, error) → delivery.processing = .idle ∧
        id ∉ delivery.batch.map IndexQueueRow.messageId ∧ Drainable delivery.store id := by
    intro delivery id error impossible
    cases impossible
  rcases drainStep_cases order state.delivery with
    ⟨idle, _, step⟩ | ⟨row, rest, _, batch, ⟨_, step⟩ | ⟨message, _, step⟩⟩ |
      ⟨submission, loaded, step⟩ | ⟨id, deletes, step⟩
  · rw [step]
    refine ⟨draining.exact, ?_, draining.inFlight, nothing _⟩
    intro row member
    obtain ⟨queued, active⟩ := mem_of_mem_popBatch member
    exact ⟨row, queued, rfl, active⟩
  · rw [step]
    have first := draining.batch row (by rw [batch]; exact List.mem_cons_self)
    refine ⟨draining.exact, ?_, ?_, nothing _⟩
    · intro other member
      exact draining.batch other (by rw [batch]; exact List.mem_cons_of_mem row member)
    · intro id inFlight
      cases inFlight
      exact first
  · rw [step]
    have first := draining.batch row (by rw [batch]; exact List.mem_cons_self)
    refine ⟨draining.exact, ?_, ?_, nothing _⟩
    · intro other member
      exact draining.batch other (by rw [batch]; exact List.mem_cons_of_mem row member)
    · intro id inFlight
      cases inFlight
      exact first
  · rw [step]
    refine ⟨draining.exact, draining.batch, ?_, nothing _⟩
    intro id inFlight
    cases inFlight
    exact draining.inFlight submission.messageId (by rw [loaded]; rfl)
  · rw [step]
    have inFlight := deletes.inFlight
    refine ⟨?_, ?_, ?_, nothing _⟩
    · intro row member
      rw [deleteQueueRow, Table.delete_rows] at member
      exact draining.exact row (List.mem_of_mem_filter member)
    · intro row member
      refine (draining.batch row member).deleteQueueRow ?_
      rintro rfl
      exact held.inFlight _ inFlight (List.mem_map_of_mem member)
    · intro other isInFlight
      cases isInFlight

theorem Draining.step (draining : Draining state) (held : Held state.delivery)
    (event : IndexingEvent) : Draining (indexing platform order state event) := by
  cases event with
  | insert threads fetched =>
      let inserted := insertStep platform threads fetched state.delivery
      have frame : inserted.store.indexQueue = state.delivery.store.indexQueue ∧
          inserted.batch = state.delivery.batch ∧
            inserted.processing = state.delivery.processing := by
        rcases @insertStep_cases platform threads fetched state.delivery with
          same | ⟨_, _, _, accepted, same⟩
        · simp only [inserted, same, and_self]
        · simp only [inserted, same]
          exact ⟨(insertMessage_frame accepted).2.2, rfl, rfl⟩
      obtain ⟨queue, batch, processing⟩ := frame
      exact draining.extended batch processing (by rw [queue]; exact draining.exact)
        fun id drainable => drainable.of_queue queue
  | enqueue now id =>
      rw [indexing, enqueueStep]
      split
      · exact draining.extended rfl rfl (permanentExact_enqueue draining.exact now id)
          fun other drainable => drainable.enqueue now id
      · exact draining
  | drain now fault =>
      rw [indexing]
      rcases state.drain_cases order now fault with
        ⟨id, error, recorded, step⟩ | ⟨_, _, step⟩ | ⟨_, submission, after, _, _, step⟩ |
          ⟨_, submission, after, reached, error, loaded, _, step⟩
      · rw [step]
        obtain ⟨idle, apart, failed⟩ := draining.failing id error recorded
        refine ⟨?_, ?_, ?_, ?_⟩
        · obtain ⟨row, stored, rfl, _⟩ := failed
          rw [(markFailed_stored stored now _ maxAttempts).1]
          exact draining.exact.recordFailure now _ _ _
        · intro row member
          refine (draining.batch row member).markFailed ?_ failed now _
          rintro rfl
          exact apart (List.mem_map_of_mem member)
        · intro other inFlight
          dsimp only at inFlight
          rw [idle] at inFlight
          cases inFlight
        · intro other text impossible
          cases impossible
      · rw [step]
        exact draining.drainStep held state.indexer
      · rw [step]
        exact draining.drainStep held after
      · rw [step]
        have inFlight : state.delivery.processing.inFlight = some submission.messageId := by
          rw [loaded]
          rfl
        refine ⟨draining.exact, draining.batch, ?_, ?_⟩
        · intro id impossible
          cases impossible
        · intro id text failing
          cases failing
          exact ⟨rfl, held.inFlight _ inFlight, draining.inFlight _ inFlight⟩
  | storageFails =>
      rw [indexing, Indexing.storageFails]
      split
      · refine ⟨draining.exact, draining.batch, draining.inFlight, ?_⟩
        intro id error impossible
        cases impossible
      next unfailed =>
        split
        next idle =>
          have dropped := draining.dropped state.delivery.inserted (List.tail_sublist _)
            state.indexer
          rw [← idle, ← unfailed] at dropped
          exact dropped
        next => exact draining
        next =>
          have dropped := draining.dropped state.delivery.inserted (.refl _) state.indexer
          rw [← unfailed] at dropped
          exact dropped
  | flushEmbeddings failure =>
      exact ⟨draining.exact, draining.batch, draining.inFlight, draining.failing⟩
  | flushIndex failure =>
      exact ⟨draining.exact, draining.batch, draining.inFlight, draining.failing⟩
  | restart => exact draining.dropped [] (List.nil_sublist _) _

end Steps

section Rest

variable {db : WitchcraftDb} {platform : Platform} {order : ScanOrder} {state : Indexing db}

/-- Nothing is in the drainer's hands, and what is left in the queue has failed permanently. -/
structure AtRest (state : Indexing db) : Prop where
  failing : state.failing = none
  processing : state.delivery.processing = .idle
  batch : state.delivery.batch = []
  queue : ∀ row ∈ state.delivery.store.indexQueue.rows, row.failedPermanent = true

/-- How many steps the drainer is away from its next attempt at most. -/
def Indexing.stage (state : Indexing db) : Nat :=
  match state.failing with
  | some _ => 1
  | none =>
      match state.delivery.processing with
      | .idle => if state.delivery.batch.isEmpty then 4 else 3
      | .loaded _ => 2
      | _ => 1

theorem Indexing.stage_le (state : Indexing db) : state.stage ≤ 4 := by
  unfold Indexing.stage
  split
  · omega
  · split
    · split
      · omega
      · omega
    · omega
    · omega

def Indexing.toGo (state : Indexing db) : Nat :=
  5 * attemptsLeft state.delivery.store.indexQueue.rows + state.stage

/-- Whatever the indexer answers, a step brings the drainer closer to its rest. -/
theorem toGo_drain_lt (draining : Draining state) (busy : ¬ AtRest state) (now : Int)
    (fault : Fault) : (state.drain order now fault).toGo < state.toGo := by
  have paid : ∀ next : Indexing db, attemptsLeft next.delivery.store.indexQueue.rows <
      attemptsLeft state.delivery.store.indexQueue.rows → next.toGo < state.toGo := by
    intro next fewer
    have inStage := next.stage_le
    unfold Indexing.toGo
    omega
  have advanced : ∀ next : Indexing db, next.delivery.store = state.delivery.store →
      next.stage < state.stage → next.toGo < state.toGo := by
    intro next same lower
    unfold Indexing.toGo
    rw [same]
    omega
  rcases state.drain_cases order now fault with
    ⟨id, error, recorded, step⟩ | ⟨unfailed, notLoaded, step⟩ |
      ⟨unfailed, submission, after, loaded, _, step⟩ |
        ⟨unfailed, submission, after, reached, error, loaded, _, step⟩
  · rw [step]
    apply paid
    exact attemptsLeft_markFailed_lt draining.exact (draining.failing id error recorded).2.2 now _
  · rw [step]
    rcases drainStep_cases order state.delivery with
      ⟨idle, empty, taken⟩ | ⟨row, rest, idle, batch, ⟨_, taken⟩ | ⟨message, _, taken⟩⟩ |
        ⟨submission, loaded, _⟩ | ⟨id, deletes, taken⟩
    · -- The queue has a drainable row, or the drainer is at rest.
      rw [taken]
      apply advanced
      · rfl
      · cases popped : popBatch order indexerBatch state.delivery.store with
        | nil =>
            have allFailed := (popBatch_eq_nil_iff order (by decide) _).mp popped
            exact absurd ⟨unfailed, idle, empty, allFailed⟩ busy
        | cons first others => simp [Indexing.stage, unfailed, idle, empty]
    · rw [taken]
      apply advanced
      · rfl
      · simp [Indexing.stage, unfailed, idle, batch]
    · rw [taken]
      apply advanced
      · rfl
      · simp [Indexing.stage, unfailed, idle, batch]
    · exact absurd loaded (notLoaded submission)
    · rw [taken]
      apply paid
      exact attemptsLeft_deleteQueueRow_lt draining.exact (draining.inFlight id deletes.inFlight)
  · rw [step]
    apply advanced
    · simp only [drainStep, loaded]
    · simp [Indexing.stage, drainStep, unfailed, loaded]
  · rw [step]
    apply advanced
    · rfl
    · simp [Indexing.stage, unfailed, loaded]

/-- Steps of the drainer, with the clock and the faults of each. -/
def drains (calls : Nat → Int × Fault) (rounds : Nat) : List IndexingEvent :=
  (List.range rounds).map fun round => .drain (calls round).1 (calls round).2

theorem run_drains_succ (calls : Nat → Int × Fault) (rounds : Nat) (start : Indexing db) :
    run (indexing platform order) start (drains calls (rounds + 1)) =
      (run (indexing platform order) start (drains calls rounds)).drain order (calls rounds).1
        (calls rounds).2 := by
  rw [drains, List.range_succ, List.map_append, run_append]
  rfl

/-- The drainer's own steps lead to its rest. -/
theorem exists_atRest (keeps : KeepsDocuments db) (calls : Nat → Int × Fault)
    (draining : Draining state) (held : Held state.delivery) :
    ∃ rounds, AtRest (run (indexing platform order) state (drains calls rounds)) := by
  let advance := fun current : Nat × Indexing db =>
    (current.1 + 1, current.2.drain order (calls current.1).1 (calls current.1).2)
  have iterated : ∀ rounds, advance^[rounds] (0, state) =
      (rounds, run (indexing platform order) state (drains calls rounds)) := by
    intro rounds
    induction rounds with
    | zero => rfl
    | succ rounds inductionHypothesis =>
        rw [Function.iterate_succ_apply', inductionHypothesis, run_drains_succ]
  have rests := @exists_iterate_done _ advance
    (fun current => Draining current.2 ∧ Held current.2.delivery)
    (fun current => AtRest current.2) (fun current => current.2.toGo) (by
      rintro ⟨round, current⟩ ⟨draining, held⟩
      have move := indexing_move platform order keeps current
        (.drain (calls round).1 (calls round).2)
      exact ⟨@Draining.step db platform order current draining held
        (.drain (calls round).1 (calls round).2), move.held held⟩) (by
      rintro ⟨round, current⟩ ⟨draining, _⟩ busy
      exact toGo_drain_lt draining busy _ _) (0, state) ⟨draining, held⟩
  obtain ⟨rounds, atRest⟩ := rests
  rw [iterated] at atRest
  exact ⟨rounds, atRest⟩

/-- The drainer leaves the messages alone. -/
theorem drain_messages (now : Int) (fault : Fault) :
    (state.drain order now fault).delivery.store.messages = state.delivery.store.messages ∧
      (state.drain order now fault).delivery.inserted = state.delivery.inserted := by
  have stepFrame := drainStep_frame order state.delivery
  rcases state.drain_cases order now fault with
    ⟨id, error, _, step⟩ | ⟨_, _, step⟩ | ⟨_, _, _, _, _, step⟩ | ⟨_, _, _, _, _, _, _, step⟩
  · rw [step]
    exact ⟨(extends_markFailed now id _ maxAttempts _).1, rfl⟩
  · rw [step]
    exact stepFrame
  · rw [step]
    exact stepFrame
  · rw [step]
    exact ⟨rfl, rfl⟩

theorem run_drains_messages (calls : Nat → Int × Fault) (rounds : Nat) :
    (run (indexing platform order) state (drains calls rounds)).delivery.store.messages =
        state.delivery.store.messages ∧
      (run (indexing platform order) state (drains calls rounds)).delivery.inserted =
        state.delivery.inserted := by
  induction rounds with
  | zero => exact ⟨rfl, rfl⟩
  | succ rounds inductionHypothesis =>
      rw [run_drains_succ]
      obtain ⟨messages, inserted⟩ := @drain_messages db order
        (run (indexing platform order) state (drains calls rounds)) (calls rounds).1
        (calls rounds).2
      exact ⟨messages.trans inductionHypothesis.1, inserted.trans inductionHypothesis.2⟩

theorem drains_safe (calls : Nat → Int × Fault) (rounds : Nat) (start : Indexing db) :
    Guarded (indexing platform order) (IndexingSafe platform) start (drains calls rounds) := by
  induction rounds with
  | zero => trivial
  | succ rounds inductionHypothesis =>
      rw [drains, List.range_succ, List.map_append, guarded_append]
      exact ⟨inductionHypothesis, trivial, trivial⟩

end Rest

section Sample

/-- A mail is stored and enqueued. -/
def oneSubmit : List IndexingEvent :=
  [.insert {} (sampleMail "INBOX" 1 [97]), .enqueue 0 "work:a@example.org"]

theorem oneSubmit_safe : Guarded (indexing samplePlatform .byText)
    (IndexingSafe samplePlatform) (.fresh Search.sampleDb workAccounts) oneSubmit := by
  refine ⟨?_, ?_, trivial⟩
  · intro parsed _ row stored
    cases stored
  · intro inFlight
    cases inFlight

end Sample

end Scryd.Runtime
