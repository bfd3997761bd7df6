import Scryd.Search.Drainer
import Scryd.Search.Indexer

/-!
# Retries of the drainer

`Drainer::tick` with an indexer that may fail: a failed submission is counted
on its queue row, and a row that failed too often leaves the rotation.  The
indexer and the clock are the environment's, with any state behind them.
-/

namespace Scryd.Search

open Scryd.Foundation Scryd.Storage

universe u

def maxAttempts : Nat := 5

def maxErrorLen : Nat := 200

/-- The loop of `sanitize_error`, with its output so far. -/
def collapseWhitespace (out : List Char) (prevSpace : Bool) : List Char → List Char
  | [] => out
  | ch :: rest =>
      if isWhitespace ch then
        if !prevSpace && !out.isEmpty then collapseWhitespace (out ++ [' ']) true rest
        else collapseWhitespace out prevSpace rest
      else if isControl ch then collapseWhitespace out prevSpace rest
      else collapseWhitespace (out ++ [ch]) false rest

/-- `sanitize_error`. -/
def sanitizeError (raw : String) : String :=
  let trimmed := trimEnd (collapseWhitespace [] false raw.toList)
  if maxErrorLen < trimmed.length then String.ofList (trimmed.take maxErrorLen ++ ['…'])
  else String.ofList trimmed

example : sanitizeError "embed_chunks:\n  failed   on\tdoc\r\nbody" =
    "embed_chunks: failed on doc body" := by decide

/-- An indexer and a clock over the state of everything outside the database. -/
structure Outside (σ : Type u) where
  submit : IndexSubmit → σ → Except IndexError Unit × σ
  now : σ → Int

/-- A submission in the record of the run. -/
structure Submission where
  messageId : String
  succeeded : Bool
  deriving DecidableEq

/-- The database, the outside, and a record of the submissions so far. -/
structure Drain (σ : Type u) where
  store : Store
  outside : σ
  log : List Submission

namespace Drain

variable {σ : Type u}

def rows (drain : Drain σ) : List IndexQueueRow := drain.store.indexQueue.rows

variable (order : ScanOrder) (outside : Outside σ)

/-- `Drainer::process`, with storage calls that succeed. -/
def process (drain : Drain σ) (row : IndexQueueRow) : Drain σ :=
  match getMessage drain.store row.messageId with
  | none => { drain with store := deleteQueueRow row.messageId drain.store }
  | some message =>
      match outside.submit ⟨row.messageId, documentOf message⟩ drain.outside with
      | (.ok _, after) =>
          ⟨deleteQueueRow row.messageId drain.store, after,
            drain.log ++ [⟨row.messageId, true⟩]⟩
      | (.error err, after) =>
          ⟨(markFailed (outside.now after) row.messageId (sanitizeError err.text) maxAttempts
              drain.store).2, after, drain.log ++ [⟨row.messageId, false⟩]⟩

/-- `Drainer::tick`. -/
def tick (drain : Drain σ) : Nat × Drain σ :=
  let rows := popBatch order indexerBatch drain.store
  (rows.length, rows.foldl (process outside) drain)

/-- The state after a number of ticks. -/
def after (ticks : Nat) (drain : Drain σ) : Drain σ :=
  (fun current => (tick order outside current).2)^[ticks] drain

end Drain

/-- The calls that fill an index queue. -/
inductive QueueCall where
  | enqueue (now : Int) (id : String)
  | markFailed (now : Int) (id err : String)

def QueueCall.apply (store : Store) : QueueCall → Store
  | .enqueue now id => Storage.enqueue now id store
  | .markFailed now id err => (Storage.markFailed now id err maxAttempts store).2

/-- A store whose queue was filled by such calls. -/
def queuedBy (base : Store) (calls : List QueueCall) : Store :=
  run QueueCall.apply { base with indexQueue := .empty } calls

/-- The flag of a row says that its attempts are used up. -/
def PermanentExact (rows : List IndexQueueRow) : Prop :=
  ∀ row ∈ rows, row.failedPermanent = true ↔ maxAttempts ≤ row.attempts

def submitsOf (id : String) (log : List Submission) : List Submission :=
  log.filter fun submission => decide (submission.messageId = id)

def successesOf (id : String) (log : List Submission) : List Submission :=
  (submitsOf id log).filter Submission.succeeded

section Process

theorem PermanentExact.recordFailure {rows : List IndexQueueRow} (exact : PermanentExact rows)
    (now : Int) (id err : String) (attempts : Nat) :
    PermanentExact (rows.map (recordFailure now id err attempts
      (decide (maxAttempts ≤ attempts)))) := by
  intro row member
  obtain ⟨old, stored, rfl⟩ := List.mem_map.mp member
  unfold Storage.recordFailure
  split
  · simp
  · exact exact old stored

theorem PermanentExact.queuedBy (base : Store) (calls : List QueueCall) :
    PermanentExact (queuedBy base calls).indexQueue.rows := by
  refine @run_preserves _ _ _ (fun store : Store => PermanentExact store.indexQueue.rows) ?_ _ ?_
    calls
  · intro store call exact
    cases call with
    | enqueue now id =>
        simp only [QueueCall.apply, Storage.enqueue]
        split
        · exact exact
        next indexQueue inserted =>
          intro row member
          rw [Table.insert?_rows inserted, List.mem_append, List.mem_singleton] at member
          rcases member with old | rfl
          · exact exact row old
          · simp [maxAttempts]
    | markFailed now id err =>
        simp only [QueueCall.apply, Storage.markFailed]
        split
        · exact exact
        · exact exact.recordFailure now id err _
  · intro row member
    cases member

variable {σ : Type u} {outside : Outside σ} {drain : Drain σ}

/-- Everything that processing a queued row can do. -/
theorem Drain.process_cases (outside : Outside σ) {row : IndexQueueRow}
    (stored : row ∈ drain.rows) :
    (process outside drain row).store.messages = drain.store.messages ∧
    ((getMessage drain.store row.messageId = none ∧
        (process outside drain row).rows =
          drain.rows.filter (fun other => !decide (other.messageId = row.messageId)) ∧
        (process outside drain row).log = drain.log) ∨
      ((getMessage drain.store row.messageId).isSome ∧
        (process outside drain row).rows =
          drain.rows.filter (fun other => !decide (other.messageId = row.messageId)) ∧
        (process outside drain row).log = drain.log ++ [⟨row.messageId, true⟩]) ∨
      ((getMessage drain.store row.messageId).isSome ∧
        (∃ now err, (process outside drain row).rows =
          drain.rows.map (recordFailure now row.messageId err (row.attempts + 1)
            (decide (maxAttempts ≤ row.attempts + 1)))) ∧
        (process outside drain row).log = drain.log ++ [⟨row.messageId, false⟩])) := by
  unfold process
  cases found : getMessage drain.store row.messageId with
  | none => exact ⟨rfl, .inl ⟨rfl, rfl, rfl⟩⟩
  | some message =>
      dsimp only
      cases submitted : outside.submit ⟨row.messageId, documentOf message⟩ drain.outside with
      | mk result after =>
          cases result with
          | ok done => exact ⟨rfl, .inr (.inl ⟨rfl, rfl, rfl⟩)⟩
          | error err =>
              obtain ⟨marked, messages⟩ := markFailed_stored stored (outside.now after)
                (sanitizeError err.text) maxAttempts
              exact ⟨messages, .inr (.inr ⟨rfl, ⟨_, _, marked⟩, rfl⟩)⟩

/-- What other messages' rows and submissions are is left alone. -/
theorem Drain.process_frame (outside : Outside σ) {row : IndexQueueRow}
    (stored : row ∈ drain.rows) {id : String} (other : id ≠ row.messageId) :
    (∀ current : IndexQueueRow, current.messageId = id →
      (current ∈ (process outside drain row).rows ↔ current ∈ drain.rows)) ∧
    submitsOf id (process outside drain row).log = submitsOf id drain.log := by
  have logged : ∀ succeeded, submitsOf id (drain.log ++ [⟨row.messageId, succeeded⟩]) =
      submitsOf id drain.log := by
    intro succeeded
    simp [submitsOf, Ne.symm other]
  have kept : ∀ current : IndexQueueRow, current.messageId = id →
      (current ∈ drain.rows.filter (fun old => !decide (old.messageId = row.messageId)) ↔
        current ∈ drain.rows) := by
    rintro current rfl
    simp [other]
  rcases process_cases outside stored with
    ⟨_, ⟨_, rows, log⟩ | ⟨_, rows, log⟩ | ⟨_, ⟨now, err, rows⟩, log⟩⟩
  · rw [rows, log]
    exact ⟨kept, rfl⟩
  · rw [rows, log]
    exact ⟨kept, logged true⟩
  · rw [rows, log]
    refine ⟨fun current sameId => ?_, logged false⟩
    rw [List.mem_map]
    constructor
    · rintro ⟨old, oldStored, rfl⟩
      rw [recordFailure_messageId] at sameId
      rwa [recordFailure, if_neg (sameId ▸ other)]
    · intro member
      exact ⟨current, member, by rw [recordFailure, if_neg (sameId ▸ other)]⟩

/-- Two rows of the queue with one id are one row. -/
theorem Drain.row_unique (drain : Drain σ) {left right : IndexQueueRow}
    (leftStored : left ∈ drain.rows) (rightStored : right ∈ drain.rows)
    (sameId : left.messageId = right.messageId) : left = right :=
  drain.store.indexQueue.eq_of_conflict SameQueued.symmetric leftStored rightStored sameId

/-- The rows of a batch that still have to be processed: they are queued, drainable and of
different messages. -/
structure Drain.Ready (drain : Drain σ) (batch : List IndexQueueRow) : Prop where
  apart : (batch.map IndexQueueRow.messageId).Nodup
  queued : ∀ row ∈ batch, row ∈ drain.rows ∧ row.failedPermanent = false

theorem Drain.ready_popBatch (order : ScanOrder) (drain : Drain σ) :
    drain.Ready (popBatch order indexerBatch drain.store) :=
  ⟨popBatch_nodup order indexerBatch drain.store, fun _ popped => mem_of_mem_popBatch popped⟩

theorem Drain.Ready.take {batch : List IndexQueueRow} (ready : drain.Ready batch)
    (count : Nat) : drain.Ready (batch.take count) :=
  ⟨((List.take_sublist count batch).map _).nodup ready.apart,
    fun row member => ready.queued row (List.mem_of_mem_take member)⟩

theorem Drain.Ready.process {row : IndexQueueRow} {rest : List IndexQueueRow}
    (ready : drain.Ready (row :: rest)) (outside : Outside σ) :
    (process outside drain row).Ready rest := by
  have apart := List.nodup_cons.mp ready.apart
  have first := ready.queued row List.mem_cons_self
  refine ⟨apart.2, fun other member => ?_⟩
  have later := ready.queued other (List.mem_cons_of_mem row member)
  have different : other.messageId ≠ row.messageId := by
    intro same
    exact apart.1 (same ▸ List.mem_map_of_mem member)
  have frame := (process_frame outside first.1 different).1 other rfl
  exact ⟨frame.mpr later.1, later.2⟩

/-- The batch rule: what processing one queued drainable row preserves, a batch preserves. -/
theorem Drain.Ready.preserves {property : Drain σ → Prop}
    (step : ∀ (drain : Drain σ) (row : IndexQueueRow), property drain → row ∈ drain.rows →
      row.failedPermanent = false → property (Drain.process outside drain row))
    {batch : List IndexQueueRow} (ready : drain.Ready batch) (initially : property drain) :
    property (batch.foldl (Drain.process outside) drain) := by
  induction batch generalizing drain with
  | nil => exact initially
  | cons row rest inductionHypothesis =>
      obtain ⟨stored, drainable⟩ := ready.queued row List.mem_cons_self
      exact inductionHypothesis (ready.process outside)
        (step drain row initially stored drainable)

end Process

section Fates

variable {σ : Type u} {outside : Outside σ} {drain : Drain σ}

/-- How far a drain has come with a row of the queue it started from. -/
inductive Fate (start : Store) (row : IndexQueueRow) (drain : Drain σ) : Prop where
  | untouched (permanent : row.failedPermanent = true) (kept : row ∈ drain.rows)
      (unsubmitted : submitsOf row.messageId drain.log = [])
  | orphan (drainable : row.failedPermanent = false)
      (missing : getMessage start row.messageId = none)
      (kept : row ∈ drain.rows ∨ ¬ drain.store.Queued row.messageId)
      (unsubmitted : submitsOf row.messageId drain.log = [])
  | pending (drainable : row.failedPermanent = false)
      (found : (getMessage start row.messageId).isSome) (current : IndexQueueRow)
      (kept : current ∈ drain.rows) (sameId : current.messageId = row.messageId)
      (counted : current.attempts = row.attempts + (submitsOf row.messageId drain.log).length)
      (bounded : current.attempts ≤ maxAttempts)
      (failed : successesOf row.messageId drain.log = [])
  | delivered (drainable : row.failedPermanent = false)
      (found : (getMessage start row.messageId).isSome)
      (gone : ¬ drain.store.Queued row.messageId)
      (once : (successesOf row.messageId drain.log).length = 1)
      (bounded : row.attempts + (submitsOf row.messageId drain.log).length ≤ maxAttempts)

/-- The invariant of a drain. -/
structure Progress (start : Store) (drain : Drain σ) : Prop where
  messages : drain.store.messages = start.messages
  permanent : PermanentExact drain.rows
  fates : ∀ row ∈ start.indexQueue.rows, Fate start row drain

theorem PermanentExact.lt_of_drainable {rows : List IndexQueueRow} (exact : PermanentExact rows)
    {row : IndexQueueRow} (stored : row ∈ rows) (drainable : row.failedPermanent = false) :
    row.attempts < maxAttempts := by
  by_contra used
  have permanent := (exact row stored).mpr (Nat.le_of_not_lt used)
  rw [drainable] at permanent
  cases permanent

theorem progress_start {start : Store} (exact : PermanentExact start.indexQueue.rows)
    (outsideState : σ) : Progress start ⟨start, outsideState, []⟩ := by
  refine ⟨rfl, exact, fun row stored => ?_⟩
  cases permanent : row.failedPermanent with
  | true => exact .untouched permanent stored rfl
  | false =>
      cases found : getMessage start row.messageId with
      | none => exact .orphan permanent found (.inl stored) rfl
      | some message =>
          have below := exact.lt_of_drainable stored permanent
          exact .pending permanent (found ▸ rfl) row stored rfl rfl below.le rfl

theorem PermanentExact.process (exact : PermanentExact drain.rows) {row : IndexQueueRow}
    (stored : row ∈ drain.rows) : PermanentExact (drain.process outside row).rows := by
  have filtered : PermanentExact (drain.rows.filter fun other =>
      !decide (other.messageId = row.messageId)) :=
    fun other member => exact other (List.mem_of_mem_filter member)
  rcases Drain.process_cases outside stored with
    ⟨_, ⟨_, rows, _⟩ | ⟨_, rows, _⟩ | ⟨_, ⟨now, err, rows⟩, _⟩⟩
  · rwa [rows]
  · rwa [rows]
  · rw [rows]
    exact exact.recordFailure now row.messageId err (row.attempts + 1)

/-- Processing the row of another message changes nothing for this one. -/
theorem Fate.process_other {start : Store} {row : IndexQueueRow} (fate : Fate start row drain)
    {processed : IndexQueueRow} (stored : processed ∈ drain.rows)
    (other : row.messageId ≠ processed.messageId) :
    Fate start row (drain.process outside processed) := by
  obtain ⟨rows, submits⟩ := Drain.process_frame outside stored other
  have queued : (drain.process outside processed).store.Queued row.messageId ↔
      drain.store.Queued row.messageId := by
    constructor
    · rintro ⟨current, member, sameId⟩
      exact ⟨current, (rows current sameId).mp member, sameId⟩
    · rintro ⟨current, member, sameId⟩
      exact ⟨current, (rows current sameId).mpr member, sameId⟩
  cases fate with
  | untouched permanent kept unsubmitted =>
      exact .untouched permanent ((rows row rfl).mpr kept) (submits.trans unsubmitted)
  | orphan drainable missing kept unsubmitted =>
      exact .orphan drainable missing (kept.imp (rows row rfl).mpr (mt queued.mp))
        (submits.trans unsubmitted)
  | pending drainable found current kept sameId counted bounded failed =>
      refine .pending drainable found current ((rows current sameId).mpr kept) sameId ?_ bounded ?_
      · rwa [submits]
      · rwa [successesOf, submits]
  | delivered drainable found gone once bounded =>
      refine .delivered drainable found (mt queued.mp gone) ?_ ?_
      · rwa [successesOf, submits]
      · rwa [submits]

theorem not_queued_of_filtered {row : IndexQueueRow} {after : Drain σ}
    (rows : after.rows = drain.rows.filter fun other =>
      !decide (other.messageId = row.messageId)) : ¬ after.store.Queued row.messageId := by
  rintro ⟨current, member, sameId⟩
  have kept : current ∈ after.rows := member
  rw [rows] at kept
  simpa [sameId] using List.of_mem_filter kept

/-- Processing a row moves the fate of its message on. -/
theorem Fate.process_same {start : Store} {row processed : IndexQueueRow}
    (fate : Fate start row drain) (messages : drain.store.messages = start.messages)
    (exact : PermanentExact drain.rows) (stored : processed ∈ drain.rows)
    (active : processed.failedPermanent = false) (sameId : row.messageId = processed.messageId) :
    Fate start row (drain.process outside processed) := by
  have below := exact.lt_of_drainable stored active
  have lookup : getMessage drain.store processed.messageId = getMessage start row.messageId := by
    simp only [getMessage, messages, sameId]
  cases fate with
  | untouched permanent kept unsubmitted =>
      rw [drain.row_unique kept stored sameId, active] at permanent
      cases permanent
  | delivered drainable found gone once bounded =>
      exact absurd ⟨processed, stored, sameId.symm⟩ gone
  | orphan drainable missing kept unsubmitted =>
      rcases Drain.process_cases outside stored with
        ⟨_, ⟨_, rows, log⟩ | ⟨found, _⟩ | ⟨found, _⟩⟩
      · refine .orphan drainable missing (.inr ?_) (by rw [log, unsubmitted])
        rw [sameId]
        exact not_queued_of_filtered rows
      · rw [lookup, missing] at found
        cases found
      · rw [lookup, missing] at found
        cases found
  | pending drainable found current kept currentId counted bounded failed =>
      have same := drain.row_unique kept stored (currentId.trans sameId)
      subst same
      have submitted : ∀ succeeded, submitsOf row.messageId
          (drain.log ++ [⟨current.messageId, succeeded⟩]) =
            submitsOf row.messageId drain.log ++ [⟨current.messageId, succeeded⟩] := by
        intro succeeded
        simp [submitsOf, currentId]
      rcases Drain.process_cases outside stored with
        ⟨_, ⟨missing, _⟩ | ⟨_, rows, log⟩ | ⟨_, ⟨now, err, rows⟩, log⟩⟩
      · rw [lookup] at missing
        rw [missing] at found
        cases found
      · refine .delivered drainable found ?_ ?_ ?_
        · rw [sameId]
          exact not_queued_of_filtered rows
        · rw [successesOf] at failed ⊢
          rw [log, submitted, List.filter_append, failed]
          rfl
        · rw [log, submitted, List.length_append, List.length_singleton]
          omega
      · refine .pending drainable found (recordFailure now current.messageId err
          (current.attempts + 1) (decide (maxAttempts ≤ current.attempts + 1)) current) ?_ ?_ ?_ ?_
          ?_
        · rw [rows]
          exact List.mem_map_of_mem kept
        · rw [recordFailure_messageId, currentId]
        · rw [log, submitted, List.length_append, List.length_singleton, recordFailure, if_pos rfl]
          dsimp only
          omega
        · rw [recordFailure, if_pos rfl]
          exact below
        · rw [successesOf] at failed ⊢
          rw [log, submitted, List.filter_append, failed]
          rfl

theorem Progress.process {start : Store} (progress : Progress start drain)
    {processed : IndexQueueRow} (stored : processed ∈ drain.rows)
    (active : processed.failedPermanent = false) :
    Progress start (drain.process outside processed) := by
  refine ⟨(Drain.process_cases outside stored).1.trans progress.messages,
    progress.permanent.process stored, fun row member => ?_⟩
  by_cases sameId : row.messageId = processed.messageId
  · exact (progress.fates row member).process_same progress.messages progress.permanent stored
      active sameId
  · exact (progress.fates row member).process_other stored sameId

end Fates

section Termination

variable {σ : Type u} {outside : Outside σ} {drain : Drain σ} {order : ScanOrder}

/-- How many more failures the rows of a queue can take. -/
def attemptsLeft : List IndexQueueRow → Nat
  | [] => 0
  | row :: rest => (maxAttempts - row.attempts) + attemptsLeft rest

theorem attemptsLeft_filter_le (keep : IndexQueueRow → Bool) (rows : List IndexQueueRow) :
    attemptsLeft (rows.filter keep) ≤ attemptsLeft rows := by
  induction rows with
  | nil => exact Nat.le_refl 0
  | cons row rest inductionHypothesis =>
      rw [List.filter_cons]
      split
      · exact Nat.add_le_add_left inductionHypothesis _
      · exact inductionHypothesis.trans (Nat.le_add_left _ _)

theorem attemptsLeft_filter_lt {keep : IndexQueueRow → Bool} {rows : List IndexQueueRow}
    {row : IndexQueueRow} (stored : row ∈ rows) (dropped : keep row = false)
    (below : row.attempts < maxAttempts) :
    attemptsLeft (rows.filter keep) < attemptsLeft rows := by
  induction rows with
  | nil => cases stored
  | cons first rest inductionHypothesis =>
      rcases List.mem_cons.mp stored with rfl | inRest
      · have later := attemptsLeft_filter_le keep rest
        rw [List.filter_cons_of_neg (by simp [dropped]), attemptsLeft]
        omega
      · have later := inductionHypothesis inRest
        rw [List.filter_cons]
        split
        · exact Nat.add_lt_add_left later _
        · exact Nat.lt_of_lt_of_le later (Nat.le_add_left _ _)

theorem attemptsLeft_map_lt {change : IndexQueueRow → IndexQueueRow} {rows : List IndexQueueRow}
    {row : IndexQueueRow} (stored : row ∈ rows) (below : row.attempts < maxAttempts)
    (grows : ∀ other ∈ rows, other.attempts ≤ (change other).attempts)
    (counted : row.attempts < (change row).attempts) :
    attemptsLeft (rows.map change) < attemptsLeft rows := by
  have whole : ∀ rows : List IndexQueueRow,
      (∀ other ∈ rows, other.attempts ≤ (change other).attempts) →
      attemptsLeft (rows.map change) ≤ attemptsLeft rows := by
    intro rows
    induction rows with
    | nil => exact fun _ => Nat.le_refl 0
    | cons first rest inductionHypothesis =>
        intro grows
        have here := grows first List.mem_cons_self
        have later := inductionHypothesis fun other member =>
          grows other (List.mem_cons_of_mem first member)
        simp only [List.map_cons, attemptsLeft]
        omega
  induction rows with
  | nil => cases stored
  | cons first rest inductionHypothesis =>
      have growsRest := fun other member => grows other (List.mem_cons_of_mem first member)
      simp only [List.map_cons, attemptsLeft]
      rcases List.mem_cons.mp stored with rfl | inRest
      · have later := whole rest growsRest
        omega
      · have here := grows first List.mem_cons_self
        have later := inductionHypothesis inRest growsRest
        omega

/-- Whatever the indexer answers, processing a row uses up an attempt or the row. -/
theorem attemptsLeft_process_lt (exact : PermanentExact drain.rows) {row : IndexQueueRow}
    (stored : row ∈ drain.rows) (drainable : row.failedPermanent = false) :
    attemptsLeft (drain.process outside row).rows < attemptsLeft drain.rows := by
  have below := exact.lt_of_drainable stored drainable
  have removed : attemptsLeft (drain.rows.filter fun other =>
      !decide (other.messageId = row.messageId)) < attemptsLeft drain.rows :=
    attemptsLeft_filter_lt stored (by simp) below
  rcases Drain.process_cases outside stored with
    ⟨_, ⟨_, rows, _⟩ | ⟨_, rows, _⟩ | ⟨_, ⟨now, err, rows⟩, _⟩⟩
  · rwa [rows]
  · rwa [rows]
  · rw [rows]
    refine attemptsLeft_map_lt stored below (fun other member => ?_) ?_
    · unfold recordFailure
      split
      next sameId =>
        rw [drain.row_unique member stored sameId]
        exact Nat.le_succ _
      next => exact Nat.le_refl _
    · rw [recordFailure, if_pos rfl]
      exact Nat.lt_succ_self _

theorem Progress.batch {start : Store} (progress : Progress start drain)
    {batch : List IndexQueueRow} (ready : drain.Ready batch) :
    Progress start (batch.foldl (Drain.process outside) drain) :=
  ready.preserves (fun _ _ holds stored active => holds.process stored active) progress

theorem Progress.tick {start : Store} (progress : Progress start drain) :
    Progress start (drain.tick order outside).2 :=
  progress.batch (drain.ready_popBatch order)

theorem Progress.after {start : Store} (progress : Progress start drain) (ticks : Nat) :
    Progress start (drain.after order outside ticks) := by
  induction ticks generalizing drain with
  | zero => exact progress
  | succ ticks inductionHypothesis => exact inductionHypothesis progress.tick

/-- A tick that finds a row to drain leaves fewer attempts. -/
theorem attemptsLeft_tick_lt {start : Store} (progress : Progress start drain)
    (busy : (drain.tick order outside).1 ≠ 0) :
    attemptsLeft (drain.tick order outside).2.rows < attemptsLeft drain.rows := by
  have ready := drain.ready_popBatch order
  simp only [Drain.tick] at busy ⊢
  cases popped : popBatch order indexerBatch drain.store with
  | nil =>
      rw [popped] at busy
      exact absurd rfl busy
  | cons row rest =>
      rw [popped] at ready
      obtain ⟨stored, drainable⟩ := ready.queued row List.mem_cons_self
      have first : attemptsLeft (drain.process outside row).rows < attemptsLeft drain.rows :=
        attemptsLeft_process_lt progress.permanent stored drainable
      let lowered := fun current : Drain σ => Progress start current ∧
        attemptsLeft current.rows ≤ attemptsLeft (drain.process outside row).rows
      have later : lowered (rest.foldl (Drain.process outside) (drain.process outside row)) := by
        apply (ready.process outside).preserves
        · intro current other holds otherStored otherDrainable
          have lower := @attemptsLeft_process_lt σ outside current holds.1.permanent other
            otherStored otherDrainable
          exact ⟨holds.1.process otherStored otherDrainable, lower.le.trans holds.2⟩
        · exact ⟨progress.process stored drainable, Nat.le_refl _⟩
      exact Nat.lt_of_le_of_lt later.2 first

/-- Repeating the tick finds an empty batch sooner or later. -/
theorem exists_idle_tick {start : Store} (progress : Progress start drain) :
    ∃ ticks, (Drain.tick order outside (drain.after order outside ticks)).1 = 0 := by
  refine @exists_iterate_done _ (fun current => (Drain.tick order outside current).2)
    (Progress start) (fun current => (Drain.tick order outside current).1 = 0)
    (fun current => attemptsLeft current.rows) ?_ ?_ drain progress
  · exact fun current holds => holds.tick
  · exact fun current holds busy => attemptsLeft_tick_lt holds busy

end Termination

section Classification

variable {σ : Type u}

/-- What has become of a row of the initial queue when nothing is left to drain. -/
def Classified (start : Store) (row : IndexQueueRow) (drain : Drain σ) : Prop :=
  if row.failedPermanent then
    row ∈ drain.rows ∧ submitsOf row.messageId drain.log = []
  else if (getMessage start row.messageId).isSome then
    (submitsOf row.messageId drain.log).length ≤ maxAttempts - row.attempts ∧
      ((¬ drain.store.Queued row.messageId ∧
          (successesOf row.messageId drain.log).length = 1) ∨
        ((∃ kept ∈ drain.rows, kept.messageId = row.messageId ∧
            kept.attempts = maxAttempts ∧ kept.failedPermanent = true) ∧
          successesOf row.messageId drain.log = []))
  else
    ¬ drain.store.Queued row.messageId ∧ submitsOf row.messageId drain.log = []

theorem Fate.classified {start : Store} {row : IndexQueueRow} {drain : Drain σ}
    (fate : Fate start row drain) (exact : PermanentExact drain.rows)
    (drained : ∀ left ∈ drain.rows, left.failedPermanent = true) :
    Classified start row drain := by
  unfold Classified
  cases fate with
  | untouched permanent kept unsubmitted =>
      rw [if_pos permanent]
      exact ⟨kept, unsubmitted⟩
  | orphan drainable missing kept unsubmitted =>
      rw [if_neg (by simp [drainable]), if_neg (by simp [missing])]
      refine ⟨?_, unsubmitted⟩
      rcases kept with queued | gone
      · have permanent := drained row queued
        rw [drainable] at permanent
        cases permanent
      · exact gone
  | pending drainable found current kept sameId counted bounded failed =>
      have permanent := drained current kept
      have used := (exact current kept).mp permanent
      rw [if_neg (by simp [drainable]), if_pos found]
      refine ⟨by omega, .inr ⟨⟨current, kept, sameId, ?_, permanent⟩, failed⟩⟩
      omega
  | delivered drainable found gone once bounded =>
      rw [if_neg (by simp [drainable]), if_pos found]
      exact ⟨by omega, .inl ⟨gone, once⟩⟩

/-- Draining ends, whatever the indexer answers; when it has ended every row of the initial
queue is classified; and the permanent flag is exact in every state on the way. -/
theorem drain_terminates_and_classifies (order : ScanOrder) (outside : Outside σ) (base : Store)
    (calls : List QueueCall) (outsideState : σ) :
    let start : Drain σ := ⟨queuedBy base calls, outsideState, []⟩
    (∃ ticks, (Drain.tick order outside (start.after order outside ticks)).1 = 0) ∧
      (∀ ticks, (Drain.tick order outside (start.after order outside ticks)).1 = 0 →
        ∀ row ∈ start.rows, Classified start.store row (start.after order outside ticks)) ∧
      ∀ ticks processed,
        let current := start.after order outside ticks
        PermanentExact (((popBatch order indexerBatch current.store).take processed).foldl
          (Drain.process outside) current).rows := by
  intro start
  have progress : Progress start.store start :=
    progress_start (PermanentExact.queuedBy base calls) outsideState
  refine ⟨exists_idle_tick progress, ?_, ?_⟩
  · intro ticks idle row member
    have reached : Progress start.store (start.after order outside ticks) := progress.after ticks
    have empty : popBatch order indexerBatch (start.after order outside ticks).store = [] :=
      List.eq_nil_of_length_eq_zero idle
    have drained := (popBatch_eq_nil_iff order (by decide) _).mp empty
    exact (reached.fates row member).classified reached.permanent drained
  · intro ticks processed
    have reached : Progress start.store (start.after order outside ticks) := progress.after ticks
    exact (reached.batch ((Drain.ready_popBatch order _).take processed)).permanent

end Classification

end Scryd.Search
