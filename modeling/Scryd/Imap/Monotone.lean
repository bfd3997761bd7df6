import Scryd.Imap.Watermark
import Mathlib.Data.List.Chain

/-!
# Monotonicity of the stored watermark

Every backfill starts over at UID 1 and stores the largest UID of the session
after each batch.  Whether that is a step back is decided by the first batch
that holds a message.
-/

namespace Scryd.Imap

open Scryd.Foundation Scryd.Storage

variable {State : Type} {sink : MessageSink State} {conn : Connection}

/-- Within the epoch, no stored watermark is followed by a smaller one. -/
def NeverRegresses (epoch : Nat) (stored : List (Option Nat × Nat)) : Prop :=
  stored.IsChain fun before after => before.1 = some epoch → before.2 ≤ after.2

/-- The record ends with the stored pair and never regresses. -/
structure MonotoneRecord (view : WatermarkStore sink conn) (epoch : Nat)
    (state : Recorded State) : Prop where
  last : state.stored.getLast? = some (state.pair view)
  chain : NeverRegresses epoch state.stored

section Sink

variable {view : WatermarkStore sink conn} {epoch : Nat}

theorem MonotoneRecord.keep {state next : Recorded State}
    (monotone : MonotoneRecord view epoch state) (pair : next.pair view = state.pair view)
    (stored : next.stored = state.stored) : MonotoneRecord view epoch next where
  last := by rw [stored, pair, monotone.last]
  chain := stored ▸ monotone.chain

theorem MonotoneRecord.append {state next : Recorded State}
    (monotone : MonotoneRecord view epoch state)
    (stored : next.stored = state.stored ++ [next.pair view])
    (grows : (state.pair view).1 = some epoch → (state.pair view).2 ≤ (next.pair view).2) :
    MonotoneRecord view epoch next where
  last := by rw [stored, List.getLast?_concat]
  chain := by
    rw [stored]
    apply List.IsChain.append monotone.chain (List.isChain_singleton _)
    intro before isLast after isNext
    rw [monotone.last] at isLast
    cases isLast
    cases isNext
    exact grows

/-- An update that assigns no smaller watermark, or none. -/
theorem MonotoneRecord.update {state next : Recorded State}
    (monotone : MonotoneRecord view epoch state) {update : SyncStateUpdate}
    {result : Except ClientError Unit}
    (grows : (state.pair view).1 = some epoch →
      ∀ uid, update.lastSeenUid = some uid → (state.pair view).2 ≤ uid)
    (updated : (recorded view).updateSyncState conn.accountId conn.folder update state =
      (result, next)) :
    MonotoneRecord view epoch next := by
  obtain ⟨_, stored, _, pairCases⟩ := recorded_update view updated
  refine monotone.append stored fun current => ?_
  rcases pairCases with same | merged | ⟨_, _, _, mixed⟩
  · rw [same]
  · rw [merged]
    cases seen : update.lastSeenUid with
    | none => exact Nat.le_refl _
    | some uid => exact grows current uid seen
  · rw [mixed]

/-- The range of the batches of a backfill. -/
def block : Nat → Nat × Nat
  | 0 => (1, saturatingAdd 1 (incrementalFetchBatch - 1))
  | index + 1 =>
      let lo := saturatingAdd (block index).2 1
      (lo, saturatingAdd lo (incrementalFetchBatch - 1))

theorem block_snd (index : Nat) :
    (block index).2 = saturatingAdd (block index).1 (incrementalFetchBatch - 1) := by
  cases index <;> rfl

/-- If the answer to a range holds a message at all, it holds one at or above the UID. -/
def AnswersAtLeast (client : Client) (range : UidRange) (uid : Nat) : Prop :=
  uid = 0 ∨ ∀ rows, client.uidFetch range = .ok rows → rows = [] ∨
    ∃ row ∈ rows, ∃ found, row.uid = some found ∧ uid ≤ found

theorem submitBatch_atLeast {client : Client} {range : UidRange} {uid : Nat}
    (answers : AnswersAtLeast client range uid) {uidvalidity : Nat}
    {batch : List FetchedMessage}
    (fetched : fetchBatch client range conn uidvalidity = .ok batch) {largest : Nat}
    {state next : Recorded State}
    (submitted : submitBatch (recorded view) batch 0 state = (.ok largest, next)) :
    largest = 0 ∨ uid ≤ largest := by
  obtain ⟨rows, answered, _⟩ := fetchBatch_ok fetched
  rcases answers with rfl | answers
  · exact .inr (Nat.zero_le _)
  rcases answers rows answered with rfl | ⟨row, inRows, found, isFound, atLeast⟩
  · rcases submitBatch_attains fetched submitted answered with zero | ⟨row, inRows, _⟩
    · exact .inl zero
    · cases inRows
  · apply Or.inr
    exact Nat.le_trans atLeast (submitBatch_reaches fetched submitted answered inRows isFound)

/-- The loop, from its `index`-th batch on: until a message was seen the stored watermark is
the one the answers are compared with; from then on it is the largest UID of the session. -/
theorem backfillLoop_monotone {client : Client} {uid : Nat} (uidvalidity : Nat)
    (target : Option Nat) (now : Int) (untilShutdown : Nat) :
    ∀ (index maxUidSeen : Nat) (state : Recorded State),
      (∀ later, index ≤ later → later < index + untilShutdown →
        AnswersAtLeast client (.between (block later).1 (block later).2) uid) →
      MonotoneRecord view epoch state →
      (maxUidSeen = 0 ∧ (state.pair view).2 ≤ uid ∨
        0 < maxUidSeen ∧ (state.pair view).2 ≤ maxUidSeen) →
      MonotoneRecord view epoch (backfillLoop (recorded view) client conn uidvalidity target now
        untilShutdown (block index).1 maxUidSeen state).2 := by
  induction untilShutdown with
  | zero => exact fun _ _ _ _ monotone _ => monotone
  | succ untilShutdown inductionHypothesis =>
      intro index maxUidSeen state answers monotone bounded
      rcases backfillLoop_cases (recorded view) client conn uidvalidity target now untilShutdown
        (block index).1 maxUidSeen state with ⟨_, same⟩ | ⟨err, same⟩ |
          ⟨batch, err, next, failed, same⟩ | ⟨batch, largest, next, result, last, passed, outcome⟩
      · rwa [same]
      · rwa [same]
      · obtain ⟨samePair, sameStored, _⟩ := recorded_submitBatch view batch maxUidSeen state
        rw [failed] at samePair sameStored
        rw [same]
        exact monotone.keep samePair sameStored
      · obtain ⟨samePair, sameStored, _⟩ := recorded_submitBatch view batch maxUidSeen state
        rw [passed.submitted] at samePair sameStored
        rw [← block_snd] at passed outcome
        have nextMonotone := monotone.keep samePair sameStored
        have largestBound : largest = 0 ∧ (next.pair view).2 ≤ uid ∨
            0 < largest ∧ (next.pair view).2 ≤ largest := by
          rw [samePair]
          rcases bounded with ⟨rfl, below⟩ | ⟨positive, below⟩
          · rcases submitBatch_atLeast (answers index (Nat.le_refl _) (by omega)) passed.fetched
                passed.submitted with zero | atLeast
            · exact .inl ⟨zero, below⟩
            · by_cases zero : largest = 0
              · exact .inl ⟨zero, below⟩
              · exact .inr ⟨by omega, by omega⟩
          · have := submitBatch_grows passed.submitted
            exact .inr ⟨by omega, by omega⟩
        have grows : (next.pair view).1 = some epoch → ∀ seen,
            lastSeenUidUpdate largest = some seen → (next.pair view).2 ≤ seen := by
          intro _ seen isSeen
          unfold lastSeenUidUpdate at isSeen
          split at isSeen
          next positive =>
            cases isSeen
            omega
          next => cases isSeen
        have lastMonotone := nextMonotone.update grows passed.updated
        rcases outcome with same | ⟨rfl, same⟩
        · rwa [same]
        · rw [same]
          refine inductionHypothesis (index + 1) largest last
            (fun later atLeast before => answers later (by omega) (by omega)) lastMonotone ?_
          have merged := (recorded_update view passed.updated).2.2.1 rfl
          rw [merged]
          simp only [passUpdate, lastSeenUidUpdate]
          split
          next positive => exact .inr ⟨positive, Nat.le_refl _⟩
          next zero => exact .inl ⟨by omega, by simp only [Option.getD_none]; omega⟩

/-- What keeps a backfill from storing a smaller watermark: it starts with a reset to a new
epoch, or whenever one of its batches holds a message it holds one at or above the stored
watermark. -/
def BackfillMonotone (view : WatermarkStore sink conn) (box : Mailbox) (client : Client)
    (untilShutdown : Nat) (state : Recorded State) : Prop :=
  (∃ v, v ≠ box.epoch ∧
    (sink.storedUidvalidity conn.accountId conn.folder state.inner).1 = .ok (some v)) ∨
  ∀ index < untilShutdown,
    AnswersAtLeast client (.between (block index).1 (block index).2) (state.pair view).2

theorem resetIfChanged_monotone {box : Mailbox} {state next : Recorded State}
    {result : Except ClientError Unit} (monotone : MonotoneRecord view box.epoch state)
    (reset : resetIfChanged (recorded view) conn box.epoch state = (result, next)) :
    MonotoneRecord view box.epoch next ∧
      (result = .ok () → next.pair view = state.pair view ∨ (next.pair view).2 = 0) ∧
      (result = .ok () → (∃ v, v ≠ box.epoch ∧
        (sink.storedUidvalidity conn.accountId conn.folder state.inner).1 = .ok (some v)) →
        (next.pair view).2 = 0) := by
  obtain ⟨read, middle, answer, cases⟩ := resetIfChanged_cases (recorded view) conn box.epoch state
  obtain ⟨_, sameStored, samePair, _, isResult, isStored⟩ := recorded_read view answer
  have middleMonotone := monotone.keep samePair sameStored
  rcases cases with ⟨stored, rfl, changed, same⟩ | ⟨current, same⟩
  · rw [same] at reset
    obtain ⟨_, nextStored, ok, _⟩ := recorded_update view reset
    refine ⟨middleMonotone.append nextStored fun current => ?_, fun succeeded => .inr ?_,
      fun succeeded _ => ?_⟩
    · -- The stored epoch was another one.
      rw [samePair, ← isStored _ rfl] at current
      exact absurd (Option.some.inj current) changed
    · rw [ok succeeded]
      rfl
    · rw [ok succeeded]
      rfl
  · rw [same] at reset
    cases reset
    refine ⟨middleMonotone, fun _ => .inl samePair, fun _ other => ?_⟩
    obtain ⟨stored, different, isOther⟩ := other
    exact absurd (current stored (isResult.trans isOther)) different

/-- An `EXAMINE` that reports an epoch reports that of the mailbox. -/
def ExaminesEpoch (box : Mailbox) (client : Client) : Prop :=
  ∀ mailbox, client.examineMeta = .ok mailbox → ∀ v, mailbox.uidValidity = some v → v = box.epoch

theorem runInitialBackfill_monotone {box : Mailbox} {client : Client}
    (examines : ExaminesEpoch box client) (now : Int) {untilShutdown : Nat}
    {state : Recorded State} (monotone : MonotoneRecord view box.epoch state)
    (safe : BackfillMonotone view box client untilShutdown state) :
    MonotoneRecord view box.epoch
      (runInitialBackfill (recorded view) client conn now untilShutdown state).2 := by
  rcases runInitialBackfill_cases (recorded view) client conn now untilShutdown state with
    ⟨err, same⟩ | ⟨mailbox, v, examined, reported, ⟨err, middle, reset, same⟩ |
      ⟨middle, reset, same⟩⟩
  · rwa [same]
  · rw [examines mailbox examined v reported] at reset
    rw [same]
    exact (resetIfChanged_monotone monotone reset).1
  · rw [examines mailbox examined v reported] at reset same
    rw [same]
    obtain ⟨middleMonotone, pairCases, resetDone⟩ := resetIfChanged_monotone monotone reset
    have start : ∀ uid, (middle.pair view).2 ≤ uid →
        (∀ index < untilShutdown,
          AnswersAtLeast client (.between (block index).1 (block index).2) uid) →
        MonotoneRecord view box.epoch (backfillLoop (recorded view) client conn box.epoch
          (mailbox.uidNext.map fun n => n - 1) now untilShutdown 1 0 middle).2 :=
      fun uid below answers => backfillLoop_monotone box.epoch _ now untilShutdown 0 0 middle
        (fun later _ before => answers later (by omega)) middleMonotone (.inl ⟨rfl, below⟩)
    rcases pairCases rfl with same | zero
    · rcases safe with isOther | answers
      · exact start 0 (by rw [resetDone rfl isOther]) fun _ _ => .inl rfl
      · exact start _ (by rw [same]) answers
    · exact start 0 (by rw [zero]) fun _ _ => .inl rfl

/-- What keeps an incremental pass from storing a smaller watermark: it sees nothing above its
own watermark, or something at or above the stored one. -/
def IncrementalMonotone (view : WatermarkStore sink conn) (client : Client) (lastSeenUid : Nat)
    (state : Recorded State) : Prop :=
  ∀ rows, client.uidFetch (.onward (saturatingAdd lastSeenUid 1)) = .ok rows →
    (∀ row ∈ rows, ∀ uid, row.uid = some uid → uid ≤ lastSeenUid) ∨
    ∃ row ∈ rows, ∃ uid, row.uid = some uid ∧ (state.pair view).2 ≤ uid

theorem runIncremental_monotone {client : Client} (now : Int) {lastSeenUid : Nat}
    {state : Recorded State} (monotone : MonotoneRecord view epoch state)
    (safe : (state.pair view).1 = some epoch → IncrementalMonotone view client lastSeenUid state) :
    MonotoneRecord view epoch
      (runIncremental (recorded view) client conn now lastSeenUid state).2 := by
  rcases runIncremental_cases (recorded view) client conn now lastSeenUid state with
    ⟨err, same⟩ | ⟨mailbox, v, _, _, ⟨batch, err, middle, failed, same⟩ |
      ⟨batch, largest, middle, result, last, passed, same⟩⟩
  · rwa [same]
  · obtain ⟨samePair, sameStored, _⟩ := recorded_submitBatch view batch lastSeenUid state
    rw [failed] at samePair sameStored
    rw [same]
    exact monotone.keep samePair sameStored
  · obtain ⟨samePair, sameStored, _⟩ := recorded_submitBatch view batch lastSeenUid state
    rw [passed.submitted] at samePair sameStored
    have middleMonotone := monotone.keep samePair sameStored
    have grows : (middle.pair view).1 = some epoch → ∀ uid,
        (if lastSeenUid < largest then some largest else none) = some uid →
        (middle.pair view).2 ≤ uid := by
      intro current uid isLargest
      rw [samePair] at current ⊢
      split at isLargest
      next larger =>
        cases isLargest
        obtain ⟨rows, answered, _⟩ := fetchBatch_ok passed.fetched
        rcases safe current rows answered with nothingNew | ⟨row, inRows, found, isFound, big⟩
        · rcases submitBatch_attains passed.fetched passed.submitted answered with
            unchanged | ⟨row, inRows, isUid⟩
          · omega
          · have := nothingNew row inRows largest isUid
            omega
        · have := submitBatch_reaches passed.fetched passed.submitted answered inRows isFound
          omega
      next => cases isLargest
    rw [same]
    exact middleMonotone.update grows passed.updated

end Sink

section Run

variable (view : WatermarkStore sink conn)

/-- The condition on a run: no pass sees, as its first messages, only ones below the stored
watermark. -/
def MonotoneSafe (state : FolderState (Recorded State)) : FolderEvent → Prop
  | .cycle client _ untilShutdown => state.phase = .disconnected →
      BackfillMonotone view state.server client untilShutdown state.sink
  | .incremental client _ => ∀ lastSeenUid, state.phase = .idling lastSeenUid →
      (state.sink.pair view).1 = some state.server.epoch →
        IncrementalMonotone view client lastSeenUid state.sink
  | _ => True

/-- The backfills of the run learn the epoch that the mailbox has. -/
def EpochExamined (state : FolderState State) : FolderEvent → Prop
  | .cycle client _ _ => ExaminesEpoch state.server client
  | _ => True

/-- The mailbox is not recreated. -/
def KeepsEpoch : FolderEvent → Prop
  | .recreate _ _ => False
  | _ => True

variable {view}

/-- One event that leaves the epoch alone keeps the record monotone. -/
theorem folderStep_monotone (state : FolderState (Recorded State)) (event : FolderEvent)
    (monotone : MonotoneRecord view state.server.epoch state.sink)
    (stable : KeepsEpoch event) (examined : EpochExamined state event)
    (safe : MonotoneSafe view state event) :
    MonotoneRecord view state.server.epoch (folderStep (recorded view) conn state event).sink ∧
      (folderStep (recorded view) conn state event).server.epoch = state.server.epoch := by
  cases event with
  | arrival => exact ⟨monotone, rfl⟩
  | expunge => exact ⟨monotone, rfl⟩
  | recreate => exact absurd stable id
  | cycle client now untilShutdown =>
      simp only [folderStep]
      split
      next disconnected =>
        have after := runInitialBackfill_monotone examined now monotone (safe disconnected)
        split
        next err next ran => exact ⟨by rwa [ran] at after, rfl⟩
        next next ran => exact ⟨by rwa [ran] at after, rfl⟩
      next => exact ⟨monotone, rfl⟩
  | incremental client now =>
      simp only [folderStep]
      split
      next lastSeenUid idling =>
        have after := runIncremental_monotone now monotone (safe lastSeenUid idling)
        split
        next err next ran => exact ⟨by rwa [ran] at after, rfl⟩
        next newUid next ran => exact ⟨by rwa [ran] at after, rfl⟩
      next => exact ⟨monotone, rfl⟩
  | tombstoneScan client uidvalidity =>
      simp only [folderStep]
      split
      next lastSeenUid idling =>
        have listed := view.listed_pair uidvalidity state.sink.inner
        obtain ⟨pair, _, stored⟩ := recorded_scan client
          (((recorded view).listLocalUids conn.accountId conn.folder uidvalidity
            state.sink).1.toOption.getD [])
          ((recorded view).listLocalUids conn.accountId conn.folder uidvalidity state.sink).2
        exact ⟨monotone.keep (pair.trans listed) stored, rfl⟩
      next => exact ⟨monotone, rfl⟩
  | recycle now =>
      simp only [folderStep]
      split
      next => exact ⟨monotone.update (fun _ _ unset => by cases unset) rfl, rfl⟩
      next => exact ⟨monotone, rfl⟩
  | health text => exact ⟨monotone.update (fun _ _ unset => by cases unset) rfl, rfl⟩
  | dropped =>
      simp only [folderStep]
      split <;> exact ⟨monotone, rfl⟩
  | shutdown =>
      simp only [folderStep]
      split <;> exact ⟨monotone, rfl⟩
  | restart => exact ⟨monotone, rfl⟩

end Run

end Scryd.Imap
