import Scryd.Imap.Backoff
import Scryd.Imap.Backfill

/-!
# Where the passes of a supervisor start

A pass of the IDLE loop asks for everything above the loop's watermark.  The
watermark only knows what the passes of cycles without an error have seen, and
not what a backfill or a failed cycle has handed over.
-/

namespace Scryd.Imap

open Scryd.Foundation Scryd.Storage

variable {State : Type}

section Handed

/-- A sink's state with the UIDs of the messages it was handed, accepted or not. -/
structure Handed (State : Type) where
  inner : State
  handed : List Nat

/-- The sink, keeping that record. -/
def handing (sink : MessageSink State) : MessageSink (Handed State) where
  submit fetched state :=
    let (result, next) := sink.submit fetched state.inner
    (result, ⟨next, state.handed ++ [fetched.serverUid]⟩)
  tombstone id state :=
    let (result, next) := sink.tombstone id state.inner
    (result, { state with inner := next })
  updateSyncState accountId folder update state :=
    let (result, next) := sink.updateSyncState accountId folder update state.inner
    (result, { state with inner := next })
  listLocalUids accountId folder uidvalidity state :=
    let (result, next) := sink.listLocalUids accountId folder uidvalidity state.inner
    (result, { state with inner := next })
  storedUidvalidity accountId folder state :=
    let (result, next) := sink.storedUidvalidity accountId folder state.inner
    (result, { state with inner := next })

/-- The highest UID handed over, 0 if there was none. -/
def Handed.highest (state : Handed State) : Nat := state.handed.foldl max 0

variable {sink : MessageSink State} {conn : Connection}

theorem handing_submit (fetched : FetchedMessage) (state : Handed State) :
    ((handing sink).submit fetched state).2.highest = max state.highest fetched.serverUid := by
  simp only [handing, Handed.highest, List.foldl_append, List.foldl_cons, List.foldl_nil]

/-- A batch that went through raises the highest UID as it raises the pass's own. -/
theorem handing_submitBatch_ok {batch : List FetchedMessage} {largest : Nat}
    {state next : Handed State}
    (submitted : submitBatch (handing sink) batch state.highest state = (.ok largest, next)) :
    next.highest = largest := by
  induction batch generalizing state with
  | nil =>
      cases submitted
      rfl
  | cons fetched rest inductionHypothesis =>
      have raised := @handing_submit _ sink fetched state
      simp only [submitBatch] at submitted
      split at submitted
      next err after failed => cases submitted
      next after accepted =>
        rw [accepted] at raised
        rw [← raised] at submitted
        exact inductionHypothesis submitted

end Handed

section Answers

/-- The answer to a `FETCH`, if there is one, holds no UID above a bound. -/
def UidsAtMost (bound : Nat) (answer : Except ClientError (List FetchRow)) : Prop :=
  ∀ rows, answer = .ok rows → ∀ row ∈ rows, ∀ uid, row.uid = some uid → uid ≤ bound

/-- The sink accepts the messages one after the other. -/
inductive Accepts (sink : MessageSink State) : List FetchedMessage → State → State → Prop
  | done (state : State) : Accepts sink [] state state
  | next {message : FetchedMessage} {rest : List FetchedMessage} {state after last : State}
      (accepted : sink.submit message state = (.ok (), after))
      (accepts : Accepts sink rest after last) : Accepts sink (message :: rest) state last

/-- Of the answer to a `FETCH` no message above the bound reaches the sink.  A pass hands over
its messages up to the first one that the sink refuses. -/
def HandsAtMost (sink : MessageSink State) (bound : Nat)
    (answer : Except ClientError (List FetchedMessage)) (state : State) : Prop :=
  ∀ batch, answer = .ok batch → ∀ before message after, batch = before ++ message :: after →
    ∀ middle, Accepts sink before state middle → message.serverUid ≤ bound

variable {sink : MessageSink State} {bound : Nat} {state : State}

theorem HandsAtMost.head {message : FetchedMessage} {rest : List FetchedMessage}
    (atMost : HandsAtMost sink bound (.ok (message :: rest)) state) : message.serverUid ≤ bound :=
  atMost _ rfl [] message rest rfl state (.done state)

theorem HandsAtMost.tail {message : FetchedMessage} {rest : List FetchedMessage}
    (atMost : HandsAtMost sink bound (.ok (message :: rest)) state) {next : State}
    (accepted : sink.submit message state = (.ok (), next)) :
    HandsAtMost sink bound (.ok rest) next := by
  rintro batch same before later after rfl middle accepts
  rw [Except.ok.injEq] at same
  apply atMost _ rfl (message :: before) later after _ middle (.next accepted accepts)
  rw [same, List.cons_append]

theorem UidsAtMost.hands {client : Client} {range : UidRange} {conn : Connection} {epoch : Nat}
    (atMost : UidsAtMost bound (client.uidFetch range)) :
    HandsAtMost sink bound (fetchBatch client range conn epoch) state := by
  rintro batch fetched before message after rfl middle _
  obtain ⟨rows, answered, fromRows, _⟩ := fetchBatch_ok fetched
  obtain ⟨row, inRows, parsed⟩ :=
    fromRows message (List.mem_append_right before List.mem_cons_self)
  exact atMost rows answered row inRows _ (parseFetchRow_uid parsed)

/-- A batch that went through was accepted message by message. -/
theorem submitBatch_accepts {batch : List FetchedMessage} {largest : Nat}
    {next : State} {start : Nat} (submitted : submitBatch sink batch start state =
      (.ok largest, next)) : Accepts sink batch state next := by
  induction batch generalizing start state with
  | nil =>
      cases submitted
      exact .done _
  | cons message rest inductionHypothesis =>
      simp only [submitBatch] at submitted
      split at submitted
      next err after failed => cases submitted
      next after accepted => exact .next accepted (inductionHypothesis submitted)

/-- An accepted batch goes through. -/
theorem Accepts.submitBatch {batch : List FetchedMessage} {next : State}
    (accepts : Accepts sink batch state next) (start : Nat) :
    Imap.submitBatch sink batch start state =
      (.ok (batch.foldl (fun seen fetched => max seen fetched.serverUid) start), next) := by
  induction accepts generalizing start with
  | done state => rfl
  | next accepted accepts inductionHypothesis =>
      simp only [Imap.submitBatch, accepted, List.foldl_cons]
      exact inductionHypothesis _

/-- Messages that all reach the sink are all within the bound. -/
theorem HandsAtMost.all {batch : List FetchedMessage}
    (atMost : HandsAtMost sink bound (.ok batch) state) {next : State}
    (accepts : Accepts sink batch state next) :
    ∀ message ∈ batch, message.serverUid ≤ bound := by
  induction accepts with
  | done state => exact nofun
  | next accepted accepts inductionHypothesis =>
      intro message member
      rcases List.mem_cons.mp member with rfl | later
      · exact atMost.head
      · exact inductionHypothesis (atMost.tail accepted) message later

/-- A batch without a UID above the highest one leaves it alone. -/
theorem handing_submitBatch_atMost {batch : List FetchedMessage} (maxUidSeen : Nat)
    {state : Handed State} (atMost : HandsAtMost (handing sink) bound (.ok batch) state)
    (isHighest : state.highest = bound) :
    (submitBatch (handing sink) batch maxUidSeen state).2.highest = bound := by
  induction batch generalizing maxUidSeen state with
  | nil => exact isHighest
  | cons fetched rest inductionHypothesis =>
      have raised := @handing_submit _ sink fetched state
      rw [isHighest, Nat.max_eq_left atMost.head] at raised
      unfold submitBatch
      split
      next err after failed => rwa [failed] at raised
      next after accepted =>
        rw [accepted] at raised
        exact inductionHypothesis _ (atMost.tail accepted) raised

end Answers

section Passes

variable {sink : MessageSink State} {conn : Connection} {client : Client} {bound : Nat}

theorem handing_resetIfChanged (sink : MessageSink State) (conn : Connection) (epoch : Nat)
    (state : Handed State) :
    (resetIfChanged (handing sink) conn epoch state).2.highest = state.highest := by
  obtain ⟨read, next, answer, cases⟩ := resetIfChanged_cases (handing sink) conn epoch state
  have kept : next.highest = state.highest := by
    have same : next = ((handing sink).storedUidvalidity conn.accountId conn.folder state).2 := by
      rw [answer]
    rw [same]
    rfl
  rcases cases with ⟨_, _, _, same⟩ | ⟨_, same⟩
  · rw [same]
    exact kept
  · rw [same]
    exact kept

theorem handing_update {update : SyncStateUpdate} {state next : Handed State}
    {result : Except ClientError Unit}
    (updated : (handing sink).updateSyncState conn.accountId conn.folder update state =
      (result, next)) : next.highest = state.highest := by
  cases updated
  rfl

theorem handing_enterBackfill (client : Client) (state : Handed State) :
    (enterBackfill (handing sink) client conn state).sink.highest = state.highest := by
  unfold enterBackfill
  split
  next err failed => rfl
  next mailbox examined =>
    split
    next => rfl
    next epoch reported =>
      have kept := handing_resetIfChanged sink conn epoch state
      dsimp only
      split
      next err next failed => rwa [failed] at kept
      next next reset => rwa [reset] at kept

/-- The next turn of a backfill, if it comes to a `FETCH`, hands over nothing above the bound. -/
def TurnAtMost (sink : MessageSink State) (client : Client) (conn : Connection) (bound : Nat)
    (run : BackfillRun State) : Prop :=
  run.returned = none → (run.target.any fun t => t == 0 || decide (t < run.lo)) = false →
    HandsAtMost sink bound (fetchBatch client
      (.between run.lo (saturatingAdd run.lo (incrementalFetchBatch - 1))) conn run.uidvalidity)
      run.sink

/-- Such a turn leaves the highest UID alone. -/
theorem handing_backfillTurn (now : Int) {run : BackfillRun (Handed State)}
    (atMost : TurnAtMost (handing sink) client conn bound run)
    (isHighest : run.sink.highest = bound) :
    (backfillTurn (handing sink) client conn now run).sink.highest = bound := by
  unfold backfillTurn
  split
  next => exact isHighest
  next running =>
    split
    next => exact isHighest
    next unfinished =>
      have reaches := atMost running (Bool.eq_false_iff.mpr unfinished)
      dsimp only
      split
      next err failed => exact isHighest
      next batch fetched =>
        rw [fetched] at reaches
        have submitted := handing_submitBatch_atMost run.maxUidSeen reaches isHighest
        split
        next err next failed => rwa [failed] at submitted
        next largest next accepted =>
          rw [accepted] at submitted
          split
          next err last failed => exact (handing_update failed).trans submitted
          next last written => exact (handing_update written).trans submitted

/-- A backfill whose turns all are such leaves the highest UID alone. -/
theorem handing_runInitialBackfill {now : Int} {untilShutdown : Nat} {state : Handed State}
    (atMost : ∀ turns < untilShutdown, TurnAtMost (handing sink) client conn bound
      ((backfillTurn (handing sink) client conn now)^[turns]
        (enterBackfill (handing sink) client conn state)))
    (isHighest : state.highest = bound) :
    (runInitialBackfill (handing sink) client conn now untilShutdown state).2.highest = bound := by
  rw [runInitialBackfill_eq_turns]
  change ((backfillTurn (handing sink) client conn now)^[untilShutdown]
    (enterBackfill (handing sink) client conn state)).sink.highest = bound
  induction untilShutdown with
  | zero => exact (handing_enterBackfill client state).trans isHighest
  | succ turns inductionHypothesis =>
      rw [Function.iterate_succ_apply']
      exact handing_backfillTurn now (atMost turns (Nat.lt_succ_self turns))
        (inductionHypothesis fun earlier less => atMost earlier (Nat.lt_succ_of_lt less))

/-- The range a pass asks for. -/
def incrementalRange (lastSeenUid : Nat) : UidRange := .onward (saturatingAdd lastSeenUid 1)

/-- A pass from this watermark hands over nothing above the bound. -/
def PassAtMost (sink : MessageSink State) (client : Client) (conn : Connection) (bound : Nat)
    (lastSeenUid : Nat) (state : State) : Prop :=
  ∀ mailbox, client.examineMeta = .ok mailbox → ∀ epoch, mailbox.uidValidity = some epoch →
    HandsAtMost sink bound (fetchBatch client (incrementalRange lastSeenUid) conn epoch) state

/-- The server answers a pass, and the sink accepts its messages and its update. -/
def PassServed (sink : MessageSink State) (client : Client) (conn : Connection) (now : Int)
    (lastSeenUid : Nat) (state : State) : Prop :=
  ∃ mailbox epoch batch middle last, client.examineMeta = .ok mailbox ∧
    mailbox.uidValidity = some epoch ∧
    fetchBatch client (incrementalRange lastSeenUid) conn epoch = .ok batch ∧
    Accepts sink batch state middle ∧
    let largest := batch.foldl (fun seen fetched => max seen fetched.serverUid) lastSeenUid
    sink.updateSyncState conn.accountId conn.folder (passUpdate epoch
      (if lastSeenUid < largest then some largest else none) now) middle = (.ok (), last)

/-- Such a pass ends well. -/
theorem PassServed.runIncremental {now : Int} {lastSeenUid : Nat} {state : State}
    (served : PassServed sink client conn now lastSeenUid state) :
    ∃ newUid next, Imap.runIncremental sink client conn now lastSeenUid state =
      (.ok newUid, next) := by
  obtain ⟨mailbox, epoch, batch, middle, last, examined, reported, fetched, accepts, updated⟩ :=
    served
  rw [incrementalRange] at fetched
  let largest := batch.foldl (fun seen fetched => max seen fetched.serverUid) lastSeenUid
  refine ⟨largest, last, ?_⟩
  simp only [largest, Imap.runIncremental, examined, reported, fetched, accepts.submitBatch,
    updated]

/-- A pass that sees nothing above the highest UID leaves it alone. -/
theorem handing_runIncremental {lastSeenUid : Nat} (now : Int) {state : Handed State}
    (atMost : PassAtMost (handing sink) client conn bound lastSeenUid state)
    (isHighest : state.highest = bound) :
    (runIncremental (handing sink) client conn now lastSeenUid state).2.highest = bound := by
  unfold runIncremental
  split
  next => exact isHighest
  next mailbox examined =>
    split
    next => exact isHighest
    next epoch reported =>
      have reaches := atMost mailbox examined epoch reported
      rw [incrementalRange] at reaches
      split
      next => exact isHighest
      next batch fetched =>
        rw [fetched] at reaches
        have submitted := handing_submitBatch_atMost lastSeenUid reaches isHighest
        split
        next err next failed => rwa [failed] at submitted
        next largest next accepted =>
          rw [accepted] at submitted
          split
          next err last failed => exact (handing_update failed).trans submitted
          next last written => exact (handing_update written).trans submitted

/-- A pass that went through from the highest UID returns the highest UID. -/
theorem handing_runIncremental_ok {lastSeenUid newUid : Nat} {now : Int}
    {state next : Handed State}
    (atMost : PassAtMost (handing sink) client conn bound lastSeenUid state)
    (isHighest : state.highest = lastSeenUid)
    (ran : runIncremental (handing sink) client conn now lastSeenUid state = (.ok newUid, next)) :
    next.highest = newUid ∧ lastSeenUid ≤ newUid ∧ newUid ≤ max lastSeenUid bound := by
  rcases runIncremental_cases (handing sink) client conn now lastSeenUid state with
    ⟨err, same⟩ | ⟨mailbox, epoch, examined, reported, ⟨batch, err, middle, failed, same⟩ |
      ⟨batch, largest, middle, result, last, passed, same⟩⟩
  · rw [same] at ran
    cases ran
  · rw [same] at ran
    cases ran
  · rw [same] at ran
    cases result with
    | error err => cases ran
    | ok written =>
        cases ran
        have reaches := atMost mailbox examined epoch reported
        rw [incrementalRange, passed.fetched] at reaches
        have submitted := passed.submitted
        rw [← isHighest] at submitted
        refine ⟨(handing_update passed.updated).trans (handing_submitBatch_ok submitted),
          submitBatch_grows passed.submitted, ?_⟩
        rw [submitBatch_max passed.submitted]
        rcases (foldl_max_spec batch lastSeenUid).2.2 with same | ⟨message, member, same⟩
        · rw [same]
          exact Nat.le_max_left _ _
        · rw [← same]
          exact Nat.le_trans (reaches.all (submitBatch_accepts passed.submitted) message member)
            (Nat.le_max_right _ _)

end Passes

section Loop

variable (sink : MessageSink State) (conn : Connection)

/-- The range a pass of this round asks for starts right above the highest UID handed over so
far, if the round comes to a pass. -/
def PassContinues (state : IdleState (Handed State)) (round : IdleRound) : Prop :=
  state.ended = none → round.idleStart = .ok () → round.doneError = none →
    round.outcome = .ok .event →
    incrementalRange (beginRound (handing sink) conn round state).lastSeenUid =
      .onward (1 + (beginRound (handing sink) conn round state).sink.highest)

/-- The environment makes a round fail: IDLE, the wait or `DONE` fails, or the pass of an event
is not served. -/
def RoundFails (state : IdleState State) (round : IdleRound) : Prop :=
  match round.idleStart, round.doneError, round.outcome with
  | .error _, _, _ => True
  | .ok (), some _, _ => True
  | .ok (), none, .error _ => True
  | .ok (), none, .ok .shutdown => False
  | .ok (), none, .ok .recycle => False
  | .ok (), none, .ok .event =>
      let begun := beginRound sink conn round state
      ¬ PassServed sink round.client conn round.now begun.lastSeenUid begun.sink

/-- The pass of this round hands over nothing above the bound, if the round comes to a pass. -/
def RoundAtMost (bound : Nat) (state : IdleState State) (round : IdleRound) : Prop :=
  round.idleStart = .ok () → round.doneError = none → round.outcome = .ok .event →
    let begun := beginRound sink conn round state
    PassAtMost sink round.client conn bound begun.lastSeenUid begun.sink

/-- No pass hands over the largest UID there is.  A round fails only while the loop's watermark
is still the one the loop was entered with, and hands over nothing above it, unless the
supervisor is stopping. -/
def RoundCounted (carried : Nat) (stop : Bool) (state : IdleState State) (round : IdleRound) :
    Prop :=
  state.ended = none → RoundAtMost sink conn (2 ^ 32 - 2) state round ∧
    (RoundFails sink conn state round → stop = false →
      state.lastSeenUid = carried ∧ RoundAtMost sink conn carried state round)

/-- Until the loop fails, its watermark is the highest UID, and not the largest there is; when
it has failed, the highest UID is the watermark it was entered with. -/
structure CaughtUp (carried : Nat) (stop : Bool) (state : IdleState (Handed State)) : Prop where
  healthy : (∀ err, state.ended ≠ some (.error err)) →
    state.sink.highest = state.lastSeenUid ∧ state.lastSeenUid < 2 ^ 32 - 1
  failed : ∀ err, state.ended = some (.error err) → stop = false →
    state.sink.highest = carried

variable {sink conn} {carried : Nat} {stop : Bool}

theorem UidsAtMost.round {bound : Nat} {round : IdleRound}
    (atMost : ∀ start, UidsAtMost bound (round.client.uidFetch (.onward start)))
    (state : IdleState State) : RoundAtMost sink conn bound state round := by
  intro _ _ _ begun mailbox _ epoch _
  exact (atMost _).hands

theorem handing_beginRound (round : IdleRound) (state : IdleState (Handed State)) :
    (beginRound (handing sink) conn round state).sink.highest = state.sink.highest := by
  unfold beginRound scanIfDue
  split
  next due =>
    exact @scan_preserves _ (handing sink) round.scanClient conn _
      (fun next => next.highest = state.sink.highest) (fun _ _ same => same)
      ((handing sink).listLocalUids conn.accountId conn.folder _ state.sink).2 rfl
  next => rfl

/-- A round that the environment lets go well does not end the loop with an error. -/
theorem RoundFails.of_ended {state : IdleState State} (running : state.ended = none)
    {round : IdleRound} {err : ClientError}
    (ended : (idleStep sink conn state round).ended = some (.error err)) :
    RoundFails sink conn state round := by
  have begun : (beginRound sink conn round state).ended = none := by
    rw [(@beginRound_cases _ sink conn state round).2.2.2.1, running]
  unfold RoundFails
  cases started : round.idleStart with
  | error err => exact trivial
  | ok answer =>
      cases done : round.doneError with
      | some text => exact trivial
      | none =>
          cases got : round.outcome with
          | error err => exact trivial
          | ok outcome =>
              unfold idleStep at ended
              simp only [running, started, done, got] at ended
              cases outcome with
              | shutdown => cases ended
              | recycle =>
                  rw [begun] at ended
                  cases ended
              | event =>
                  intro served
                  obtain ⟨newUid, next, ran⟩ := served.runIncremental
                  simp only [afterEvent, ran, begun] at ended
                  cases ended

/-- A round leaves the watermark and the highest UID alone, or it comes to a pass. -/
theorem handing_idleStep_cases {state : IdleState (Handed State)} (running : state.ended = none)
    (round : IdleRound) :
    ((idleStep (handing sink) conn state round).lastSeenUid = state.lastSeenUid ∧
      (idleStep (handing sink) conn state round).sink.highest = state.sink.highest) ∨
    (idleStep (handing sink) conn state round =
        afterEvent (handing sink) conn round.client round.now
          (beginRound (handing sink) conn round state) ∧
      round.idleStart = .ok () ∧ round.doneError = none ∧ round.outcome = .ok .event) := by
  have begun := @handing_beginRound _ sink conn round state
  have sameUid := (@beginRound_cases _ (handing sink) conn state round).2.2.1
  unfold idleStep
  simp only [running]
  split
  next err failed => exact .inl ⟨sameUid, begun⟩
  next text started failed => exact .inl ⟨sameUid, begun⟩
  next err started done failed => exact .inl ⟨sameUid, begun⟩
  next started done shutdown => exact .inl ⟨sameUid, begun⟩
  next started done recycle => exact .inl ⟨sameUid, begun⟩
  next started done event => exact .inr ⟨rfl, started, done, event⟩

/-- A round whose pass hands over nothing above the highest UID leaves it alone. -/
theorem idleStep_atMost {state : IdleState (Handed State)} {round : IdleRound} {bound : Nat}
    (atMost : RoundAtMost (handing sink) conn bound state round)
    (isHighest : state.sink.highest = bound) :
    (idleStep (handing sink) conn state round).sink.highest = bound := by
  cases running : state.ended with
  | some result => rwa [idleStep_ended running]
  | none =>
      have begun := (@handing_beginRound _ sink conn round state).trans isHighest
      rcases @handing_idleStep_cases _ sink conn state running round with
        ⟨_, same⟩ | ⟨passed, started, done, event⟩
      · exact same.trans isHighest
      · have ran := handing_runIncremental round.now (atMost started done event) begun
        rw [passed, afterEvent]
        split
        next err next failed => rwa [failed] at ran
        next newUid next read => rwa [read] at ran

/-- One round of a loop that is caught up. -/
theorem CaughtUp.step {state : IdleState (Handed State)} {round : IdleRound}
    (counted : RoundCounted (handing sink) conn carried stop state round)
    (caughtUp : CaughtUp carried stop state) :
    CaughtUp carried stop (idleStep (handing sink) conn state round) := by
  cases running : state.ended with
  | some result => rwa [idleStep_ended running]
  | none =>
      obtain ⟨below, failing⟩ := counted running
      obtain ⟨isHighest, small⟩ := caughtUp.healthy (by simp [running])
      constructor
      · have begun := @handing_beginRound _ sink conn round state
        have sameUid := (@beginRound_cases _ (handing sink) conn state round).2.2.1
        rcases @handing_idleStep_cases _ sink conn state running round with
          ⟨kept, same⟩ | ⟨passed, started, done, event⟩
        · intro _
          rw [kept, same]
          exact ⟨isHighest, small⟩
        · rw [passed, afterEvent]
          split
          next err next failed => exact fun healthy => absurd rfl (healthy err)
          next newUid next ran =>
            obtain ⟨isNew, grows, bounded⟩ := handing_runIncremental_ok
              (below started done event) ((begun.trans isHighest).trans sameUid.symm) ran
            intro _
            refine ⟨isNew.trans (Nat.max_eq_right grows).symm, ?_⟩
            rw [sameUid] at grows bounded ⊢
            simp only
            omega
      · intro err ended goesOn
        obtain ⟨same, atMost⟩ := failing (.of_ended running ended) goesOn
        exact idleStep_atMost atMost (isHighest.trans same)

/-- A round of a loop that is caught up starts its pass right. -/
theorem CaughtUp.passContinues {state : IdleState (Handed State)}
    (caughtUp : CaughtUp carried stop state) (round : IdleRound) :
    PassContinues sink conn state round := by
  intro running _ _ _
  have now := caughtUp.healthy (by simp [running])
  rw [handing_beginRound, (@beginRound_cases _ (handing sink) conn state round).2.2.1, now.1,
    incrementalRange, saturatingAdd, Nat.min_eq_left (by omega), Nat.add_comm]

end Loop

section Cycles

variable (sink : MessageSink State) (conn : Connection)

/-- The passes of the cycle's loop continue where everything before them stopped. -/
def CycleContinues (supervisor : Supervisor (Handed State)) (env : CycleEnv) : Prop :=
  supervisor.stopped = false → env.login = .ok () → ∀ next,
    runInitialBackfill (handing sink) env.client conn env.now env.untilShutdown
      (updateHealth (handing sink) conn "active" supervisor.sink) = (.ok (), next) →
    Guarded (idleStep (handing sink) conn) (PassContinues sink conn)
      (enterIdle (handing sink) conn (env.client.examinedEpoch.getD 0) supervisor.lastSeenUid
        next) env.rounds

/-- Of a supervisor that has not returned and can log in: the turns of the backfill hand over
nothing above the supervisor's watermark, and the rounds of the loop behind it are counted. -/
structure CycleCounted (supervisor : Supervisor (Handed State)) (env : CycleEnv) : Prop where
  backfilled : supervisor.stopped = false → env.login = .ok () → ∀ turns < env.untilShutdown,
    TurnAtMost (handing sink) env.client conn supervisor.lastSeenUid
      ((backfillTurn (handing sink) env.client conn env.now)^[turns]
        (enterBackfill (handing sink) env.client conn
          (updateHealth (handing sink) conn "active" supervisor.sink)))
  rounds : supervisor.stopped = false → env.login = .ok () → ∀ next,
    runInitialBackfill (handing sink) env.client conn env.now env.untilShutdown
      (updateHealth (handing sink) conn "active" supervisor.sink) = (.ok (), next) →
    Guarded (idleStep (handing sink) conn)
      (RoundCounted (handing sink) conn supervisor.lastSeenUid env.stop)
      (enterIdle (handing sink) conn (env.client.examinedEpoch.getD 0) supervisor.lastSeenUid
        next) env.rounds

/-- While the supervisor goes on, its watermark is the highest UID handed over, and not the
largest there is. -/
def Settled (supervisor : Supervisor (Handed State)) : Prop :=
  supervisor.stopped = false →
    supervisor.sink.highest = supervisor.lastSeenUid ∧ supervisor.lastSeenUid < 2 ^ 32 - 1

variable {sink conn} {supervisor : Supervisor (Handed State)} {env : CycleEnv}

/-- The backfill leaves the highest UID at the supervisor's watermark. -/
theorem CycleCounted.filled (settled : Settled supervisor)
    (counted : CycleCounted sink conn supervisor env) (running : supervisor.stopped = false)
    (login : env.login = .ok ()) :
    (runInitialBackfill (handing sink) env.client conn env.now env.untilShutdown
      (updateHealth (handing sink) conn "active" supervisor.sink)).2.highest =
        supervisor.lastSeenUid :=
  handing_runInitialBackfill (counted.backfilled running login) (settled running).1

/-- The loop of a cycle stays caught up. -/
theorem CycleCounted.caughtUp (settled : Settled supervisor)
    (counted : CycleCounted sink conn supervisor env) (running : supervisor.stopped = false)
    (login : env.login = .ok ()) {next : Handed State}
    (completed : runInitialBackfill (handing sink) env.client conn env.now env.untilShutdown
      (updateHealth (handing sink) conn "active" supervisor.sink) = (.ok (), next)) :
    Always (idleStep (handing sink) conn) (CaughtUp supervisor.lastSeenUid env.stop)
      (enterIdle (handing sink) conn (env.client.examinedEpoch.getD 0) supervisor.lastSeenUid
        next) env.rounds := by
  have same := counted.filled settled running login
  rw [completed] at same
  refine always_of_guarded (fun _ _ caughtUp isCounted => caughtUp.step isCounted) ?_
    (counted.rounds running login next completed)
  exact ⟨fun _ => ⟨same, (settled running).2⟩, nofun⟩

theorem CycleCounted.continues (settled : Settled supervisor)
    (counted : CycleCounted sink conn supervisor env) :
    CycleContinues sink conn supervisor env := by
  intro running login next completed
  exact (counted.rounds running login next completed).imp_of_always
    (counted.caughtUp settled running login completed)
    fun state round caughtUp _ => caughtUp.passContinues round

/-- The watermark a cycle returns, or leaves as it was, is the highest UID handed over. -/
def CycleReport.Settled (lastSeenUid : Nat) (report : CycleReport (Handed State)) : Prop :=
  report.sink.highest = report.result.toOption.getD lastSeenUid ∧
    report.result.toOption.getD lastSeenUid < 2 ^ 32 - 1

/-- What a loop that is caught up leaves to a supervisor that goes on. -/
theorem CaughtUp.settled {idle : IdleState (Handed State)} {carried : Nat}
    (caughtUp : CaughtUp carried false idle) (small : carried < 2 ^ 32 - 1) :
    idle.sink.highest = idle.result.toOption.getD carried ∧
      idle.result.toOption.getD carried < 2 ^ 32 - 1 := by
  unfold IdleState.result
  split
  next err ended => exact ⟨caughtUp.failed err ended rfl, small⟩
  next healthy => exact caughtUp.healthy fun err ended => healthy err ended

theorem runOneCycle_settled (settled : Settled supervisor)
    (counted : CycleCounted sink conn supervisor env) (running : supervisor.stopped = false)
    (goesOn : env.stop = false) :
    (runOneCycle (handing sink) conn env supervisor.lastSeenUid supervisor.sink).Settled
      supervisor.lastSeenUid := by
  unfold runOneCycle
  cases login : env.login with
  | error err => exact settled running
  | ok loggedIn =>
      have filled := counted.filled settled running login
      dsimp only
      unfold syncFolder
      cases backfill : runInitialBackfill (handing sink) env.client conn env.now
          env.untilShutdown (updateHealth (handing sink) conn "active" supervisor.sink) with
      | mk result next =>
          rw [backfill] at filled
          cases result with
          | error err => exact ⟨filled, (settled running).2⟩
          | ok completed =>
              have caughtUp := (counted.caughtUp settled running login backfill).last
              rw [goesOn] at caughtUp
              exact caughtUp.settled (settled running).2

/-- A counted cycle leaves the supervisor settled. -/
theorem Settled.step (settled : Settled supervisor)
    (counted : CycleCounted sink conn supervisor env) :
    Settled (superviseStep (handing sink) conn supervisor env) := by
  cases stopped : supervisor.stopped with
  | true => rwa [superviseStep_stopped stopped]
  | false =>
      rw [superviseStep, if_neg (by simp [stopped])]
      exact fun goesOn => runOneCycle_settled settled counted stopped goesOn

/-- In every run whose cycles are counted, every pass of the IDLE loop starts right above the
highest UID handed over before. -/
theorem passes_continue_of_counted (sink : MessageSink State) (conn : Connection) (state : State)
    (cycles : List CycleEnv)
    (counted : Guarded (superviseStep (handing sink) conn) (CycleCounted sink conn)
      (.started ⟨state, []⟩) cycles) :
    Guarded (superviseStep (handing sink) conn) (CycleContinues sink conn)
      (.started ⟨state, []⟩) cycles := by
  have initially : Settled (.started ⟨state, []⟩ : Supervisor (Handed State)) :=
    fun _ => ⟨rfl, Nat.succ_pos _⟩
  have always := always_of_guarded (fun _ _ settled isCounted => Settled.step settled isCounted)
    initially counted
  exact counted.imp_of_always always fun _ _ settled isCounted => isCounted.continues settled

section Sample

theorem emptyClient_uidsAtMost (bound : Nat) (range : UidRange) :
    UidsAtMost bound (emptyClient.uidFetch range) := by
  intro rows answered row inRows
  cases answered
  cases inRows

theorem Mailbox.client_uidsAtMost (box : Mailbox) {bound : Nat}
    (below : ∀ mail ∈ box.mails, mail.uid ≤ bound) (range : UidRange) :
    UidsAtMost bound (box.client.uidFetch range) := by
  intro rows answered row inRows uid isUid
  cases range <;>
  · cases answered
    obtain ⟨mail, member, rfl⟩ := List.mem_map.mp inRows
    cases isUid
    exact below mail (List.mem_of_mem_filter member)

/-- A second mail arrives. -/
def secondMailBox : Mailbox := firstMailBox.arrive 0 none [] [98]

/-- A cycle that finds the mailbox empty and then sees two mails arrive. -/
def twoArrivals : CycleEnv where
  login := .ok ()
  client := emptyClient
  now := 0
  untilShutdown := 1
  rounds := [⟨emptyClient, .ok (), .ok .event, none, firstMailBox.client, 0⟩,
    ⟨firstMailBox.client, .ok (), .ok .event, none, secondMailBox.client, 0⟩]
  stop := true

theorem passes_continue_twoArrivals :
    Guarded (superviseStep (handing voidSink) sampleConn) (CycleContinues voidSink sampleConn)
      (.started ⟨(), []⟩) [droppedSession, twoArrivals] := by
  apply passes_continue_of_counted
  have empty : ∀ bound run, TurnAtMost (handing voidSink) emptyClient sampleConn bound run :=
    fun bound run _ _ => (emptyClient_uidsAtMost bound _).hands
  have first : ∀ start, UidsAtMost (2 ^ 32 - 2) (firstMailBox.client.uidFetch (.onward start)) :=
    fun start => firstMailBox.client_uidsAtMost (by decide) _
  have second : ∀ start, UidsAtMost (2 ^ 32 - 2) (secondMailBox.client.uidFetch (.onward start)) :=
    fun start => secondMailBox.client_uidsAtMost (by decide) _
  refine ⟨⟨fun _ _ _ _ => empty _ _, ?_⟩, ⟨fun _ _ _ _ => empty _ _, ?_⟩, trivial⟩
  · rintro _ _ next ⟨⟩
    refine ⟨fun _ => ⟨?_, fun _ _ => ⟨rfl, ?_⟩⟩, trivial⟩
    · exact UidsAtMost.round (fun _ => emptyClient_uidsAtMost _ _) _
    · exact UidsAtMost.round (fun _ => emptyClient_uidsAtMost _ _) _
  · rintro _ _ next ⟨⟩
    refine ⟨fun _ => ⟨?_, ?_⟩, fun _ => ⟨?_, ?_⟩, trivial⟩
    · exact UidsAtMost.round first _
    · exact fun _ goesOn => nomatch goesOn
    · exact UidsAtMost.round second _
    · exact fun _ goesOn => nomatch goesOn

/-- A cycle of a mailbox that holds one mail from the start, with one event. -/
def eventAfterBackfill : CycleEnv where
  login := .ok ()
  client := firstMailBox.client
  now := 0
  untilShutdown := 1
  rounds := [⟨firstMailBox.client, .ok (), .ok .event, none, firstMailBox.client, 0⟩]
  stop := true

/-- The first event after a backfill of UID 1 asks for UID 1 again. -/
theorem first_event_refetches :
    ¬ Guarded (superviseStep (handing voidSink) sampleConn) (CycleContinues voidSink sampleConn)
      (.started ⟨(), []⟩) [eventAfterBackfill] := by
  rintro ⟨continues, _⟩
  have passes := continues rfl rfl ⟨(), [1]⟩ rfl
  have range := UidRange.onward.inj (passes.1 rfl rfl rfl rfl)
  revert range
  decide

end Sample

end Cycles

end Scryd.Imap
