import Scryd.Imap.Watermark
import Scryd.Foundation.Tiling

/-!
# Complete backfills

The loop of `run_initial_backfill` turn by turn, with the ranges it requested
and whether it has returned.  That tells a run that ended by itself from one
that a shutdown cut off.
-/

namespace Scryd.Imap

open Scryd.Foundation Scryd.Storage

/-- The variables of a backfill, the ranges it requested and what it returned, if it did. -/
structure BackfillRun (State : Type) where
  uidvalidity : Nat
  target : Option Nat
  lo : Nat
  maxUidSeen : Nat
  requested : List (Nat × Nat)
  sink : State
  returned : Option (Except ClientError Unit)

variable {State : Type} (sink : MessageSink State) (client : Client) (conn : Connection)

/-- The backfill up to its loop. -/
def enterBackfill (state : State) : BackfillRun State :=
  match client.examineMeta with
  | .error err => ⟨0, none, 1, 0, [], state, some (.error err)⟩
  | .ok mailbox =>
      match mailbox.uidValidity with
      | none => ⟨0, none, 1, 0, [], state, some (.error (noUidvalidity conn))⟩
      | some serverUidvalidity =>
          let target := mailbox.uidNext.map fun n => n - 1
          match resetIfChanged sink conn serverUidvalidity state with
          | (.error err, next) =>
              ⟨serverUidvalidity, target, 1, 0, [], next, some (.error err)⟩
          | (.ok (), next) => ⟨serverUidvalidity, target, 1, 0, [], next, none⟩

/-- A turn of the loop that finds the shutdown flag unset. -/
def backfillTurn (now : Int) (run : BackfillRun State) : BackfillRun State :=
  match run.returned with
  | some _ => run
  | none =>
      if run.target.any fun t => t == 0 || decide (t < run.lo) then
        { run with returned := some (.ok ()) }
      else
        let hi := saturatingAdd run.lo (incrementalFetchBatch - 1)
        let asked := { run with requested := run.requested ++ [(run.lo, hi)] }
        match fetchBatch client (.between run.lo hi) conn run.uidvalidity with
        | .error err => { asked with returned := some (.error err) }
        | .ok batch =>
            match submitBatch sink batch run.maxUidSeen run.sink with
            | (.error err, next) => { asked with sink := next, returned := some (.error err) }
            | (.ok maxUidSeen, next) =>
                match sink.updateSyncState conn.accountId conn.folder
                    (passUpdate run.uidvalidity (lastSeenUidUpdate maxUidSeen) now) next with
                | (.error err, last) =>
                    { asked with sink := last, returned := some (.error err) }
                | (.ok (), last) =>
                    { asked with
                      lo := saturatingAdd hi 1
                      maxUidSeen := maxUidSeen
                      sink := last
                      returned :=
                        if run.target.any fun t => decide (t ≤ hi) then some (.ok ())
                        else none }

/-- What a backfill answers that is shut down, if it has not returned. -/
def BackfillRun.outcome (run : BackfillRun State) : Except ClientError Unit × State :=
  (run.returned.getD (.ok ()), run.sink)

variable {sink client conn} {now : Int}

section Turns

/-- A turn of a loop that has not returned: it has reached its target; it fails; or its update
is written. -/
theorem backfillTurn_cases (sink : MessageSink State) (client : Client) (conn : Connection)
    (now : Int) {run : BackfillRun State} (running : run.returned = none) :
    let turn := backfillTurn sink client conn now run
    let hi := saturatingAdd run.lo (incrementalFetchBatch - 1)
    ((run.target.any fun t => t == 0 || decide (t < run.lo)) = true ∧
      turn = { run with returned := some (.ok ()) }) ∨
    (turn.uidvalidity = run.uidvalidity ∧ turn.target = run.target ∧
      ∃ err, turn.returned = some (.error err)) ∨
    ∃ batch largest middle last,
      (run.target.any fun t => t == 0 || decide (t < run.lo)) = false ∧
      Batched sink client (.between run.lo hi) conn run.uidvalidity
        (fun largest => passUpdate run.uidvalidity (lastSeenUidUpdate largest) now)
        run.maxUidSeen run.sink batch largest middle (.ok ()) last ∧
      turn = {
        uidvalidity := run.uidvalidity
        target := run.target
        lo := saturatingAdd hi 1
        maxUidSeen := largest
        requested := run.requested ++ [(run.lo, hi)]
        sink := last
        returned := if run.target.any fun t => decide (t ≤ hi) then some (.ok ()) else none } := by
  intro turn hi
  simp only [turn, hi, backfillTurn, running]
  by_cases finished : (run.target.any fun t => t == 0 || decide (t < run.lo)) = true
  · exact .inl ⟨finished, if_pos finished⟩
  · rw [if_neg finished]
    apply Or.inr
    cases fetched : fetchBatch client
        (.between run.lo (saturatingAdd run.lo (incrementalFetchBatch - 1))) conn
        run.uidvalidity with
    | error err => exact .inl ⟨rfl, rfl, err, rfl⟩
    | ok batch =>
        dsimp only
        cases submitted : submitBatch sink batch run.maxUidSeen run.sink with
        | mk accepted middle =>
            cases accepted with
            | error err => exact .inl ⟨rfl, rfl, err, rfl⟩
            | ok largest =>
                dsimp only
                cases updated : sink.updateSyncState conn.accountId conn.folder
                    (passUpdate run.uidvalidity (lastSeenUidUpdate largest) now) middle with
                | mk result last =>
                    cases result with
                    | error err => exact .inl ⟨rfl, rfl, err, rfl⟩
                    | ok written =>
                        exact .inr ⟨batch, largest, middle, last, Bool.eq_false_iff.mpr finished,
                          ⟨fetched, submitted, updated⟩, rfl⟩

/-- One check of the shutdown flag in `backfillLoop` is one turn. -/
theorem backfillLoop_succ {run : BackfillRun State} (running : run.returned = none)
    (untilShutdown : Nat) :
    let turn := backfillTurn sink client conn now run
    backfillLoop sink client conn run.uidvalidity run.target now (untilShutdown + 1) run.lo
        run.maxUidSeen run.sink =
      match turn.returned with
      | some result => (result, turn.sink)
      | none => backfillLoop sink client conn turn.uidvalidity turn.target now untilShutdown
          turn.lo turn.maxUidSeen turn.sink := by
  intro turn
  simp only [turn, backfillLoop, backfillTurn, running]
  by_cases finished : (run.target.any fun t => t == 0 || decide (t < run.lo)) = true
  · rw [if_pos finished, if_pos finished]
  · rw [if_neg finished, if_neg finished]
    cases fetchBatch client
        (.between run.lo (saturatingAdd run.lo (incrementalFetchBatch - 1))) conn
        run.uidvalidity with
    | error err => rfl
    | ok batch =>
        dsimp only
        cases submitBatch sink batch run.maxUidSeen run.sink with
        | mk accepted middle =>
            cases accepted with
            | error err => rfl
            | ok largest =>
                dsimp only
                cases sink.updateSyncState conn.accountId conn.folder
                    (passUpdate run.uidvalidity (lastSeenUidUpdate largest) now) middle with
                | mk result last =>
                    cases result with
                    | error err => rfl
                    | ok written =>
                        dsimp only
                        split <;> rfl

theorem backfillTurn_returned {run : BackfillRun State} {result : Except ClientError Unit}
    (returned : run.returned = some result) (turns : Nat) :
    (backfillTurn sink client conn now)^[turns] run = run := by
  induction turns with
  | zero => rfl
  | succ turns inductionHypothesis =>
      have same : backfillTurn sink client conn now run = run := by
        simp only [backfillTurn, returned]
      rw [Function.iterate_succ_apply, same, inductionHypothesis]

/-- The loop is its turns. -/
theorem backfillLoop_eq_turns (untilShutdown : Nat) {run : BackfillRun State}
    (running : run.returned = none) :
    backfillLoop sink client conn run.uidvalidity run.target now untilShutdown run.lo
        run.maxUidSeen run.sink =
      ((backfillTurn sink client conn now)^[untilShutdown] run).outcome := by
  induction untilShutdown generalizing run with
  | zero =>
      simp only [backfillLoop, Function.iterate_zero, id, BackfillRun.outcome, running,
        Option.getD_none]
  | succ untilShutdown inductionHypothesis =>
      rw [backfillLoop_succ running, Function.iterate_succ_apply]
      cases returned : (backfillTurn sink client conn now run).returned with
      | some result =>
          rw [backfillTurn_returned returned, BackfillRun.outcome, returned, Option.getD_some]
      | none => exact inductionHypothesis returned

/-- `run_initial_backfill` is its turns, up to the shutdown or its end. -/
theorem runInitialBackfill_eq_turns (sink : MessageSink State) (client : Client)
    (conn : Connection) (now : Int) (untilShutdown : Nat) (state : State) :
    runInitialBackfill sink client conn now untilShutdown state =
      ((backfillTurn sink client conn now)^[untilShutdown]
        (enterBackfill sink client conn state)).outcome := by
  unfold runInitialBackfill enterBackfill
  cases client.examineMeta with
  | error err => rw [backfillTurn_returned rfl]; rfl
  | ok mailbox =>
      dsimp only
      cases mailbox.uidValidity with
      | none => rw [backfillTurn_returned rfl]; rfl
      | some serverUidvalidity =>
          dsimp only
          cases resetIfChanged sink conn serverUidvalidity state with
          | mk result next =>
              cases result with
              | error err => rw [backfillTurn_returned rfl]; rfl
              | ok done => rw [← backfillLoop_eq_turns untilShutdown rfl]

end Turns

section Termination

variable {state : State} {mailbox : MailboxMeta} {epoch : Nat}

/-- No error, whenever the shutdown comes. -/
def ErrorFree (sink : MessageSink State) (client : Client) (conn : Connection) (now : Int)
    (state : State) : Prop :=
  ∀ untilShutdown, (runInitialBackfill sink client conn now untilShutdown state).1 = .ok ()

theorem ErrorFree.returned (errorFree : ErrorFree sink client conn now state) (turns : Nat) :
    ((backfillTurn sink client conn now)^[turns]
        (enterBackfill sink client conn state)).returned = none ∨
      ((backfillTurn sink client conn now)^[turns]
        (enterBackfill sink client conn state)).returned = some (.ok ()) := by
  have ok := errorFree turns
  rw [runInitialBackfill_eq_turns, BackfillRun.outcome] at ok
  cases returned : ((backfillTurn sink client conn now)^[turns]
      (enterBackfill sink client conn state)).returned with
  | none => exact .inl rfl
  | some result =>
      rw [returned, Option.getD_some] at ok
      exact .inr (congrArg some ok)

/-- The loop of a mailbox that was examined. -/
theorem enterBackfill_target (examined : client.examineMeta = .ok mailbox)
    (reported : mailbox.uidValidity = some epoch) :
    (enterBackfill sink client conn state).uidvalidity = epoch ∧
      (enterBackfill sink client conn state).target = mailbox.uidNext.map (· - 1) ∧
      (enterBackfill sink client conn state).returned ≠ some (.ok ()) := by
  simp only [enterBackfill, examined, reported]
  cases resetIfChanged sink conn epoch state with
  | mk result next => cases result <;> exact ⟨rfl, rfl, nofun⟩

theorem backfillTurn_target (run : BackfillRun State) :
    (backfillTurn sink client conn now run).target = run.target := by
  cases running : run.returned with
  | some result =>
      have same : backfillTurn sink client conn now run = run := backfillTurn_returned running 1
      rw [same]
  | none =>
      rcases backfillTurn_cases sink client conn now running with
        ⟨_, turn⟩ | ⟨_, target, _⟩ | ⟨_, _, _, _, _, _, turn⟩
      · rw [turn]
      · exact target
      · rw [turn]

/-- Without a target the loop does not end by itself. -/
theorem backfillTurn_endless {run : BackfillRun State} (unknown : run.target = none)
    (running : run.returned ≠ some (.ok ())) (turns : Nat) :
    ((backfillTurn sink client conn now)^[turns] run).returned ≠ some (.ok ()) := by
  induction turns generalizing run with
  | zero => exact running
  | succ turns inductionHypothesis =>
      cases returned : run.returned with
      | some result =>
          rw [backfillTurn_returned returned]
          exact running
      | none =>
          rw [Function.iterate_succ_apply]
          apply inductionHypothesis
          · rw [backfillTurn_target, unknown]
          · rcases backfillTurn_cases sink client conn now returned with
              ⟨finished, _⟩ | ⟨_, _, err, failed⟩ | ⟨_, _, _, _, _, _, turn⟩
            · rw [unknown] at finished
              cases finished
            · rw [failed]
              exact nofun
            · rw [turn, unknown]
              exact nofun

/-- The turns a loop with a target has left. -/
def turnsLeft (target : Nat) (run : BackfillRun State) : Nat :=
  if run.returned.isSome then 0 else target + 1 - run.lo + 1

theorem turnsLeft_lower {target : Nat} (isU32 : target < 2 ^ 32 - 1) {run : BackfillRun State}
    (known : run.target = some target) (running : run.returned = none) :
    turnsLeft target (backfillTurn sink client conn now run) < turnsLeft target run := by
  have before : turnsLeft target run = target + 1 - run.lo + 1 := by
    simp [turnsLeft, running]
  rw [before]
  rcases backfillTurn_cases sink client conn now running with
    ⟨_, turn⟩ | ⟨_, _, err, failed⟩ | ⟨_, _, _, _, unfinished, _, turn⟩
  · rw [turn]
    simp [turnsLeft]
  · simp [turnsLeft, failed]
  · rw [turn]
    simp only [known, Option.any_some, Bool.or_eq_false_iff, decide_eq_false_iff_not, not_lt]
      at unfinished
    simp only [turnsLeft, known, Option.any_some, decide_eq_true_eq]
    split
    next => exact Nat.succ_pos _
    next onward =>
      -- Below the target nothing saturates.
      have room : ¬ target ≤ saturatingAdd run.lo (incrementalFetchBatch - 1) := by
        intro reached
        simp [reached] at onward
      simp only [Option.isSome_none, Bool.false_eq_true, if_false, saturatingAdd,
        incrementalFetchBatch] at room ⊢
      omega

/-- With a target below the largest UID the loop returns. -/
theorem exists_turns_returned (sink : MessageSink State) (client : Client) (conn : Connection)
    (now : Int) {target : Nat} (isU32 : target < 2 ^ 32 - 1)
    {run : BackfillRun State} (known : run.target = some target) :
    ∃ turns, ((backfillTurn sink client conn now)^[turns] run).returned.isSome = true :=
  @exists_iterate_done _ (backfillTurn sink client conn now) (fun run => run.target = some target)
    (fun run => run.returned.isSome = true) (turnsLeft target)
    (fun run known => (backfillTurn_target run).trans known)
    (fun _ known running => turnsLeft_lower isU32 known
      (Option.not_isSome_iff_eq_none.mp running)) run known

/-- A backfill in which nothing fails ends by itself exactly if the server reported UIDNEXT. -/
theorem backfill_ends_iff (sink : MessageSink State) (client : Client) (conn : Connection)
    (now : Int) (state : State) (mailbox : MailboxMeta) (epoch : Nat)
    (examined : client.examineMeta = .ok mailbox) (reported : mailbox.uidValidity = some epoch)
    (isU32 : ∀ n, mailbox.uidNext = some n → n < 2 ^ 32)
    (errorFree : ErrorFree sink client conn now state) :
    (∃ turns, ((backfillTurn sink client conn now)^[turns]
        (enterBackfill sink client conn state)).returned = some (.ok ())) ↔
      mailbox.uidNext.isSome = true := by
  obtain ⟨_, target, running⟩ := @enterBackfill_target State sink client conn state mailbox epoch
    examined reported
  constructor
  · rintro ⟨turns, returned⟩
    cases uidNext : mailbox.uidNext with
    | none =>
        rw [uidNext, Option.map_none] at target
        exact absurd returned (backfillTurn_endless target running turns)
    | some n => rfl
  · intro known
    obtain ⟨n, uidNext⟩ := Option.isSome_iff_exists.mp known
    rw [uidNext, Option.map_some] at target
    have small := isU32 n uidNext
    obtain ⟨turns, returned⟩ := exists_turns_returned sink client conn now (by omega) target
    refine ⟨turns, ?_⟩
    rcases errorFree.returned turns with running | done
    · rw [running] at returned
      cases returned
    · exact done

section Sample

/-- A sink that stores the pair of one folder. -/
def pairSink : MessageSink (Option Nat × Nat) where
  submit _ pair := (.ok (), pair)
  tombstone _ pair := (.ok (), pair)
  updateSyncState _ _ update pair :=
    (.ok (), (update.uidvalidity.or pair.1, update.lastSeenUid.getD pair.2))
  listLocalUids _ _ _ pair := (.ok [], pair)
  storedUidvalidity _ _ pair := (.ok pair.1, pair)

def sampleConn : Connection := ⟨sampleAccountId, "INBOX"⟩

/-- An empty mailbox whose server does not report UIDNEXT. -/
def silentClient : Client where
  examineMeta := .ok ⟨some 1, none⟩
  uidFetch _ := .ok []
  uidSearchAll := .ok []

theorem silentClient_turn {run : BackfillRun (Option Nat × Nat)} (running : run.returned = none)
    (unknown : run.target = none) :
    (backfillTurn pairSink silentClient sampleConn 0 run).returned = none := by
  simp only [backfillTurn, running, unknown, Option.any_none, Bool.false_eq_true, if_false]
  rfl

/-- Its backfill requests range after range. -/
theorem silentClient_running (turns : Nat) :
    let run := (backfillTurn pairSink silentClient sampleConn 0)^[turns]
      (enterBackfill pairSink silentClient sampleConn (none, 0))
    run.returned = none ∧ run.target = none := by
  intro run
  simp only [run]
  induction turns with
  | zero => exact ⟨rfl, rfl⟩
  | succ turns inductionHypothesis =>
      obtain ⟨running, unknown⟩ := inductionHypothesis
      rw [Function.iterate_succ_apply', backfillTurn_target]
      exact ⟨silentClient_turn running unknown, unknown⟩

/-- Without UIDNEXT the backfill of an empty mailbox does not end. -/
theorem silentClient_endless :
    ErrorFree pairSink silentClient sampleConn 0 (none, 0) ∧
      ¬ ∃ turns, ((backfillTurn pairSink silentClient sampleConn 0)^[turns]
        (enterBackfill pairSink silentClient sampleConn (none, 0))).returned = some (.ok ()) := by
  constructor
  · intro untilShutdown
    rw [runInitialBackfill_eq_turns, BackfillRun.outcome, (silentClient_running _).1]
    rfl
  · rintro ⟨turns, returned⟩
    rw [(silentClient_running turns).1] at returned
    cases returned

def firstMails : List Mail := [⟨1, none, [], [97]⟩]

theorem firstMails_assigned : ∀ mail ∈ firstMails, 0 < mail.uid ∧ mail.uid < 2 := by decide

/-- One mail, the only one there ever was. -/
def firstMailBox : Mailbox := ⟨1, 2, firstMails, Nat.two_pos, firstMails_assigned⟩

theorem errorFree_firstMailBox :
    ErrorFree pairSink firstMailBox.client sampleConn 0 (none, 0) := by
  intro untilShutdown
  cases untilShutdown <;> rfl

theorem backfill_ends_firstMailBox :
    ∃ turns, ((backfillTurn pairSink firstMailBox.client sampleConn 0)^[turns]
      (enterBackfill pairSink firstMailBox.client sampleConn (none, 0))).returned =
        some (.ok ()) :=
  (backfill_ends_iff pairSink firstMailBox.client sampleConn 0 (none, 0) ⟨some 1, some 2⟩ 1 rfl rfl
    (fun n same => by cases same; decide) errorFree_firstMailBox).mpr rfl

end Sample

end Termination

section Coverage

/-- The message handed over for a mail. -/
def Mail.fetched (conn : Connection) (epoch : Nat) (mail : Mail) : FetchedMessage where
  accountId := conn.accountId
  folder := conn.folder
  serverUid := mail.uid
  uidvalidity := epoch
  internalDate := mail.internalDate
  flags := mail.flags
  rawBytes := mail.body

def FetchRow.message (conn : Connection) (epoch : Nat) (row : FetchRow) : FetchedMessage where
  accountId := conn.accountId
  folder := conn.folder
  serverUid := row.uid.getD 0
  uidvalidity := epoch
  internalDate := row.internalDate
  flags := row.flags
  rawBytes := row.body.getD []

/-- A server that reports an epoch and a UIDNEXT, and whose answer to a range, if there is one,
holds exactly the mails of that range. -/
structure Serves (client : Client) (epoch uidNext : Nat) (mails : List Mail) : Prop where
  examined : client.examineMeta = .ok ⟨some epoch, some uidNext⟩
  answers : ∀ lo hi rows, client.uidFetch (.between lo hi) = .ok rows →
    rows.Perm ((mails.filter fun mail => decide (lo ≤ mail.uid ∧ mail.uid ≤ hi)).map Mail.row)

variable {epoch uidNext : Nat} {mails : List Mail}

theorem mapM_parseFetchRow (rows : List FetchRow) (uids : ∀ row ∈ rows, row.uid.isSome = true) :
    rows.mapM (parseFetchRow conn epoch) = .ok (rows.map (FetchRow.message conn epoch)) := by
  induction rows with
  | nil => rfl
  | cons row rest inductionHypothesis =>
      obtain ⟨uid, isUid⟩ := Option.isSome_iff_exists.mp (uids row List.mem_cons_self)
      have parsed : parseFetchRow conn epoch row = .ok (row.message conn epoch) := by
        simp only [parseFetchRow, FetchRow.message, isUid, Option.getD_some]
      rw [List.mapM_cons, parsed,
        inductionHypothesis fun other later => uids other (List.mem_cons_of_mem row later)]
      rfl

/-- A batch holds the mails of its range. -/
theorem Serves.batch_perm (serves : Serves client epoch uidNext mails) {lo hi : Nat}
    {batch : List FetchedMessage}
    (fetched : fetchBatch client (.between lo hi) conn epoch = .ok batch) :
    batch.Perm ((mails.filter fun mail => decide (lo ≤ mail.uid ∧ mail.uid ≤ hi)).map
      (Mail.fetched conn epoch)) := by
  unfold fetchBatch at fetched
  split at fetched
  next err failed => cases fetched
  next rows answered =>
    have perm := serves.answers lo hi rows answered
    have uids : ∀ row ∈ rows, row.uid.isSome = true := by
      intro row member
      obtain ⟨mail, _, rfl⟩ := List.mem_map.mp (perm.mem_iff.mp member)
      rfl
    rw [mapM_parseFetchRow rows uids] at fetched
    cases fetched
    have mapped := perm.map (FetchRow.message conn epoch)
    rwa [List.map_map] at mapped

/-- The mails up to a UID and those of the next block are the mails up to the block's end. -/
theorem filter_upto_perm (mails : List Mail) {upto hi : Nat} (below : upto ≤ hi) :
    ((mails.filter fun mail => decide (mail.uid ≤ upto)) ++
      mails.filter fun mail => decide (upto + 1 ≤ mail.uid ∧ mail.uid ≤ hi)).Perm
        (mails.filter fun mail => decide (mail.uid ≤ hi)) := by
  have parted := List.filter_append_perm (fun mail : Mail => decide (mail.uid ≤ upto))
    (mails.filter fun mail => decide (mail.uid ≤ hi))
  rw [List.filter_filter, List.filter_filter] at parted
  refine List.Perm.trans (List.Perm.of_eq ?_) parted
  congr 1
  · apply List.filter_congr
    intro mail _
    rw [Bool.eq_iff_iff]
    simp only [decide_eq_true_eq, Bool.and_eq_true]
    omega
  · apply List.filter_congr
    intro mail _
    rw [Bool.eq_iff_iff]
    simp only [decide_eq_true_eq, Bool.and_eq_true, Bool.not_eq_true', decide_eq_false_iff_not]
    omega

/-- A batch that went through was accepted message by message. -/
theorem recorded_submitBatch_append (view : WatermarkStore sink conn)
    {batch : List FetchedMessage} {maxUidSeen largest : Nat} {state next : Recorded State}
    (submitted : submitBatch (recorded view) batch maxUidSeen state = (.ok largest, next)) :
    next.accepted = state.accepted ++ batch := by
  induction batch generalizing maxUidSeen state with
  | nil =>
      cases submitted
      exact (List.append_nil _).symm
  | cons fetched rest inductionHypothesis =>
      simp only [submitBatch] at submitted
      split at submitted
      next err after failed => cases submitted
      next after accepted =>
        rw [inductionHypothesis submitted]
        have same : after.accepted = state.accepted ++ [fetched] := by
          simp only [recorded] at accepted
          split at accepted
          next => cases accepted
          next =>
            cases accepted
            rfl
        rw [same, List.append_assoc, List.singleton_append]

/-- How far a backfill has come: its ranges tile the UIDs up to `upto`, the mails up to there
were handed over, and their largest UID is remembered and stored. -/
structure Progress (view : WatermarkStore sink conn) (epoch : Nat) (mails : List Mail)
    (start : Recorded State) (upto : Nat) (run : BackfillRun (Recorded State)) : Prop where
  tiles : Tiles incrementalFetchBatch run.requested upto
  handed : ∃ handed, run.sink.accepted = start.accepted ++ handed ∧
    handed.Perm ((mails.filter fun mail => decide (mail.uid ≤ upto)).map
      (Mail.fetched conn epoch))
  seen : ∀ mail ∈ mails, mail.uid ≤ upto → mail.uid ≤ run.maxUidSeen
  attained : run.maxUidSeen = 0 ∨ ∃ mail ∈ mails, mail.uid ≤ upto ∧ mail.uid = run.maxUidSeen
  stored : (run.sink.pair view).2 =
    if run.maxUidSeen = 0 then (start.pair view).2 else run.maxUidSeen

variable {view : WatermarkStore sink conn} {start : Recorded State} {upto : Nat}

/-- A block that went through. -/
theorem Progress.block (serves : Serves client epoch uidNext mails)
    {run : BackfillRun (Recorded State)} (progress : Progress view epoch mails start upto run)
    {hi : Nat} (nonempty : upto < hi) (fits : hi ≤ upto + incrementalFetchBatch)
    {batch : List FetchedMessage} {largest : Nat} {middle last : Recorded State}
    (passed : Batched (recorded view) client (.between (upto + 1) hi) conn epoch
      (fun largest => passUpdate epoch (lastSeenUidUpdate largest) now) run.maxUidSeen run.sink
      batch largest middle (.ok ()) last)
    {next : BackfillRun (Recorded State)} (requested : next.requested = run.requested ++
      [(upto + 1, hi)]) (isSink : next.sink = last) (isLargest : next.maxUidSeen = largest) :
    Progress view epoch mails start hi next := by
  have perm := serves.batch_perm passed.fetched
  obtain ⟨handed, accepted, handedPerm⟩ := progress.handed
  have middleAccepted := recorded_submitBatch_append view passed.submitted
  obtain ⟨lastAccepted, _, merged, _⟩ := recorded_update view passed.updated
  have samePair := (recorded_submitBatch view batch run.maxUidSeen run.sink).1
  rw [passed.submitted] at samePair
  have isMax := submitBatch_max passed.submitted
  obtain ⟨grows, bounds, reached⟩ := foldl_max_spec batch run.maxUidSeen
  rw [← isMax] at grows bounds reached
  have inBatch : ∀ message, message ∈ batch ↔ ∃ mail ∈ mails,
      (upto + 1 ≤ mail.uid ∧ mail.uid ≤ hi) ∧ mail.fetched conn epoch = message := by
    intro message
    simp only [perm.mem_iff, List.mem_map, List.mem_filter, decide_eq_true_eq, and_assoc]
  refine ⟨?_, ?_, ?_, ?_, ?_⟩
  · rw [requested]
    exact progress.tiles.append nonempty fits
  · refine ⟨handed ++ batch, ?_, ?_⟩
    · rw [isSink, lastAccepted, middleAccepted, accepted, List.append_assoc]
    · have parts := (handedPerm.append perm).trans
        (List.Perm.of_eq (List.map_append (f := Mail.fetched conn epoch)).symm)
      exact parts.trans ((filter_upto_perm mails (by omega)).map _)
  · rw [isLargest]
    intro mail member below
    by_cases earlier : mail.uid ≤ upto
    · exact Nat.le_trans (progress.seen mail member earlier) grows
    · exact bounds _ ((inBatch _).mpr ⟨mail, member, ⟨by omega, below⟩, rfl⟩)
  · rw [isLargest]
    rcases reached with same | ⟨message, member, same⟩
    · rw [same]
      rcases progress.attained with zero | ⟨mail, stored, below, isUid⟩
      · exact .inl zero
      · exact .inr ⟨mail, stored, by omega, isUid⟩
    · obtain ⟨mail, stored, ⟨_, below⟩, rfl⟩ := (inBatch message).mp member
      exact .inr ⟨mail, stored, below, same⟩
  · rw [isSink, isLargest, merged rfl]
    simp only [passUpdate, lastSeenUidUpdate, samePair, progress.stored]
    by_cases zero : largest = 0
    · have noneSeen : run.maxUidSeen = 0 := by omega
      simp [zero, noneSeen]
    · simp [zero, Nat.pos_of_ne_zero zero]

/-- The state of a backfill whose target is the last assigned UID. -/
structure BackfillInvariant (view : WatermarkStore sink conn) (epoch uidNext : Nat)
    (mails : List Mail) (start : Recorded State) (run : BackfillRun (Recorded State)) :
    Prop where
  uidvalidity : run.uidvalidity = epoch
  target : run.target = some (uidNext - 1)
  progress : ∃ upto, Progress view epoch mails start upto run ∧ upto < 2 ^ 32 ∧
    (run.returned = none → run.lo = upto + 1 ∧ (upto = 0 ∨ upto < uidNext - 1)) ∧
    (run.returned = some (.ok ()) → uidNext - 1 ≤ upto ∧
      upto < uidNext - 1 + incrementalFetchBatch ∧ (uidNext - 1 = 0 → upto = 0))

theorem BackfillInvariant.turn (serves : Serves client epoch uidNext mails)
    (isU32 : uidNext < 2 ^ 32) {run : BackfillRun (Recorded State)}
    (invariant : BackfillInvariant view epoch uidNext mails start run)
    (errorFree : ∀ err,
      (backfillTurn (recorded view) client conn now run).returned ≠ some (.error err)) :
    BackfillInvariant view epoch uidNext mails start
      (backfillTurn (recorded view) client conn now run) := by
  cases running : run.returned with
  | some result =>
      have same : backfillTurn (recorded view) client conn now run = run :=
        backfillTurn_returned running 1
      rwa [same]
  | none =>
      obtain ⟨upto, progress, small, whileRunning, _⟩ := invariant.progress
      obtain ⟨lo, inRange⟩ := whileRunning running
      rcases backfillTurn_cases (recorded view) client conn now running with
        ⟨finished, turn⟩ | ⟨_, _, err, failed⟩ |
          ⟨batch, largest, middle, last, unfinished, passed, turn⟩
      · rw [turn]
        refine ⟨invariant.uidvalidity, invariant.target, upto,
          ⟨progress.tiles, progress.handed, progress.seen, progress.attained, progress.stored⟩,
          small, nofun, fun _ => ?_⟩
        rw [invariant.target, lo] at finished
        simp only [Option.any_some, Bool.or_eq_true, beq_iff_eq, decide_eq_true_eq] at finished
        simp only [incrementalFetchBatch]
        omega
      · exact absurd failed (errorFree err)
      · rw [lo, invariant.uidvalidity] at passed
        rw [invariant.target, lo] at unfinished
        simp only [Option.any_some, Bool.or_eq_false_iff, beq_eq_false_iff_ne,
          decide_eq_false_iff_not, not_lt] at unfinished
        obtain ⟨hi, isHi⟩ : ∃ hi, saturatingAdd (upto + 1) (incrementalFetchBatch - 1) = hi :=
          ⟨_, rfl⟩
        have bounds : upto < hi ∧ hi ≤ upto + incrementalFetchBatch ∧ hi < 2 ^ 32 := by
          rw [← isHi]
          simp only [saturatingAdd, incrementalFetchBatch]
          omega
        rw [isHi] at passed
        rw [lo, isHi, invariant.target, Option.any_some] at turn
        rw [turn]
        refine ⟨invariant.uidvalidity, rfl, hi, ?_, bounds.2.2, ?_, ?_⟩
        · exact progress.block serves bounds.1 bounds.2.1 passed rfl rfl rfl
        · intro onward
          have room : ¬ uidNext - 1 ≤ hi := by
            intro reached
            simp [reached] at onward
          refine ⟨?_, .inr (by omega)⟩
          simp only [saturatingAdd]
          omega
        · intro ended
          have reached : uidNext - 1 ≤ hi := by
            by_contra onward
            simp [onward] at ended
          simp only [incrementalFetchBatch] at bounds ⊢
          omega

/-- The loop starts without progress and without a reset. -/
theorem enterBackfill_invariant (serves : Serves client epoch uidNext mails)
    (assigned : ∀ mail ∈ mails, 0 < mail.uid ∧ mail.uid < uidNext)
    (sameEpoch : ∀ v, (sink.storedUidvalidity conn.accountId conn.folder start.inner).1 =
      .ok (some v) → v = epoch) :
    BackfillInvariant view epoch uidNext mails start
      (enterBackfill (recorded view) client conn start) := by
  obtain ⟨read, next, answer, cases⟩ := resetIfChanged_cases (recorded view) conn epoch start
  obtain ⟨accepted, _, samePair, _, isResult, _⟩ := recorded_read view answer
  rcases cases with ⟨stored, isRead, changed, _⟩ | ⟨_, same⟩
  · exact absurd (sameEpoch stored (isResult.symm.trans isRead)) changed
  · have enter : enterBackfill (recorded view) client conn start =
        ⟨epoch, some (uidNext - 1), 1, 0, [], next, none⟩ := by
      simp only [enterBackfill, serves.examined, same, Option.map_some]
    rw [enter]
    refine ⟨rfl, rfl, 0, ⟨tiles_nil _, ⟨[], ?_, ?_⟩, ?_, .inl rfl, ?_⟩, by decide,
      fun _ => ⟨rfl, .inl rfl⟩, nofun⟩
    · rw [accepted, List.append_nil]
    · have none : mails.filter (fun mail => decide (mail.uid ≤ 0)) = [] := by
        rw [List.filter_eq_nil_iff]
        intro mail member
        have positive := (assigned mail member).1
        simp only [decide_eq_true_eq]
        omega
      rw [none]
      exact .nil
    · intro mail member below
      exact below
    · simp only [if_true, samePair]

/-- Every turn of a backfill without errors keeps the invariant. -/
theorem BackfillInvariant.iterate (serves : Serves client epoch uidNext mails)
    (isU32 : uidNext < 2 ^ 32) (errorFree : ErrorFree (recorded view) client conn now start)
    (entered : BackfillInvariant view epoch uidNext mails start
      (enterBackfill (recorded view) client conn start)) (turns : Nat) :
    BackfillInvariant view epoch uidNext mails start
      ((backfillTurn (recorded view) client conn now)^[turns]
        (enterBackfill (recorded view) client conn start)) := by
  induction turns with
  | zero => exact entered
  | succ turns inductionHypothesis =>
      have next := errorFree.returned (turns + 1)
      rw [Function.iterate_succ_apply'] at next ⊢
      apply inductionHypothesis.turn serves isU32
      intro err failed
      rw [failed] at next
      rcases next with none | ok
      · cases none
      · cases ok

/-- Once the progress passes all mails, each of them was handed over. -/
theorem Progress.all_handed {run : BackfillRun (Recorded State)}
    (progress : Progress view epoch mails start upto run)
    (passed : ∀ mail ∈ mails, mail.uid ≤ upto) :
    ∃ handed, run.sink.accepted = start.accepted ++ handed ∧
      handed.Perm (mails.map (Mail.fetched conn epoch)) := by
  have all : mails.filter (fun mail => decide (mail.uid ≤ upto)) = mails :=
    List.filter_eq_self.mpr fun mail member => decide_eq_true (passed mail member)
  obtain ⟨handed, accepted, perm⟩ := progress.handed
  rw [all] at perm
  exact ⟨handed, accepted, perm⟩

/-- Then the stored watermark is the largest UID of a mail. -/
theorem Progress.largest_stored {run : BackfillRun (Recorded State)}
    (progress : Progress view epoch mails start upto run)
    (passed : ∀ mail ∈ mails, mail.uid ≤ upto) (positive : ∀ mail ∈ mails, 0 < mail.uid)
    (someMail : mails ≠ []) :
    (∃ mail ∈ mails, mail.uid = (run.sink.pair view).2) ∧
      ∀ mail ∈ mails, mail.uid ≤ (run.sink.pair view).2 := by
  obtain ⟨mail, member⟩ := List.exists_mem_of_ne_nil _ someMail
  have someSeen : 0 < run.maxUidSeen :=
    Nat.lt_of_lt_of_le (positive mail member) (progress.seen mail member (passed mail member))
  rw [progress.stored, if_neg (Nat.ne_of_gt someSeen)]
  refine ⟨?_, fun mail member => progress.seen mail member (passed mail member)⟩
  rcases progress.attained with zero | ⟨largest, stored, _, isLargest⟩
  · omega
  · exact ⟨largest, stored, isLargest⟩

theorem Progress.unmoved {run : BackfillRun (Recorded State)}
    (progress : Progress view epoch mails start upto run) (noMail : mails = []) :
    (run.sink.pair view).2 = (start.pair view).2 := by
  rw [progress.stored]
  rcases progress.attained with zero | ⟨mail, member, _⟩
  · rw [zero, if_pos rfl]
  · rw [noMail] at member
    cases member

/-- A backfill that nothing disturbs ends; its ranges tile the UIDs up to the last assigned one,
each mail is handed over once, and the stored watermark is the largest UID handed over. -/
theorem backfill_covers_once (view : WatermarkStore sink conn) (client : Client) (now : Int)
    (epoch uidNext : Nat) (mails : List Mail) (start : Recorded State)
    (serves : Serves client epoch uidNext mails)
    (assigned : ∀ mail ∈ mails, 0 < mail.uid ∧ mail.uid < uidNext) (isU32 : uidNext < 2 ^ 32)
    (sameEpoch : ∀ v, (sink.storedUidvalidity conn.accountId conn.folder start.inner).1 =
      .ok (some v) → v = epoch)
    (errorFree : ErrorFree (recorded view) client conn now start) :
    ∃ turns run, (backfillTurn (recorded view) client conn now)^[turns]
        (enterBackfill (recorded view) client conn start) = run ∧
      run.returned = some (.ok ()) ∧
      (∀ untilShutdown ≥ turns, runInitialBackfill (recorded view) client conn now untilShutdown
        start = (.ok (), run.sink)) ∧
      (∃ upto, Tiles incrementalFetchBatch run.requested upto ∧ uidNext - 1 ≤ upto ∧
        upto < uidNext - 1 + incrementalFetchBatch ∧ upto < 2 ^ 32) ∧
      (uidNext ≤ 1 → run.requested = []) ∧
      (∃ handed, run.sink.accepted = start.accepted ++ handed ∧
        handed.Perm (mails.map (Mail.fetched conn epoch))) ∧
      (mails = [] → (run.sink.pair view).2 = (start.pair view).2) ∧
      (mails ≠ [] → (∃ mail ∈ mails, mail.uid = (run.sink.pair view).2) ∧
        ∀ mail ∈ mails, mail.uid ≤ (run.sink.pair view).2) := by
  have entered : BackfillInvariant view epoch uidNext mails start
      (enterBackfill (recorded view) client conn start) :=
    enterBackfill_invariant serves assigned sameEpoch
  obtain ⟨turns, isReturned⟩ := exists_turns_returned (recorded view) client conn now
    (by omega) entered.target
  have returned : ((backfillTurn (recorded view) client conn now)^[turns]
      (enterBackfill (recorded view) client conn start)).returned = some (.ok ()) := by
    rcases errorFree.returned turns with running | done
    · rw [running] at isReturned
      cases isReturned
    · exact done
  obtain ⟨upto, progress, small, _, ended⟩ :=
    (entered.iterate serves isU32 errorFree turns).progress
  obtain ⟨reached, bounded, empty⟩ := ended returned
  have passed : ∀ mail ∈ mails, mail.uid ≤ upto := by
    intro mail member
    have below := (assigned mail member).2
    omega
  refine ⟨turns, _, rfl, returned, ?_, ⟨upto, progress.tiles, reached, bounded, small⟩, ?_,
    progress.all_handed passed, progress.unmoved,
    progress.largest_stored passed fun mail member => (assigned mail member).1⟩
  · intro untilShutdown enough
    obtain ⟨more, rfl⟩ := Nat.exists_eq_add_of_le enough
    rw [runInitialBackfill_eq_turns, Nat.add_comm, Function.iterate_add_apply,
      backfillTurn_returned returned, BackfillRun.outcome, returned, Option.getD_some]
  · intro noMail
    have tiles := progress.tiles
    rw [empty (by omega)] at tiles
    exact tiles.eq_nil

section Sample

/-- The sink's pair as it stores it. -/
def pairView : WatermarkStore pairSink sampleConn where
  pair := id
  torn _ := False
  submit_pair _ _ := rfl
  tombstone_pair _ _ := rfl
  listed_pair _ _ := rfl
  read_pair _ := rfl
  read_result _ _ read := (Except.ok.inj read).symm
  update_ok _ _ _ := rfl
  update_pair _ _ _ isNext := .inr (.inl isNext)

/-- A mail in the first range and one in the second, with UID 600. -/
def gapMailBox : Mailbox := firstMailBox.arrive 598 none [] [98]

def unsynced : Recorded (Option Nat × Nat) := ⟨(none, 0), [], []⟩

theorem serves_gapMailBox : Serves gapMailBox.client 1 601 gapMailBox.mails where
  examined := rfl
  answers := by
    intro lo hi rows answered
    cases answered
    exact List.Perm.refl _

theorem errorFree_gapMailBox :
    ErrorFree (recorded pairView) gapMailBox.client sampleConn 0 unsynced := by
  intro untilShutdown
  rcases untilShutdown with _ | _ | later <;> rfl

theorem backfill_covers_once_gapMailBox :
    ∃ turns run, (backfillTurn (recorded pairView) gapMailBox.client sampleConn 0)^[turns]
        (enterBackfill (recorded pairView) gapMailBox.client sampleConn unsynced) = run ∧
      run.returned = some (.ok ()) ∧ run.sink.accepted.length = 2 ∧
      ∀ mail ∈ gapMailBox.mails, mail.uid ≤ (run.sink.pair pairView).2 := by
  obtain ⟨turns, run, reached, returned, _, _, _, ⟨handed, accepted, perm⟩, _, largest⟩ :=
    backfill_covers_once pairView gapMailBox.client 0 1 601 gapMailBox.mails unsynced
      serves_gapMailBox gapMailBox.assigned (by decide) nofun errorFree_gapMailBox
  refine ⟨turns, run, reached, returned, ?_, (largest nofun).2⟩
  rw [accepted, List.length_append, perm.length_eq]
  rfl

end Sample

end Coverage

end Scryd.Imap
