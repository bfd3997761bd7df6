import Scryd.Imap.Client

/-!
# Backfill and incremental passes

The two passes that write the stored pair of epoch and watermark, generic over
the sink.  UIDs are 32-bit, their arithmetic saturates.
-/

namespace Scryd.Imap

open Scryd.Storage

def incrementalFetchBatch : Nat := 500

/-- `u32::saturating_add`. -/
def saturatingAdd (left right : Nat) : Nat := min (left + right) (2 ^ 32 - 1)

def lastSeenUidUpdate (maxUidSeen : Nat) : Option Nat :=
  if 0 < maxUidSeen then some maxUidSeen else none

def noUidvalidity (conn : Connection) : ClientError :=
  .server ("EXAMINE " ++ conn.folder ++ " did not report UIDVALIDITY")

variable {State : Type} (sink : MessageSink State)

/-- Hand a batch to the sink, keeping the largest UID seen.  The first failing submit
ends the pass. -/
def submitBatch : List FetchedMessage → Nat → State → Except ClientError Nat × State
  | [], maxUidSeen, state => (.ok maxUidSeen, state)
  | fetched :: rest, maxUidSeen, state =>
      match sink.submit fetched state with
      | (.error err, next) => (.error err, next)
      | (.ok (), next) => submitBatch rest (max maxUidSeen fetched.serverUid) next

/-- `uidvalidity::handle_change`. -/
def handleChange (conn : Connection) (newUidvalidity : Nat) (state : State) :
    Except ClientError Unit × State :=
  sink.updateSyncState conn.accountId conn.folder
    { uidvalidity := some newUidvalidity, lastSeenUid := some 0 } state

/-- The update a pass writes: the epoch, the watermark if there is a new one and the time. -/
def passUpdate (uidvalidity : Nat) (lastSeenUid : Option Nat) (now : Int) : SyncStateUpdate :=
  { uidvalidity := some uidvalidity, lastSeenUid := lastSeenUid, lastFullSyncAt := some now }

/-- The loop of `run_initial_backfill`.  The first argument counts the checks of the
shutdown flag that still find it unset. -/
def backfillLoop (client : Client) (conn : Connection) (uidvalidity : Nat)
    (target : Option Nat) (now : Int) :
    Nat → Nat → Nat → State → Except ClientError Unit × State
  | 0, _, _, state => (.ok (), state)
  | untilShutdown + 1, lo, maxUidSeen, state =>
      if target.any fun t => t == 0 || decide (t < lo) then
        (.ok (), state)
      else
        let hi := saturatingAdd lo (incrementalFetchBatch - 1)
        match fetchBatch client (.between lo hi) conn uidvalidity with
        | .error err => (.error err, state)
        | .ok batch =>
            match submitBatch sink batch maxUidSeen state with
            | (.error err, next) => (.error err, next)
            | (.ok maxUidSeen, next) =>
                match sink.updateSyncState conn.accountId conn.folder
                    (passUpdate uidvalidity (lastSeenUidUpdate maxUidSeen) now) next with
                | (.error err, last) => (.error err, last)
                | (.ok (), last) =>
                    if target.any fun t => decide (t ≤ hi) then (.ok (), last)
                    else backfillLoop client conn uidvalidity target now untilShutdown
                      (saturatingAdd hi 1) maxUidSeen last

/-- The reset a backfill starts with when the stored epoch is readable and another one. -/
def resetIfChanged (conn : Connection) (serverUidvalidity : Nat) (state : State) :
    Except ClientError Unit × State :=
  match sink.storedUidvalidity conn.accountId conn.folder state with
  | (.ok (some stored), next) =>
      if stored ≠ serverUidvalidity then handleChange sink conn serverUidvalidity next
      else (.ok (), next)
  | (_, next) => (.ok (), next)

def runInitialBackfill (client : Client) (conn : Connection) (now : Int) (untilShutdown : Nat)
    (state : State) : Except ClientError Unit × State :=
  match client.examineMeta with
  | .error err => (.error err, state)
  | .ok mailbox =>
      match mailbox.uidValidity with
      | none => (.error (noUidvalidity conn), state)
      | some serverUidvalidity =>
          match resetIfChanged sink conn serverUidvalidity state with
          | (.error err, next) => (.error err, next)
          | (.ok (), next) =>
              backfillLoop sink client conn serverUidvalidity
                (mailbox.uidNext.map fun n => n - 1) now untilShutdown 1 0 next

def runIncremental (client : Client) (conn : Connection) (now : Int) (lastSeenUid : Nat)
    (state : State) : Except ClientError Nat × State :=
  match client.examineMeta with
  | .error err => (.error err, state)
  | .ok mailbox =>
      match mailbox.uidValidity with
      | none => (.error (noUidvalidity conn), state)
      | some serverUidvalidity =>
          match fetchBatch client (.onward (saturatingAdd lastSeenUid 1)) conn
              serverUidvalidity with
          | .error err => (.error err, state)
          | .ok batch =>
              match submitBatch sink batch lastSeenUid state with
              | (.error err, next) => (.error err, next)
              | (.ok maxUidSeen, next) =>
                  match sink.updateSyncState conn.accountId conn.folder
                      (passUpdate serverUidvalidity
                        (if lastSeenUid < maxUidSeen then some maxUidSeen else none) now)
                      next with
                  | (.error err, last) => (.error err, last)
                  | (.ok (), last) => (.ok maxUidSeen, last)

variable {sink}

section Cases

variable (sink)

/-- A reset is issued for a stored epoch that can be read and is another one; else nothing
happens after the read. -/
theorem resetIfChanged_cases (conn : Connection) (uidvalidity : Nat) (state : State) :
    ∃ read next, sink.storedUidvalidity conn.accountId conn.folder state = (read, next) ∧
      ((∃ stored, read = .ok (some stored) ∧ stored ≠ uidvalidity ∧
          resetIfChanged sink conn uidvalidity state = handleChange sink conn uidvalidity next) ∨
        ((∀ stored, read = .ok (some stored) → stored = uidvalidity) ∧
          resetIfChanged sink conn uidvalidity state = (.ok (), next))) := by
  cases answer : sink.storedUidvalidity conn.accountId conn.folder state with
  | mk read next =>
      refine ⟨read, next, rfl, ?_⟩
      rcases read with err | _ | stored
      · exact .inr ⟨nofun, by simp only [resetIfChanged, answer]⟩
      · exact .inr ⟨nofun, by simp only [resetIfChanged, answer]⟩
      · by_cases changed : stored = uidvalidity
        · apply Or.inr
          refine ⟨fun other same => ?_, by simp [resetIfChanged, answer, changed]⟩
          cases same
          exact changed
        · exact .inl ⟨stored, rfl, changed, by simp [resetIfChanged, answer, changed]⟩

/-- The outcome of a batch and of the update behind it. -/
structure Batched (client : Client) (range : UidRange) (conn : Connection) (uidvalidity : Nat)
    (update : Nat → SyncStateUpdate) (maxUidSeen : Nat) (state : State)
    (batch : List FetchedMessage) (largest : Nat) (middle : State)
    (result : Except ClientError Unit) (last : State) : Prop where
  fetched : fetchBatch client range conn uidvalidity = .ok batch
  submitted : submitBatch sink batch maxUidSeen state = (.ok largest, middle)
  updated : sink.updateSyncState conn.accountId conn.folder (update largest) middle =
    (result, last)

/-- A turn of the backfill loop: it was told to stop or has reached its target; its fetch or one
of its submits fails; or its update is written, and then it ends or goes on. -/
theorem backfillLoop_cases (client : Client) (conn : Connection) (uidvalidity : Nat)
    (target : Option Nat) (now : Int) (untilShutdown lo maxUidSeen : Nat) (state : State) :
    let loop := backfillLoop sink client conn uidvalidity target now
    let hi := saturatingAdd lo (incrementalFetchBatch - 1)
    ((target.any fun t => t == 0 || decide (t < lo)) = true ∧
      loop (untilShutdown + 1) lo maxUidSeen state = (.ok (), state)) ∨
    (∃ err, loop (untilShutdown + 1) lo maxUidSeen state = (.error err, state)) ∨
    (∃ batch err next, submitBatch sink batch maxUidSeen state = (.error err, next) ∧
      loop (untilShutdown + 1) lo maxUidSeen state = (.error err, next)) ∨
    ∃ batch largest middle result last,
      Batched sink client (.between lo hi) conn uidvalidity
        (fun largest => passUpdate uidvalidity (lastSeenUidUpdate largest) now) maxUidSeen state
        batch largest middle result last ∧
      (loop (untilShutdown + 1) lo maxUidSeen state = (result, last) ∨
        (result = .ok () ∧ loop (untilShutdown + 1) lo maxUidSeen state =
          loop untilShutdown (saturatingAdd hi 1) largest last)) := by
  intro loop hi
  simp only [loop, hi, backfillLoop]
  by_cases finished : (target.any fun t => t == 0 || decide (t < lo)) = true
  · exact .inl ⟨finished, if_pos finished⟩
  · rw [if_neg finished]
    apply Or.inr
    cases fetched : fetchBatch client (.between lo (saturatingAdd lo (incrementalFetchBatch - 1)))
        conn uidvalidity with
    | error err => exact .inl ⟨err, rfl⟩
    | ok batch =>
        apply Or.inr
        cases submitted : submitBatch sink batch maxUidSeen state with
        | mk accepted middle =>
            cases accepted with
            | error err => exact .inl ⟨batch, err, middle, submitted, by simp only [submitted]⟩
            | ok largest =>
                cases updated : sink.updateSyncState conn.accountId conn.folder
                    (passUpdate uidvalidity (lastSeenUidUpdate largest) now) middle with
                | mk result last =>
                    apply Or.inr
                    refine ⟨batch, largest, middle, result, last,
                      ⟨fetched, submitted, updated⟩, ?_⟩
                    simp only [submitted, updated]
                    cases result with
                    | error err => exact .inl rfl
                    | ok written =>
                        dsimp only
                        split
                        next reached => exact .inl rfl
                        next onward => exact .inr ⟨rfl, rfl⟩

/-- A backfill fails before it writes, its reset fails, or it goes on with its loop. -/
theorem runInitialBackfill_cases (client : Client) (conn : Connection) (now : Int)
    (untilShutdown : Nat) (state : State) :
    (∃ err, runInitialBackfill sink client conn now untilShutdown state = (.error err, state)) ∨
    ∃ mailbox uidvalidity, client.examineMeta = .ok mailbox ∧
      mailbox.uidValidity = some uidvalidity ∧
      ((∃ err next, resetIfChanged sink conn uidvalidity state = (.error err, next) ∧
          runInitialBackfill sink client conn now untilShutdown state = (.error err, next)) ∨
        ∃ next, resetIfChanged sink conn uidvalidity state = (.ok (), next) ∧
          runInitialBackfill sink client conn now untilShutdown state =
            backfillLoop sink client conn uidvalidity (mailbox.uidNext.map (· - 1)) now
              untilShutdown 1 0 next) := by
  unfold runInitialBackfill
  cases examined : client.examineMeta with
  | error err => exact .inl ⟨err, rfl⟩
  | ok mailbox =>
      dsimp only
      cases reported : mailbox.uidValidity with
      | none => exact .inl ⟨_, rfl⟩
      | some uidvalidity =>
          apply Or.inr
          refine ⟨mailbox, uidvalidity, rfl, reported, ?_⟩
          cases reset : resetIfChanged sink conn uidvalidity state with
          | mk result next =>
              cases result with
              | error err => exact .inl ⟨err, next, rfl, by simp only [reset]⟩
              | ok done => exact .inr ⟨next, rfl, by simp only [reset]⟩

/-- An incremental pass fails before it submits, one of its submits fails, or its update is
written. -/
theorem runIncremental_cases (client : Client) (conn : Connection) (now : Int)
    (lastSeenUid : Nat) (state : State) :
    (∃ err, runIncremental sink client conn now lastSeenUid state = (.error err, state)) ∨
    ∃ mailbox uidvalidity, client.examineMeta = .ok mailbox ∧
      mailbox.uidValidity = some uidvalidity ∧
      ((∃ batch err next, submitBatch sink batch lastSeenUid state = (.error err, next) ∧
          runIncremental sink client conn now lastSeenUid state = (.error err, next)) ∨
        ∃ batch largest middle result last,
          Batched sink client (.onward (saturatingAdd lastSeenUid 1)) conn uidvalidity
            (fun largest => passUpdate uidvalidity
              (if lastSeenUid < largest then some largest else none) now) lastSeenUid state
            batch largest middle result last ∧
          runIncremental sink client conn now lastSeenUid state =
            (result.map fun _ => largest, last)) := by
  unfold runIncremental
  cases examined : client.examineMeta with
  | error err => exact .inl ⟨err, rfl⟩
  | ok mailbox =>
      dsimp only
      cases reported : mailbox.uidValidity with
      | none => exact .inl ⟨_, rfl⟩
      | some uidvalidity =>
          dsimp only
          cases fetched : fetchBatch client (.onward (saturatingAdd lastSeenUid 1)) conn
              uidvalidity with
          | error err => exact .inl ⟨err, rfl⟩
          | ok batch =>
              apply Or.inr
              refine ⟨mailbox, uidvalidity, rfl, reported, ?_⟩
              cases submitted : submitBatch sink batch lastSeenUid state with
              | mk accepted middle =>
                  cases accepted with
                  | error err =>
                      exact .inl ⟨batch, err, middle, submitted, by simp only [submitted]⟩
                  | ok largest =>
                      cases updated : sink.updateSyncState conn.accountId conn.folder
                          (passUpdate uidvalidity
                            (if lastSeenUid < largest then some largest else none) now)
                          middle with
                      | mk result last =>
                          apply Or.inr
                          refine ⟨batch, largest, middle, result, last,
                            ⟨fetched, submitted, updated⟩, ?_⟩
                          simp only [submitted, updated]
                          cases result <;> rfl

end Cases

/-- What a batch that went through has seen. -/
theorem submitBatch_max {batch : List FetchedMessage} {maxUidSeen largest : Nat}
    {state next : State}
    (submitted : submitBatch sink batch maxUidSeen state = (.ok largest, next)) :
    largest = batch.foldl (fun seen fetched => max seen fetched.serverUid) maxUidSeen := by
  induction batch generalizing maxUidSeen state with
  | nil =>
      cases submitted
      rfl
  | cons fetched rest inductionHypothesis =>
      simp only [submitBatch] at submitted
      split at submitted
      next err after failed => cases submitted
      next after accepted => exact inductionHypothesis submitted

theorem foldl_max_spec (batch : List FetchedMessage) (start : Nat) :
    start ≤ batch.foldl (fun seen fetched => max seen fetched.serverUid) start ∧
      (∀ fetched ∈ batch, fetched.serverUid ≤
        batch.foldl (fun seen fetched => max seen fetched.serverUid) start) ∧
      (batch.foldl (fun seen fetched => max seen fetched.serverUid) start = start ∨
        ∃ fetched ∈ batch, fetched.serverUid =
          batch.foldl (fun seen fetched => max seen fetched.serverUid) start) := by
  induction batch generalizing start with
  | nil => exact ⟨Nat.le_refl start, nofun, .inl rfl⟩
  | cons fetched rest inductionHypothesis =>
      obtain ⟨grows, bounds, attained⟩ := inductionHypothesis (max start fetched.serverUid)
      simp only [List.foldl_cons]
      refine ⟨by omega, ?_, ?_⟩
      · intro other membership
        rcases List.mem_cons.mp membership with rfl | later
        · omega
        · exact bounds other later
      · rcases attained with same | ⟨other, later, same⟩
        · rw [same]
          rcases Nat.le_total start fetched.serverUid with smaller | larger
          · exact .inr ⟨fetched, List.mem_cons_self, by omega⟩
          · exact .inl (by omega)
        · exact .inr ⟨other, List.mem_cons_of_mem fetched later, same⟩

/-- What every submit preserves, a batch preserves. -/
theorem submitBatch_preserves {property : State → Prop}
    (preserved : ∀ fetched state, property state → property (sink.submit fetched state).2)
    (batch : List FetchedMessage) (maxUidSeen : Nat) {state : State}
    (initially : property state) :
    property (submitBatch sink batch maxUidSeen state).2 := by
  induction batch generalizing maxUidSeen state with
  | nil => exact initially
  | cons fetched rest inductionHypothesis =>
      have next := preserved fetched state initially
      unfold submitBatch
      split
      next err after failed => rwa [failed] at next
      next after accepted =>
        rw [accepted] at next
        exact inductionHypothesis _ next

/-- The messages of a batch carry the pass's account, folder and epoch, and are the parsed
responses of the client. -/
theorem fetchBatch_ok {client : Client} {range : UidRange} {conn : Connection}
    {uidvalidity : Nat} {batch : List FetchedMessage}
    (fetched : fetchBatch client range conn uidvalidity = .ok batch) :
    ∃ rows, client.uidFetch range = .ok rows ∧
      (∀ message ∈ batch, ∃ row ∈ rows, parseFetchRow conn uidvalidity row = .ok message) ∧
      (∀ row ∈ rows, ∃ message ∈ batch, parseFetchRow conn uidvalidity row = .ok message) := by
  unfold fetchBatch at fetched
  split at fetched
  next err failed => cases fetched
  next rows answered =>
    refine ⟨rows, answered, ?_⟩
    clear answered
    induction rows generalizing batch with
    | nil =>
        cases fetched
        exact ⟨nofun, nofun⟩
    | cons row rest inductionHypothesis =>
        rw [List.mapM_cons] at fetched
        cases parsed : parseFetchRow conn uidvalidity row with
        | error err =>
            rw [parsed] at fetched
            cases fetched
        | ok message =>
            cases parsedRest : rest.mapM (parseFetchRow conn uidvalidity) with
            | error err =>
                rw [parsed, parsedRest] at fetched
                cases fetched
            | ok messages =>
                rw [parsed, parsedRest] at fetched
                cases fetched
                obtain ⟨fromRows, toBatch⟩ := inductionHypothesis parsedRest
                constructor
                · intro other membership
                  rcases List.mem_cons.mp membership with rfl | later
                  · exact ⟨row, List.mem_cons_self, parsed⟩
                  · obtain ⟨source, sourceIn, same⟩ := fromRows other later
                    exact ⟨source, List.mem_cons_of_mem row sourceIn, same⟩
                · intro source membership
                  rcases List.mem_cons.mp membership with rfl | later
                  · exact ⟨message, List.mem_cons_self, parsed⟩
                  · obtain ⟨result, resultIn, same⟩ := toBatch source later
                    exact ⟨result, List.mem_cons_of_mem message resultIn, same⟩

theorem parseFetchRow_uid {conn : Connection} {uidvalidity : Nat} {row : FetchRow}
    {message : FetchedMessage} (parsed : parseFetchRow conn uidvalidity row = .ok message) :
    row.uid = some message.serverUid := by
  unfold parseFetchRow at parsed
  split at parsed
  next => cases parsed
  next uid isUid =>
    cases parsed
    exact isUid

section Submitted

variable {client : Client} {range : UidRange} {conn : Connection} {uidvalidity : Nat}
  {batch : List FetchedMessage} {rows : List FetchRow} {start largest : Nat} {state next : State}

/-- The largest UID of a batch that went through is at least each one in the answer. -/
theorem submitBatch_reaches (fetched : fetchBatch client range conn uidvalidity = .ok batch)
    (submitted : submitBatch sink batch start state = (.ok largest, next))
    (answered : client.uidFetch range = .ok rows) {row : FetchRow} (inRows : row ∈ rows)
    {uid : Nat} (isUid : row.uid = some uid) : uid ≤ largest := by
  obtain ⟨others, alsoAnswered, _, toBatch⟩ := fetchBatch_ok fetched
  rw [answered] at alsoAnswered
  cases alsoAnswered
  obtain ⟨message, inBatch, parsed⟩ := toBatch row inRows
  have same := (parseFetchRow_uid parsed).symm.trans isUid
  have bounded := (foldl_max_spec batch start).2.1 message inBatch
  rw [← submitBatch_max submitted, Option.some.inj same] at bounded
  exact bounded

/-- It is the one the batch started with, or the one of a message in the answer. -/
theorem submitBatch_attains (fetched : fetchBatch client range conn uidvalidity = .ok batch)
    (submitted : submitBatch sink batch start state = (.ok largest, next))
    (answered : client.uidFetch range = .ok rows) :
    largest = start ∨ ∃ row ∈ rows, row.uid = some largest := by
  obtain ⟨others, alsoAnswered, fromRows, _⟩ := fetchBatch_ok fetched
  rw [answered] at alsoAnswered
  cases alsoAnswered
  have attained := (foldl_max_spec batch start).2.2
  rw [← submitBatch_max submitted] at attained
  rcases attained with same | ⟨message, inBatch, same⟩
  · exact .inl same
  · obtain ⟨row, inRows, parsed⟩ := fromRows message inBatch
    apply Or.inr
    refine ⟨row, inRows, ?_⟩
    rw [parseFetchRow_uid parsed, same]

theorem submitBatch_grows (submitted : submitBatch sink batch start state = (.ok largest, next)) :
    start ≤ largest := by
  rw [submitBatch_max submitted]
  exact (foldl_max_spec batch start).1

end Submitted

end Scryd.Imap
