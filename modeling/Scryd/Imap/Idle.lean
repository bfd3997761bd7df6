import Scryd.Imap.Supervisor

/-!
# The IDLE loop

`run_idle_loop` iteration by iteration.  Its tombstone scans list local UIDs
for an epoch the loop caches; the record of the scans says which one it was and
which epoch the connection had examined last.
-/

namespace Scryd.Imap

open Scryd.Foundation Scryd.Storage

def tombstoneScanEvery : Nat := 10

inductive IdleOutcome where
  | event
  | recycle
  | shutdown

/-- What the environment decides for one iteration: the answer to the scan's search, whether
IDLE starts, how the wait ends, whether `DONE` fails, the client of the pass and the clock. -/
structure IdleRound where
  scanClient : Client
  idleStart : Except ClientError Unit
  outcome : Except ClientError IdleOutcome
  doneError : Option String
  client : Client
  now : Int

/-- The epoch an `EXAMINE` reports. -/
def Client.examinedEpoch (client : Client) : Option Nat :=
  client.examineMeta.toOption.bind (·.uidValidity)

variable {State : Type}

/-- A scan: the epoch its local UIDs were listed for, the epoch examined last, the sink before
the listing, what was listed and what the server answered. -/
structure ScanRecord (State : Type) where
  uidvalidity : Nat
  examined : Nat
  before : State
  localUids : List Nat
  answer : Except ClientError (List Nat)

/-- The UIDs that a scan sets out to tombstone. -/
def ScanRecord.gone (record : ScanRecord State) : List Nat :=
  match record.answer with
  | .ok serverUids => computeTombstones record.localUids serverUids
  | .error _ => []

/-- The variables of the loop, the epoch examined last, the scans so far and how the loop has
ended. -/
structure IdleState (State : Type) where
  sink : State
  lastSeenUid : Nat
  iteration : Nat
  tombstoneUidvalidity : Nat
  examined : Nat
  scans : List (ScanRecord State)
  ended : Option (Except ClientError Unit)

variable (sink : MessageSink State) (conn : Connection)

/-- The loop is entered with the stored epoch, or 0 where there is none or the read fails. -/
def enterIdle (examined initialLastSeenUid : Nat) (state : State) : IdleState State :=
  let (stored, next) := sink.storedUidvalidity conn.accountId conn.folder state
  ⟨next, initialLastSeenUid, 0, stored.toOption.join.getD 0, examined, [], none⟩

/-- The scan in front of every tenth IDLE.  A listing that fails is an empty one, and the
result of the scan is ignored. -/
def scanIfDue (client : Client) (state : IdleState State) : IdleState State :=
  if 1 < state.iteration ∧ state.iteration % tombstoneScanEvery = 0 ∧
      0 < state.tombstoneUidvalidity then
    let (listed, next) :=
      sink.listLocalUids conn.accountId conn.folder state.tombstoneUidvalidity state.sink
    let localUids := listed.toOption.getD []
    { state with
      sink := (scan sink client conn localUids next).2
      scans := state.scans ++ [⟨state.tombstoneUidvalidity, state.examined, state.sink,
        localUids, client.uidSearchAll⟩] }
  else
    state

/-- A pass after an IDLE event.  The cached epoch is read again afterwards; a read that fails
keeps the old one. -/
def afterEvent (client : Client) (now : Int) (state : IdleState State) : IdleState State :=
  let examined := client.examinedEpoch.getD state.examined
  match runIncremental sink client conn now state.lastSeenUid state.sink with
  | (.error err, next) =>
      { state with sink := next, examined := examined, ended := some (.error err) }
  | (.ok newUid, next) =>
      let (stored, read) := sink.storedUidvalidity conn.accountId conn.folder next
      { state with
        sink := read
        lastSeenUid := max state.lastSeenUid newUid
        tombstoneUidvalidity := stored.toOption.join.getD state.tombstoneUidvalidity
        examined := examined }

/-- The iteration counter saturates; then the scan may be due. -/
def beginRound (round : IdleRound) (state : IdleState State) : IdleState State :=
  scanIfDue sink conn round.scanClient
    { state with iteration := saturatingAdd state.iteration 1 }

/-- One iteration of `run_idle_loop`. -/
def idleStep (state : IdleState State) (round : IdleRound) : IdleState State :=
  match state.ended with
  | some _ => state
  | none =>
      let scanned := beginRound sink conn round state
      match round.idleStart, round.doneError, round.outcome with
      | .error err, _, _ => { scanned with ended := some (.error err) }
      | .ok (), some text, _ => { scanned with ended := some (.error (.server text)) }
      | .ok (), none, .error err => { scanned with ended := some (.error err) }
      | .ok (), none, .ok .shutdown => { scanned with ended := some (.ok ()) }
      | .ok (), none, .ok .recycle =>
          { scanned with sink := (sink.updateSyncState conn.accountId conn.folder
              { lastFullSyncAt := some round.now } scanned.sink).2 }
      | .ok (), none, .ok .event => afterEvent sink conn round.client round.now scanned

/-- `run_idle_loop`.  When the rounds are used up, the loop has found the shutdown flag set. -/
def runIdleLoop (examined initialLastSeenUid : Nat) (rounds : List IdleRound) (state : State) :
    IdleState State :=
  run (idleStep sink conn) (enterIdle sink conn examined initialLastSeenUid state) rounds

def IdleState.result (state : IdleState State) : Except ClientError Nat :=
  match state.ended with
  | some (.error err) => .error err
  | _ => .ok state.lastSeenUid

section Cases

variable {sink conn}

theorem idleStep_ended {state : IdleState State} {result : Except ClientError Unit}
    (ended : state.ended = some result) (round : IdleRound) :
    idleStep sink conn state round = state := by
  unfold idleStep
  rw [ended]

/-- Everything an iteration can do beyond its scan: end, touch the freshness time, or run a
pass. -/
theorem idleStep_cases {state : IdleState State} (running : state.ended = none)
    (round : IdleRound) :
    (∃ result, idleStep sink conn state round =
      { beginRound sink conn round state with ended := some result }) ∨
    (idleStep sink conn state round =
      { beginRound sink conn round state with
        sink := (sink.updateSyncState conn.accountId conn.folder
          { lastFullSyncAt := some round.now } (beginRound sink conn round state).sink).2 }) ∨
    (idleStep sink conn state round =
        afterEvent sink conn round.client round.now (beginRound sink conn round state) ∧
      round.outcome = .ok .event) := by
  unfold idleStep
  rw [running]
  cases round.idleStart with
  | error err => exact .inl ⟨_, rfl⟩
  | ok started =>
      cases round.doneError with
      | some text => exact .inl ⟨_, rfl⟩
      | none =>
          cases outcome : round.outcome with
          | error err => exact .inl ⟨_, rfl⟩
          | ok ended =>
              cases ended with
              | shutdown => exact .inl ⟨_, rfl⟩
              | recycle => exact .inr (.inl rfl)
              | event => exact .inr (.inr ⟨rfl, rfl⟩)

/-- A round begins with the loop's variables as they were, and with at most one more scan. -/
theorem beginRound_cases (state : IdleState State) (round : IdleRound) :
    (beginRound sink conn round state).tombstoneUidvalidity = state.tombstoneUidvalidity ∧
      (beginRound sink conn round state).examined = state.examined ∧
      (beginRound sink conn round state).lastSeenUid = state.lastSeenUid ∧
      (beginRound sink conn round state).ended = state.ended ∧
      ((beginRound sink conn round state).scans = state.scans ∨
        (0 < state.tombstoneUidvalidity ∧
          (beginRound sink conn round state).scans = state.scans ++
            [⟨state.tombstoneUidvalidity, state.examined, state.sink,
              (sink.listLocalUids conn.accountId conn.folder state.tombstoneUidvalidity
                state.sink).1.toOption.getD [], round.scanClient.uidSearchAll⟩])) := by
  unfold beginRound scanIfDue
  split
  next due => exact ⟨rfl, rfl, rfl, rfl, .inr ⟨due.2.2, rfl⟩⟩
  next => exact ⟨rfl, rfl, rfl, rfl, .inl rfl⟩

/-- The scan of a round tombstones the UIDs its record says are gone. -/
theorem beginRound_sink (state : IdleState State) (round : IdleRound) {record : ScanRecord State}
    (scanned : (beginRound sink conn round state).scans = state.scans ++ [record]) :
    (beginRound sink conn round state).sink = (tombstoneAll sink conn record.gone
      (sink.listLocalUids conn.accountId conn.folder record.uidvalidity record.before).2).2 := by
  unfold beginRound scanIfDue at scanned ⊢
  split at scanned
  next due =>
    rw [if_pos due]
    have same := List.append_cancel_left scanned
    rw [List.cons.injEq] at same
    rw [← same.1]
    exact scan_state sink round.scanClient conn _ _
  next =>
    have lengths := congrArg List.length scanned
    simp at lengths

end Cases

section Preserved

/-- A property of the sink's state that every call behind the login preserves.  None of these
calls writes a health. -/
structure Preserved (sink : MessageSink State) (conn : Connection) (property : State → Prop) :
    Prop where
  submit : ∀ fetched state, property state → property (sink.submit fetched state).2
  tombstone : ∀ id state, property state → property (sink.tombstone id state).2
  update : ∀ update state, update.accountHealth = none → property state →
    property (sink.updateSyncState conn.accountId conn.folder update state).2
  listed : ∀ uidvalidity state, property state →
    property (sink.listLocalUids conn.accountId conn.folder uidvalidity state).2
  read : ∀ state, property state →
    property (sink.storedUidvalidity conn.accountId conn.folder state).2

variable {sink conn} {property : State → Prop}

/-- What the sink is asked for by a batch and the update behind it preserves the property. -/
theorem Preserved.batched (preserved : Preserved sink conn property) {client : Client}
    {range : UidRange} {epoch : Nat} {update : Nat → SyncStateUpdate} {maxUidSeen largest : Nat}
    {state middle last : State} {batch : List FetchedMessage} {result : Except ClientError Unit}
    (passed : Batched sink client range conn epoch update maxUidSeen state batch largest middle
      result last)
    (unset : (update largest).accountHealth = none) (initially : property state) :
    property last := by
  have submitted := submitBatch_preserves preserved.submit batch maxUidSeen initially
  rw [passed.submitted] at submitted
  have updated := preserved.update (update largest) middle unset submitted
  rwa [passed.updated] at updated

theorem Preserved.backfillLoop (preserved : Preserved sink conn property) (client : Client)
    (epoch : Nat) (target : Option Nat) (now : Int) (untilShutdown lo maxUidSeen : Nat)
    {state : State} (initially : property state) :
    property (Imap.backfillLoop sink client conn epoch target now untilShutdown lo maxUidSeen
      state).2 := by
  induction untilShutdown generalizing lo maxUidSeen state with
  | zero => exact initially
  | succ untilShutdown inductionHypothesis =>
      rcases backfillLoop_cases sink client conn epoch target now untilShutdown lo maxUidSeen
        state with ⟨_, same⟩ | ⟨err, same⟩ | ⟨batch, err, next, failed, same⟩ |
          ⟨batch, largest, middle, result, last, passed, same | ⟨_, same⟩⟩
      · rwa [same]
      · rwa [same]
      · have submitted := submitBatch_preserves preserved.submit batch maxUidSeen initially
        rw [failed] at submitted
        rwa [same]
      · rw [same]
        exact preserved.batched passed rfl initially
      · rw [same]
        exact inductionHypothesis _ _ (preserved.batched passed rfl initially)

theorem Preserved.resetIfChanged (preserved : Preserved sink conn property) (epoch : Nat)
    {state : State} (initially : property state) :
    property (Imap.resetIfChanged sink conn epoch state).2 := by
  obtain ⟨read, next, answer, cases⟩ := resetIfChanged_cases sink conn epoch state
  have kept := preserved.read state initially
  rw [answer] at kept
  rcases cases with ⟨stored, _, _, same⟩ | ⟨_, same⟩
  · rw [same]
    exact preserved.update _ next rfl kept
  · rwa [same]

theorem Preserved.runInitialBackfill (preserved : Preserved sink conn property)
    (client : Client) (now : Int) (untilShutdown : Nat) {state : State}
    (initially : property state) :
    property (Imap.runInitialBackfill sink client conn now untilShutdown state).2 := by
  rcases runInitialBackfill_cases sink client conn now untilShutdown state with
    ⟨err, same⟩ | ⟨mailbox, epoch, _, _, ⟨err, next, reset, same⟩ | ⟨next, reset, same⟩⟩
  · rwa [same]
  · have kept := preserved.resetIfChanged epoch initially
    rw [reset] at kept
    rwa [same]
  · have kept := preserved.resetIfChanged epoch initially
    rw [reset] at kept
    rw [same]
    exact preserved.backfillLoop client epoch _ now untilShutdown 1 0 kept

theorem Preserved.runIncremental (preserved : Preserved sink conn property) (client : Client)
    (now : Int) (lastSeenUid : Nat) {state : State} (initially : property state) :
    property (Imap.runIncremental sink client conn now lastSeenUid state).2 := by
  rcases runIncremental_cases sink client conn now lastSeenUid state with
    ⟨err, same⟩ | ⟨mailbox, epoch, _, _, ⟨batch, err, next, failed, same⟩ |
      ⟨batch, largest, middle, result, last, passed, same⟩⟩
  · rwa [same]
  · have submitted := submitBatch_preserves preserved.submit batch lastSeenUid initially
    rw [failed] at submitted
    rwa [same]
  · rw [same]
    exact preserved.batched passed rfl initially

theorem Preserved.beginRound (preserved : Preserved sink conn property) (round : IdleRound)
    {state : IdleState State} (initially : property state.sink) :
    property (Imap.beginRound sink conn round state).sink := by
  unfold Imap.beginRound scanIfDue
  split
  next due =>
    exact scan_preserves sink round.scanClient conn _
      (fun uid state holds => preserved.tombstone (scanId conn uid) state holds)
      (preserved.listed _ _ initially)
  next => exact initially

theorem Preserved.idleStep (preserved : Preserved sink conn property) (round : IdleRound)
    {state : IdleState State} (initially : property state.sink) :
    property (Imap.idleStep sink conn state round).sink := by
  cases running : state.ended with
  | some result => rwa [idleStep_ended running]
  | none =>
      have scanned := preserved.beginRound round initially
      rcases @idleStep_cases _ sink conn state running round with
        ⟨result, stopped⟩ | recycled | ⟨passed, _⟩
      · rwa [stopped]
      · rw [recycled]
        exact preserved.update _ _ rfl scanned
      · have ran := preserved.runIncremental round.client round.now
          (Imap.beginRound sink conn round state).lastSeenUid scanned
        rw [passed, afterEvent]
        split
        next err next failed => rwa [failed] at ran
        next newUid next done =>
          rw [done] at ran
          exact preserved.read next ran

theorem Preserved.runIdleLoop (preserved : Preserved sink conn property)
    (examined lastSeenUid : Nat) (rounds : List IdleRound) {state : State}
    (initially : property state) :
    property (Imap.runIdleLoop sink conn examined lastSeenUid rounds state).sink := by
  have entered : property (enterIdle sink conn examined lastSeenUid state).sink :=
    preserved.read state initially
  exact @run_preserves _ _ _ (fun current : IdleState State => property current.sink)
    (fun _ round holds => preserved.idleStep round holds) _ entered rounds

end Preserved

section Epochs

variable {sink conn}

/-- A scan listed its local UIDs for the epoch examined last. -/
def ScanRecord.Exact (sink : MessageSink State) (conn : Connection) (record : ScanRecord State) :
    Prop :=
  record.uidvalidity = record.examined ∧
    record.localUids = (sink.listLocalUids conn.accountId conn.folder record.examined
      record.before).1.toOption.getD []

/-- While the loop runs the cached epoch is unset or the one examined last, and every scan was
exact. -/
structure EpochFresh (sink : MessageSink State) (conn : Connection) (state : IdleState State) :
    Prop where
  cached : state.ended = none →
    state.tombstoneUidvalidity = 0 ∨ state.tombstoneUidvalidity = state.examined
  scans : ∀ record ∈ state.scans, record.Exact sink conn

/-- After a pass the stored epoch can be read, unless the cache needs no refresh: it is unset,
or the pass has examined the same epoch again. -/
def RefreshSafe (sink : MessageSink State) (conn : Connection) (state : IdleState State)
    (round : IdleRound) : Prop :=
  round.outcome = .ok .event →
    (∃ stored, (sink.storedUidvalidity conn.accountId conn.folder
      (runIncremental sink round.client conn round.now state.lastSeenUid
        (beginRound sink conn round state).sink).2).1 = .ok stored) ∨
    state.tombstoneUidvalidity = 0 ∨ round.client.examinedEpoch = some state.examined

/-- Without a pass there is nothing to refresh. -/
theorem refreshSafe_of_quiet {rounds : List IdleRound}
    (quiet : ∀ round ∈ rounds, round.outcome ≠ .ok .event) (state : IdleState State) :
    Guarded (idleStep sink conn) (RefreshSafe sink conn) state rounds :=
  (guarded_of_forall quiet state).imp fun _ _ isQuiet isEvent => absurd isEvent isQuiet

theorem Client.examinedEpoch_of_reported {client : Client} {mailbox : MailboxMeta} {epoch : Nat}
    (examined : client.examineMeta = .ok mailbox) (reported : mailbox.uidValidity = some epoch) :
    client.examinedEpoch = some epoch := by
  rw [examinedEpoch, examined]
  exact reported

/-- The update behind a batch, if it is written, stores the epoch of the pass. -/
theorem Batched.pair_fst (view : WatermarkStore sink conn) {client : Client} {range : UidRange}
    {epoch maxUidSeen largest : Nat} {lastSeenUid : Nat → Option Nat} {now : Int}
    {state middle last : State} {batch : List FetchedMessage}
    (passed : Batched sink client range conn epoch
      (fun largest => passUpdate epoch (lastSeenUid largest) now) maxUidSeen state batch largest
      middle (.ok ()) last) : (view.pair last).1 = some epoch := by
  have written := view.update_ok _ middle (congrArg Prod.fst passed.updated)
  rw [passed.updated] at written
  rw [written]
  rfl

/-- A pass that goes through stores the epoch it has examined. -/
theorem runIncremental_pair (view : WatermarkStore sink conn) {client : Client} {now : Int}
    {lastSeenUid newUid : Nat} {state next : State}
    (ran : runIncremental sink client conn now lastSeenUid state = (.ok newUid, next)) :
    ∃ epoch, client.examinedEpoch = some epoch ∧ (view.pair next).1 = some epoch := by
  rcases runIncremental_cases sink client conn now lastSeenUid state with
    ⟨err, same⟩ | ⟨mailbox, epoch, examined, reported, ⟨batch, err, next, failed, same⟩ |
      ⟨batch, largest, middle, result, last, passed, same⟩⟩
  · rw [same] at ran
    cases ran
  · rw [same] at ran
    cases ran
  · rw [same] at ran
    refine ⟨epoch, client.examinedEpoch_of_reported examined reported, ?_⟩
    cases result with
    | error err => cases ran
    | ok written =>
        cases ran
        exact passed.pair_fst view

theorem EpochFresh.beginRound {state : IdleState State} (fresh : EpochFresh sink conn state)
    (running : state.ended = none) (round : IdleRound) :
    EpochFresh sink conn (Imap.beginRound sink conn round state) := by
  obtain ⟨cached, examined, _, _, scans⟩ := @beginRound_cases _ sink conn state round
  constructor
  · rw [cached, examined]
    exact fun _ => fresh.cached running
  · rcases scans with same | ⟨positive, added⟩
    · rw [same]
      exact fresh.scans
    · rw [added]
      intro record member
      rcases List.mem_append.mp member with earlier | here
      · exact fresh.scans record earlier
      · rw [List.mem_singleton.mp here]
        have current : state.tombstoneUidvalidity = state.examined :=
          (fresh.cached running).resolve_left (Nat.ne_of_gt positive)
        exact ⟨current, by rw [current]⟩

/-- The pass reads back the epoch it has stored, or the old one is still right. -/
theorem EpochFresh.afterEvent (view : WatermarkStore sink conn) {client : Client} {now : Int}
    {state : IdleState State} (fresh : EpochFresh sink conn state) (running : state.ended = none)
    (safe : (∃ stored, (sink.storedUidvalidity conn.accountId conn.folder
        (runIncremental sink client conn now state.lastSeenUid state.sink).2).1 = .ok stored) ∨
      state.tombstoneUidvalidity = 0 ∨ client.examinedEpoch = some state.examined) :
    EpochFresh sink conn (Imap.afterEvent sink conn client now state) := by
  unfold Imap.afterEvent
  cases ran : runIncremental sink client conn now state.lastSeenUid state.sink with
  | mk result next =>
      cases result with
      | error err => exact ⟨nofun, fresh.scans⟩
      | ok newUid =>
          obtain ⟨epoch, isEpoch, paired⟩ := runIncremental_pair view ran
          refine ⟨fun _ => ?_, fresh.scans⟩
          rw [ran] at safe
          dsimp only at safe ⊢
          rw [isEpoch, Option.getD_some]
          cases read : (sink.storedUidvalidity conn.accountId conn.folder next).1 with
          | ok stored =>
              rw [view.read_result next stored read, paired]
              exact .inr rfl
          | error err =>
              change state.tombstoneUidvalidity = 0 ∨ state.tombstoneUidvalidity = epoch
              rw [read, isEpoch] at safe
              rcases safe with ⟨stored, impossible⟩ | unset | same
              · cases impossible
              · exact .inl unset
              · rw [Option.some.inj same]
                exact fresh.cached running

theorem EpochFresh.idleStep (view : WatermarkStore sink conn) {state : IdleState State}
    {round : IdleRound} (fresh : EpochFresh sink conn state)
    (safe : RefreshSafe sink conn state round) :
    EpochFresh sink conn (Imap.idleStep sink conn state round) := by
  cases running : state.ended with
  | some result => rwa [idleStep_ended running]
  | none =>
      have scanned := fresh.beginRound running round
      obtain ⟨cached, examined, lastSeenUid, ended, _⟩ := @beginRound_cases _ sink conn state round
      rcases @idleStep_cases _ sink conn state running round with
        ⟨result, stopped⟩ | recycled | ⟨passed, isEvent⟩
      · rw [stopped]
        exact ⟨nofun, scanned.scans⟩
      · rw [recycled]
        exact ⟨scanned.cached, scanned.scans⟩
      · rw [passed]
        apply scanned.afterEvent view (ended.trans running)
        rw [cached, examined, lastSeenUid]
        exact safe isEvent

/-- Along rounds that refresh the cache safely every scan is exact. -/
theorem EpochFresh.run (view : WatermarkStore sink conn) {state : IdleState State}
    (fresh : EpochFresh sink conn state) {rounds : List IdleRound}
    (safe : Guarded (Imap.idleStep sink conn) (RefreshSafe sink conn) state rounds) :
    EpochFresh sink conn (Foundation.run (Imap.idleStep sink conn) state rounds) :=
  (always_of_guarded (fun _ _ holds isSafe => holds.idleStep view isSafe) fresh safe).last

/-- What a backfill needs for the loop's first read of the stored epoch to be right: its own
read of it works, or the stored epoch is unset or the server's, or it gets to fetch a batch; or
the loop's read fails. -/
def StartSafe (view : WatermarkStore sink conn) (client : Client) (now : Int)
    (untilShutdown : Nat) (state : State) : Prop :=
  (∃ stored, (sink.storedUidvalidity conn.accountId conn.folder state).1 = .ok stored) ∨
    (view.pair state).1.getD 0 = 0 ∨ (view.pair state).1 = client.examinedEpoch ∨
    (0 < untilShutdown ∧
      ∀ mailbox, client.examineMeta = .ok mailbox → mailbox.uidNext.map (· - 1) ≠ some 0) ∨
    (sink.storedUidvalidity conn.accountId conn.folder
      (runInitialBackfill sink client conn now untilShutdown state).2).1.toOption = none

/-- The loop of a backfill stores the server's epoch, unless it ends before its first batch. -/
theorem backfillLoop_pair (view : WatermarkStore sink conn) {client : Client} {epoch : Nat}
    {target : Option Nat} {now : Int} {untilShutdown lo maxUidSeen : Nat} {state next : State}
    (ran : backfillLoop sink client conn epoch target now untilShutdown lo maxUidSeen state =
      (.ok (), next)) :
    (view.pair next).1 = some epoch ∨ (next = state ∧
      (untilShutdown = 0 ∨ (target.any fun t => t == 0 || decide (t < lo)) = true)) := by
  induction untilShutdown generalizing lo maxUidSeen state with
  | zero =>
      cases ran
      exact .inr ⟨rfl, .inl rfl⟩
  | succ untilShutdown inductionHypothesis =>
      rcases backfillLoop_cases sink client conn epoch target now untilShutdown lo maxUidSeen
        state with ⟨finished, same⟩ | ⟨err, same⟩ | ⟨batch, err, next, failed, same⟩ |
          ⟨batch, largest, middle, result, last, passed, same | ⟨rfl, same⟩⟩
      · rw [same] at ran
        cases ran
        exact .inr ⟨rfl, .inr finished⟩
      · rw [same] at ran
        cases ran
      · rw [same] at ran
        cases ran
      · rw [same] at ran
        cases ran
        exact .inl (passed.pair_fst view)
      · rw [same] at ran
        apply Or.inl
        rcases inductionHypothesis ran with stored | ⟨unchanged, _⟩
        · exact stored
        · rw [unchanged]
          exact passed.pair_fst view

theorem resetIfChanged_pair (view : WatermarkStore sink conn) {epoch : Nat} {state next : State}
    (ran : resetIfChanged sink conn epoch state = (.ok (), next)) :
    (view.pair next).1 = some epoch ∨
      ((view.pair next).1 = (view.pair state).1 ∧
        ((view.pair state).1 = none ∨
          (sink.storedUidvalidity conn.accountId conn.folder state).1.toOption = none)) := by
  obtain ⟨read, middle, answer, cases⟩ := resetIfChanged_cases sink conn epoch state
  have readPair := view.read_pair state
  have readResult := view.read_result state
  rw [answer] at readPair readResult ⊢
  rcases cases with ⟨stored, _, _, same⟩ | ⟨current, same⟩
  · rw [same, handleChange] at ran
    have written := view.update_ok _ middle (congrArg Prod.fst ran)
    rw [ran] at written
    rw [written]
    exact .inl rfl
  · rw [same] at ran
    cases ran
    cases read with
    | error err => exact .inr ⟨congrArg Prod.fst readPair, .inr rfl⟩
    | ok stored =>
        have known := readResult stored rfl
        cases stored with
        | none => exact .inr ⟨congrArg Prod.fst readPair, .inl known.symm⟩
        | some stored =>
            rw [readPair, ← known, current stored rfl]
            exact .inl rfl

/-- What the loop reads after a backfill that started safely is unset or the epoch examined. -/
theorem stored_after_backfill (view : WatermarkStore sink conn) {client : Client} {now : Int}
    {untilShutdown : Nat} {state next : State}
    (safe : StartSafe view client now untilShutdown state)
    (ran : runInitialBackfill sink client conn now untilShutdown state = (.ok (), next)) :
    ∃ epoch, client.examinedEpoch = some epoch ∧
      ((view.pair next).1.getD 0 = 0 ∨ (view.pair next).1 = some epoch ∨
        (sink.storedUidvalidity conn.accountId conn.folder next).1.toOption = none) := by
  unfold StartSafe at safe
  rw [ran] at safe
  rcases runInitialBackfill_cases sink client conn now untilShutdown state with
    ⟨err, same⟩ | ⟨mailbox, epoch, examined, isEpoch, ⟨err, middle, reset, same⟩ |
      ⟨middle, reset, same⟩⟩
  · rw [same] at ran
    cases ran
  · rw [same] at ran
    cases ran
  · have reported := client.examinedEpoch_of_reported examined isEpoch
    refine ⟨epoch, reported, ?_⟩
    rw [reported] at safe
    rw [same] at ran
    rcases backfillLoop_pair view ran with current | ⟨rfl, noBatch⟩
    · exact .inr (.inl current)
    · rcases resetIfChanged_pair view reset with current | ⟨kept, unread⟩
      · exact .inr (.inl current)
      · -- Nothing was written: what is stored is what was stored before.
        rcases unread with unset | failed
        · rw [kept, unset]
          exact .inl rfl
        · rw [kept]
          rcases safe with ⟨stored, readable⟩ | unset | current | ⟨batch, target⟩ | loopFails
          · rw [readable] at failed
            cases failed
          · exact .inl unset
          · exact .inr (.inl current)
          · exfalso
            rcases noBatch with stopped | finished
            · exact absurd batch (stopped ▸ Nat.lt_irrefl 0)
            · apply target mailbox examined
              cases isNext : mailbox.uidNext with
              | none => simp [isNext] at finished
              | some uidNext =>
                  simp only [isNext, Option.map_some, Option.any_some, Bool.or_eq_true,
                    beq_iff_eq, decide_eq_true_eq] at finished
                  rw [Option.map_some, Option.some.injEq]
                  omega
          · exact .inr (.inr loopFails)

/-- The loop is entered with a fresh cache. -/
theorem epochFresh_enterIdle (view : WatermarkStore sink conn) {client : Client} {now : Int}
    {untilShutdown : Nat} {state next : State}
    (safe : StartSafe view client now untilShutdown state)
    (ran : runInitialBackfill sink client conn now untilShutdown state = (.ok (), next))
    (lastSeenUid : Nat) :
    EpochFresh sink conn
      (enterIdle sink conn (client.examinedEpoch.getD 0) lastSeenUid next) := by
  obtain ⟨epoch, isEpoch, stored⟩ := stored_after_backfill view safe ran
  refine ⟨fun _ => ?_, nofun⟩
  rw [isEpoch]
  simp only [enterIdle, Option.getD_some]
  cases read : (sink.storedUidvalidity conn.accountId conn.folder next).1 with
  | error err => exact .inl rfl
  | ok value =>
      rw [view.read_result next value read]
      rcases stored with unset | current | failed
      · exact .inl unset
      · rw [current]
        exact .inr rfl
      · rw [read] at failed
        cases failed

end Epochs

end Scryd.Imap
