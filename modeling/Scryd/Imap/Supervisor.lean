import Scryd.Imap.Fetch
import Scryd.Imap.Tombstone
import Scryd.Foundation.Run

/-!
# One folder, its server and its supervisor

The environment decides what happens to the mailbox and when the supervisor
gets to run a pass; the supervisor's cycle is a backfill followed by passes of
the IDLE or poll loop with a watermark that lives in memory only.
-/

namespace Scryd.Imap

open Scryd.Storage

structure Mail where
  uid : Nat
  internalDate : Option Int
  flags : List String
  body : List UInt8
  deriving DecidableEq

/-- The `FETCH` response for a mail. -/
def Mail.row (mail : Mail) : FetchRow :=
  ⟨some mail.uid, mail.internalDate, mail.flags, some mail.body⟩

/-- A mailbox in one UIDVALIDITY epoch.  Assigned UIDs are positive and below UIDNEXT. -/
structure Mailbox where
  epoch : Nat
  uidNext : Nat
  mails : List Mail
  positive : 0 < uidNext
  assigned : ∀ mail ∈ mails, 0 < mail.uid ∧ mail.uid < uidNext

/-- A new mail gets UIDNEXT or a later UID. -/
def Mailbox.arrive (box : Mailbox) (gap : Nat) (internalDate : Option Int)
    (flags : List String) (body : List UInt8) : Mailbox where
  epoch := box.epoch
  uidNext := box.uidNext + gap + 1
  mails := box.mails ++ [⟨box.uidNext + gap, internalDate, flags, body⟩]
  positive := by omega
  assigned := by
    have positive := box.positive
    intro mail membership
    rcases List.mem_append.mp membership with old | new
    · have := box.assigned mail old
      omega
    · rw [List.mem_singleton.mp new]
      dsimp only
      omega

def Mailbox.expunge (box : Mailbox) (gone : Nat → Bool) : Mailbox where
  epoch := box.epoch
  uidNext := box.uidNext
  mails := box.mails.filter fun mail => !gone mail.uid
  positive := box.positive
  assigned := fun mail membership => box.assigned mail (List.mem_filter.mp membership).1

/-- A new epoch with any content.  UIDVALIDITY only ever grows. -/
def Mailbox.recreate (box : Mailbox) (bump : Nat) (content : Mailbox) : Mailbox :=
  { content with epoch := box.epoch + bump + 1 }

/-- A client whose answers, where it answers, are those of the mailbox. -/
structure Honest (box : Mailbox) (client : Client) : Prop where
  examine : ∀ mailbox, client.examineMeta = .ok mailbox →
    (∀ v, mailbox.uidValidity = some v → v = box.epoch) ∧
      ∀ n, mailbox.uidNext = some n → n = box.uidNext
  between : ∀ lo hi rows, client.uidFetch (.between lo hi) = .ok rows →
    ∀ row, row ∈ rows ↔ ∃ mail ∈ box.mails, (lo ≤ mail.uid ∧ mail.uid ≤ hi) ∧ row = mail.row
  onward : ∀ start rows, client.uidFetch (.onward start) = .ok rows →
    ∀ row, row ∈ rows ↔ ∃ mail ∈ box.mails,
      (start ≤ mail.uid ∨ ∀ other ∈ box.mails, other.uid ≤ mail.uid) ∧ row = mail.row
  search : ∀ uids, client.uidSearchAll = .ok uids →
    ∀ uid, uid ∈ uids ↔ ∃ mail ∈ box.mails, mail.uid = uid

/-- The client of a server that answers every command. -/
def Mailbox.client (box : Mailbox) : Client where
  examineMeta := .ok ⟨some box.epoch, some box.uidNext⟩
  uidFetch
    | .between lo hi => .ok ((box.mails.filter fun mail =>
        decide (lo ≤ mail.uid ∧ mail.uid ≤ hi)).map Mail.row)
    | .onward start => .ok ((box.mails.filter fun mail =>
        decide (start ≤ mail.uid ∨ ∀ other ∈ box.mails, other.uid ≤ mail.uid)).map Mail.row)
  uidSearchAll := .ok (box.mails.map (·.uid))

theorem Mailbox.client_honest (box : Mailbox) : Honest box box.client where
  examine := by
    rintro mailbox examined
    cases examined
    exact ⟨fun v same => (Option.some.inj same).symm, fun n same => (Option.some.inj same).symm⟩
  between := by
    rintro lo hi rows answered row
    cases answered
    simp only [List.mem_map, List.mem_filter, decide_eq_true_eq, and_assoc, eq_comm (a := row)]
  onward := by
    rintro start rows answered row
    cases answered
    simp only [List.mem_map, List.mem_filter, decide_eq_true_eq, and_assoc, eq_comm (a := row)]
  search := by
    rintro uids answered uid
    cases answered
    simp [List.mem_map]

/-- Where the supervisor is.  `idling` carries the loop's own watermark. -/
inductive Phase where
  | disconnected
  | idling (lastSeenUid : Nat)
  | stopped
  deriving DecidableEq

/-- The server, the sink, and the supervisor with the watermark it carries from cycle to
cycle.  `lastPass` remembers the mailbox of the last pass. -/
structure FolderState (State : Type) where
  server : Mailbox
  sink : State
  carried : Nat
  phase : Phase
  lastPass : Option Mailbox

inductive FolderEvent where
  | arrival (gap : Nat) (internalDate : Option Int) (flags : List String) (body : List UInt8)
  | expunge (gone : Nat → Bool)
  | recreate (bump : Nat) (content : Mailbox)
  | cycle (client : Client) (now : Int) (untilShutdown : Nat)
  | incremental (client : Client) (now : Int)
  | tombstoneScan (client : Client) (uidvalidity : Nat)
  | recycle (now : Int)
  | health (text : String)
  | dropped
  | shutdown
  | restart

variable {State : Type}

def FolderState.passed (state : FolderState State) (sink : State) (phase : Phase) :
    FolderState State :=
  { state with sink := sink, phase := phase, lastPass := some state.server }

def folderStep (sink : MessageSink State) (conn : Connection) (state : FolderState State) :
    FolderEvent → FolderState State
  | .arrival gap internalDate flags body =>
      { state with server := state.server.arrive gap internalDate flags body }
  | .expunge gone => { state with server := state.server.expunge gone }
  | .recreate bump content => { state with server := state.server.recreate bump content }
  | .cycle client now untilShutdown =>
      match state.phase with
      | .disconnected =>
          match runInitialBackfill sink client conn now untilShutdown state.sink with
          | (.error _, next) => state.passed next .disconnected
          -- The loop starts with the supervisor's own watermark, not with the stored one.
          | (.ok (), next) => state.passed next (.idling state.carried)
      | _ => state
  | .incremental client now =>
      match state.phase with
      | .idling lastSeenUid =>
          match runIncremental sink client conn now lastSeenUid state.sink with
          | (.error _, next) => state.passed next .disconnected
          | (.ok newUid, next) => state.passed next (.idling (max lastSeenUid newUid))
      | _ => state
  | .tombstoneScan client uidvalidity =>
      match state.phase with
      | .idling _ =>
          let (listed, next) :=
            sink.listLocalUids conn.accountId conn.folder uidvalidity state.sink
          { state with sink := (scan sink client conn (listed.toOption.getD []) next).2 }
      | _ => state
  | .recycle now =>
      match state.phase with
      | .idling _ =>
          { state with sink := (sink.updateSyncState conn.accountId conn.folder
              { lastFullSyncAt := some now } state.sink).2 }
      | _ => state
  | .health text =>
      { state with sink := (sink.updateSyncState conn.accountId conn.folder
          { accountHealth := some text } state.sink).2 }
  | .dropped =>
      match state.phase with
      | .idling _ => { state with phase := .disconnected }
      | _ => state
  | .shutdown =>
      match state.phase with
      | .idling lastSeenUid => { state with carried := lastSeenUid, phase := .stopped }
      | _ => { state with phase := .stopped }
  | .restart => { state with carried := 0, phase := .disconnected }

/-- What the watermark argument needs of a sink: the pair it stores for the folder, which only
`update_sync_state` writes.  A torn update has assigned the epoch but not the watermark. -/
structure WatermarkStore (sink : MessageSink State) (conn : Connection) where
  pair : State → Option Nat × Nat
  torn : State → Prop
  submit_pair : ∀ fetched state, pair (sink.submit fetched state).2 = pair state
  tombstone_pair : ∀ id state, pair (sink.tombstone id state).2 = pair state
  listed_pair : ∀ uidvalidity state,
    pair (sink.listLocalUids conn.accountId conn.folder uidvalidity state).2 = pair state
  read_pair : ∀ state,
    pair (sink.storedUidvalidity conn.accountId conn.folder state).2 = pair state
  read_result : ∀ state stored,
    (sink.storedUidvalidity conn.accountId conn.folder state).1 = .ok stored →
      stored = (pair state).1
  update_ok : ∀ update state,
    (sink.updateSyncState conn.accountId conn.folder update state).1 = .ok () →
      pair (sink.updateSyncState conn.accountId conn.folder update state).2 =
        (update.uidvalidity.or (pair state).1, update.lastSeenUid.getD (pair state).2)
  update_pair : ∀ update state next,
    next = pair (sink.updateSyncState conn.accountId conn.folder update state).2 →
      next = pair state ∨
      next = (update.uidvalidity.or (pair state).1, update.lastSeenUid.getD (pair state).2) ∨
      (torn state ∧ update.uidvalidity.isSome ∧ update.lastSeenUid.isSome ∧
        next = (update.uidvalidity, (pair state).2))

/-- A sink's state with the messages it accepted and the pairs it has stored, in order. -/
structure Recorded (State : Type) where
  inner : State
  accepted : List FetchedMessage
  stored : List (Option Nat × Nat)

/-- The sink, keeping the record. -/
def recorded {sink : MessageSink State} {conn : Connection} (view : WatermarkStore sink conn) :
    MessageSink (Recorded State) where
  submit fetched state :=
    match sink.submit fetched state.inner with
    | (.error err, next) => (.error err, { state with inner := next })
    | (.ok (), next) =>
        (.ok (), { state with inner := next, accepted := state.accepted ++ [fetched] })
  tombstone id state :=
    let (result, next) := sink.tombstone id state.inner
    (result, { state with inner := next })
  updateSyncState accountId folder update state :=
    let (result, next) := sink.updateSyncState accountId folder update state.inner
    (result, { state with inner := next, stored := state.stored ++ [view.pair next] })
  listLocalUids accountId folder uidvalidity state :=
    let (result, next) := sink.listLocalUids accountId folder uidvalidity state.inner
    (result, { state with inner := next })
  storedUidvalidity accountId folder state :=
    let (result, next) := sink.storedUidvalidity accountId folder state.inner
    (result, { state with inner := next })

end Scryd.Imap
