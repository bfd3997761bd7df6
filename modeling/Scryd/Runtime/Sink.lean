import Scryd.Imap.Sink
import Scryd.Mime.Message
import Scryd.Storage.Messages
import Scryd.Storage.SyncState
import Scryd.Storage.Queue
import Scryd.Storage.Raw

/-!
# `StorageMessageSink`

`submit` parses, writes the raw file, upserts the row and enqueues the message,
in this order.  Each of the three writes can fail for a reason of its own; the
environment's choice is an argument.
-/

namespace Scryd.Runtime

open Scryd.Storage Scryd.Mime Scryd.Imap

/-- Code outside the repository, and the configured data directory. -/
structure Platform where
  parse : List UInt8 → ParseContext → ParseOutcome
  hexSha256 : String → String
  chrono : Chrono
  dataDir : String

/-- What the environment decides for one call: the clock, what `resolve_thread_id` meets and
which statement fails. -/
structure CallEnv where
  now : Int := 0
  threads : ThreadEnv := {}
  rawFault : Option String := none
  insertFault : Option String := none
  enqueueFault : Option String := none
  /-- The error of a call that is a single statement. -/
  callFault : Option String := none
  /-- How many statements of `update_sync_state` commit before one fails. -/
  syncCut : Option Nat := none

def CallEnv.faultFree (env : CallEnv) : Prop :=
  env.rawFault = none ∧ env.insertFault = none ∧ env.enqueueFault = none

/-- Database, data directory and the drainer's wake-up permit. -/
structure World where
  store : Store
  files : Files
  drainerNotified : Bool

def World.fresh (accounts : Foundation.Table AccountRow SameAccount) : World :=
  ⟨.fresh accounts, .none, false⟩

def mapStorageErr (err : StorageError) : ClientError := .server err.text

variable (platform : Platform)

/-- The outcome of `scryd_mime::parse` in the context `submit` builds. -/
def outcome (fetched : FetchedMessage) : ParseOutcome :=
  platform.parse fetched.rawBytes
    ⟨fetched.accountId, fetched.folder, fetched.serverUid, fetched.internalDate⟩

/-- The normalized Message-ID header, or a hash of the IMAP identity without one. -/
def canonicalId (fetched : FetchedMessage) (parsed : ParsedMessage) : String :=
  parsed.headerMessageId.getD ("synth-" ++ platform.hexSha256
    (fetched.folder ++ "|" ++ toString fetched.uidvalidity ++ "|" ++ toString fetched.serverUid))

/-- The scryd-internal message id. -/
def messageId (fetched : FetchedMessage) (parsed : ParsedMessage) : String :=
  fetched.accountId.text ++ ":" ++ canonicalId platform fetched parsed

/-- Where `submit` puts the raw bytes. -/
def submitPath (fetched : FetchedMessage) (parsed : ParsedMessage) : String :=
  rawPath platform.chrono platform.hexSha256 platform.dataDir fetched.accountId
    (messageId platform fetched parsed) parsed.dateUnix

def toInsert (fetched : FetchedMessage) (parsed : ParsedMessage) : MessageInsert where
  messageId := messageId platform fetched parsed
  accountId := fetched.accountId
  folder := fetched.folder
  serverUid := fetched.serverUid
  uidvalidity := fetched.uidvalidity
  headerMessageId := parsed.headerMessageId
  inReplyTo := parsed.inReplyTo
  references := parsed.references
  senderAddr := parsed.fromAddr.addr
  senderName := parsed.fromAddr.name
  recipientsTo := parsed.toAddrs
  recipientsCc := parsed.ccAddrs
  subject := parsed.subject
  dateUnix := parsed.dateUnix
  rawPath := submitPath platform fetched parsed
  bodyMd := parsed.bodyMd
  sizeBytes := fetched.rawBytes.length

@[simp] theorem toInsert_key (fetched : FetchedMessage) (parsed : ParsedMessage) :
    (toInsert platform fetched parsed).key = fetched.key := rfl

/-- A statement that fails with the environment's error, if there is one. -/
def attempt {Result : Type} (fault : Option String) (result : Except StorageError Result) :
    Except StorageError Result :=
  match fault with
  | some message => .error (.sqlite message)
  | none => result

/-- `submit` after a successful parse. -/
def submitParsed (env : CallEnv) (fetched : FetchedMessage) (parsed : ParsedMessage)
    (world : World) : Except ClientError Unit × World :=
  match writeRaw env.rawFault (submitPath platform fetched parsed) fetched.rawBytes
      world.files with
  | .error err => (.error (mapStorageErr err), world)
  | .ok files =>
      match attempt env.insertFault
          (insertMessage env.threads (toInsert platform fetched parsed) world.store) with
      | .error err => (.error (mapStorageErr err), { world with files := files })
      | .ok store =>
          match attempt env.enqueueFault
              (.ok (enqueue env.now (messageId platform fetched parsed) store)) with
          | .error err =>
              (.error (mapStorageErr err), { world with files := files, store := store })
          | .ok queued => (.ok (), ⟨queued, files, true⟩)

/-- `StorageMessageSink::submit`.  An unparseable message is logged and skipped. -/
def submit (env : CallEnv) (fetched : FetchedMessage) (world : World) :
    Except ClientError Unit × World :=
  match (outcome platform fetched).message? with
  | none => (.ok (), world)
  | some parsed => submitParsed platform env fetched parsed world

/-- The files once the raw bytes of a message are written. -/
def written (fetched : FetchedMessage) (parsed : ParsedMessage) (world : World) : Files :=
  world.files.write (submitPath platform fetched parsed) fetched.rawBytes

/-- The steps `submit` can take for a parsed message: the raw write fails and nothing
changes; the row is refused after the file was written; the row is in but the queue
write fails; everything succeeds. -/
theorem submitParsed_cases (env : CallEnv) (fetched : FetchedMessage) (parsed : ParsedMessage)
    (world : World) :
    (env.rawFault.isSome ∧ ∃ err,
      submitParsed platform env fetched parsed world = (.error err, world)) ∨
    (env.rawFault = none ∧
      ((∃ err reason,
          attempt env.insertFault (insertMessage env.threads
            (toInsert platform fetched parsed) world.store) = .error reason ∧
          submitParsed platform env fetched parsed world =
            (.error err, { world with files := written platform fetched parsed world })) ∨
        ∃ store, env.insertFault = none ∧
          insertMessage env.threads (toInsert platform fetched parsed) world.store = .ok store ∧
          ((env.enqueueFault.isSome ∧ ∃ err,
            submitParsed platform env fetched parsed world =
              (.error err, ⟨store, written platform fetched parsed world,
                world.drainerNotified⟩)) ∨
            (env.enqueueFault = none ∧
              submitParsed platform env fetched parsed world =
                (.ok (), ⟨enqueue env.now (messageId platform fetched parsed) store,
                  written platform fetched parsed world, true⟩))))) := by
  cases raw : env.rawFault with
  | some message =>
      exact .inl ⟨rfl, mapStorageErr (.io message), by simp only [submitParsed, raw, writeRaw]⟩
  | none =>
      apply Or.inr
      refine ⟨rfl, ?_⟩
      cases inserted : attempt env.insertFault
          (insertMessage env.threads (toInsert platform fetched parsed) world.store) with
      | error reason =>
          exact .inl ⟨mapStorageErr reason, reason, rfl, by
            simp only [submitParsed, written, raw, writeRaw, inserted]⟩
      | ok store =>
          have stored : env.insertFault = none ∧ insertMessage env.threads
              (toInsert platform fetched parsed) world.store = .ok store := by
            cases fault : env.insertFault with
            | some message => simp [attempt, fault] at inserted
            | none => exact ⟨rfl, by simpa [attempt, fault] using inserted⟩
          apply Or.inr
          refine ⟨store, stored.1, stored.2, ?_⟩
          cases queue : env.enqueueFault with
          | some message =>
              apply Or.inl
              refine ⟨rfl, mapStorageErr (.sqlite message), ?_⟩
              simp only [submitParsed, written, raw, writeRaw, inserted, queue]
              rfl
          | none =>
              apply Or.inr
              refine ⟨rfl, ?_⟩
              simp only [submitParsed, written, raw, writeRaw, inserted, queue]
              rfl

/-- Whatever `submit` does, the accounts and the sync state stay as they are. -/
theorem submit_frame (env : CallEnv) (fetched : FetchedMessage) (world : World) :
    (submit platform env fetched world).2.store.accounts = world.store.accounts ∧
      (submit platform env fetched world).2.store.syncState = world.store.syncState := by
  unfold submit
  cases (outcome platform fetched).message? with
  | none => exact ⟨rfl, rfl⟩
  | some parsed =>
      rcases submitParsed_cases platform env fetched parsed world with
        ⟨_, _, result⟩ | ⟨_, ⟨_, _, _, result⟩ | ⟨store, _, inserted, rest⟩⟩
      · simp only [result, and_self]
      · simp only [result, and_self]
      · have frame := insertMessage_frame inserted
        rcases rest with ⟨_, _, result⟩ | ⟨_, result⟩
        · simp only [result]
          exact ⟨frame.1, frame.2.1⟩
        · have queueFrame := enqueue_frame env.now (messageId platform fetched parsed) store
          simp only [result, queueFrame]
          exact ⟨frame.1, frame.2.1⟩

/-- `submit` leaves the rows as they are, or they are those of an insertion that succeeded. -/
theorem submit_messages (env : CallEnv) (fetched : FetchedMessage) (world : World) :
    (submit platform env fetched world).2.store.messages = world.store.messages ∨
      ∃ parsed store, (outcome platform fetched).message? = some parsed ∧
        insertMessage env.threads (toInsert platform fetched parsed) world.store = .ok store ∧
        (submit platform env fetched world).2.store.messages = store.messages := by
  unfold submit
  cases (outcome platform fetched).message? with
  | none => exact .inl rfl
  | some parsed =>
      rcases submitParsed_cases platform env fetched parsed world with
        ⟨_, _, result⟩ | ⟨_, ⟨_, _, _, result⟩ | ⟨store, _, inserted, rest⟩⟩
      · simp only [result, true_or]
      · simp only [result, true_or]
      · apply Or.inr
        refine ⟨parsed, store, rfl, inserted, ?_⟩
        rcases rest with ⟨_, _, result⟩ | ⟨_, result⟩
        · simp only [result]
        · simp only [result, enqueue_frame]

/-- The sink's own state: the world, and the environment's choices for the calls to come.
When they run out nothing fails any more. -/
structure SinkState where
  world : World
  upcoming : List CallEnv

def SinkState.env (state : SinkState) : CallEnv := state.upcoming.headD {}

theorem SinkState.env_of_forall {property : CallEnv → Prop} {state : SinkState}
    (all : ∀ env ∈ state.upcoming, property env) (calm : property {}) : property state.env := by
  obtain ⟨world, upcoming⟩ := state
  cases upcoming with
  | nil => exact calm
  | cons env rest => exact all env List.mem_cons_self

/-- The state after a call: a new world, and the next environment. -/
def SinkState.advance (state : SinkState) (world : World) : SinkState :=
  ⟨world, state.upcoming.tail⟩

/-- How the sink passes a partial update on.  A health outside the closed set is dropped. -/
def mapUpdate (update : Imap.SyncStateUpdate) : Storage.SyncStateUpdate where
  uidvalidity := update.uidvalidity
  lastSeenUid := update.lastSeenUid
  lastFullSyncAt := update.lastFullSyncAt
  lastIdleAt := update.lastIdleAt
  lastError := update.lastError
  accountHealth := update.accountHealth.bind fun text => (AccountHealth.fromStr text).toOption
  backoffUntil := update.backoffUntil

/-- A read of the store, which fails with the environment's error. -/
def SinkState.read {Result : Type} (state : SinkState) (query : Store → Result) :
    Except ClientError Result × SinkState :=
  ((attempt state.env.callFault (.ok (query state.world.store))).mapError mapStorageErr,
    state.advance state.world)

/-- `impl MessageSink for StorageMessageSink`. -/
def storageMessageSink : MessageSink SinkState where
  submit fetched state :=
    let (result, world) := submit platform state.env fetched state.world
    (result, state.advance world)
  tombstone id state :=
    match attempt state.env.callFault (.ok (tombstone state.env.now id state.world.store)) with
    | .error err => (.error (mapStorageErr err), state.advance state.world)
    | .ok store => (.ok (), state.advance { state.world with store := store })
  updateSyncState accountId folder update state :=
    let (result, store) := updateSyncState state.env.syncCut accountId folder
      (mapUpdate update) state.world.store
    (result.mapError mapStorageErr, state.advance { state.world with store := store })
  listLocalUids accountId folder uidvalidity state :=
    state.read fun store => listUidsFor store accountId folder uidvalidity
  storedUidvalidity accountId folder state :=
    state.read fun store => (getSyncState store accountId folder).bind (·.uidvalidity)

/-- A tombstone fails and changes nothing, or it is the one of the storage. -/
theorem sinkTombstone_store (id : String) (state : SinkState) :
    ((storageMessageSink platform).tombstone id state).2.world.store = state.world.store ∨
      ((storageMessageSink platform).tombstone id state).2.world.store =
        tombstone state.env.now id state.world.store := by
  cases fault : state.env.callFault with
  | some message => exact .inl (by simp [storageMessageSink, attempt, fault, SinkState.advance])
  | none => exact .inr (by simp [storageMessageSink, attempt, fault, SinkState.advance])

theorem sinkTombstone_syncState (id : String) (state : SinkState) :
    ((storageMessageSink platform).tombstone id state).2.world.store.syncState =
      state.world.store.syncState := by
  rcases sinkTombstone_store platform id state with same | tombstoned
  · rw [same]
  · rw [tombstoned]
    rfl

end Scryd.Runtime
