import Scryd.Imap.Scheduler
import Scryd.Runtime.Watermark

/-!
# The tombstone scans of a cycle

The loop lists local UIDs for the epoch it read last.  Where every read that
could have moved that epoch works, the server's answer is compared with rows of
the epoch the connection has examined.
-/

namespace Scryd.Imap

open Scryd.Foundation Scryd.Storage

variable {State : Type} {sink : MessageSink State} {conn : Connection}

/-- The backfill of a cycle starts safely, and every pass of its loop refreshes the cached epoch
safely. -/
def CycleSafe (view : WatermarkStore sink conn) (env : CycleEnv) (lastSeenUid : Nat)
    (state : State) : Prop :=
  env.login = .ok () → ∀ next,
    runInitialBackfill sink env.client conn env.now env.untilShutdown
      (updateHealth sink conn "active" state) = (.ok (), next) →
    StartSafe view env.client env.now env.untilShutdown (updateHealth sink conn "active" state) ∧
      Guarded (idleStep sink conn) (RefreshSafe sink conn)
        (enterIdle sink conn (env.client.examinedEpoch.getD 0) lastSeenUid next) env.rounds

/-- Every scan of a safe cycle is exact. -/
theorem CycleSafe.scans_exact (view : WatermarkStore sink conn) {env : CycleEnv}
    {lastSeenUid : Nat} {state : State} (safe : CycleSafe view env lastSeenUid state) :
    ∀ record ∈ (runOneCycle sink conn env lastSeenUid state).scans, record.Exact sink conn := by
  unfold runOneCycle
  cases login : env.login with
  | error err => exact nofun
  | ok loggedIn =>
      dsimp only
      unfold syncFolder
      split
      next err next failed => exact nofun
      next next filled =>
        obtain ⟨start, refreshes⟩ := safe login next filled
        have entered := epochFresh_enterIdle view start filled lastSeenUid
        exact (entered.run view refreshes).scans

end Scryd.Imap

namespace Scryd.Runtime

open Scryd.Foundation Scryd.Storage Scryd.Imap

variable (platform : Platform) (conn : Connection)

/-- What a scan should do: compare the server's UIDs with the live rows of the examined epoch,
and tombstone only such rows the server no longer has. -/
structure ScanSound (record : ScanRecord SinkState) : Prop where
  sameEpoch : record.uidvalidity = record.examined
  gone : ∀ uid ∈ record.gone, ∀ serverUids, record.answer = .ok serverUids →
    uid ∉ serverUids ∧
      ∃ row ∈ record.before.world.store.messages.rows,
        liveRow conn.accountId conn.folder record.examined row ∧ row.serverUid = uid

/-- What the storage sink lists are the UIDs of live rows of the epoch; a listing that fails is
empty. -/
theorem mem_listLocalUids {uidvalidity uid : Nat} {state : SinkState}
    (listed : uid ∈ ((storageMessageSink platform).listLocalUids conn.accountId conn.folder
      uidvalidity state).1.toOption.getD []) :
    ∃ row ∈ state.world.store.messages.rows,
      liveRow conn.accountId conn.folder uidvalidity row ∧ row.serverUid = uid := by
  simp only [storageMessageSink, SinkState.read, attempt] at listed
  split at listed
  next => cases listed
  next =>
    obtain ⟨row, live, isUid⟩ := List.mem_map.mp listed
    obtain ⟨stored, isLive⟩ := List.mem_filter.mp live
    exact ⟨row, stored, isLive, isUid⟩

theorem scanSound_of_exact {record : ScanRecord SinkState}
    (exactly : record.Exact (storageMessageSink platform) conn) : ScanSound conn record := by
  refine ⟨exactly.1, fun uid gone serverUids answered => ?_⟩
  rw [ScanRecord.gone, answered] at gone
  obtain ⟨isLocal, absent⟩ := mem_computeTombstones gone
  rw [exactly.2] at isLocal
  exact ⟨absent, mem_listLocalUids platform conn isLocal⟩

/-- In every cycle, from any stored state and whatever the server and the database do, that
starts its backfill safely and refreshes its cached epoch safely, every scan is sound. -/
theorem scans_sound_of_safe (env : CycleEnv) (lastSeenUid : Nat) (state : SinkState)
    (safe : CycleSafe (storageView platform conn) env lastSeenUid state) :
    ∀ record ∈ (runOneCycle (storageMessageSink platform) conn env lastSeenUid state).scans,
      ScanSound conn record := by
  intro record scanned
  exact scanSound_of_exact platform conn (safe.scans_exact _ record scanned)

/-- The rows that the scan of a round tombstones are those it asks for by a UID that is gone. -/
theorem scan_tombstones_gone {state : IdleState SinkState} {round : IdleRound}
    {record : ScanRecord SinkState}
    (scanned : (beginRound (storageMessageSink platform) conn round state).scans =
      state.scans ++ [record]) {row : MessageRow}
    (stored : row ∈ (beginRound (storageMessageSink platform) conn round
      state).sink.world.store.messages.rows) (tombstoned : row.tombstonedAt.isSome = true) :
    (∃ uid ∈ record.gone, row.messageId = scanId conn uid) ∨
      row ∈ ((storageMessageSink platform).listLocalUids conn.accountId conn.folder
        record.uidvalidity record.before).2.world.store.messages.rows := by
  rw [beginRound_sink state round scanned] at stored
  revert row
  apply @tombstoneAll_preserves _ (storageMessageSink platform) conn
    (fun next => ∀ row ∈ next.world.store.messages.rows, row.tombstonedAt.isSome = true →
      (∃ uid ∈ record.gone, row.messageId = scanId conn uid) ∨ row ∈ _)
  · intro uid gone next earlier row stored tombstoned
    rcases sinkTombstone_store platform (scanId conn uid) next with same | written
    · rw [same] at stored
      exact earlier row stored tombstoned
    · rw [written] at stored
      obtain ⟨old, oldStored, rfl⟩ := List.mem_map.mp stored
      unfold tombstoneRow at tombstoned ⊢
      split
      next matched => exact .inl ⟨uid, gone, matched.1⟩
      next unmatched =>
        rw [if_neg unmatched] at tombstoned
        exact earlier old oldStored tombstoned
  · exact fun row stored _ => .inr stored

section Sample

/-- The server of `box` behind ten IDLE periods that are all recycled. -/
def quietCycle (box : Mailbox) : CycleEnv where
  login := .ok ()
  client := box.client
  now := 0
  untilShutdown := 1
  rounds := List.replicate 10 ⟨box.client, .ok (), .ok .recycle, none, box.client, 0⟩
  stop := false

/-- The sink after one mail of epoch 1 was synchronized, in front of further calls. -/
def syncedMail (upcoming : List CallEnv) : SinkState :=
  ⟨(syncFolder (storageMessageSink samplePlatform) inbox (quietCycle oneMailBox) 0
    ⟨World.fresh workAccounts, []⟩).sink.world, upcoming⟩

/-- The mailbox of the one mail once that is expunged. -/
def expungedBox : Mailbox := ⟨1, 2, [], Nat.two_pos, nofun⟩

theorem scans_sound_expunged :
    ((runOneCycle (storageMessageSink samplePlatform) inbox (quietCycle expungedBox) 0
      (syncedMail [])).scans.map fun record => record.gone) = [[1]] ∧
    ∀ record ∈ (runOneCycle (storageMessageSink samplePlatform) inbox (quietCycle expungedBox) 0
      (syncedMail [])).scans, ScanSound inbox record := by
  refine ⟨by decide, scans_sound_of_safe samplePlatform inbox (quietCycle expungedBox) 0
    (syncedMail []) fun login next filled => ⟨.inl ⟨some 1, rfl⟩, ?_⟩⟩
  apply refreshSafe_of_quiet
  intro round isRound
  rw [List.eq_of_mem_replicate isRound]
  nofun

/-- A mailbox that was recreated empty. -/
def recreatedEmpty : Mailbox := oneMailBox.recreate 0 ⟨1, 1, [], Nat.one_pos, nofun⟩

/-- The backfill's read of the stored epoch fails, the mailbox was recreated empty, and the tenth
iteration compares the rows of the old epoch with it. -/
theorem failed_read_scans_old_epoch :
    ¬ ∀ record ∈ (runOneCycle (storageMessageSink samplePlatform) inbox (quietCycle recreatedEmpty)
      0 (syncedMail [{}, { callFault := some "database is locked" }])).scans,
      ScanSound inbox record := by
  intro sound
  have sameEpochs : (runOneCycle (storageMessageSink samplePlatform) inbox
      (quietCycle recreatedEmpty) 0
      (syncedMail [{}, { callFault := some "database is locked" }])).scans.all
        (fun record => record.uidvalidity == record.examined) = true := by
    rw [List.all_eq_true]
    intro record scanned
    exact beq_iff_eq.mpr (sound record scanned).sameEpoch
  revert sameEpochs
  decide

end Sample

end Scryd.Runtime
