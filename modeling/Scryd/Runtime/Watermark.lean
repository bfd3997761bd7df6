import Scryd.Runtime.Ingest
import Scryd.Imap.Monotone

/-!
# The stored watermark under the storage sink

The storage sink keeps the pair in its `sync_state` row.  Along runs in which
no pass carries a watermark into another epoch, the pair is sound.
-/

namespace Scryd.Runtime

open Scryd.Foundation Scryd.Storage Scryd.Imap

theorem watermark_congr {store next : Store} (same : next.syncState = store.syncState)
    (accountId : AccountId) (folder : String) :
    watermark next accountId folder = watermark store accountId folder := by
  simp only [watermark, getSyncState, same]

variable (platform : Platform) (conn : Connection)

/-- The pair of the `sync_state` row.  An update is torn when the database fails right after
its second statement. -/
def storageView : WatermarkStore (storageMessageSink platform) conn where
  pair state := watermark state.world.store conn.accountId conn.folder
  torn state := state.env.syncCut = some 2
  submit_pair fetched state :=
    watermark_congr (submit_frame platform state.env fetched state.world).2 _ _
  tombstone_pair id state := watermark_congr (sinkTombstone_syncState platform id state) _ _
  listed_pair _ _ := rfl
  read_pair _ := rfl
  read_result state stored read := by
    simp only [storageMessageSink, SinkState.read, attempt] at read
    split at read
    next => cases read
    next =>
      cases read
      simp only [watermark, SyncStateRow.watermark]
      cases getSyncState state.world.store conn.accountId conn.folder <;> rfl
  update_ok update state ok := by
    obtain ⟨result, next, updated, _, merged, _⟩ := updateSyncState_spec state.env.syncCut
      conn.accountId conn.folder (mapUpdate update) state.world.store
    simp only [storageMessageSink, updated, SinkState.advance] at ok ⊢
    cases result with
    | error err => cases ok
    | ok value => exact merged rfl
  update_pair update state next isNext := by
    obtain ⟨result, store, updated, _, _, pairCases⟩ := updateSyncState_spec state.env.syncCut
      conn.accountId conn.folder (mapUpdate update) state.world.store
    simp only [storageMessageSink, updated, SinkState.advance] at isNext
    rw [isNext]
    exact pairCases

/-- No update is torn after a batch if no call to come is to be cut after its second statement. -/
theorem intactAfter_of_upcoming {state : Recorded SinkState}
    (intact : ∀ env ∈ state.inner.upcoming, env.syncCut ≠ some 2) :
    IntactAfter (storageView platform conn) state := by
  intro batch maxUidSeen
  have after := @submitBatch_preserves _ (recorded (storageView platform conn))
    (fun next => ∀ env ∈ next.inner.upcoming, env.syncCut ≠ some 2)
    (by
      intro fetched next uncut env upcoming
      rw [recorded_submit_inner] at upcoming
      exact uncut env (List.mem_of_mem_tail upcoming))
    batch maxUidSeen state intact
  exact SinkState.env_of_forall after nofun

/-- A folder that was never synchronized, under a freshly started supervisor. -/
def freshFolder (accounts : Table AccountRow SameAccount) (upcoming : List CallEnv)
    (server : Mailbox) : FolderState (Recorded SinkState) :=
  ⟨server, ⟨⟨World.fresh accounts, upcoming⟩, [], [(none, 0)]⟩, 0, .disconnected, none⟩

def storageStep : FolderState (Recorded SinkState) → FolderEvent →
    FolderState (Recorded SinkState) :=
  folderStep (recorded (storageView platform conn)) conn

/-- In every state of a run whose clients are honest and whose passes never carry a watermark
into another epoch, the stored pair is sound. -/
theorem watermark_sound_of_epoch_safe (accounts : Table AccountRow SameAccount)
    (upcoming : List CallEnv) (server : Mailbox) (events : List FolderEvent)
    (honest : Guarded (storageStep platform conn) HonestEvent
      (freshFolder accounts upcoming server) events)
    (safe : Guarded (storageStep platform conn) (EpochSafe (storageView platform conn))
      (freshFolder accounts upcoming server) events) :
    Always (storageStep platform conn) (WatermarkSound (storageView platform conn))
      (freshFolder accounts upcoming server) events := by
  have initially : FolderInvariant (storageView platform conn)
      (freshFolder accounts upcoming server) :=
    ⟨⟨fun _ => rfl, nofun, nofun⟩, fun _ => rfl, nofun, nofun⟩
  have always := always_of_guarded
    (fun state event invariant both => folderStep_invariant state event invariant both.1 both.2)
    initially (honest.and safe)
  exact always.imp fun state invariant => invariant.watermarkSound

/-- From any state on, along every run in which the server keeps its epoch, backfills learn it
and no pass sees only messages below the stored watermark first, the stored watermark never
regresses. -/
theorem watermark_never_regresses_of_safe (start : FolderState (Recorded SinkState))
    (recordStarts : start.sink.stored = [start.sink.pair (storageView platform conn)])
    (events : List FolderEvent) (stable : ∀ event ∈ events, KeepsEpoch event)
    (examined : Guarded (storageStep platform conn) EpochExamined start events)
    (safe : Guarded (storageStep platform conn) (MonotoneSafe (storageView platform conn))
      start events) :
    Always (storageStep platform conn)
      (fun state => NeverRegresses start.server.epoch state.sink.stored) start events := by
  have initially : MonotoneRecord (storageView platform conn) start.server.epoch start.sink :=
    ⟨by rw [recordStarts]; rfl, by rw [recordStarts]; exact List.isChain_singleton _⟩
  have preserved : ∀ (state : FolderState (Recorded SinkState)) (event : FolderEvent),
      (MonotoneRecord (storageView platform conn) start.server.epoch state.sink ∧
        state.server.epoch = start.server.epoch) →
      (KeepsEpoch event ∧ EpochExamined state event ∧
        MonotoneSafe (storageView platform conn) state event) →
      MonotoneRecord (storageView platform conn) start.server.epoch
          (storageStep platform conn state event).sink ∧
        (storageStep platform conn state event).server.epoch = start.server.epoch := by
    rintro state event ⟨monotone, sameEpoch⟩ ⟨keeps, isExamined, isSafe⟩
    rw [← sameEpoch] at monotone ⊢
    exact folderStep_monotone state event monotone keeps isExamined isSafe
  have always := always_of_guarded preserved ⟨initially, rfl⟩
    ((guarded_of_forall stable start).and (examined.and safe))
  exact always.imp fun state invariant => invariant.1.chain

section Sample

def inbox : Connection := ⟨workId, "INBOX"⟩

/-- A mailbox of epoch 1 with one mail. -/
def oneMailBox : Mailbox := ⟨1, 2, [⟨1, none, [], [97]⟩], by decide, by decide⟩

/-- The content of a recreated mailbox: two other mails. -/
def twoMails : Mailbox :=
  ⟨0, 3, [⟨1, none, [], [98]⟩, ⟨2, none, [], [99]⟩], by decide, by decide⟩

/-- Backfill and catch up, then the mailbox is recreated, then the next IDLE wake. -/
def recreatedWhileIdling : List FolderEvent :=
  [.cycle oneMailBox.client 0 1, .incremental oneMailBox.client 0, .recreate 0 twoMails,
    .incremental (oneMailBox.recreate 0 twoMails).client 0]

/-- The pass after an epoch change starts above the first mail of the new epoch and stores
a watermark over it. -/
theorem incremental_skips_recreated_mail :
    Guarded (storageStep samplePlatform inbox) HonestEvent
        (freshFolder workAccounts [] oneMailBox) recreatedWhileIdling ∧
      ¬ Always (storageStep samplePlatform inbox)
        (WatermarkSound (storageView samplePlatform inbox))
        (freshFolder workAccounts [] oneMailBox) recreatedWhileIdling := by
  refine ⟨⟨oneMailBox.client_honest, oneMailBox.client_honest, trivial,
    (oneMailBox.recreate 0 twoMails).client_honest, trivial⟩, fun always => ?_⟩
  have handed := always.last 2 2 (by decide) (oneMailBox.recreate 0 twoMails) rfl rfl
    ⟨1, none, [], [98]⟩ (by decide) (by decide)
  revert handed
  unfold HandedOver
  decide

/-- The mailbox is recreated before the first pass after the backfill; then a mail arrives. -/
def recreatedBeforeFirstPass : List FolderEvent :=
  [.cycle oneMailBox.client 0 1, .recreate 0 twoMails,
    .incremental (oneMailBox.recreate 0 twoMails).client 0, .arrival 0 none [] [100],
    .incremental ((oneMailBox.recreate 0 twoMails).arrive 0 none [] [100]).client 0]

theorem watermark_sound_recreated_before_pass :
    Always (storageStep samplePlatform inbox) (WatermarkSound (storageView samplePlatform inbox))
      (freshFolder workAccounts [] oneMailBox) recreatedBeforeFirstPass := by
  refine watermark_sound_of_epoch_safe samplePlatform inbox workAccounts [] oneMailBox
    recreatedBeforeFirstPass ?_ ?_
  · exact ⟨oneMailBox.client_honest, trivial, (oneMailBox.recreate 0 twoMails).client_honest,
      trivial, ((oneMailBox.recreate 0 twoMails).arrive 0 none [] [100]).client_honest, trivial⟩
  · refine ⟨fun _ => .inl (.inl rfl), trivial, fun lastSeenUid idling => .inr ?_, trivial,
      fun _ _ => .inl (.inr (by decide)), trivial⟩
    cases idling
    exact ⟨⟨by decide, by decide⟩, intactAfter_of_upcoming samplePlatform inbox nofun⟩

/-- Backfill, catch up, and the same again in the next process. -/
def restartedSync : List FolderEvent :=
  [.cycle oneMailBox.client 0 1, .incremental oneMailBox.client 0, .shutdown, .restart,
    .cycle oneMailBox.client 0 1]

theorem watermark_never_regresses_restart :
    Always (storageStep samplePlatform inbox)
      (fun state => NeverRegresses 1 state.sink.stored)
      (freshFolder workAccounts [] oneMailBox) restartedSync := by
  refine watermark_never_regresses_of_safe samplePlatform inbox
    (freshFolder workAccounts [] oneMailBox) rfl restartedSync ?_ ?_ ?_
  · simp [restartedSync, KeepsEpoch]
  · have examines : ExaminesEpoch oneMailBox oneMailBox.client := fun mailbox examined v reported =>
      (oneMailBox.client_honest.examine mailbox examined).1 v reported
    exact ⟨examines, trivial, trivial, trivial, examines, trivial⟩
  · refine ⟨fun _ => .inr fun _ _ => .inl rfl, fun _ isIdle _ => ?_, trivial, trivial,
      fun _ => .inr fun index small => .inr fun rows answered => ?_, trivial⟩
    · cases isIdle
      intro rows answered
      cases answered
      exact .inr ⟨⟨some 1, none, [], some [97]⟩, by decide, 1, rfl, by decide⟩
    · obtain rfl : index = 0 := by omega
      cases answered
      exact .inr ⟨⟨some 1, none, [], some [97]⟩, by decide, 1, rfl, by decide⟩

/-- Two mails more than a batch apart. -/
def sparseBox : Mailbox :=
  ⟨1, 601, [⟨1, none, [], [97]⟩, ⟨600, none, [], [98]⟩], by decide, by decide⟩

/-- A complete backfill, then a restart whose backfill is stopped after one batch. -/
def stoppedBackfill : List FolderEvent :=
  [.cycle sparseBox.client 0 2, .shutdown, .restart, .cycle sparseBox.client 0 1]

/-- The second backfill replaces the stored 600 by 1. -/
theorem stopped_backfill_regresses :
    Guarded (storageStep samplePlatform inbox) HonestEvent
        (freshFolder workAccounts [] sparseBox) stoppedBackfill ∧
      ¬ Always (storageStep samplePlatform inbox)
        (fun state => NeverRegresses sparseBox.epoch state.sink.stored)
        (freshFolder workAccounts [] sparseBox) stoppedBackfill := by
  refine ⟨⟨sparseBox.client_honest, trivial, trivial, sparseBox.client_honest, trivial⟩,
    fun always => ?_⟩
  have last := always.last
  have record : (run (storageStep samplePlatform inbox) (freshFolder workAccounts [] sparseBox)
      stoppedBackfill).sink.stored = [(none, 0), (some 1, 1), (some 1, 600), (some 1, 1)] := by
    decide
  rw [record] at last
  revert last
  unfold NeverRegresses
  decide

end Sample

end Scryd.Runtime
