import Scryd.Imap.Backoff
import Scryd.Imap.Health
import Scryd.Runtime.Watermark

/-!
# Account health under the storage sink

The storage sink decodes the health text before it writes it.  Of the texts for
a failure only `auth-rejected` is one of the stored values.
-/

namespace Scryd.Runtime

open Scryd.Foundation Scryd.Storage Scryd.Imap

theorem accountHealth_congr {store next : Store} (same : next.syncState = store.syncState)
    (accountId : AccountId) (folder : String) :
    accountHealth next accountId folder = accountHealth store accountId folder := by
  simp only [accountHealth, getSyncState, same]

variable (platform : Platform) (conn : Connection)

/-- The health of the `sync_state` row. -/
def SinkState.health (state : SinkState) : AccountHealth :=
  accountHealth state.world.store conn.accountId conn.folder

theorem health_updateSyncState (update : Imap.SyncStateUpdate) (state : SinkState) :
    ((storageMessageSink platform).updateSyncState conn.accountId conn.folder update
        state).2.health conn =
      accountHealth (updateSyncState state.env.syncCut conn.accountId conn.folder
        (mapUpdate update) state.world.store).2 conn.accountId conn.folder := rfl

/-- Everything else the sink is asked to do leaves the health. -/
theorem health_preserved (value : AccountHealth) :
    Preserved (storageMessageSink platform) conn fun state => state.health conn = value where
  submit fetched state same :=
    (accountHealth_congr (submit_frame platform state.env fetched state.world).2 _ _).trans same
  tombstone id state same :=
    (accountHealth_congr (sinkTombstone_syncState platform id state) _ _).trans same
  update update state unset same := by
    rw [health_updateSyncState, accountHealth_updateSyncState_unset]
    · exact same
    · simp only [mapUpdate, unset, Option.bind_none]
  listed _ _ same := same
  read _ same := same

/-- A health text of the closed set reaches the row exactly when the update is committed; any
other text reaches it never. -/
def storageHealthView : HealthView (storageMessageSink platform) conn where
  health state := state.health conn
  commits state :=
    FieldCommits state.env.syncCut conn.accountId conn.folder state.world.store
  preserved := health_preserved platform conn
  written text state commits := by
    rw [updateHealth, health_updateSyncState]
    cases decoded : (AccountHealth.fromStr text).toOption with
    | none =>
        exact accountHealth_updateSyncState_unset _ _ _ decoded _
    | some health =>
        simp only [mapUpdate, Option.bind_some, decoded]
        exact (accountHealth_updateSyncState_set _ _ _ health _).1 commits
  unwritten text state refused := by
    rw [updateHealth, health_updateSyncState]
    cases decoded : (AccountHealth.fromStr text).toOption with
    | none =>
        exact accountHealth_updateSyncState_unset _ _ _ decoded _
    | some health =>
        simp only [mapUpdate, Option.bind_some, decoded]
        exact (accountHealth_updateSyncState_set _ _ _ health _).2 refused

/-- Under the storage sink every failure is visible in the account health, until a login, exactly
when every failed cycle ends in a rejected login whose health is committed, or finds a failure
that is visible and that its own login does not overwrite. -/
theorem stored_failures_visible_iff_reported (state : SinkState) (cycles : List CycleEnv) :
    Always (superviseStep (storageMessageSink platform) conn)
        (FailureVisible (storageHealthView platform conn)) (.started state) cycles ↔
      Guarded (superviseStep (storageMessageSink platform) conn)
        (FailureReported (storageHealthView platform conn)) (.started state) cycles :=
  failures_visible_iff_reported (storageHealthView platform conn) state cycles

section Sample

/-- A cycle whose TCP connection is refused. -/
def refusedConnection : CycleEnv where
  login := .error (.connect "connection refused")
  client := emptyClient
  now := 0
  untilShutdown := 1
  rounds := []
  stop := false

/-- The refused connection of an account that was never synchronized leaves its health unknown. -/
theorem connect_failure_stays_unknown :
    ¬ Always (superviseStep (storageMessageSink samplePlatform) inbox)
      (FailureVisible (storageHealthView samplePlatform inbox))
      (.started ⟨World.fresh workAccounts, []⟩) [refusedConnection] := by
  intro always
  have visible := always.last (.failed false (.connect "connection refused")) rfl rfl
  revert visible
  change ¬ VisibleHealth .unknown
  decide

end Sample

end Scryd.Runtime
