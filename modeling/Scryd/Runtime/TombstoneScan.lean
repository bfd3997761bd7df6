import Scryd.Runtime.Ingest
import Scryd.Imap.Tombstone

/-!
# Tombstone scans over the storage sink

The rows the sink writes are named `account:canonical`; the scan asks to
tombstone `account/folder/uid`.  No character of an account id is one of the
two separators, so the two forms never meet and a scan changes no row.
-/

namespace Scryd.Runtime

open Scryd.Foundation Scryd.Storage Scryd.Mime Scryd.Imap

/-- Every row's id is its account's id, a colon and some canonical id. -/
def DerivedIds (store : Store) : Prop :=
  ∀ row ∈ store.messages.rows, ∃ canonical, row.messageId = row.accountId.text ++ ":" ++ canonical

theorem derivedIds_insert {threads : ThreadEnv} {m : MessageInsert} {store next : Store}
    (inserted : insertMessage threads m store = .ok next) (derived : DerivedIds store)
    (derivedId : ∃ canonical, m.messageId = m.accountId.text ++ ":" ++ canonical) :
    DerivedIds next := by
  rcases insertMessage_ok inserted with ⟨_, rfl⟩ | ⟨_, _, messages, rfl, rows⟩
  · intro row stored
    obtain ⟨old, oldStored, rfl⟩ := List.mem_map.mp stored
    simpa using derived old oldStored
  · intro row stored
    rw [rows, List.mem_append, List.mem_singleton] at stored
    rcases stored with old | rfl
    · exact derived row old
    · exact derivedId

theorem derivedIds_tombstone (now : Int) (id : String) {store : Store}
    (derived : DerivedIds store) : DerivedIds (tombstone now id store) := by
  intro row stored
  obtain ⟨old, oldStored, rfl⟩ := List.mem_map.mp stored
  simpa using derived old oldStored

variable (platform : Platform)

theorem derivedIds_submit (env : CallEnv) (fetched : FetchedMessage) {world : World}
    (derived : DerivedIds world.store) :
    DerivedIds (submit platform env fetched world).2.store := by
  rcases submit_messages platform env fetched world with
    same | ⟨parsed, store, _, inserted, same⟩
  · simpa only [DerivedIds, same] using derived
  · have after := derivedIds_insert inserted derived ⟨canonicalId platform fetched parsed, rfl⟩
    simpa only [DerivedIds, same] using after

/-- The writing calls of the sink. -/
inductive SinkCall where
  | submit (fetched : FetchedMessage)
  | tombstone (id : String)
  | updateSyncState (accountId : AccountId) (folder : String) (update : Imap.SyncStateUpdate)

def sinkCall (state : SinkState) : SinkCall → SinkState
  | .submit fetched => ((storageMessageSink platform).submit fetched state).2
  | .tombstone id => ((storageMessageSink platform).tombstone id state).2
  | .updateSyncState accountId folder update =>
      ((storageMessageSink platform).updateSyncState accountId folder update state).2

theorem derivedIds_sinkCall (state : SinkState) (call : SinkCall)
    (derived : DerivedIds state.world.store) :
    DerivedIds (sinkCall platform state call).world.store := by
  cases call with
  | submit fetched => exact derivedIds_submit platform state.env fetched derived
  | tombstone id =>
      rcases sinkTombstone_store platform id state with same | tombstoned
      · rwa [sinkCall, same]
      · rw [sinkCall, tombstoned]
        exact derivedIds_tombstone state.env.now id derived
  | updateSyncState accountId folder update =>
      obtain ⟨result, next, updated, frame, _⟩ := updateSyncState_spec state.env.syncCut
        accountId folder (mapUpdate update) state.world.store
      simp only [sinkCall, storageMessageSink, updated, SinkState.advance, DerivedIds, frame.2.1]
      exact derived

/-- The id form of the sink is never the id form of the scan. -/
theorem derivedId_ne_scanId (accountId : AccountId) (canonical : String) (conn : Connection)
    (uid : Nat) : accountId.text ++ ":" ++ canonical ≠ scanId conn uid := by
  intro same
  have characters := congrArg String.toList same
  simp only [scanId, String.toList_append, List.append_assoc] at characters
  exact AccountId.append_separator_ne accountId conn.accountId (by decide) (by decide)
    (by decide) _ _ characters

/-- A scan changes no row of a store with derived ids. -/
theorem scan_messages (client : Client) (conn : Connection) (localUids : List Nat)
    {state : SinkState} (derived : DerivedIds state.world.store) :
    (scan (storageMessageSink platform) client conn localUids state).2.world.store.messages.rows =
      state.world.store.messages.rows := by
  refine @scan_preserves _ (storageMessageSink platform) client conn localUids
    (fun next => next.world.store.messages.rows = state.world.store.messages.rows) ?_ state rfl
  intro uid next same
  rcases sinkTombstone_store platform (scanId conn uid) next with unchanged | tombstoned
  · rw [unchanged, same]
  · rw [tombstoned, tombstone_absent, same]
    intro row stored named
    rw [same] at stored
    obtain ⟨canonical, derivedId⟩ := derived row stored
    exact derivedId_ne_scanId row.accountId canonical conn uid (derivedId.symm.trans named)

/-- What a scan is for: of the live rows of the epoch those stay that the server still has,
and no other row changes. -/
structure ScanExact (conn : Connection) (uidvalidity : Nat) (serverUids : List Nat)
    (before after : List MessageRow) : Prop where
  live : after.filter (liveRow conn.accountId conn.folder uidvalidity) =
    before.filter fun row =>
      liveRow conn.accountId conn.folder uidvalidity row && decide (row.serverUid ∈ serverUids)
  others : after.filter (fun row => !(decide (row.key ∈ (before.filter
      (liveRow conn.accountId conn.folder uidvalidity)).map (·.key)))) =
    before.filter fun row => !(decide (row.key ∈ (before.filter
      (liveRow conn.accountId conn.folder uidvalidity)).map (·.key)))

/-- After a scan over a store the sink built, the live rows are the ones the server still has
exactly when the server still has every local UID. -/
theorem scan_exact_iff (accounts : Table AccountRow SameAccount) (upcoming : List CallEnv)
    (calls : List SinkCall) (client : Client) (conn : Connection) (uidvalidity : Nat)
    (before after : SinkState) (count : Nat)
    (reached : before = run (sinkCall platform) ⟨World.fresh accounts, upcoming⟩ calls)
    (scanned : scan (storageMessageSink platform) client conn
      (listUidsFor before.world.store conn.accountId conn.folder uidvalidity) before =
        (.ok count, after)) :
    ∃ serverUids, client.uidSearchAll = .ok serverUids ∧
      (ScanExact conn uidvalidity serverUids before.world.store.messages.rows
          after.world.store.messages.rows ↔
        ∀ uid ∈ listUidsFor before.world.store conn.accountId conn.folder uidvalidity,
          uid ∈ serverUids) := by
  cases answered : client.uidSearchAll with
  | error err =>
      simp only [scan, answered] at scanned
      cases scanned
  | ok serverUids =>
      have derived : DerivedIds before.world.store := by
        rw [reached]
        refine run_preserves (derivedIds_sinkCall platform) ?_ calls
        intro row stored
        cases stored
      have unchanged := scan_messages platform client conn
        (listUidsFor before.world.store conn.accountId conn.folder uidvalidity) derived
      rw [scanned] at unchanged
      simp only at unchanged
      refine ⟨serverUids, rfl, ?_⟩
      rw [unchanged]
      constructor
      · intro exactly uid listed
        obtain ⟨row, live, rfl⟩ := List.mem_map.mp listed
        rw [exactly.live] at live
        have kept := (List.mem_filter.mp live).2
        simp only [Bool.and_eq_true, decide_eq_true_eq] at kept
        exact kept.2
      · intro present
        refine ⟨?_, rfl⟩
        apply List.filter_congr
        intro row stored
        cases live : liveRow conn.accountId conn.folder uidvalidity row with
        | false => rfl
        | true =>
            have listed := present row.serverUid (List.mem_map_of_mem
              (List.mem_filter.mpr ⟨stored, live⟩))
            simp [listed]

section Sample

/-- A server that has the given UIDs. -/
def searchClient (serverUids : List Nat) : Client :=
  ⟨.ok ⟨some 1, none⟩, fun _ => .ok [], .ok serverUids⟩

/-- The sink after one mail under UID 1 of the inbox. -/
def oneMail : SinkState :=
  run (sinkCall samplePlatform) ⟨World.fresh workAccounts, []⟩
    [.submit (sampleMail "INBOX" 1 [97])]

/-- The server has no mail any more, the scan tombstones UID 1, and the row is still live. -/
theorem scan_leaves_expunged_row_live :
    (scan (storageMessageSink samplePlatform) (searchClient []) ⟨workId, "INBOX"⟩
        (listUidsFor oneMail.world.store workId "INBOX" 1) oneMail).1 = .ok 1 ∧
      ¬ ScanExact ⟨workId, "INBOX"⟩ 1 [] oneMail.world.store.messages.rows
        (scan (storageMessageSink samplePlatform) (searchClient []) ⟨workId, "INBOX"⟩
          (listUidsFor oneMail.world.store workId "INBOX" 1)
            oneMail).2.world.store.messages.rows := by
  refine ⟨rfl, fun exactly => ?_⟩
  have live := congrArg List.length exactly.live
  revert live
  decide

theorem scan_exact_of_present_mail :
    ∃ serverUids, (searchClient [1]).uidSearchAll = .ok serverUids ∧
      (ScanExact ⟨workId, "INBOX"⟩ 1 serverUids oneMail.world.store.messages.rows
          (scan (storageMessageSink samplePlatform) (searchClient [1]) ⟨workId, "INBOX"⟩
            (listUidsFor oneMail.world.store workId "INBOX" 1) oneMail
            ).2.world.store.messages.rows ↔
        ∀ uid ∈ listUidsFor oneMail.world.store workId "INBOX" 1, uid ∈ serverUids) :=
  scan_exact_iff samplePlatform workAccounts [] [.submit (sampleMail "INBOX" 1 [97])]
    (searchClient [1]) ⟨workId, "INBOX"⟩ 1 oneMail _ 0 rfl rfl

end Sample

end Scryd.Runtime
