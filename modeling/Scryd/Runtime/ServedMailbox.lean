import Scryd.Imap.Offered
import Scryd.Mcp.Read
import Scryd.Runtime.Resubmit
import Scryd.Runtime.TombstoneScan
import Scryd.Runtime.Watermark

/-!
# From the server to the read tools

A mail passes through the fetch path, the sink and the storage before a tool
can show it.  What the stored watermark promises of the server's mailbox is
what `get_message` then serves.
-/

namespace Scryd.Runtime

open Scryd.Foundation Scryd.Storage Scryd.Mime Scryd.Imap

section Rows

variable (platform : Platform) (conn : Connection)

/-- The row that `submit` builds for the mail, in some thread. -/
def RowOf (epoch : Nat) (mail : Mail) (row : MessageRow) : Prop :=
  ∃ parsed threadId, (outcome platform (mail.fetched conn epoch)).message? = some parsed ∧
    row = (toInsert platform (mail.fetched conn epoch) parsed).toRow threadId

/-- What the sink has accepted and what it holds was taken from the mailbox. -/
structure Copied (box : Mailbox) (state : Recorded SinkState) : Prop where
  accepted : ∀ fetched ∈ state.accepted, TakenFrom conn box fetched.key fun mail =>
    fetched = mail.fetched conn fetched.uidvalidity
  stored : ∀ fetched ∈ state.accepted, (outcome platform fetched).message?.isSome →
    ∃ row ∈ state.inner.world.store.messages.rows, row.key = fetched.key
  rows : ∀ row ∈ state.inner.world.store.messages.rows, TakenFrom conn box row.key fun mail =>
    RowOf platform conn row.uidvalidity mail row
  derived : DerivedIds state.inner.world.store

variable {platform conn} {box : Mailbox}

/-- The submit of a mail of the mailbox leaves the rows as they are, also if the mail has a row,
or appends the mail's row. -/
theorem submit_rows {world : World}
    (rows : ∀ row ∈ world.store.messages.rows, TakenFrom conn box row.key fun mail =>
      RowOf platform conn row.uidvalidity mail row)
    {mail : Mail} (held : mail ∈ box.mails) (env : CallEnv) :
    let next := (submit platform env (mail.fetched conn box.epoch) world).2
    next.store.messages.rows = world.store.messages.rows ∨
      ∃ row, RowOf platform conn box.epoch mail row ∧
        next.store.messages.rows = world.store.messages.rows ++ [row] := by
  intro next
  rcases submit_messages platform env (mail.fetched conn box.epoch) world with
    same | ⟨parsed, store, parses, inserted, same⟩
  · exact .inl (congrArg Table.rows same)
  · have messages : next.store.messages.rows = store.messages.rows := congrArg Table.rows same
    rcases insertMessage_ok inserted with ⟨_, rfl⟩ | ⟨_, _, table, rfl, appended⟩
    · refine .inl (messages.trans ((Store.refreshMessage_unchanged_iff _ _).mpr ?_))
      intro row stored sameKey
      -- The row of the key was built from this mail, so it has this content already.
      have current : row.uidvalidity = box.epoch := congrArg MessageKey.uidvalidity sameKey
      obtain ⟨earlier, threadId, alsoParses, isRow⟩ :=
        (rows row stored).mail current mail held (congrArg MessageKey.serverUid sameKey).symm
      rw [current, parses] at alsoParses
      rw [current, ← Option.some.inj alsoParses] at isRow
      rw [isRow]
      exact ⟨rfl, rfl, rfl⟩
    · refine .inr ⟨_, ⟨parsed, _, parses, rfl⟩, messages.trans appended⟩

/-- A call that changes neither the rows nor what was accepted. -/
theorem Copied.congr {state next : Recorded SinkState} (copied : Copied platform conn box state)
    (rows : next.inner.world.store.messages.rows = state.inner.world.store.messages.rows)
    (accepted : next.accepted = state.accepted) : Copied platform conn box next where
  accepted := by
    rw [accepted]
    exact copied.accepted
  stored := by
    rw [accepted, rows]
    exact copied.stored
  rows := by
    rw [rows]
    exact copied.rows
  derived := by
    rw [DerivedIds, rows]
    exact copied.derived

/-- The submit of a mail, accepted or not. -/
theorem Copied.submit {state : Recorded SinkState} (copied : Copied platform conn box state)
    (apart : box.UidsApart) {mail : Mail} (held : mail ∈ box.mails) :
    Copied platform conn box
      ((recorded (storageView platform conn)).submit (mail.fetched conn box.epoch) state).2 := by
  let fetched := mail.fetched conn box.epoch
  let world := (Runtime.submit platform state.inner.env fetched state.inner.world).2
  have derived : DerivedIds world.store :=
    derivedIds_submit platform state.inner.env fetched copied.derived
  have taken : ∀ row ∈ world.store.messages.rows, TakenFrom conn box row.key fun mail =>
      RowOf platform conn row.uidvalidity mail row := by
    rcases submit_rows copied.rows held state.inner.env with same | ⟨row, isRow, appended⟩
    · rw [same]
      exact copied.rows
    · rw [appended, List.forall_mem_append, List.forall_mem_singleton]
      refine ⟨copied.rows, ?_⟩
      obtain ⟨parsed, threadId, parses, rfl⟩ := isRow
      exact .fetched apart held ⟨parsed, threadId, parses, rfl⟩
  have keeps : ∀ key, (∃ row ∈ state.inner.world.store.messages.rows, row.key = key) →
      ∃ row ∈ world.store.messages.rows, row.key = key := by
    rintro key ⟨row, stored, isKey⟩
    rcases submit_rows copied.rows held state.inner.env with same | ⟨_, _, appended⟩
    · exact ⟨row, same ▸ stored, isKey⟩
    · exact ⟨row, appended ▸ List.mem_append_left _ stored, isKey⟩
  have storedBefore : ∀ other ∈ state.accepted, (outcome platform other).message?.isSome →
      ∃ row ∈ world.store.messages.rows, row.key = other.key :=
    fun other inAccepted parses => keeps _ (copied.stored other inAccepted parses)
  simp only [recorded, storageMessageSink]
  split
  next err next refused =>
    obtain ⟨-, rfl⟩ := Prod.mk.inj refused
    exact ⟨copied.accepted, storedBefore, taken, derived⟩
  next next accepted =>
    obtain ⟨isOk, rfl⟩ := Prod.mk.inj accepted
    refine ⟨?_, ?_, taken, derived⟩
    · rw [List.forall_mem_append, List.forall_mem_singleton]
      exact ⟨copied.accepted, .fetched apart held rfl⟩
    · rw [List.forall_mem_append, List.forall_mem_singleton]
      refine ⟨storedBefore, fun parses => ?_⟩
      obtain ⟨parsed, isParsed⟩ := Option.isSome_iff_exists.mp parses
      obtain ⟨store, inserted, isStore⟩ := submit_ok isParsed isOk
      obtain ⟨row, stored, isKey⟩ := (insertMessage_effect inserted).1
      refine ⟨row, ?_, isKey⟩
      simp only [SinkState.advance, isStore, enqueue_frame]
      exact stored

/-- The calls of the supervisor keep the copy as far as they submit mails of the mailbox. -/
theorem copied_upheld (apart : box.UidsApart) :
    Upheld (recorded (storageView platform conn)) conn
      (fun fetched => ∃ mail ∈ box.mails, fetched = mail.fetched conn box.epoch)
      (Copied platform conn box) where
  submit := by
    rintro _ state ⟨mail, held, rfl⟩ copied
    exact copied.submit apart held
  tombstone := by
    intro uid state copied
    refine copied.congr ?_ rfl
    rcases sinkTombstone_store platform (scanId conn uid) state.inner with same | tombstoned
    · exact congrArg (fun store => store.messages.rows) same
    · refine (congrArg (fun store => store.messages.rows) tombstoned).trans ?_
      refine tombstone_absent _ fun row stored named => ?_
      obtain ⟨canonical, derivedId⟩ := copied.derived row stored
      exact derivedId_ne_scanId row.accountId canonical conn uid (derivedId.symm.trans named)
  update := by
    intro update state copied
    obtain ⟨result, next, updated, frame, _⟩ := updateSyncState_spec state.inner.env.syncCut
      conn.accountId conn.folder (mapUpdate update) state.inner.world.store
    refine copied.congr ?_ rfl
    simp only [recorded, storageMessageSink, updated, SinkState.advance, frame.2.1]
  listed := fun _ _ copied => copied.congr rfl rfl
  read := fun _ copied => copied.congr rfl rfl

variable (platform conn) in
/-- If the mail parses, it is in the storage, and the owner of its account gets it by its id. -/
def Served (epoch : Nat) (mail : Mail) (world : World) : Prop :=
  let fetched := mail.fetched conn epoch
  ∀ parsed, (outcome platform fetched).message? = some parsed →
    ∃ threadId,
      let row := (toInsert platform fetched parsed).toRow threadId
      row ∈ world.store.messages.rows ∧
        ∀ chrono (scope : Mcp.AccountScope),
          conn.accountId ∈ scope.allowedAccountIds world.store →
          Mcp.getMessage chrono scope ⟨world.store, world.files⟩
              (messageId platform fetched parsed) = .ok (Mcp.messageRowToDto chrono row)

/-- A mail that was handed over is served. -/
theorem Copied.served {state : Recorded SinkState} (copied : Copied platform conn box state)
    {mail : Mail} (held : mail ∈ box.mails) (handed : HandedOver conn box state.accepted mail) :
    Served platform conn box.epoch mail state.inner.world := by
  intro parsed parses
  obtain ⟨accepted, inAccepted, isKey, -⟩ := handed
  -- What was handed over for this UID is the mail as the server still has it.
  have isFetched : accepted = mail.fetched conn box.epoch := by
    have ofEpoch : accepted.key.uidvalidity = box.epoch := by rw [isKey]
    have same := (copied.accepted accepted inAccepted).mail ofEpoch mail held (by rw [isKey])
    exact same.trans (congrArg (mail.fetched conn) ofEpoch)
  obtain ⟨row, stored, sameKey⟩ := copied.stored accepted inAccepted (by
    rw [isFetched, parses]
    rfl)
  have ofEpoch : row.uidvalidity = box.epoch :=
    congrArg MessageKey.uidvalidity (sameKey.trans isKey)
  obtain ⟨again, threadId, alsoParses, isRow⟩ := (copied.rows row stored).mail ofEpoch mail held
    (congrArg MessageKey.serverUid (sameKey.trans isKey)).symm
  rw [ofEpoch] at alsoParses isRow
  obtain rfl := Option.some.inj (parses.symm.trans alsoParses)
  refine ⟨threadId, isRow ▸ stored, fun chrono scope allowed => ?_⟩
  have found : Storage.getMessage state.inner.world.store
      (messageId platform (mail.fetched conn box.epoch) parsed) = some row :=
    (getMessage_eq_some_iff _ _ _).mpr ⟨stored, congrArg MessageRow.messageId isRow⟩
  have ofAccount : row.accountId = conn.accountId := congrArg MessageRow.accountId isRow
  have live : row.tombstonedAt = none := congrArg MessageRow.tombstonedAt isRow
  simp only [Mcp.getMessage, Mcp.visibleRow, found, live, ofAccount, Option.isNone_none,
    Bool.true_and, (Mcp.isAllowed_iff _ _).mpr allowed, if_true]
  rw [isRow]

end Rows

section Runs

variable {platform : Platform} {conn : Connection}

/-- One event keeps the UIDs of the mailbox apart and the copy one of the mailbox. -/
theorem copied_step (state : FolderState (Recorded SinkState)) (event : FolderEvent)
    (copied : state.server.UidsApart ∧ Copied platform conn state.server state.sink)
    (both : HonestEvent state event ∧ event.UidsApart) :
    (storageStep platform conn state event).server.UidsApart ∧
      Copied platform conn (storageStep platform conn state event).server
        (storageStep platform conn state event).sink := by
  have kept : Copied platform conn state.server (storageStep platform conn state event).sink :=
    (copied_upheld copied.1).folderStep copied.2 both.1.offers
  rw [storageStep, folderStep_server]
  exact ⟨copied.1.onServer both.2,
    fun fetched inAccepted => (kept.accepted fetched inAccepted).onServer event, kept.stored,
    fun row stored => (kept.rows row stored).onServer event, kept.derived⟩

theorem copied_run (accounts : Table AccountRow SameAccount) (upcoming : List CallEnv)
    {server : Mailbox} (apart : server.UidsApart) {events : List FolderEvent}
    (eventsApart : ∀ event ∈ events, event.UidsApart)
    (honest : Guarded (storageStep platform conn) HonestEvent
      (freshFolder accounts upcoming server) events) :
    Always (storageStep platform conn)
      (fun state => state.server.UidsApart ∧ Copied platform conn state.server state.sink)
      (freshFolder accounts upcoming server) events := by
  have initially : Copied platform conn server
      (freshFolder accounts upcoming server).sink :=
    ⟨List.forall_mem_nil _, List.forall_mem_nil _, List.forall_mem_nil _, List.forall_mem_nil _⟩
  exact always_of_guarded copied_step ⟨apart, initially⟩
    (honest.and (guarded_of_forall eventsApart _))

/-- Backfill, catch up, and a scan. -/
def syncedAndScanned : List FolderEvent :=
  [.cycle oneMailBox.client 0 1, .incremental oneMailBox.client 0,
    .tombstoneScan oneMailBox.client 1]

theorem syncedAndScanned_honest :
    Guarded (storageStep samplePlatform inbox) HonestEvent
      (freshFolder workAccounts [] oneMailBox) syncedAndScanned :=
  ⟨oneMailBox.client_honest, oneMailBox.client_honest, oneMailBox.client_honest, trivial⟩

/-- Where no pass carries a watermark into another epoch, all of the mailbox up to a watermark
of its epoch was handed over. -/
theorem covered_of_epoch_safe (accounts : Table AccountRow SameAccount)
    (upcoming : List CallEnv) (server : Mailbox) (events : List FolderEvent)
    (honest : Guarded (storageStep platform conn) HonestEvent
      (freshFolder accounts upcoming server) events)
    (safe : Guarded (storageStep platform conn) (EpochSafe (storageView platform conn))
      (freshFolder accounts upcoming server) events) :
    let state := run (storageStep platform conn) (freshFolder accounts upcoming server) events
    let synced := state.sink.pair (storageView platform conn)
    synced.1 = some state.server.epoch →
      Covered conn state.server state.sink.accepted synced.2 := by
  intro state synced current
  have initially : FolderInvariant (storageView platform conn)
      (freshFolder accounts upcoming server) :=
    ⟨⟨fun _ => rfl, nofun, nofun⟩, fun _ => rfl, nofun, nofun⟩
  have invariant : FolderInvariant (storageView platform conn) state :=
    (always_of_guarded
      (fun state event invariant both => folderStep_invariant state event invariant both.1 both.2)
      initially (honest.and safe)).last
  exact (invariant.sound.current current).2

/-- What the watermark covers can be read: each mail that the server has up to the stored
watermark of its epoch is served. -/
theorem mailbox_served (accounts : Table AccountRow SameAccount) (upcoming : List CallEnv)
    (server : Mailbox) (apart : server.UidsApart) (events : List FolderEvent)
    (eventsApart : ∀ event ∈ events, event.UidsApart)
    (honest : Guarded (storageStep platform conn) HonestEvent
      (freshFolder accounts upcoming server) events)
    (safe : Guarded (storageStep platform conn) (EpochSafe (storageView platform conn))
      (freshFolder accounts upcoming server) events) :
    let state := run (storageStep platform conn) (freshFolder accounts upcoming server) events
    let world := state.sink.inner.world
    let synced := watermark world.store conn.accountId conn.folder
    synced.1 = some state.server.epoch → ∀ mail ∈ state.server.mails, mail.uid ≤ synced.2 →
      Served platform conn state.server.epoch mail world := by
  intro state world synced current mail held upto
  have copied : Copied platform conn state.server state.sink :=
    ((copied_run accounts upcoming apart eventsApart honest).last).2
  have covered : Covered conn state.server state.sink.accepted synced.2 :=
    covered_of_epoch_safe accounts upcoming server events honest safe current
  exact copied.served held (covered mail held upto)

theorem mailbox_served_synced :
    let world := (run (storageStep samplePlatform inbox) (freshFolder workAccounts [] oneMailBox)
      syncedAndScanned).sink.inner.world
    ∃ dto, Mcp.getMessage samplePlatform.chrono ⟨"Me@example.org"⟩ ⟨world.store, world.files⟩
      "work:a@example.org" = .ok dto ∧ dto.bodyMd = "a" := by
  intro world
  have safe : Guarded (storageStep samplePlatform inbox)
      (EpochSafe (storageView samplePlatform inbox))
      (freshFolder workAccounts [] oneMailBox) syncedAndScanned :=
    ⟨fun _ => .inl (.inl rfl), fun _ _ => .inl (.inr (by decide)), trivial, trivial⟩
  obtain ⟨threadId, -, served⟩ := mailbox_served workAccounts [] oneMailBox
    (by decide : (oneMailBox.mails.map (·.uid)).Nodup) syncedAndScanned
    (by simp [syncedAndScanned, FolderEvent.UidsApart]) syncedAndScanned_honest safe
    (by decide) ⟨1, none, [], [97]⟩ (by decide) (by decide) (sampleParse [97]) rfl
  exact ⟨_, served samplePlatform.chrono ⟨"Me@example.org"⟩ (by decide), rfl⟩

/-- A backfill that ends by itself repairs whatever went wrong before it: when it has returned
`Ok`, every mail of the mailbox is served. -/
theorem completed_backfill_serves (accounts : Table AccountRow SameAccount)
    (upcoming : List CallEnv) (server : Mailbox) (apart : server.UidsApart)
    (events : List FolderEvent) (eventsApart : ∀ event ∈ events, event.UidsApart)
    (honest : Guarded (storageStep platform conn) HonestEvent
      (freshFolder accounts upcoming server) events)
    (client : Client) (now : Int) (untilShutdown : Nat) :
    let sink := recorded (storageView platform conn)
    let before := run (storageStep platform conn) (freshFolder accounts upcoming server) events
    let after := storageStep platform conn before (.cycle client now untilShutdown)
    before.phase = .disconnected → Honest before.server client →
    ((backfillTurn sink client conn now)^[untilShutdown]
      (enterBackfill sink client conn before.sink)).returned = some (.ok ()) →
    ∀ mail ∈ before.server.mails,
      Served platform conn before.server.epoch mail after.sink.inner.world := by
  intro sink before after disconnected honestClient completed mail held
  have copied : before.server.UidsApart ∧ Copied platform conn before.server before.sink :=
    (copied_run accounts upcoming apart eventsApart honest).last
  have honestCycle : HonestEvent before (.cycle client now untilShutdown) := honestClient
  have copiedAfter : Copied platform conn before.server after.sink :=
    (copied_upheld copied.1).folderStep copied.2 honestCycle.offers
  let backfill := (backfillTurn sink client conn now)^[untilShutdown]
    (enterBackfill sink client conn before.sink)
  have handsOver : HandsOver conn before.server backfill :=
    (HandsOver.enter honestClient before.sink).turns honestClient now untilShutdown
  have isSink : after.sink = backfill.sink := by
    have ran : runInitialBackfill sink client conn now untilShutdown before.sink =
        (.ok (), backfill.sink) := by
      rw [runInitialBackfill_eq_turns, BackfillRun.outcome, completed, Option.getD_some]
    simp only [after, storageStep, folderStep, disconnected]
    rw [ran]
    rfl
  refine copiedAfter.served held ?_
  rw [isSink]
  exact handsOver.completed completed mail held

/-- The pass that skips the first mail of the new epoch, and the end of its session. -/
def droppedAfterRecreation : List FolderEvent := recreatedWhileIdling ++ [.dropped]

theorem completed_backfill_serves_recreated :
    let box := oneMailBox.recreate 0 twoMails
    let before := run (storageStep samplePlatform inbox) (freshFolder workAccounts [] oneMailBox)
      droppedAfterRecreation
    ∀ mail ∈ twoMails.mails, Served samplePlatform inbox 2 mail
      (storageStep samplePlatform inbox before (.cycle box.client 0 1)).sink.inner.world := by
  intro box before
  have honest : Guarded (storageStep samplePlatform inbox) HonestEvent
      (freshFolder workAccounts [] oneMailBox) droppedAfterRecreation :=
    ⟨oneMailBox.client_honest, oneMailBox.client_honest, trivial, box.client_honest, trivial,
      trivial⟩
  have eventsApart : ∀ event ∈ droppedAfterRecreation, event.UidsApart := by
    have apart : twoMails.UidsApart := (by decide : (twoMails.mails.map (·.uid)).Nodup)
    simpa [droppedAfterRecreation, recreatedWhileIdling, FolderEvent.UidsApart] using apart
  have server : before.server = box := rfl
  exact completed_backfill_serves workAccounts [] oneMailBox
    (by decide : (oneMailBox.mails.map (·.uid)).Nodup) droppedAfterRecreation
    eventsApart honest box.client 0 1 rfl (server ▸ box.client_honest) (by decide)

end Runs

end Scryd.Runtime
