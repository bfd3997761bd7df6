import Scryd.Imap.Backfill

/-!
# What the passes hand to the sink

A pass submits the messages of the batches its client answers with, and no
others.  So what the sink keeps under the submits of these, and under its
other calls, the supervisor of the folder keeps.
-/

namespace Scryd.Imap

open Scryd.Foundation Scryd.Storage

section Upheld

variable {State : Type}

/-- Every message of a batch in the epoch that the client reports is admissible. -/
def Client.Offers (client : Client) (conn : Connection) (admissible : FetchedMessage → Prop) :
    Prop :=
  ∀ mailbox epoch, client.examineMeta = .ok mailbox → mailbox.uidValidity = some epoch →
    ∀ range batch, fetchBatch client range conn epoch = .ok batch →
      ∀ fetched ∈ batch, admissible fetched

/-- A property of the sink's state that every call of a folder's supervisor keeps, as far as it
submits admissible messages only. -/
structure Upheld (sink : MessageSink State) (conn : Connection)
    (admissible : FetchedMessage → Prop) (property : State → Prop) : Prop where
  submit : ∀ fetched state, admissible fetched → property state →
    property (sink.submit fetched state).2
  tombstone : ∀ uid state, property state → property (sink.tombstone (scanId conn uid) state).2
  update : ∀ update state, property state →
    property (sink.updateSyncState conn.accountId conn.folder update state).2
  listed : ∀ uidvalidity state, property state →
    property (sink.listLocalUids conn.accountId conn.folder uidvalidity state).2
  read : ∀ state, property state →
    property (sink.storedUidvalidity conn.accountId conn.folder state).2

variable {sink : MessageSink State} {conn : Connection} {admissible : FetchedMessage → Prop}
  {property : State → Prop}

theorem Upheld.submitBatch (upheld : Upheld sink conn admissible property)
    {batch : List FetchedMessage} (offered : ∀ fetched ∈ batch, admissible fetched)
    (maxUidSeen : Nat) {state : State} (initially : property state) :
    property (Imap.submitBatch sink batch maxUidSeen state).2 := by
  induction batch generalizing maxUidSeen state with
  | nil => exact initially
  | cons fetched rest inductionHypothesis =>
      obtain ⟨first, others⟩ := List.forall_mem_cons.mp offered
      have next := upheld.submit fetched state first initially
      rw [Imap.submitBatch]
      split
      next err after failed => rwa [failed] at next
      next after accepted =>
        rw [accepted] at next
        exact inductionHypothesis others _ next

theorem Upheld.backfillLoop (upheld : Upheld sink conn admissible property) {client : Client}
    {epoch : Nat}
    (offered : ∀ range batch, fetchBatch client range conn epoch = .ok batch →
      ∀ fetched ∈ batch, admissible fetched)
    (target : Option Nat) (now : Int) (untilShutdown lo maxUidSeen : Nat) {state : State}
    (initially : property state) :
    property (Imap.backfillLoop sink client conn epoch target now untilShutdown lo maxUidSeen
      state).2 := by
  induction untilShutdown generalizing lo maxUidSeen state with
  | zero => exact initially
  | succ untilShutdown inductionHypothesis =>
      rw [Imap.backfillLoop]
      split
      next => exact initially
      next =>
        dsimp only
        split
        next => exact initially
        next batch fetched =>
          have submitted := upheld.submitBatch (offered _ batch fetched) maxUidSeen initially
          split
          next err middle failed => rwa [failed] at submitted
          next largest middle done =>
            rw [done] at submitted
            have updated := upheld.update
              (passUpdate epoch (lastSeenUidUpdate largest) now) middle submitted
            split
            next err last failed => rwa [failed] at updated
            next last written =>
              rw [written] at updated
              split
              next => exact updated
              next => exact inductionHypothesis _ _ updated

theorem Upheld.resetIfChanged (upheld : Upheld sink conn admissible property) (epoch : Nat)
    {state : State} (initially : property state) :
    property (Imap.resetIfChanged sink conn epoch state).2 := by
  obtain ⟨read, next, answer, cases⟩ := resetIfChanged_cases sink conn epoch state
  have kept := upheld.read state initially
  rw [answer] at kept
  rcases cases with ⟨stored, _, _, same⟩ | ⟨_, same⟩
  · rw [same]
    exact upheld.update _ next kept
  · rwa [same]

theorem Upheld.runInitialBackfill (upheld : Upheld sink conn admissible property)
    {client : Client} (offers : client.Offers conn admissible) (now : Int) (untilShutdown : Nat)
    {state : State} (initially : property state) :
    property (Imap.runInitialBackfill sink client conn now untilShutdown state).2 := by
  rcases runInitialBackfill_cases sink client conn now untilShutdown state with
    ⟨err, same⟩ | ⟨mailbox, epoch, examined, reported, ⟨err, next, reset, same⟩ |
      ⟨next, reset, same⟩⟩
  · rwa [same]
  · have kept := upheld.resetIfChanged epoch initially
    rw [reset] at kept
    rwa [same]
  · have kept := upheld.resetIfChanged epoch initially
    rw [reset] at kept
    rw [same]
    exact upheld.backfillLoop (offers mailbox epoch examined reported) _ now untilShutdown 1 0 kept

theorem Upheld.runIncremental (upheld : Upheld sink conn admissible property) {client : Client}
    (offers : client.Offers conn admissible) (now : Int) (lastSeenUid : Nat) {state : State}
    (initially : property state) :
    property (Imap.runIncremental sink client conn now lastSeenUid state).2 := by
  rw [Imap.runIncremental]
  split
  next => exact initially
  next mailbox examined =>
    split
    next => exact initially
    next epoch reported =>
      split
      next => exact initially
      next batch fetched =>
        have submitted := upheld.submitBatch
          (offers mailbox epoch examined reported _ batch fetched) lastSeenUid initially
        split
        next err middle failed => rwa [failed] at submitted
        next largest middle done =>
          rw [done] at submitted
          have updated := upheld.update (passUpdate epoch
            (if lastSeenUid < largest then some largest else none) now) middle submitted
          split
          next err last failed => rwa [failed] at updated
          next last written => rwa [written] at updated

/-- The clients of the passes offer admissible messages only. -/
def FolderEvent.Offers (conn : Connection) (admissible : FetchedMessage → Prop) :
    FolderEvent → Prop
  | .cycle client _ _ => client.Offers conn admissible
  | .incremental client _ => client.Offers conn admissible
  | _ => True

/-- One event keeps what the calls of the supervisor keep. -/
theorem Upheld.folderStep (upheld : Upheld sink conn admissible property)
    {state : FolderState State} (initially : property state.sink) {event : FolderEvent}
    (offers : event.Offers conn admissible) :
    property (Imap.folderStep sink conn state event).sink := by
  cases event with
  | arrival gap internalDate flags body => exact initially
  | expunge gone => exact initially
  | recreate bump content => exact initially
  | cycle client now untilShutdown =>
      have backfilled := upheld.runInitialBackfill offers now untilShutdown initially
      simp only [Imap.folderStep]
      split
      next =>
        split
        next err next failed => rwa [failed] at backfilled
        next next done => rwa [done] at backfilled
      next => exact initially
  | incremental client now =>
      simp only [Imap.folderStep]
      split
      next lastSeenUid idling =>
        have passed := upheld.runIncremental offers now lastSeenUid initially
        split
        next err next failed => rwa [failed] at passed
        next newUid next done => rwa [done] at passed
      next => exact initially
  | tombstoneScan client uidvalidity =>
      simp only [Imap.folderStep]
      split
      next lastSeenUid idling =>
        exact scan_preserves sink client conn _ upheld.tombstone
          (upheld.listed uidvalidity state.sink initially)
      next => exact initially
  | recycle now =>
      simp only [Imap.folderStep]
      split
      next => exact upheld.update _ _ initially
      next => exact initially
  | health text => exact upheld.update _ _ initially
  | dropped =>
      simp only [Imap.folderStep]
      split <;> exact initially
  | shutdown =>
      simp only [Imap.folderStep]
      split <;> exact initially
  | restart => exact initially

end Upheld

section Mailbox

variable {conn : Connection}

/-- An honest client offers the mails of the mailbox, each in its epoch. -/
theorem Honest.offers {box : Mailbox} {client : Client} (honest : Honest box client) :
    client.Offers conn fun fetched =>
      ∃ mail ∈ box.mails, fetched = mail.fetched conn box.epoch := by
  intro mailbox epoch examined reported range batch answered fetched inBatch
  obtain rfl := (honest.examine mailbox examined).1 epoch reported
  obtain ⟨rows, rowsAnswered, fromRows, _⟩ := fetchBatch_ok answered
  obtain ⟨row, inRows, parsed⟩ := fromRows fetched inBatch
  have fromMail : ∃ mail ∈ box.mails, row = mail.row := by
    cases range with
    | between lo hi =>
        obtain ⟨mail, held, _, isRow⟩ := (honest.between lo hi rows rowsAnswered row).mp inRows
        exact ⟨mail, held, isRow⟩
    | onward start =>
        obtain ⟨mail, held, _, isRow⟩ := (honest.onward start rows rowsAnswered row).mp inRows
        exact ⟨mail, held, isRow⟩
  obtain ⟨mail, held, rfl⟩ := fromMail
  cases parsed
  exact ⟨mail, held, rfl⟩

/-- What is known of something with this key that was taken from the mailbox at some time: it
belongs to the folder and to no later epoch than the current one, and as long as the mailbox
has the mail of its UID, it agrees with that mail. -/
structure TakenFrom (conn : Connection) (box : Mailbox) (key : MessageKey)
    (agrees : Mail → Prop) : Prop where
  accountId : key.accountId = conn.accountId
  folder : key.folder = conn.folder
  epoch : key.uidvalidity ≤ box.epoch
  assigned : key.uidvalidity = box.epoch → key.serverUid < box.uidNext
  mail : key.uidvalidity = box.epoch → ∀ mail ∈ box.mails, mail.uid = key.serverUid → agrees mail

/-- No two mails of the mailbox have the same UID. -/
def Mailbox.UidsApart (box : Mailbox) : Prop := (box.mails.map (·.uid)).Nodup

variable {box : Mailbox} {key : MessageKey} {agrees : Mail → Prop}

theorem TakenFrom.arrive (taken : TakenFrom conn box key agrees) (gap : Nat)
    (internalDate : Option Int) (flags : List String) (body : List UInt8) :
    TakenFrom conn (box.arrive gap internalDate flags body) key agrees where
  accountId := taken.accountId
  folder := taken.folder
  epoch := taken.epoch
  assigned := fun current => by
    have below := taken.assigned current
    simp only [Mailbox.arrive]
    omega
  mail := fun current mail held sameUid => by
    rcases List.mem_append.mp held with old | new
    · exact taken.mail current mail old sameUid
    · -- The new mail has a UID that nothing was taken under.
      have below := taken.assigned current
      rw [List.mem_singleton.mp new] at sameUid
      dsimp only at sameUid
      omega

theorem TakenFrom.expunge (taken : TakenFrom conn box key agrees) (gone : Nat → Bool) :
    TakenFrom conn (box.expunge gone) key agrees where
  accountId := taken.accountId
  folder := taken.folder
  epoch := taken.epoch
  assigned := taken.assigned
  mail := fun current mail held => taken.mail current mail (List.mem_filter.mp held).1

theorem TakenFrom.recreate (taken : TakenFrom conn box key agrees) (bump : Nat)
    (content : Mailbox) : TakenFrom conn (box.recreate bump content) key agrees := by
  have old : key.uidvalidity < (box.recreate bump content).epoch := by
    have known := taken.epoch
    simp only [Mailbox.recreate]
    omega
  exact ⟨taken.accountId, taken.folder, old.le, fun current => absurd current old.ne,
    fun current => absurd current old.ne⟩

/-- A mail of the mailbox is the only one of its UID. -/
theorem TakenFrom.fetched (apart : box.UidsApart) {mail : Mail} (held : mail ∈ box.mails)
    (isMail : agrees mail) : TakenFrom conn box (mail.fetched conn box.epoch).key agrees where
  accountId := rfl
  folder := rfl
  epoch := Nat.le_refl _
  assigned := fun _ => (box.assigned mail held).2
  mail := fun _ other otherHeld sameUid => by
    rwa [List.inj_on_of_nodup_map apart otherHeld held sameUid]

theorem Mailbox.UidsApart.arrive (apart : box.UidsApart) (gap : Nat)
    (internalDate : Option Int) (flags : List String) (body : List UInt8) :
    (box.arrive gap internalDate flags body).UidsApart := by
  rw [Mailbox.UidsApart, Mailbox.arrive, List.map_append, List.nodup_append]
  refine ⟨apart, List.nodup_singleton _, fun old isOld new isNew => ?_⟩
  obtain ⟨mail, held, rfl⟩ := List.mem_map.mp isOld
  have below := (box.assigned mail held).2
  rw [List.map_singleton, List.mem_singleton] at isNew
  dsimp only at isNew
  omega

theorem Mailbox.UidsApart.expunge (apart : box.UidsApart) (gone : Nat → Bool) :
    (box.expunge gone).UidsApart :=
  List.Nodup.sublist (List.filter_sublist.map _) apart

/-- What an event does to the mailbox. -/
def FolderEvent.onServer (box : Mailbox) : FolderEvent → Mailbox
  | .arrival gap internalDate flags body => box.arrive gap internalDate flags body
  | .expunge gone => box.expunge gone
  | .recreate bump content => box.recreate bump content
  | _ => box

theorem folderStep_server {State : Type} (sink : MessageSink State)
    (state : FolderState State) (event : FolderEvent) :
    (folderStep sink conn state event).server = event.onServer state.server := by
  cases event <;> simp only [folderStep, FolderEvent.onServer, FolderState.passed] <;>
    repeat' (split <;> try rfl)

theorem TakenFrom.onServer (taken : TakenFrom conn box key agrees) (event : FolderEvent) :
    TakenFrom conn (event.onServer box) key agrees := by
  cases event with
  | arrival gap internalDate flags body => exact taken.arrive gap internalDate flags body
  | expunge gone => exact taken.expunge gone
  | recreate bump content => exact taken.recreate bump content
  | _ => exact taken

/-- A recreated mailbox has no UID twice either. -/
def FolderEvent.UidsApart : FolderEvent → Prop
  | .recreate _ content => content.UidsApart
  | _ => True

theorem Mailbox.UidsApart.onServer (apart : box.UidsApart) {event : FolderEvent}
    (eventApart : event.UidsApart) : (event.onServer box).UidsApart := by
  cases event with
  | arrival gap internalDate flags body => exact apart.arrive gap internalDate flags body
  | expunge gone => exact apart.expunge gone
  | recreate bump content => exact eventApart
  | _ => exact apart

/-- The passes of an honest server's supervisor submit mails of its mailbox. -/
theorem HonestEvent.offers {State : Type} {state : FolderState State} {event : FolderEvent}
    (honest : HonestEvent state event) :
    event.Offers conn fun fetched =>
      ∃ mail ∈ state.server.mails, fetched = mail.fetched conn state.server.epoch := by
  cases event with
  | cycle client now untilShutdown => exact Honest.offers honest
  | incremental client now => exact Honest.offers honest
  | _ => trivial

end Mailbox

section Completed

variable {State : Type} {sink : MessageSink State} {conn : Connection}
  (view : WatermarkStore sink conn) (box : Mailbox)

/-- Where a backfill of the mailbox stands: until it returns, what is below the next block is
handed over, and once it has returned by itself, everything is. -/
structure HandsOver (conn : Connection) (box : Mailbox)
    (backfill : BackfillRun (Recorded State)) : Prop where
  epoch : (∀ err, backfill.returned ≠ some (.error err)) → backfill.uidvalidity = box.epoch
  target : ∀ target, backfill.target = some target → target = box.uidNext - 1
  below : backfill.returned = none → ∀ mail ∈ box.mails, mail.uid < backfill.lo →
    HandedOver conn box backfill.sink.accepted mail
  completed : backfill.returned = some (.ok ()) → ∀ mail ∈ box.mails,
    HandedOver conn box backfill.sink.accepted mail

variable {view box} {client : Client}

theorem HandsOver.enter (honest : Honest box client) (state : Recorded State) :
    HandsOver conn box (enterBackfill (recorded view) client conn state) := by
  have nothingBelow : ∀ accepted, ∀ mail ∈ box.mails, mail.uid < 1 →
      HandedOver conn box accepted mail := by
    intro accepted mail held below
    have assigned := box.assigned mail held
    omega
  unfold enterBackfill
  split
  next err failed => exact ⟨fun noError => absurd rfl (noError err), nofun, nofun, nofun⟩
  next mailbox examined =>
    obtain ⟨sameEpoch, sameNext⟩ := honest.examine mailbox examined
    split
    next missing => exact ⟨fun noError => absurd rfl (noError _), nofun, nofun, nofun⟩
    next epoch reported =>
      have isTarget : ∀ target, (mailbox.uidNext.map fun n => n - 1) = some target →
          target = box.uidNext - 1 := by
        intro target mapped
        obtain ⟨uidNext, isNext, rfl⟩ := Option.map_eq_some_iff.mp mapped
        rw [sameNext uidNext isNext]
      dsimp only
      split
      next err next failed =>
        exact ⟨fun noError => absurd rfl (noError err), isTarget, nofun, nofun⟩
      next next done =>
        exact ⟨fun _ => sameEpoch epoch reported, isTarget, fun _ => nothingBelow _, nofun⟩

theorem HandsOver.turn (honest : Honest box client) (now : Int)
    {backfill : BackfillRun (Recorded State)} (handsOver : HandsOver conn box backfill) :
    HandsOver conn box (backfillTurn (recorded view) client conn now backfill) := by
  cases returned : backfill.returned with
  | some result =>
      have same : backfillTurn (recorded view) client conn now backfill = backfill := by
        simp only [backfillTurn, returned]
      rwa [same]
  | none =>
      have epoch := handsOver.epoch (by
        intro err failed
        rw [returned] at failed
        cases failed)
      have below := handsOver.below returned
      rcases backfillTurn_cases (recorded view) client conn now returned with
        ⟨finished, same⟩ | ⟨_, sameTarget, err, failed⟩ |
          ⟨batch, largest, middle, last, _, passed, same⟩
      · rw [same]
        refine ⟨fun _ => epoch, handsOver.target, ?_, fun _ mail held => below mail held ?_⟩
        · intro impossible
          cases impossible
        obtain ⟨target, isTarget, reached⟩ := Option.any_eq_true _ _ |>.mp finished
        have isLast := handsOver.target target isTarget
        have assigned := box.assigned mail held
        simp only [Bool.or_eq_true, beq_iff_eq, decide_eq_true_eq] at reached
        omega
      · refine ⟨fun noError => absurd failed (noError err), ?_, ?_, ?_⟩
        · rw [sameTarget]
          exact handsOver.target
        · rw [failed]
          intro impossible
          cases impossible
        · rw [failed]
          intro impossible
          cases impossible
      · rw [epoch] at passed
        obtain ⟨handed, _, _⟩ :=
          handedOver_batch (honest.between _ _) passed.fetched passed.submitted
        have grows := (recorded_submitBatch view batch backfill.maxUidSeen backfill.sink).2.2
        rw [passed.submitted] at grows
        have sameAccepted := (recorded_update view passed.updated).1
        have upto : ∀ mail ∈ box.mails,
            mail.uid ≤ saturatingAdd backfill.lo (incrementalFetchBatch - 1) →
            HandedOver conn box last.accepted mail := by
          intro mail held small
          rw [sameAccepted]
          by_cases earlier : mail.uid < backfill.lo
          · obtain ⟨fetched, inAccepted, isMail⟩ := below mail held earlier
            exact ⟨fetched, grows inAccepted, isMail⟩
          · exact (handed mail held ⟨by omega, small⟩).1
        rw [same]
        refine ⟨fun _ => epoch, handsOver.target, fun _ mail held small => ?_,
          fun ended mail held => ?_⟩
        · apply upto mail held
          have capped : saturatingAdd (saturatingAdd backfill.lo (incrementalFetchBatch - 1)) 1 ≤
              saturatingAdd backfill.lo (incrementalFetchBatch - 1) + 1 := Nat.min_le_left _ _
          exact Nat.le_of_lt_succ (small.trans_le capped)
        · dsimp only at ended
          split at ended
          next reached =>
            obtain ⟨target, isTarget, upToHere⟩ := Option.any_eq_true _ _ |>.mp reached
            have isLast := handsOver.target target isTarget
            have assigned := box.assigned mail held
            have inBlock := of_decide_eq_true upToHere
            exact upto mail held (by omega)
          next => cases ended

theorem HandsOver.turns (honest : Honest box client) (now : Int) (turns : Nat)
    {backfill : BackfillRun (Recorded State)} (handsOver : HandsOver conn box backfill) :
    HandsOver conn box
      ((backfillTurn (recorded view) client conn now)^[turns] backfill) := by
  induction turns generalizing backfill with
  | zero => exact handsOver
  | succ turns inductionHypothesis =>
      rw [Function.iterate_succ_apply]
      exact inductionHypothesis (handsOver.turn honest now)

end Completed

end Scryd.Imap
