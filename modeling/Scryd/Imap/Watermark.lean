import Scryd.Imap.Supervisor

/-!
# Soundness of the stored watermark

The invariant relates the stored pair to the mailbox: within the stored epoch,
every mail up to the watermark was handed over.  A pass keeps it as long as it
does not advance a watermark of one epoch under another.
-/

namespace Scryd.Imap

open Scryd.Foundation Scryd.Storage

variable {State : Type} {sink : MessageSink State} {conn : Connection}

/-- The mail was submitted under its key in the mailbox's epoch, and accepted. -/
def HandedOver (conn : Connection) (box : Mailbox) (accepted : List FetchedMessage)
    (mail : Mail) : Prop :=
  ∃ fetched ∈ accepted, fetched.key = ⟨conn.accountId, conn.folder, mail.uid, box.epoch⟩ ∧
    fetched.rawBytes = mail.body

def Covered (conn : Connection) (box : Mailbox) (accepted : List FetchedMessage)
    (uid : Nat) : Prop :=
  ∀ mail ∈ box.mails, mail.uid ≤ uid → HandedOver conn box accepted mail

theorem Covered.mono {box : Mailbox} {fewer more : List FetchedMessage} {uid : Nat}
    (covered : Covered conn box fewer uid) (grows : fewer ⊆ more) :
    Covered conn box more uid := by
  intro mail membership below
  obtain ⟨fetched, accepted, same⟩ := covered mail membership below
  exact ⟨fetched, grows accepted, same⟩

theorem covered_zero (box : Mailbox) (accepted : List FetchedMessage) :
    Covered conn box accepted 0 := by
  intro mail membership below
  have := box.assigned mail membership
  omega

/-- The pair is no lie about the mailbox: without an epoch there is no watermark, and a
watermark of the current epoch is covered and below UIDNEXT. -/
structure PairSound (conn : Connection) (box : Mailbox) (accepted : List FetchedMessage)
    (pair : Option Nat × Nat) : Prop where
  unset : pair.1 = none → pair.2 = 0
  known : ∀ v, pair.1 = some v → v ≤ box.epoch
  current : pair.1 = some box.epoch → pair.2 < box.uidNext ∧ Covered conn box accepted pair.2

theorem PairSound.mono {box : Mailbox} {fewer more : List FetchedMessage}
    {pair : Option Nat × Nat} (sound : PairSound conn box fewer pair) (grows : fewer ⊆ more) :
    PairSound conn box more pair where
  unset := sound.unset
  known := sound.known
  current := fun same => ⟨(sound.current same).1, (sound.current same).2.mono grows⟩

theorem PairSound.of_current {box : Mailbox} {accepted : List FetchedMessage} {uid : Nat}
    (below : uid < box.uidNext) (covered : Covered conn box accepted uid) :
    PairSound conn box accepted (some box.epoch, uid) where
  unset := nofun
  known := fun v same => by
    rw [Option.some.inj same]
  current := fun _ => ⟨below, covered⟩

/-- The pair is usable by a pass in this epoch. -/
def Usable (box : Mailbox) (pair : Option Nat × Nat) : Prop :=
  pair.1 = none ∨ pair.1 = some box.epoch

theorem PairSound.usable_watermark {box : Mailbox} {accepted : List FetchedMessage}
    {pair : Option Nat × Nat} (sound : PairSound conn box accepted pair)
    (usable : Usable box pair) :
    pair.2 < box.uidNext ∧ Covered conn box accepted pair.2 := by
  rcases usable with unset | current
  · rw [sound.unset unset]
    exact ⟨box.positive, covered_zero box accepted⟩
  · exact sound.current current

section Mailbox

variable {box : Mailbox} {accepted : List FetchedMessage}

theorem covered_arrive {uid : Nat} (covered : Covered conn box accepted uid)
    (below : uid < box.uidNext) (gap : Nat) (internalDate : Option Int) (flags : List String)
    (body : List UInt8) :
    Covered conn (box.arrive gap internalDate flags body) accepted uid := by
  intro mail membership small
  rcases List.mem_append.mp membership with old | new
  · exact covered mail old small
  · rw [List.mem_singleton.mp new] at small
    dsimp only at small
    omega

theorem covered_expunge {uid : Nat} (covered : Covered conn box accepted uid)
    (gone : Nat → Bool) : Covered conn (box.expunge gone) accepted uid :=
  fun mail membership small => covered mail (List.mem_filter.mp membership).1 small

theorem PairSound.arrive {pair : Option Nat × Nat} (sound : PairSound conn box accepted pair)
    (gap : Nat) (internalDate : Option Int) (flags : List String) (body : List UInt8) :
    PairSound conn (box.arrive gap internalDate flags body) accepted pair where
  unset := sound.unset
  known := sound.known
  current := fun same => by
    obtain ⟨below, covered⟩ := sound.current same
    refine ⟨?_, covered_arrive covered below gap internalDate flags body⟩
    simp only [Mailbox.arrive]
    omega

theorem PairSound.expunge {pair : Option Nat × Nat} (sound : PairSound conn box accepted pair)
    (gone : Nat → Bool) : PairSound conn (box.expunge gone) accepted pair where
  unset := sound.unset
  known := sound.known
  current := fun same =>
    ⟨(sound.current same).1, covered_expunge (sound.current same).2 gone⟩

theorem PairSound.recreate {pair : Option Nat × Nat} (sound : PairSound conn box accepted pair)
    (bump : Nat) (content : Mailbox) :
    PairSound conn (box.recreate bump content) accepted pair where
  unset := sound.unset
  known := fun v same => by
    have := sound.known v same
    simp only [Mailbox.recreate]
    omega
  current := fun same => by
    -- The stored epoch is an older one.
    have := sound.known _ same
    simp only [Mailbox.recreate] at this
    omega

end Mailbox

section Sink

variable (view : WatermarkStore sink conn)

/-- The pair stored for the folder. -/
def Recorded.pair (state : Recorded State) : Option Nat × Nat := view.pair state.inner

/-- A submit changes no pair and only adds to what was accepted. -/
theorem recorded_submit (fetched : FetchedMessage) (state : Recorded State) :
    ((recorded view).submit fetched state).2.pair view = state.pair view ∧
      ((recorded view).submit fetched state).2.stored = state.stored ∧
      state.accepted ⊆ ((recorded view).submit fetched state).2.accepted ∧
      (((recorded view).submit fetched state).1 = .ok () →
        fetched ∈ ((recorded view).submit fetched state).2.accepted) := by
  have pair := view.submit_pair fetched state.inner
  simp only [recorded, Recorded.pair]
  split
  next err next failed =>
    rw [failed] at pair
    exact ⟨pair, rfl, List.Subset.refl _, nofun⟩
  next next done =>
    rw [done] at pair
    exact ⟨pair, rfl, List.subset_append_left _ _, fun _ => by simp⟩

theorem recorded_submit_inner (fetched : FetchedMessage) (state : Recorded State) :
    ((recorded view).submit fetched state).2.inner = (sink.submit fetched state.inner).2 := by
  simp only [recorded]
  split
  next err next failed => rw [failed]
  next next done => rw [done]

theorem recorded_submitBatch (batch : List FetchedMessage) (maxUidSeen : Nat)
    (state : Recorded State) :
    (submitBatch (recorded view) batch maxUidSeen state).2.pair view = state.pair view ∧
      (submitBatch (recorded view) batch maxUidSeen state).2.stored = state.stored ∧
      state.accepted ⊆ (submitBatch (recorded view) batch maxUidSeen state).2.accepted := by
  refine @submitBatch_preserves _ (recorded view) (fun next => next.pair view = state.pair view ∧
    next.stored = state.stored ∧ state.accepted ⊆ next.accepted) ?_ batch maxUidSeen state
    ⟨rfl, rfl, List.Subset.refl _⟩
  rintro fetched next ⟨pair, stored, grows⟩
  obtain ⟨samePair, sameStored, grows', _⟩ := recorded_submit view fetched next
  exact ⟨samePair.trans pair, sameStored.trans stored, List.Subset.trans grows grows'⟩

/-- A batch that went through was accepted as a whole. -/
theorem recorded_submitBatch_accepted {batch : List FetchedMessage} {maxUidSeen largest : Nat}
    {state next : Recorded State}
    (submitted : submitBatch (recorded view) batch maxUidSeen state = (.ok largest, next)) :
    ∀ fetched ∈ batch, fetched ∈ next.accepted := by
  induction batch generalizing maxUidSeen state with
  | nil => exact nofun
  | cons fetched rest inductionHypothesis =>
      have head := (recorded_submit view fetched state).2.2.2
      simp only [submitBatch] at submitted
      split at submitted
      next err after failed => cases submitted
      next after accepted =>
        rw [accepted] at head
        have grows := (recorded_submitBatch view rest (max maxUidSeen fetched.serverUid) after).2.2
        rw [submitted] at grows
        intro other membership
        rcases List.mem_cons.mp membership with rfl | later
        · exact grows (head rfl)
        · exact inductionHypothesis submitted other later

/-- An update accepts nothing, records the pair it leaves behind and otherwise does what
the sink does. -/
theorem recorded_update {update : SyncStateUpdate} {state next : Recorded State}
    {result : Except ClientError Unit}
    (updated : (recorded view).updateSyncState conn.accountId conn.folder update state =
      (result, next)) :
    next.accepted = state.accepted ∧ next.stored = state.stored ++ [next.pair view] ∧
      (result = .ok () → next.pair view = (update.uidvalidity.or (state.pair view).1,
        update.lastSeenUid.getD (state.pair view).2)) ∧
      (next.pair view = state.pair view ∨
        next.pair view = (update.uidvalidity.or (state.pair view).1,
          update.lastSeenUid.getD (state.pair view).2) ∨
        (view.torn state.inner ∧ update.uidvalidity.isSome ∧ update.lastSeenUid.isSome ∧
          next.pair view = (update.uidvalidity, (state.pair view).2))) := by
  cases updated
  exact ⟨rfl, rfl, view.update_ok update state.inner,
    view.update_pair update state.inner _ rfl⟩

theorem recorded_read {state next : Recorded State} {result : Except ClientError (Option Nat)}
    (read : (recorded view).storedUidvalidity conn.accountId conn.folder state =
      (result, next)) :
    next.accepted = state.accepted ∧ next.stored = state.stored ∧
      next.pair view = state.pair view ∧
      next.inner = (sink.storedUidvalidity conn.accountId conn.folder state.inner).2 ∧
      result = (sink.storedUidvalidity conn.accountId conn.folder state.inner).1 ∧
      ∀ stored, result = .ok stored → stored = (state.pair view).1 := by
  cases read
  exact ⟨rfl, rfl, view.read_pair state.inner, rfl, rfl, view.read_result state.inner⟩

variable {view} {box : Mailbox}

/-- Writing a covered watermark under the current epoch, or none, keeps the pair sound.  Where
the stored epoch is another one, a watermark has to be written with it. -/
theorem pairSound_update {state next : Recorded State} {result : Except ClientError Unit}
    (sound : PairSound conn box state.accepted (state.pair view)) {seen : Option Nat}
    (admissible : Usable box (state.pair view) ∨ (seen.isSome ∧ ¬ view.torn state.inner))
    (covered : ∀ uid, seen = some uid → uid < box.uidNext ∧
      Covered conn box state.accepted uid) {now : Int}
    (updated : (recorded view).updateSyncState conn.accountId conn.folder
      (passUpdate box.epoch seen now) state = (result, next)) :
    next.accepted = state.accepted ∧
      PairSound conn box next.accepted (next.pair view) ∧
      (Usable box (state.pair view) → Usable box (next.pair view)) ∧
      (result = .ok () → (next.pair view).1 = some box.epoch) := by
  obtain ⟨accepted, _, ok, pairCases⟩ := recorded_update view updated
  simp only [passUpdate, Option.some_or] at ok pairCases
  refine ⟨accepted, ?_⟩
  rw [accepted]
  have newSound : ∀ uid, uid < box.uidNext ∧ Covered conn box state.accepted uid →
      next.pair view = (some box.epoch, uid) →
      PairSound conn box state.accepted (next.pair view) ∧
        (Usable box (state.pair view) → Usable box (next.pair view)) ∧
        (result = .ok () → (next.pair view).1 = some box.epoch) := by
    rintro uid ⟨below, covers⟩ same
    rw [same]
    exact ⟨.of_current below covers, fun _ => .inr rfl, fun _ => rfl⟩
  rcases pairCases with same | merged | ⟨torn, _, _, mixed⟩
  · rw [same] at ok ⊢
    exact ⟨sound, id, fun succeeded => by rw [ok succeeded]⟩
  · cases seen with
    | none =>
        rcases admissible with usable | ⟨written, _⟩
        · exact newSound _ (sound.usable_watermark usable) merged
        · cases written
    | some uid => exact newSound _ (covered uid rfl) merged
  · rcases admissible with usable | ⟨_, intact⟩
    · exact newSound _ (sound.usable_watermark usable) mixed
    · exact absurd torn intact

/-- A parsed response of an honest client is the mail under its key. -/
theorem parseFetchRow_row {mail : Mail} {epoch : Nat} {fetched : FetchedMessage}
    (parsed : parseFetchRow conn epoch mail.row = .ok fetched) :
    fetched.key = ⟨conn.accountId, conn.folder, mail.uid, epoch⟩ ∧
      fetched.rawBytes = mail.body := by
  cases parsed
  exact ⟨rfl, rfl⟩

/-- A batch that went through, from a client that answers with the selected mails. -/
theorem handedOver_batch {client : Client} {range : UidRange} {selected : Mail → Prop}
    (answers : ∀ rows, client.uidFetch range = .ok rows →
      ∀ row, row ∈ rows ↔ ∃ mail ∈ box.mails, selected mail ∧ row = mail.row)
    {batch : List FetchedMessage}
    (fetched : fetchBatch client range conn box.epoch = .ok batch) {start largest : Nat}
    {state next : Recorded State}
    (submitted : submitBatch (recorded view) batch start state = (.ok largest, next)) :
    (∀ mail ∈ box.mails, selected mail →
      HandedOver conn box next.accepted mail ∧ mail.uid ≤ largest) ∧
      start ≤ largest ∧
      (largest = start ∨ ∃ mail ∈ box.mails, selected mail ∧ mail.uid = largest) := by
  obtain ⟨rows, answered, _, toBatch⟩ := fetchBatch_ok fetched
  have allAccepted := recorded_submitBatch_accepted view submitted
  refine ⟨?_, submitBatch_grows submitted, ?_⟩
  · intro mail membership isSelected
    have inRows := (answers rows answered mail.row).mpr ⟨mail, membership, isSelected, rfl⟩
    obtain ⟨message, inBatch, parsed⟩ := toBatch mail.row inRows
    obtain ⟨key, body⟩ := parseFetchRow_row parsed
    exact ⟨⟨message, allAccepted message inBatch, key, body⟩,
      submitBatch_reaches fetched submitted answered inRows rfl⟩
  · rcases submitBatch_attains fetched submitted answered with same | ⟨row, inRows, isUid⟩
    · exact .inl same
    · obtain ⟨mail, membership, isSelected, rfl⟩ := (answers rows answered row).mp inRows
      exact .inr ⟨mail, membership, isSelected, Option.some.inj isUid⟩

/-- A block of a backfill that went through: everything up to its end is handed over, and the
largest UID seen is covered. -/
theorem block_covered {client : Client} (honest : Honest box client) {lo hi maxUidSeen : Nat}
    {batch : List FetchedMessage} {largest : Nat} {state next : Recorded State}
    (below : ∀ mail ∈ box.mails, mail.uid < lo → HandedOver conn box state.accepted mail)
    (small : maxUidSeen < box.uidNext) (seen : Covered conn box state.accepted maxUidSeen)
    (fetched : fetchBatch client (.between lo hi) conn box.epoch = .ok batch)
    (submitted : submitBatch (recorded view) batch maxUidSeen state = (.ok largest, next)) :
    Covered conn box next.accepted hi ∧
      largest < box.uidNext ∧ Covered conn box next.accepted largest := by
  have grows := (recorded_submitBatch view batch maxUidSeen state).2.2
  rw [submitted] at grows
  obtain ⟨handed, _, attained⟩ := handedOver_batch (honest.between _ _) fetched submitted
  have uptoHi : Covered conn box next.accepted hi := by
    intro mail membership upto
    by_cases earlier : mail.uid < lo
    · obtain ⟨message, accepted, same⟩ := below mail membership earlier
      exact ⟨message, grows accepted, same⟩
    · exact (handed mail membership ⟨by omega, upto⟩).1
  refine ⟨uptoHi, ?_⟩
  rcases attained with same | ⟨mail, membership, ⟨_, inBlock⟩, same⟩
  · rw [same]
    exact ⟨small, seen.mono grows⟩
  · rw [← same]
    refine ⟨(box.assigned mail membership).2, fun other otherIn smaller => ?_⟩
    exact uptoHi other otherIn (by omega)

/-- The loop keeps the pair sound: below `lo` and up to the largest UID seen, everything has
been handed over. -/
theorem backfillLoop_sound {client : Client} (honest : Honest box client)
    (target : Option Nat) (now : Int) (untilShutdown : Nat) :
    ∀ (lo maxUidSeen : Nat) (state : Recorded State),
      PairSound conn box state.accepted (state.pair view) → Usable box (state.pair view) →
      (∀ mail ∈ box.mails, mail.uid < lo → HandedOver conn box state.accepted mail) →
      maxUidSeen < box.uidNext → Covered conn box state.accepted maxUidSeen →
      PairSound conn box
        (backfillLoop (recorded view) client conn box.epoch target now untilShutdown lo
          maxUidSeen state).2.accepted
        ((backfillLoop (recorded view) client conn box.epoch target now untilShutdown lo
          maxUidSeen state).2.pair view) := by
  induction untilShutdown with
  | zero => exact fun _ _ _ sound _ _ _ _ => sound
  | succ untilShutdown inductionHypothesis =>
      intro lo maxUidSeen state sound usable below small seen
      rcases backfillLoop_cases (recorded view) client conn box.epoch target now untilShutdown lo
        maxUidSeen state with ⟨_, same⟩ | ⟨err, same⟩ | ⟨batch, err, next, failed, same⟩ |
          ⟨batch, largest, next, result, last, passed, outcome⟩
      · rw [same]
        exact sound
      · rw [same]
        exact sound
      · obtain ⟨samePair, _, grows⟩ := recorded_submitBatch view batch maxUidSeen state
        rw [failed] at samePair grows
        rw [same, samePair]
        exact sound.mono grows
      · obtain ⟨samePair, _, grows⟩ := recorded_submitBatch view batch maxUidSeen state
        rw [passed.submitted] at samePair grows
        obtain ⟨uptoHi, largestSeen⟩ :=
          block_covered honest below small seen passed.fetched passed.submitted
        rw [← samePair] at sound usable
        have covered : ∀ uid, lastSeenUidUpdate largest = some uid →
            uid < box.uidNext ∧ Covered conn box next.accepted uid := by
          intro uid isLargest
          unfold lastSeenUidUpdate at isLargest
          split at isLargest
          next =>
            cases isLargest
            exact largestSeen
          next => cases isLargest
        obtain ⟨accepted, lastSound, lastUsable, _⟩ :=
          pairSound_update (sound.mono grows) (.inl usable) covered passed.updated
        rcases outcome with same | ⟨rfl, same⟩
        · rw [same]
          exact lastSound
        · rw [same]
          refine inductionHypothesis _ _ last lastSound (lastUsable usable) ?_ largestSeen.1 ?_
          · intro mail membership beforeNext
            rw [accepted]
            apply uptoHi mail membership
            unfold saturatingAdd at beforeNext ⊢
            omega
          · rw [accepted]
            exact largestSeen.2

/-- What a backfill needs of the moment it starts: the stored epoch is the server's or unset,
or it can be read and the reset is not torn. -/
def CleanReset (view : WatermarkStore sink conn) (box : Mailbox) (state : Recorded State) :
    Prop :=
  Usable box (state.pair view) ∨
    ((sink.storedUidvalidity conn.accountId conn.folder state.inner).1 =
        .ok (state.pair view).1 ∧
      ¬ view.torn (sink.storedUidvalidity conn.accountId conn.folder state.inner).2)

/-- After the reset the pair is sound, and if it succeeded usable in the new epoch. -/
theorem resetIfChanged_sound {state next : Recorded State} {result : Except ClientError Unit}
    (sound : PairSound conn box state.accepted (state.pair view))
    (clean : CleanReset view box state)
    (reset : resetIfChanged (recorded view) conn box.epoch state = (result, next)) :
    next.accepted = state.accepted ∧
      PairSound conn box next.accepted (next.pair view) ∧
      (result = .ok () → Usable box (next.pair view)) := by
  obtain ⟨read, middle, answer, cases⟩ := resetIfChanged_cases (recorded view) conn box.epoch state
  obtain ⟨accepted, _, samePair, inner, isResult, isStored⟩ := recorded_read view answer
  rcases cases with ⟨stored, rfl, changed, same⟩ | ⟨current, same⟩
  · have storedEpoch := isStored _ rfl
    rw [same] at reset
    obtain ⟨sameAccepted, _, ok, pairCases⟩ := recorded_update view reset
    simp only [Option.some_or, Option.getD_some, samePair] at ok pairCases
    have resetSound : PairSound conn box next.accepted (some box.epoch, 0) :=
      .of_current box.positive (covered_zero box _)
    refine ⟨sameAccepted.trans accepted, ?_, fun succeeded => by
      rw [ok succeeded]
      exact .inr rfl⟩
    rcases pairCases with same | merged | ⟨torn, _⟩
    · rw [same, sameAccepted, accepted]
      exact sound
    · rw [merged]
      exact resetSound
    · -- The stored epoch is neither unset nor current, so the reset was to be clean.
      rcases clean with (unset | current) | ⟨_, intact⟩
      · rw [unset] at storedEpoch
        cases storedEpoch
      · rw [current] at storedEpoch
        exact absurd (Option.some.inj storedEpoch) changed
      · rw [inner] at torn
        exact absurd torn intact
  · rw [same] at reset
    cases reset
    refine ⟨accepted, by rwa [accepted, samePair], fun _ => ?_⟩
    rw [samePair]
    rcases clean with usable | ⟨readable, _⟩
    · exact usable
    · rw [readable] at isResult
      cases epoch : (state.pair view).1 with
      | none => exact .inl epoch
      | some stored =>
          rw [epoch] at isResult
          apply Or.inr
          rw [epoch, current stored isResult]

/-- A backfill keeps the pair sound. -/
theorem runInitialBackfill_sound {client : Client} (honest : Honest box client) (now : Int)
    (untilShutdown : Nat) {state : Recorded State}
    (sound : PairSound conn box state.accepted (state.pair view))
    (clean : CleanReset view box state) {result : Except ClientError Unit}
    {next : Recorded State}
    (ran : runInitialBackfill (recorded view) client conn now untilShutdown state =
      (result, next)) :
    PairSound conn box next.accepted (next.pair view) := by
  rcases runInitialBackfill_cases (recorded view) client conn now untilShutdown state with
    ⟨err, same⟩ | ⟨mailbox, v, examined, reported, ⟨err, middle, reset, same⟩ |
      ⟨middle, reset, same⟩⟩
  · rw [same] at ran
    cases ran
    exact sound
  · rw [(honest.examine mailbox examined).1 v reported] at reset
    rw [same] at ran
    cases ran
    exact (resetIfChanged_sound sound clean reset).2.1
  · rw [(honest.examine mailbox examined).1 v reported] at reset same
    obtain ⟨_, middleSound, middleUsable⟩ := resetIfChanged_sound sound clean reset
    have after := backfillLoop_sound honest (mailbox.uidNext.map fun n => n - 1) now
      untilShutdown 1 0 middle middleSound (middleUsable rfl) (fun mail membership small => by
        have := box.assigned mail membership
        omega) box.positive (covered_zero box _)
    rwa [← same, ran] at after

/-- All of the mailbox is above the watermark, and there is some of it. -/
def Above (box : Mailbox) (uid : Nat) : Prop :=
  box.mails ≠ [] ∧ ∀ mail ∈ box.mails, uid < mail.uid

theorem Above.below_uidNext {uid : Nat} (above : Above box uid) : uid < box.uidNext := by
  obtain ⟨mail, membership⟩ := List.exists_mem_of_ne_nil _ above.1
  have := above.2 mail membership
  have := box.assigned mail membership
  omega

theorem Above.covered {uid : Nat} (above : Above box uid) (accepted : List FetchedMessage) :
    Covered conn box accepted uid := by
  intro mail membership small
  have := above.2 mail membership
  omega

/-- The update that follows a batch will not be torn, whatever the batch is. -/
def IntactAfter (view : WatermarkStore sink conn) (state : Recorded State) : Prop :=
  ∀ batch maxUidSeen, ¬ view.torn (submitBatch (recorded view) batch maxUidSeen state).2.inner

/-- What an incremental pass needs of the moment it starts: the stored epoch is the server's
or unset, or the pass is going to fetch the whole mailbox. -/
def CleanPass (view : WatermarkStore sink conn) (box : Mailbox) (lastSeenUid : Nat)
    (state : Recorded State) : Prop :=
  Usable box (state.pair view) ∨ (Above box lastSeenUid ∧ IntactAfter view state)

/-- What is above a covered watermark went through: the whole mailbox is handed over. -/
theorem onward_covered {client : Client} (honest : Honest box client) {lastSeenUid : Nat}
    {batch : List FetchedMessage} {largest : Nat} {state next : Recorded State}
    (below : lastSeenUid < box.uidNext) (covered : Covered conn box state.accepted lastSeenUid)
    (fetched : fetchBatch client (.onward (saturatingAdd lastSeenUid 1)) conn box.epoch =
      .ok batch)
    (submitted : submitBatch (recorded view) batch lastSeenUid state = (.ok largest, next)) :
    (∀ uid, Covered conn box next.accepted uid) ∧ largest < box.uidNext ∧
      ∀ mail ∈ box.mails, lastSeenUid < mail.uid → mail.uid ≤ largest := by
  have grows := (recorded_submitBatch view batch lastSeenUid state).2.2
  rw [submitted] at grows
  obtain ⟨handed, _, attained⟩ := handedOver_batch (honest.onward _) fetched submitted
  have newer : ∀ mail ∈ box.mails, lastSeenUid < mail.uid →
      HandedOver conn box next.accepted mail ∧ mail.uid ≤ largest := by
    intro mail membership above
    apply handed mail membership
    unfold saturatingAdd
    omega
  refine ⟨?_, ?_, fun mail membership above => (newer mail membership above).2⟩
  · -- Below the old watermark by assumption, above it by this batch.
    intro uid mail membership _
    by_cases old : mail.uid ≤ lastSeenUid
    · exact covered.mono grows mail membership old
    · exact (newer mail membership (by omega)).1
  · rcases attained with same | ⟨mail, membership, _, same⟩
    · omega
    · have := box.assigned mail membership
      omega

/-- An incremental pass from a covered watermark keeps the pair sound, and the watermark it
returns is covered too. -/
theorem runIncremental_sound {client : Client} (honest : Honest box client) (now : Int)
    {lastSeenUid : Nat} {state : Recorded State}
    (sound : PairSound conn box state.accepted (state.pair view))
    (clean : CleanPass view box lastSeenUid state)
    (below : lastSeenUid < box.uidNext)
    (covered : Covered conn box state.accepted lastSeenUid)
    {result : Except ClientError Nat} {next : Recorded State}
    (ran : runIncremental (recorded view) client conn now lastSeenUid state = (result, next)) :
    PairSound conn box next.accepted (next.pair view) ∧
      ∀ newUid, result = .ok newUid → (next.pair view).1 = some box.epoch ∧
        lastSeenUid ≤ newUid ∧ newUid < box.uidNext ∧ Covered conn box next.accepted newUid := by
  rcases runIncremental_cases (recorded view) client conn now lastSeenUid state with
    ⟨err, same⟩ | ⟨mailbox, v, examined, reported, ⟨batch, err, middle, failed, same⟩ |
      ⟨batch, largest, middle, written, last, passed, same⟩⟩
  · rw [same] at ran
    cases ran
    exact ⟨sound, nofun⟩
  · obtain ⟨samePair, _, grows⟩ := recorded_submitBatch view batch lastSeenUid state
    rw [failed] at samePair grows
    rw [same] at ran
    cases ran
    rw [samePair]
    exact ⟨sound.mono grows, nofun⟩
  · rw [(honest.examine mailbox examined).1 v reported] at passed
    obtain ⟨samePair, _, grows⟩ := recorded_submitBatch view batch lastSeenUid state
    rw [passed.submitted] at samePair grows
    obtain ⟨everything, largestBelow, newer⟩ :=
      onward_covered honest below covered passed.fetched passed.submitted
    have admissible : Usable box (middle.pair view) ∨
        ((if lastSeenUid < largest then some largest else none).isSome ∧
          ¬ view.torn middle.inner) := by
      rw [samePair]
      rcases clean with usable | ⟨above, intact⟩
      · exact .inl usable
      · have notTorn := intact batch lastSeenUid
        rw [passed.submitted] at notTorn
        obtain ⟨mail, membership⟩ := List.exists_mem_of_ne_nil _ above.1
        have higher := above.2 mail membership
        have reached := newer mail membership higher
        rw [if_pos (by omega)]
        exact .inr ⟨rfl, notTorn⟩
    rw [← samePair] at sound
    have seen : ∀ uid, (if lastSeenUid < largest then some largest else none) = some uid →
        uid < box.uidNext ∧ Covered conn box middle.accepted uid := by
      intro uid isLargest
      split at isLargest
      next =>
        cases isLargest
        exact ⟨largestBelow, everything largest⟩
      next => cases isLargest
    obtain ⟨accepted, lastSound, _, current⟩ :=
      pairSound_update (sound.mono grows) admissible seen passed.updated
    rw [same] at ran
    cases written with
    | error err =>
        cases ran
        exact ⟨lastSound, nofun⟩
    | ok done =>
        cases ran
        refine ⟨lastSound, fun newUid same => ?_⟩
        cases same
        exact ⟨current rfl, submitBatch_grows passed.submitted, largestBelow,
          accepted ▸ everything largest⟩

/-- An update of other columns leaves the pair alone. -/
theorem recorded_housekeeping {update : SyncStateUpdate} (noEpoch : update.uidvalidity = none)
    (noWatermark : update.lastSeenUid = none) (state : Recorded State) :
    ((recorded view).updateSyncState conn.accountId conn.folder update state).2.pair view =
      state.pair view := by
  have pairCases := (@recorded_update _ _ _ view update state _ _ rfl).2.2.2
  simp only [noEpoch, noWatermark, Option.none_or, Option.getD_none, Option.isSome_none,
    Bool.false_eq_true, false_and, and_false, or_false, or_self] at pairCases
  exact pairCases

theorem recorded_scan (client : Client) (localUids : List Nat) (state : Recorded State) :
    (scan (recorded view) client conn localUids state).2.pair view = state.pair view ∧
      (scan (recorded view) client conn localUids state).2.accepted = state.accepted ∧
      (scan (recorded view) client conn localUids state).2.stored = state.stored := by
  refine @scan_preserves _ (recorded view) client conn localUids (fun next =>
    next.pair view = state.pair view ∧ next.accepted = state.accepted ∧
      next.stored = state.stored) ?_ state ⟨rfl, rfl, rfl⟩
  rintro uid next ⟨pair, accepted, stored⟩
  exact ⟨(view.tombstone_pair (scanId conn uid) next.inner).trans pair, accepted, stored⟩

end Sink

section Run

variable (view : WatermarkStore sink conn)

/-- Between passes: whatever the server held at the last pass in the stored epoch, up to the
stored watermark, was handed to the sink and accepted. -/
def WatermarkSound (state : FolderState (Recorded State)) : Prop :=
  ∀ v n, state.sink.pair view = (some v, n) → ∀ box, state.lastPass = some box → box.epoch = v →
    ∀ mail ∈ box.mails, mail.uid ≤ n → HandedOver conn box state.sink.accepted mail

/-- Every client of the run answers for the mailbox as it is at that moment. -/
def HonestEvent (state : FolderState State) : FolderEvent → Prop
  | .cycle client _ _ => Honest state.server client
  | .incremental client _ => Honest state.server client
  | .tombstoneScan client _ => Honest state.server client
  | _ => True

/-- No pass carries a watermark into another epoch: where the stored epoch is neither unset nor
the server's, a backfill's reset goes through and an incremental pass starts below all of the
mailbox. -/
def EpochSafe (state : FolderState (Recorded State)) : FolderEvent → Prop
  | .cycle _ _ _ => state.phase = .disconnected → CleanReset view state.server state.sink
  | .incremental _ _ => ∀ lastSeenUid, state.phase = .idling lastSeenUid →
      CleanPass view state.server lastSeenUid state.sink
  | _ => True

/-- The invariant of a run.  A watermark in memory is the loop's initial zero, or covered
in the stored epoch. -/
structure FolderInvariant (state : FolderState (Recorded State)) : Prop where
  sound : PairSound conn state.server state.sink.accepted (state.sink.pair view)
  carried : state.phase ≠ .stopped → state.carried = 0
  idle : ∀ lastSeenUid, state.phase = .idling lastSeenUid → lastSeenUid = 0 ∨
    ∃ v, (state.sink.pair view).1 = some v ∧ (v = state.server.epoch →
      lastSeenUid < state.server.uidNext ∧
        Covered conn state.server state.sink.accepted lastSeenUid)
  lastPass : ∀ box, state.lastPass = some box → (state.sink.pair view).1 = some box.epoch →
    Covered conn box state.sink.accepted (state.sink.pair view).2

variable {view} {state : FolderState (Recorded State)}

theorem FolderInvariant.watermarkSound (invariant : FolderInvariant view state) :
    WatermarkSound view state := by
  intro v n pair box last epoch mail membership small
  apply invariant.lastPass box last (by rw [pair, epoch]) mail membership
  rw [pair]
  exact small

/-- A call that changes neither the pair nor what was accepted. -/
theorem FolderInvariant.keep (invariant : FolderInvariant view state) {next : Recorded State}
    (pair : next.pair view = state.sink.pair view)
    (accepted : next.accepted = state.sink.accepted) :
    FolderInvariant view { state with sink := next } where
  sound := by simpa only [pair, accepted] using invariant.sound
  carried := invariant.carried
  idle := by simpa only [pair, accepted] using invariant.idle
  lastPass := by simpa only [pair, accepted] using invariant.lastPass

/-- The end of a pass that left a sound pair. -/
theorem FolderInvariant.passed (invariant : FolderInvariant view state)
    (running : state.phase ≠ .stopped) {next : Recorded State} {phase : Phase}
    (sound : PairSound conn state.server next.accepted (next.pair view))
    (idle : ∀ lastSeenUid, phase = .idling lastSeenUid → lastSeenUid = 0 ∨
      ((next.pair view).1 = some state.server.epoch ∧ lastSeenUid < state.server.uidNext ∧
        Covered conn state.server next.accepted lastSeenUid)) :
    FolderInvariant view (state.passed next phase) where
  sound := sound
  carried := fun _ => invariant.carried running
  idle := by
    intro lastSeenUid isIdle
    rcases idle lastSeenUid isIdle with zero | ⟨epoch, covered⟩
    · exact .inl zero
    · exact .inr ⟨_, epoch, fun _ => covered⟩
  lastPass := by
    intro box isServer current
    cases isServer
    exact (sound.current current).2

theorem FolderInvariant.arrive (invariant : FolderInvariant view state) (gap : Nat)
    (internalDate : Option Int) (flags : List String) (body : List UInt8) :
    FolderInvariant view
      { state with server := state.server.arrive gap internalDate flags body } where
  sound := invariant.sound.arrive gap internalDate flags body
  carried := invariant.carried
  idle := by
    intro lastSeenUid isIdle
    rcases invariant.idle lastSeenUid isIdle with zero | ⟨v, stored, current⟩
    · exact .inl zero
    · apply Or.inr
      refine ⟨v, stored, fun same => ?_⟩
      obtain ⟨below, covered⟩ := current same
      refine ⟨?_, covered_arrive covered below gap internalDate flags body⟩
      simp only [Mailbox.arrive]
      omega
  lastPass := invariant.lastPass

theorem FolderInvariant.expunge (invariant : FolderInvariant view state) (gone : Nat → Bool) :
    FolderInvariant view { state with server := state.server.expunge gone } where
  sound := invariant.sound.expunge gone
  carried := invariant.carried
  idle := by
    intro lastSeenUid isIdle
    rcases invariant.idle lastSeenUid isIdle with zero | ⟨v, stored, current⟩
    · exact .inl zero
    · exact .inr ⟨v, stored, fun same =>
        ⟨(current same).1, covered_expunge (current same).2 gone⟩⟩
  lastPass := invariant.lastPass

theorem FolderInvariant.recreate (invariant : FolderInvariant view state) (bump : Nat)
    (content : Mailbox) :
    FolderInvariant view { state with server := state.server.recreate bump content } where
  sound := invariant.sound.recreate bump content
  carried := invariant.carried
  idle := by
    intro lastSeenUid isIdle
    rcases invariant.idle lastSeenUid isIdle with zero | ⟨v, stored, _⟩
    · exact .inl zero
    · -- The watermark in memory belongs to an older epoch now.
      apply Or.inr
      refine ⟨v, stored, fun same => ?_⟩
      have := invariant.sound.known v stored
      simp only [Mailbox.recreate] at same
      omega
  lastPass := invariant.lastPass

theorem FolderInvariant.cycle (invariant : FolderInvariant view state) {client : Client}
    (honest : Honest state.server client) (now : Int) (untilShutdown : Nat)
    (clean : state.phase = .disconnected → CleanReset view state.server state.sink) :
    FolderInvariant view
      (folderStep (recorded view) conn state (.cycle client now untilShutdown)) := by
  simp only [folderStep]
  split
  next disconnected =>
    have running : state.phase ≠ .stopped := by
      rw [disconnected]
      exact nofun
    have backfilled := @runInitialBackfill_sound _ _ _ view _ _ honest now untilShutdown _
      invariant.sound (clean disconnected)
    split
    next err next ran => exact invariant.passed running (backfilled ran) nofun
    next next ran =>
      apply invariant.passed running (backfilled ran)
      intro lastSeenUid isCarried
      cases isCarried
      exact .inl (invariant.carried running)
  next => exact invariant

/-- The watermark a loop carries is covered in the epoch of a pass that is clean. -/
theorem FolderInvariant.covered_of_cleanPass (invariant : FolderInvariant view state)
    {lastSeenUid : Nat} (idling : state.phase = .idling lastSeenUid)
    (clean : CleanPass view state.server lastSeenUid state.sink) :
    lastSeenUid < state.server.uidNext ∧
      Covered conn state.server state.sink.accepted lastSeenUid := by
  rcases invariant.idle lastSeenUid idling with zero | ⟨v, stored, current⟩
  · rw [zero]
    exact ⟨state.server.positive, covered_zero _ _⟩
  · rcases clean with (unset | epoch) | ⟨above, _⟩
    · rw [unset] at stored
      cases stored
    · rw [epoch] at stored
      exact current (Option.some.inj stored).symm
    · exact ⟨above.below_uidNext, above.covered _⟩

theorem FolderInvariant.incremental (invariant : FolderInvariant view state) {client : Client}
    (honest : Honest state.server client) (now : Int)
    (clean : ∀ lastSeenUid, state.phase = .idling lastSeenUid →
      CleanPass view state.server lastSeenUid state.sink) :
    FolderInvariant view (folderStep (recorded view) conn state (.incremental client now)) := by
  simp only [folderStep]
  split
  next lastSeenUid idling =>
    have running : state.phase ≠ .stopped := by
      rw [idling]
      exact nofun
    obtain ⟨below, covered⟩ := invariant.covered_of_cleanPass idling (clean lastSeenUid idling)
    have passed := @runIncremental_sound _ _ _ view _ _ honest now _ _ invariant.sound
      (clean lastSeenUid idling) below covered
    split
    next err next ran => exact invariant.passed running (passed ran).1 nofun
    next newUid next ran =>
      obtain ⟨sound, result⟩ := passed ran
      apply invariant.passed running sound
      intro watermark isNew
      cases isNew
      obtain ⟨epoch, atLeast, coveredNew⟩ := result newUid rfl
      rw [Nat.max_eq_right atLeast]
      exact .inr ⟨epoch, coveredNew⟩
  next => exact invariant

theorem FolderInvariant.tombstoneScan (invariant : FolderInvariant view state)
    (client : Client) (uidvalidity : Nat) :
    FolderInvariant view
      (folderStep (recorded view) conn state (.tombstoneScan client uidvalidity)) := by
  simp only [folderStep]
  split
  next lastSeenUid idling =>
    have listed := view.listed_pair uidvalidity state.sink.inner
    obtain ⟨pair, accepted, _⟩ := recorded_scan client
      (((recorded view).listLocalUids conn.accountId conn.folder uidvalidity
        state.sink).1.toOption.getD [])
      ((recorded view).listLocalUids conn.accountId conn.folder uidvalidity state.sink).2
    exact invariant.keep (pair.trans listed) accepted
  next => exact invariant

/-- One event keeps the invariant. -/
theorem folderStep_invariant (state : FolderState (Recorded State)) (event : FolderEvent)
    (invariant : FolderInvariant view state) (honest : HonestEvent state event)
    (safe : EpochSafe view state event) :
    FolderInvariant view (folderStep (recorded view) conn state event) := by
  cases event with
  | arrival gap internalDate flags body => exact invariant.arrive gap internalDate flags body
  | expunge gone => exact invariant.expunge gone
  | recreate bump content => exact invariant.recreate bump content
  | cycle client now untilShutdown => exact invariant.cycle honest now untilShutdown safe
  | incremental client now => exact invariant.incremental honest now safe
  | tombstoneScan client uidvalidity => exact invariant.tombstoneScan client uidvalidity
  | recycle now =>
      simp only [folderStep]
      split
      next lastSeenUid idling => exact invariant.keep (recorded_housekeeping rfl rfl _) rfl
      next => exact invariant
  | health text => exact invariant.keep (recorded_housekeeping rfl rfl _) rfl
  | dropped =>
      simp only [folderStep]
      split
      next lastSeenUid idling =>
        exact ⟨invariant.sound, fun _ => invariant.carried (by rw [idling]; exact nofun), nofun,
          invariant.lastPass⟩
      next => exact invariant
  | shutdown =>
      simp only [folderStep]
      split
      next lastSeenUid idling =>
        exact ⟨invariant.sound, fun running => absurd rfl running, nofun, invariant.lastPass⟩
      next =>
        exact ⟨invariant.sound, fun running => absurd rfl running, nofun, invariant.lastPass⟩
  | restart => exact ⟨invariant.sound, fun _ => rfl, nofun, invariant.lastPass⟩

end Run

end Scryd.Imap
