import Scryd.Runtime.Ingest

/-!
# Raw files and rows

`submit` writes the raw file before the row insert that may fail, at a path
that depends on the derived message id and the date only.  The rows stay
consistent with the files along exactly those runs in which a write that will
not be matched by its own row finds the same bytes already in place.
-/

namespace Scryd.Runtime

open Scryd.Foundation Scryd.Storage Scryd.Mime Scryd.Imap

/-- The world, and for each key the bytes of its last successful submit. -/
structure Audited where
  world : World
  lastGood : MessageKey → Option (List UInt8)

def Audited.fresh (accounts : Table AccountRow SameAccount) : Audited :=
  ⟨World.fresh accounts, fun _ => none⟩

/-- Every row's file holds the bytes of the last successful submit of the row's key,
and the row records their number. -/
def RawConsistent (state : Audited) : Prop :=
  ∀ row ∈ state.world.store.messages.rows, ∃ bytes,
    state.lastGood row.key = some bytes ∧ state.world.files row.rawPath = some bytes ∧
      row.sizeBytes = bytes.length

/-- The bytes of a successful submit become the key's last good ones. -/
def remember (lastGood : MessageKey → Option (List UInt8)) (fetched : FetchedMessage) :
    MessageKey → Option (List UInt8) :=
  fun key => if key = fetched.key then some fetched.rawBytes else lastGood key

@[simp] theorem remember_same (lastGood : MessageKey → Option (List UInt8))
    (fetched : FetchedMessage) : remember lastGood fetched fetched.key = some fetched.rawBytes :=
  if_pos rfl

theorem remember_other (lastGood : MessageKey → Option (List UInt8)) (fetched : FetchedMessage)
    {key : MessageKey} (other : key ≠ fetched.key) :
    remember lastGood fetched key = lastGood key := if_neg other

/-- Overwriting one file keeps the rows consistent exactly when the rows at that path
had these bytes already. -/
theorem rawConsistent_write_iff {state : Audited} (consistent : RawConsistent state)
    (path : String) (bytes : List UInt8) :
    RawConsistent { state with
        world := { state.world with files := state.world.files.write path bytes } } ↔
      ∀ row ∈ state.world.store.messages.rows, row.rawPath = path →
        state.world.files path = some bytes := by
  constructor
  · rintro after row stored rfl
    obtain ⟨new, isNew, newFile, _⟩ := after row stored
    obtain ⟨old, isOld, oldFile, _⟩ := consistent row stored
    simp only [Files.write_same, Option.some.injEq] at newFile
    rw [oldFile, ← isOld, isNew, newFile]
  · intro inPlace row stored
    obtain ⟨old, isOld, oldFile, size⟩ := consistent row stored
    refine ⟨old, isOld, ?_, size⟩
    by_cases samePath : row.rawPath = path
    · have already := inPlace row stored samePath
      simp only [samePath, Files.write_same]
      rw [← already, ← samePath, oldFile]
    · simpa only [Files.write_other _ _ samePath] using oldFile

/-- The same for an accepted insertion under the key, whatever the queue does. -/
theorem rawConsistent_insert_iff {state : Audited} (consistent : RawConsistent state)
    {threads : ThreadEnv} {m : MessageInsert} {store after : Store}
    (inserted : insertMessage threads m state.world.store = .ok store)
    (sameRows : after.messages = store.messages) {bytes : List UInt8}
    (size : m.sizeBytes = bytes.length) {lastGood : MessageKey → Option (List UInt8)}
    (others : ∀ key, key ≠ m.key → lastGood key = state.lastGood key) (notified : Bool) :
    RawConsistent ⟨⟨after, state.world.files.write m.rawPath bytes, notified⟩, lastGood⟩ ↔
      lastGood m.key = some bytes ∧
        ∀ row ∈ state.world.store.messages.rows, row.key ≠ m.key → row.rawPath = m.rawPath →
          state.world.files m.rawPath = some bytes := by
  obtain ⟨⟨own, ownStored, ownKey⟩, content, frame⟩ := insertMessage_effect inserted
  simp only [RawConsistent, sameRows]
  constructor
  · intro consistentAfter
    constructor
    · obtain ⟨new, isNew, newFile, _⟩ := consistentAfter own ownStored
      rw [(content own ownStored ownKey).1, Files.write_same] at newFile
      rw [← ownKey, isNew, newFile]
    · intro row stored other samePath
      obtain ⟨new, isNew, newFile, _⟩ := consistentAfter row ((frame row other).mpr stored)
      obtain ⟨old, isOld, oldFile, _⟩ := consistent row stored
      rw [samePath, Files.write_same] at newFile
      rw [← samePath, oldFile, ← isOld, ← others _ other, isNew, newFile]
  · rintro ⟨isBytes, inPlace⟩ row stored
    by_cases sameKey : row.key = m.key
    · obtain ⟨path, rowSize, _⟩ := content row stored sameKey
      exact ⟨bytes, by rw [sameKey, isBytes], by rw [path, Files.write_same],
        by rw [rowSize, size]⟩
    · have storedBefore := (frame row sameKey).mp stored
      obtain ⟨old, isOld, oldFile, oldSize⟩ := consistent row storedBefore
      refine ⟨old, by rw [others _ sameKey, isOld], ?_, oldSize⟩
      by_cases samePath : row.rawPath = m.rawPath
      · have already := inPlace row storedBefore sameKey samePath
        rw [samePath, Files.write_same, ← already, ← samePath, oldFile]
      · rw [Files.write_other _ _ samePath, oldFile]

section Runs

variable (platform : Platform) (skipCounts : Bool)

/-- `submit` with the record of what succeeded.  `skipCounts` says whether the `Ok` of a
message that was skipped as unparseable counts as a successful submit. -/
def auditedSubmit (state : Audited) (submission : Submission) : Audited :=
  match submit platform submission.env submission.fetched state.world with
  | (.error _, world) => ⟨world, state.lastGood⟩
  | (.ok _, world) =>
      if skipCounts || (identity? platform submission).isSome then
        ⟨world, remember state.lastGood submission.fetched⟩
      else
        ⟨world, state.lastGood⟩

/-- Whether `insert_message` will accept the message: its key has a row, or its id is free
and its account is known. -/
def Accepted (store : Store) (env : CallEnv) (fetched : FetchedMessage)
    (parsed : ParsedMessage) : Prop :=
  env.insertFault = none ∧
    ((∃ row ∈ store.messages.rows, row.key = fetched.key) ∨
      ((∀ row ∈ store.messages.rows, row.messageId ≠ messageId platform fetched parsed) ∧
        store.hasAccount fetched.accountId = true))

/-- What a run needs at each submit.  A row at the path about to be written is the row of
this key and about to be refreshed, or holds these bytes already; a row that goes in while
the queue write fails repeats the bytes of the key's last successful submit. -/
def RawSafe (state : Audited) (submission : Submission) : Prop :=
  match (outcome platform submission.fetched).message? with
  | none =>
      skipCounts = true → ∀ row ∈ state.world.store.messages.rows,
        row.key = submission.fetched.key →
        state.world.files row.rawPath = some submission.fetched.rawBytes
  | some parsed =>
      submission.env.rawFault = none →
        (∀ row ∈ state.world.store.messages.rows,
          row.rawPath = submitPath platform submission.fetched parsed →
          (row.key = submission.fetched.key ∧
            Accepted platform state.world.store submission.env submission.fetched parsed) ∨
          state.world.files (submitPath platform submission.fetched parsed) =
            some submission.fetched.rawBytes) ∧
        (Accepted platform state.world.store submission.env submission.fetched parsed →
          submission.env.enqueueFault.isSome →
          state.lastGood submission.fetched.key = some submission.fetched.rawBytes)

/-- A submit that returns `Err` leaves the raw files of the rows as they are. -/
def ErrKeepsFiles (state : Audited) (submission : Submission) : Prop :=
  ∀ err world, submit platform submission.env submission.fetched state.world =
      (.error err, world) →
    ∀ row ∈ state.world.store.messages.rows,
      world.files row.rawPath = state.world.files row.rawPath

theorem accepted_iff (store : Store) (env : CallEnv) (fetched : FetchedMessage)
    (parsed : ParsedMessage) :
    Accepted platform store env fetched parsed ↔
      ∃ next, attempt env.insertFault
        (insertMessage env.threads (toInsert platform fetched parsed) store) = .ok next := by
  unfold Accepted
  cases fault : env.insertFault with
  | some message => simp [attempt]
  | none =>
      simp only [attempt, true_and]
      exact (insertMessage_isOk_iff env.threads (toInsert platform fetched parsed) store).symm

/-- A skipped message writes nothing; only the record of what succeeded can change. -/
theorem rawConsistent_skip_iff {state : Audited} (consistent : RawConsistent state)
    {submission : Submission}
    (skipped : (outcome platform submission.fetched).message? = none) :
    RawConsistent (auditedSubmit platform skipCounts state submission) ↔
      RawSafe platform skipCounts state submission := by
  have unidentified : identity? platform submission = none := by simp [identity?, skipped]
  simp only [auditedSubmit, RawSafe, submit, skipped, unidentified, Option.isSome_none,
    Bool.or_false]
  split
  next counts =>
    simp only [counts, true_implies]
    unfold RawConsistent
    dsimp only
    constructor
    · intro after row stored sameKey
      obtain ⟨bytes, isBytes, file, _⟩ := after row stored
      rw [sameKey, remember_same] at isBytes
      rw [isBytes]
      exact file
    · intro inPlace row stored
      obtain ⟨old, isOld, oldFile, size⟩ := consistent row stored
      refine ⟨old, ?_, oldFile, size⟩
      by_cases sameKey : row.key = submission.fetched.key
      · rw [sameKey, remember_same, ← inPlace row stored sameKey, oldFile]
      · rw [remember_other _ _ sameKey, isOld]
  next ignored => exact iff_of_true consistent fun counts => absurd counts ignored

/-- One submit keeps the rows consistent exactly when it is safe. -/
theorem rawConsistent_step_iff (state : Audited) (submission : Submission)
    (consistent : RawConsistent state) :
    RawConsistent (auditedSubmit platform skipCounts state submission) ↔
      RawSafe platform skipCounts state submission := by
  cases parses : (outcome platform submission.fetched).message? with
  | none => exact rawConsistent_skip_iff platform skipCounts consistent parses
  | some parsed =>
      have identified : (identity? platform submission).isSome = true := by
        simp [identity?, parses]
      have accepted := accepted_iff platform state.world.store submission.env
        submission.fetched parsed
      simp only [auditedSubmit, RawSafe, submit, parses, identified, Bool.or_true, if_true]
      rcases submitParsed_cases platform submission.env submission.fetched parsed state.world with
        ⟨rawFails, err, result⟩ | ⟨noRawFault, ⟨err, reason, refused, result⟩ |
          ⟨store, noInsertFault, inserted, rest⟩⟩
      · rw [result]
        refine iff_of_true consistent fun noRawFault => ?_
        rw [noRawFault] at rawFails
        cases rawFails
      · -- The file is replaced and no row changes.
        have notAccepted : ¬ Accepted platform state.world.store submission.env
            submission.fetched parsed := by
          rw [accepted, refused]
          rintro ⟨_, impossible⟩
          cases impossible
        rw [result]
        simp only [written, noRawFault, notAccepted, and_false, false_or, true_implies,
          false_implies, and_true]
        exact rawConsistent_write_iff consistent _ _
      · have isAccepted : Accepted platform state.world.store submission.env
            submission.fetched parsed :=
          accepted.mpr ⟨store, by rw [noInsertFault]; exact inserted⟩
        have otherRows : (∀ row ∈ state.world.store.messages.rows,
              row.rawPath = submitPath platform submission.fetched parsed →
              row.key = submission.fetched.key ∨
                state.world.files (submitPath platform submission.fetched parsed) =
                  some submission.fetched.rawBytes) ↔
            ∀ row ∈ state.world.store.messages.rows, row.key ≠ submission.fetched.key →
              row.rawPath = submitPath platform submission.fetched parsed →
              state.world.files (submitPath platform submission.fetched parsed) =
                some submission.fetched.rawBytes :=
          ⟨fun safe row stored other path => (safe row stored path).resolve_left other,
            fun safe row stored path => or_iff_not_imp_left.mpr fun other =>
              safe row stored other path⟩
        simp only [noRawFault, isAccepted, and_true, true_implies, otherRows]
        rcases rest with ⟨enqueueFails, err, result⟩ | ⟨noEnqueueFault, result⟩
        · rw [result]
          simp only [enqueueFails, true_implies]
          rw [and_comm]
          exact rawConsistent_insert_iff consistent inserted rfl rfl (fun _ _ => rfl) _
        · rw [result]
          simp only [noEnqueueFault, Option.isSome_none, Bool.false_eq_true, false_implies,
            and_true]
          have exactly := rawConsistent_insert_iff consistent inserted
            (enqueue_frame submission.env.now (messageId platform submission.fetched parsed)
              store).2.2 rfl (fun _ other => remember_other state.lastGood
                submission.fetched other) true
          exact exactly.trans (and_iff_right (remember_same state.lastGood submission.fetched))

/-- No file but the one at the message's own path changes. -/
theorem submitParsed_files (env : CallEnv) (fetched : FetchedMessage) (parsed : ParsedMessage)
    (world : World) {path : String} (other : path ≠ submitPath platform fetched parsed) :
    (submitParsed platform env fetched parsed world).2.files path = world.files path := by
  rcases submitParsed_cases platform env fetched parsed world with
    ⟨_, _, result⟩ | ⟨_, ⟨_, _, _, result⟩ | ⟨_, _, _, ⟨_, _, result⟩ | ⟨_, result⟩⟩⟩
  · rw [result]
  all_goals
    rw [result]
    exact Files.write_other _ _ other

/-- In a consistent state, a safe submit that fails leaves the rows' files alone. -/
theorem errKeepsFiles_of_safe (state : Audited) (submission : Submission)
    (consistent : RawConsistent state) (safe : RawSafe platform skipCounts state submission) :
    ErrKeepsFiles platform state submission := by
  intro err world failed row stored
  cases parses : (outcome platform submission.fetched).message? with
  | none => simp [submit, parses] at failed
  | some parsed =>
      simp only [submit, RawSafe, parses] at failed safe
      by_cases samePath : row.rawPath = submitPath platform submission.fetched parsed
      · rcases submitParsed_cases platform submission.env submission.fetched parsed
          state.world with
            ⟨_, _, result⟩ | ⟨noRawFault, ⟨_, reason, refused, result⟩ |
              ⟨store, noInsertFault, inserted, ⟨enqueueFails, _, result⟩ | ⟨_, result⟩⟩⟩
        · rw [result] at failed
          cases failed
          rfl
        · rw [result] at failed
          cases failed
          have already := ((safe noRawFault).1 row stored samePath).resolve_left fun refreshed => by
            obtain ⟨_, impossible⟩ := (accepted_iff platform _ _ _ _).mp refreshed.2
            rw [refused] at impossible
            cases impossible
          simp only [written, samePath, Files.write_same, already]
        · rw [result] at failed
          cases failed
          simp only [written, samePath, Files.write_same]
          rcases (safe noRawFault).1 row stored samePath with ⟨sameKey, accepted⟩ | already
          · obtain ⟨old, isOld, oldFile, _⟩ := consistent row stored
            have repeated := (safe noRawFault).2 accepted enqueueFails
            rw [← samePath, oldFile, ← isOld, sameKey, repeated]
          · exact already.symm
        · rw [result] at failed
          cases failed
      · have untouched := submitParsed_files platform submission.env submission.fetched parsed
          state.world samePath
        rwa [failed] at untouched

/-- The rows and the raw files agree in every state of a run, and a failing submit leaves
the rows' files as they were, exactly when every submit of the run is safe. -/
theorem raw_consistent_iff_safe (accounts : Table AccountRow SameAccount)
    (submissions : List Submission) :
    (Always (auditedSubmit platform skipCounts) RawConsistent (Audited.fresh accounts)
        submissions ∧
      Guarded (auditedSubmit platform skipCounts) (ErrKeepsFiles platform)
        (Audited.fresh accounts) submissions) ↔
    Guarded (auditedSubmit platform skipCounts) (RawSafe platform skipCounts)
      (Audited.fresh accounts) submissions := by
  have initially : RawConsistent (Audited.fresh accounts) := by
    intro row stored
    cases stored
  have exactly := always_iff_guarded (rawConsistent_step_iff platform skipCounts)
    initially submissions
  constructor
  · exact fun claim => exactly.mp claim.1
  · intro safe
    have always := exactly.mpr safe
    exact ⟨always, safe.imp_of_always always
      (errKeepsFiles_of_safe platform skipCounts)⟩

end Runs

theorem sampleDigest_injective : Function.Injective sampleDigest := by
  intro left right same
  unfold sampleDigest at same
  split at same <;> split at same <;>
    first
    | rfl
    | (simp [String.ext_iff] at same; done)
    | simpa [String.ext_iff] using same

/-- A refused copy of a mail has replaced the raw file of the stored one. -/
theorem refused_copy_overwrites_raw_file :
    Function.Injective samplePlatform.hexSha256 ∧
      ∀ skipCounts, ¬ Always (auditedSubmit samplePlatform skipCounts) RawConsistent
        (Audited.fresh workAccounts)
        [⟨{}, sampleMail "INBOX" 1 [97]⟩, ⟨{}, sampleMail "Archive" 1 [97, 98]⟩] := by
  refine ⟨sampleDigest_injective, fun skipCounts always => ?_⟩
  have replaced : ∃ row ∈ (run (auditedSubmit samplePlatform skipCounts)
      (Audited.fresh workAccounts)
      [⟨{}, sampleMail "INBOX" 1 [97]⟩, ⟨{}, sampleMail "Archive" 1 [97, 98]⟩]
      ).world.store.messages.rows,
      (run (auditedSubmit samplePlatform skipCounts) (Audited.fresh workAccounts)
        [⟨{}, sampleMail "INBOX" 1 [97]⟩, ⟨{}, sampleMail "Archive" 1 [97, 98]⟩]
        ).lastGood row.key = some [97] ∧
      (run (auditedSubmit samplePlatform skipCounts) (Audited.fresh workAccounts)
        [⟨{}, sampleMail "INBOX" 1 [97]⟩, ⟨{}, sampleMail "Archive" 1 [97, 98]⟩]
        ).world.files row.rawPath = some [97, 98] := by
    cases skipCounts <;> decide
  obtain ⟨row, stored, lastGood, file⟩ := replaced
  obtain ⟨bytes, isBytes, isFile, _⟩ := always.last row stored
  rw [lastGood] at isBytes
  rw [file, ← isBytes] at isFile
  revert isFile
  decide

end Scryd.Runtime
