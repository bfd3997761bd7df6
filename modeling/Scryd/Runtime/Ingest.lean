import Scryd.Runtime.Sink
import Scryd.Foundation.Run

/-!
# Ingest of a sequence of fetched messages

A row of `messages` has two identities: the IMAP key, which the upsert names,
and the message id derived from a header the sender controls.  As long as no
submit is rejected, the rows are the first submissions of the keys, in order;
a submit is rejected as soon as a new key arrives under an id that is taken.
-/

namespace Scryd.Runtime

open Scryd.Foundation Scryd.Storage Scryd.Mime Scryd.Imap

/-- A fetched message, and what the environment decides for its `submit`. -/
structure Submission where
  env : CallEnv
  fetched : FetchedMessage

/-- The IMAP key and the message id of a row. -/
def rowIdentity (row : MessageRow) : MessageKey × String := (row.key, row.messageId)

def World.identities (world : World) : List (MessageKey × String) :=
  world.store.messages.rows.map rowIdentity

variable (platform : Platform)

def ingest (world : World) (submission : Submission) : World :=
  (submit platform submission.env submission.fetched world).2

/-- The key and the derived id of a submission whose message parses. -/
def identity? (submission : Submission) : Option (MessageKey × String) :=
  (outcome platform submission.fetched).message?.map fun parsed =>
    (submission.fetched.key, messageId platform submission.fetched parsed)

/-- The identities of the submissions that parse. -/
def identities (submissions : List Submission) : List (MessageKey × String) :=
  submissions.filterMap (identity? platform)

/-- Every submit whose message parses returns `Ok`. -/
def NothingRejected (world : World) (submissions : List Submission) : Prop :=
  Guarded (ingest platform)
    (fun state submission => (identity? platform submission).isSome →
      (submit platform submission.env submission.fetched state).1 = .ok ())
    world submissions

/-- The table holds one row for each of the keys and no other row. -/
def OneRowPerKey (world : World) (keys : List MessageKey) : Prop :=
  ∀ key, (world.store.messages.rows.map (·.key)).count key = if key ∈ keys then 1 else 0

/-- No parseable submit is rejected, and afterwards each key has its one row. -/
def Lossless (world : World) (submissions : List Submission) (keys : List MessageKey) : Prop :=
  NothingRejected platform world submissions ∧
    OneRowPerKey (run (ingest platform) world submissions) keys

/-- The first submissions of distinct keys derive distinct message ids. -/
def DistinctFirstIds (submitted : List (MessageKey × String)) : Prop :=
  ((keepFirst Prod.fst submitted).map Prod.snd).Nodup

theorem identities_refreshMessage (store : Store) (m : MessageInsert) :
    (store.refreshMessage m).messages.rows.map rowIdentity =
      store.messages.rows.map rowIdentity := by
  simp [Store.refreshMessage, rowIdentity, Function.comp_def]

theorem identities_nodup (world : World) : (world.identities.map Prod.snd).Nodup := by
  simp only [World.identities, List.map_map]
  exact List.pairwise_map.mpr
    (world.store.messages.consistent.imp fun apart same => apart (.inl same))

theorem distinctFirstIds_append_singleton {submitted : List (MessageKey × String)}
    (distinct : DistinctFirstIds submitted) (key : MessageKey) (id : String) :
    DistinctFirstIds (submitted ++ [(key, id)]) ↔
      key ∈ submitted.map Prod.fst ∨ id ∉ (keepFirst Prod.fst submitted).map Prod.snd := by
  unfold DistinctFirstIds at distinct ⊢
  rw [keepFirst_append_singleton]
  split
  next seen => simp only [distinct, seen, true_or]
  next fresh =>
    rw [List.map_append, List.nodup_append]
    simp only [distinct, fresh, false_or, true_and, List.map_cons, List.map_nil,
      List.mem_singleton]
    constructor
    · intro apart taken
      exact apart.2 id taken id rfl rfl
    · intro free
      refine ⟨List.nodup_singleton id, ?_⟩
      rintro taken stored _ rfl rfl
      exact free stored

theorem DistinctFirstIds.of_append {first second : List (MessageKey × String)}
    (distinct : DistinctFirstIds (first ++ second)) : DistinctFirstIds first := by
  unfold DistinctFirstIds at distinct ⊢
  rw [keepFirst_append, List.map_append] at distinct
  exact (List.nodup_append.mp distinct).1

/-- A fault-free submit runs the insertion and, if that succeeds, the enqueue. -/
theorem submit_faultFree {submission : Submission} (faultFree : submission.env.faultFree)
    {parsed : ParsedMessage}
    (parses : (outcome platform submission.fetched).message? = some parsed) (world : World) :
    (∃ store, insertMessage submission.env.threads
        (toInsert platform submission.fetched parsed) world.store = .ok store ∧
      (submit platform submission.env submission.fetched world).1 = .ok () ∧
      (ingest platform world submission).identities = store.messages.rows.map rowIdentity) ∨
    (∃ reason err, insertMessage submission.env.threads
        (toInsert platform submission.fetched parsed) world.store = .error reason ∧
      (submit platform submission.env submission.fetched world).1 = .error err) := by
  obtain ⟨noRawFault, noInsertFault, noEnqueueFault⟩ := faultFree
  have unfolded : submit platform submission.env submission.fetched world =
      submitParsed platform submission.env submission.fetched parsed world := by
    simp only [submit, parses]
  rcases submitParsed_cases platform submission.env submission.fetched parsed world with
    ⟨rawFails, _⟩ | ⟨_, ⟨err, reason, refused, result⟩ | ⟨store, _, inserted, rest⟩⟩
  · simp [noRawFault] at rawFails
  · apply Or.inr
    refine ⟨reason, err, ?_, by rw [unfolded, result]⟩
    simpa only [attempt, noInsertFault] using refused
  · rcases rest with ⟨enqueueFails, _⟩ | ⟨_, result⟩
    · simp [noEnqueueFault] at enqueueFails
    · apply Or.inl
      refine ⟨store, inserted, by rw [unfolded, result], ?_⟩
      simp only [ingest, World.identities, unfolded, result, enqueue_frame]

/-- The keys of the table are those submitted so far. -/
theorem key_stored_iff {world : World} {submitted : List (MessageKey × String)}
    (stored : world.identities = keepFirst Prod.fst submitted) (key : MessageKey) :
    (∃ row ∈ world.store.messages.rows, row.key = key) ↔ key ∈ submitted.map Prod.fst := by
  rw [← mem_keys_keepFirst, ← stored]
  simp [World.identities, rowIdentity]

/-- The ids of the table are those of the first submissions. -/
theorem id_stored_iff {world : World} {submitted : List (MessageKey × String)}
    (stored : world.identities = keepFirst Prod.fst submitted) (id : String) :
    (∃ row ∈ world.store.messages.rows, row.messageId = id) ↔
      id ∈ (keepFirst Prod.fst submitted).map Prod.snd := by
  rw [← stored]
  simp [World.identities, rowIdentity]

/-- One submit, from a table that holds the first submissions so far: it succeeds exactly
when the ids stay distinct, and then the table holds the first submissions again. -/
theorem ingest_step {submission : Submission} (faultFree : submission.env.faultFree)
    {world : World} (known : world.store.hasAccount submission.fetched.accountId = true)
    {submitted : List (MessageKey × String)}
    (stored : world.identities = keepFirst Prod.fst submitted)
    {identity : MessageKey × String} (parses : identity? platform submission = some identity) :
    ((submit platform submission.env submission.fetched world).1 = .ok () ↔
        DistinctFirstIds (submitted ++ [identity])) ∧
      ((submit platform submission.env submission.fetched world).1 = .ok () →
        (ingest platform world submission).identities =
          keepFirst Prod.fst (submitted ++ [identity])) := by
  obtain ⟨parsed, found, rfl⟩ := Option.map_eq_some_iff.mp parses
  have distinct : DistinctFirstIds submitted := by
    simpa only [DistinctFirstIds, ← stored] using identities_nodup world
  have keyStored := key_stored_iff stored submission.fetched.key
  have idStored := id_stored_iff stored (messageId platform submission.fetched parsed)
  rw [distinctFirstIds_append_singleton distinct, keepFirst_append_singleton]
  rcases submit_faultFree platform faultFree found world with
    ⟨store, inserted, accepted, after⟩ | ⟨reason, err, refused, rejected⟩
  · rw [after]
    rcases insertMessage_ok inserted with ⟨row, rfl⟩ | ⟨free, _, messages, rfl, rows⟩
    · have seen := keyStored.mp row
      rw [if_pos seen, identities_refreshMessage]
      exact ⟨iff_of_true accepted (.inl seen), fun _ => stored⟩
    · have fresh : submission.fetched.key ∉ submitted.map Prod.fst := by
        rw [← keyStored]
        rintro ⟨row, stored, same⟩
        exact (free row stored).1 same
      have untaken : messageId platform submission.fetched parsed ∉
          (keepFirst Prod.fst submitted).map Prod.snd := by
        rw [← idStored]
        rintro ⟨row, stored, same⟩
        exact (free row stored).2 same
      rw [if_neg fresh]
      refine ⟨iff_of_true accepted (.inr untaken), fun _ => ?_⟩
      simp only [rows, List.map_append, ← stored]
      rfl
  · have notInserted : ¬ ∃ next, insertMessage submission.env.threads
        (toInsert platform submission.fetched parsed) world.store = .ok next := by
      rintro ⟨next, inserted⟩
      rw [inserted] at refused
      cases refused
    rw [insertMessage_isOk_iff] at notInserted
    rw [rejected]
    refine ⟨iff_of_false (fun accepted => by cases accepted) ?_, fun accepted => by cases accepted⟩
    rintro (seen | untaken)
    · apply notInserted
      exact .inl (keyStored.mpr seen)
    · apply notInserted
      exact .inr ⟨fun row stored same => untaken (idStored.mp ⟨row, stored, same⟩), known⟩

/-- A message that does not parse leaves the world alone. -/
theorem ingest_unparseable {submission : Submission}
    (skipped : identity? platform submission = none) (world : World) :
    ingest platform world submission = world := by
  have unparseable : (outcome platform submission.fetched).message? = none := by
    simpa [identity?] using skipped
  simp only [ingest, submit, unparseable]

/-- A whole run, from a table that holds the first submissions so far. -/
theorem nothingRejected_iff (submissions : List Submission) :
    ∀ (world : World) (submitted : List (MessageKey × String)),
      (∀ submission ∈ submissions, submission.env.faultFree) →
      (∀ submission ∈ submissions,
        world.store.hasAccount submission.fetched.accountId = true) →
      world.identities = keepFirst Prod.fst submitted →
      (NothingRejected platform world submissions ↔
          DistinctFirstIds (submitted ++ identities platform submissions)) ∧
        (NothingRejected platform world submissions →
          (run (ingest platform) world submissions).identities =
            keepFirst Prod.fst (submitted ++ identities platform submissions)) := by
  induction submissions with
  | nil =>
      intro world submitted _ _ stored
      have distinct : DistinctFirstIds submitted := by
        simpa only [DistinctFirstIds, ← stored] using identities_nodup world
      simp only [identities, List.filterMap_nil, List.append_nil]
      exact ⟨iff_of_true trivial distinct, fun _ => stored⟩
  | cons submission rest inductionHypothesis =>
      intro world submitted faultFree known stored
      have headFaultFree := faultFree submission List.mem_cons_self
      have headKnown := known submission List.mem_cons_self
      have restFaultFree := fun later membership =>
        faultFree later (List.mem_cons_of_mem submission membership)
      have restKnown : ∀ later ∈ rest, (ingest platform world submission).store.hasAccount
          later.fetched.accountId = true := by
        intro later membership
        have frame := (submit_frame platform submission.env submission.fetched world).1
        simp only [Store.hasAccount, ingest, frame]
        exact known later (List.mem_cons_of_mem submission membership)
      cases parses : identity? platform submission with
      | none =>
          have restKnown' := restKnown
          rw [ingest_unparseable platform parses] at restKnown'
          have restResult := inductionHypothesis world submitted restFaultFree restKnown' stored
          simp only [identities, List.filterMap_cons, parses, NothingRejected, Guarded, run_cons,
            ingest_unparseable platform parses, Option.isSome_none, Bool.false_eq_true,
            false_implies, true_and] at restResult ⊢
          exact restResult
      | some identity =>
          obtain ⟨accepted, after⟩ :=
            ingest_step platform headFaultFree headKnown stored parses
          have whole : submitted ++ identities platform (submission :: rest) =
              submitted ++ [identity] ++ identities platform rest := by
            simp [identities, parses]
          rw [whole, run_cons]
          constructor
          · constructor
            · intro nothingRejected
              have headOk := nothingRejected.1 (by rw [parses]; rfl)
              exact (inductionHypothesis _ _ restFaultFree restKnown (after headOk)).1.mp
                nothingRejected.2
            · intro distinct
              have headOk := accepted.mpr distinct.of_append
              exact ⟨fun _ => headOk, (inductionHypothesis _ _ restFaultFree restKnown
                (after headOk)).1.mpr distinct⟩
          · intro nothingRejected
            have headOk := nothingRejected.1 (by rw [parses]; rfl)
            exact (inductionHypothesis _ _ restFaultFree restKnown (after headOk)).2
              nothingRejected.2

theorem oneRowPerKey_of_identities {world : World} {submitted : List (MessageKey × String)}
    (stored : world.identities = keepFirst Prod.fst submitted) :
    OneRowPerKey world (submitted.map Prod.fst) := by
  have keys : world.store.messages.rows.map (·.key) =
      (keepFirst Prod.fst submitted).map Prod.fst := by
    simp [← stored, World.identities, rowIdentity, Function.comp_def]
  intro key
  rw [keys]
  split
  next seen =>
    exact List.count_eq_one_of_mem (keepFirst_nodup _ _)
      ((mem_keys_keepFirst _ _ _).mpr seen)
  next fresh =>
    exact List.count_eq_zero.mpr fun kept => fresh ((mem_keys_keepFirst _ _ _).mp kept)

theorem oneRowPerKey_congr {world : World} {keys others : List MessageKey}
    (exactly : OneRowPerKey world keys) :
    OneRowPerKey world others ↔ ∀ key, key ∈ keys ↔ key ∈ others := by
  constructor
  · intro also key
    have counts := (exactly key).symm.trans (also key)
    by_cases left : key ∈ keys <;> by_cases right : key ∈ others <;>
      simp [left, right] at counts ⊢
  · intro same key
    rw [exactly key]
    simp only [same key]

/-- From an empty store and without an I/O failure, ingest is lossless exactly when the
first parseable submissions of distinct keys derive distinct message ids.  Counting the keys
whose submissions are all unparseable too, none of these may exist besides. -/
theorem ingest_lossless_iff (accounts : Table AccountRow SameAccount)
    (submissions : List Submission)
    (faultFree : ∀ submission ∈ submissions, submission.env.faultFree)
    (known : ∀ submission ∈ submissions,
      (Store.fresh accounts).hasAccount submission.fetched.accountId = true) :
    (Lossless platform (World.fresh accounts) submissions
        ((identities platform submissions).map Prod.fst) ↔
      DistinctFirstIds (identities platform submissions)) ∧
    (Lossless platform (World.fresh accounts) submissions
        (submissions.map (·.fetched.key)) ↔
      DistinctFirstIds (identities platform submissions) ∧
        ∀ submission ∈ submissions,
          submission.fetched.key ∈ (identities platform submissions).map Prod.fst) := by
  obtain ⟨accepted, after⟩ :=
    nothingRejected_iff platform submissions (World.fresh accounts) [] faultFree known rfl
  simp only [List.nil_append] at accepted after
  have rows := fun nothingRejected => oneRowPerKey_of_identities (after nothingRejected)
  constructor
  · constructor
    · exact fun lossless => accepted.mp lossless.1
    · intro distinct
      have nothingRejected := accepted.mpr distinct
      exact ⟨nothingRejected, rows nothingRejected⟩
  · have parsedKeySubmitted : ∀ key ∈ (identities platform submissions).map Prod.fst,
        key ∈ submissions.map (·.fetched.key) := by
      intro key seen
      obtain ⟨_, found, rfl⟩ := List.mem_map.mp seen
      obtain ⟨submission, membership, parses⟩ := List.mem_filterMap.mp found
      obtain ⟨_, _, rfl⟩ := Option.map_eq_some_iff.mp parses
      exact List.mem_map_of_mem membership
    constructor
    · rintro ⟨nothingRejected, exactly⟩
      have same := (oneRowPerKey_congr (rows nothingRejected)).mp exactly
      exact ⟨accepted.mp nothingRejected, fun submission membership =>
        (same _).mpr (List.mem_map_of_mem membership)⟩
    · rintro ⟨distinct, allParse⟩
      have nothingRejected := accepted.mpr distinct
      refine ⟨nothingRejected, (oneRowPerKey_congr (rows nothingRejected)).mpr fun key =>
        ⟨parsedKeySubmitted key, ?_⟩⟩
      intro submitted
      obtain ⟨submission, membership, rfl⟩ := List.mem_map.mp submitted
      exact allParse submission membership

section Sample

def workId : AccountId := sampleAccountId

/-- A store whose only account is `work`. -/
def workAccounts : Table AccountRow SameAccount :=
  ⟨[⟨workId, "imap.example.org", 993, "me@example.org", ["INBOX", "Archive"], true, 0⟩],
    List.pairwise_singleton _ _⟩

/-- Characters of a mail in ASCII. -/
def sampleText (bytes : List UInt8) : String :=
  String.ofList (bytes.map fun byte => Char.ofNat byte.toNat)

/-- A mail whose first letter decides its Message-ID. -/
def sampleParse (bytes : List UInt8) : ParsedMessage where
  headerMessageId := some (sampleText (bytes.take 1) ++ "@example.org")
  inReplyTo := none
  references := []
  subject := none
  fromAddr := ⟨"sender@example.org", none⟩
  toAddrs := []
  ccAddrs := []
  dateUnix := 0
  bodyMd := sampleText bytes

/-- SHA-256 at the message ids the samples hash. -/
def sampleDigest (text : String) : String :=
  match text with
  | "work:a@example.org" => "2704e5a1ba4f451f047b15ae20899e3ec8844968371fbecc4081b9a185b9f25c"
  | "work:b@example.org" => "d92c40e7db0c452d5b7131d24b9920dba444c1b79a46dc04d5d3690352833f85"
  | "work:c@example.org" => "be11603b73c4addb0352cad61f6ed24d506112aaf259c81a87523b1ad8e06273"
  | other => "~" ++ other

/-- A platform on which every message parses. -/
def samplePlatform : Platform where
  parse bytes _ := .parsed (sampleParse bytes)
  hexSha256 := sampleDigest
  chrono := ⟨fun _ => some ("1970", "01"), fun _ => some "1970-01-01T00:00:00+00:00",
    fun _ => none⟩
  dataDir := "/data"

def sampleMail (folder : String) (uid : Nat) (bytes : List UInt8) : FetchedMessage :=
  ⟨workId, folder, uid, 1, none, [], bytes⟩

/-- One mail in two folders: the second copy is refused. -/
theorem copy_in_second_folder_rejected :
    ¬ Lossless samplePlatform (World.fresh workAccounts)
      [⟨{}, sampleMail "INBOX" 1 [97]⟩, ⟨{}, sampleMail "Archive" 1 [97]⟩]
      [(sampleMail "INBOX" 1 [97]).key, (sampleMail "Archive" 1 [97]).key] := by
  intro lossless
  have second := lossless.1.2.1 rfl
  have refused : (submit samplePlatform {} (sampleMail "Archive" 1 [97])
      (ingest samplePlatform (World.fresh workAccounts) ⟨{}, sampleMail "INBOX" 1 [97]⟩)).1 =
        .error (mapStorageErr messageIdTaken) := rfl
  rw [refused] at second
  cases second

theorem ingest_lossless_resubmit :
    Lossless samplePlatform (World.fresh workAccounts)
      [⟨{}, sampleMail "INBOX" 1 [97]⟩, ⟨{}, sampleMail "INBOX" 1 [98]⟩]
      ((identities samplePlatform
        [⟨{}, sampleMail "INBOX" 1 [97]⟩, ⟨{}, sampleMail "INBOX" 1 [98]⟩]).map Prod.fst) :=
  (ingest_lossless_iff samplePlatform workAccounts
    [⟨{}, sampleMail "INBOX" 1 [97]⟩, ⟨{}, sampleMail "INBOX" 1 [98]⟩]
    (by simp [CallEnv.faultFree]) (by decide)).1.mpr (by
      simp only [DistinctFirstIds]
      decide)

end Sample

end Scryd.Runtime
