import Scryd.Mime.Parse
import Scryd.Runtime.Ingest

/-!
# Ingest of mails

`submit` with the real parser.  What ends up in a row comes from a mail that was
submitted under its key, and of an encrypted mail nothing but the header fields
reaches the database.
-/

namespace Scryd.Runtime

open Scryd.Foundation Scryd.Storage Scryd.Mime Scryd.Imap

/-- The daemon's surroundings, without the clock. -/
structure Deployment where
  tools : MailTools
  hexSha256 : String → String
  chrono : Chrono
  dataDir : String

/-- The platform while the clock shows a time. -/
def Deployment.platform (deployment : Deployment) (now : Int) : Platform where
  parse rawBytes ctx := (parse deployment.tools now rawBytes ctx).stored
  hexSha256 := deployment.hexSha256
  chrono := deployment.chrono
  dataDir := deployment.dataDir

/-- The context in which `submit` parses. -/
def parseContext (fetched : FetchedMessage) : ParseContext :=
  ⟨fetched.accountId, fetched.folder, fetched.serverUid, fetched.internalDate⟩

variable (deployment : Deployment)

/-- A `submit` at the time its environment shows. -/
def receive (world : World) (submission : Submission) : World :=
  ingest (deployment.platform submission.env.now) world submission

theorem outcome_platform (now : Int) (fetched : FetchedMessage) :
    outcome (deployment.platform now) fetched =
      (parse deployment.tools now fetched.rawBytes (parseContext fetched)).stored := rfl

theorem FullOutcome.stored_message? (outcome : FullOutcome) :
    outcome.stored.message? = outcome.message?.map FullMessage.toParsedMessage := by
  cases outcome <;> rfl

section Provenance

/-- The body and the size in a row are those of a mail submitted under its key. -/
def FromMail (submissions : List Submission) (row : MessageRow) : Prop :=
  ∃ submission ∈ submissions, ∃ mail, submission.fetched.key = row.key ∧
    Accepted deployment.tools submission.fetched.rawBytes mail ∧
    row.bodyMd = (parseContent deployment.tools mail).1 ∧
    row.sizeBytes = submission.fetched.rawBytes.length

variable {deployment}

/-- A submission whose outcome has a message is of a mail that was accepted. -/
theorem accepted_of_message? {now : Int} {fetched : FetchedMessage} {parsed : ParsedMessage}
    (isMessage : (outcome (deployment.platform now) fetched).message? = some parsed) :
    ∃ mail, Accepted deployment.tools fetched.rawBytes mail ∧
      parsed.bodyMd = (parseContent deployment.tools mail).1 := by
  rw [outcome_platform, FullOutcome.stored_message?] at isMessage
  obtain ⟨message, isFull, rfl⟩ := Option.map_eq_some_iff.mp isMessage
  by_cases refused : ∀ mail, ¬ Accepted deployment.tools fetched.rawBytes mail
  · obtain ⟨cap, unparseable⟩ :=
      parse_refused deployment.tools now (parseContext fetched) refused
    rw [unparseable] at isFull
    cases isFull
  · simp only [not_forall, not_not] at refused
    obtain ⟨mail, accepted⟩ := refused
    have isMail := (parse_accepted now (parseContext fetched) accepted).1
    obtain rfl := Option.some.inj (isFull.symm.trans isMail)
    exact ⟨mail, accepted, rfl⟩

theorem fromMail_mono {submissions more : List Submission} {row : MessageRow}
    (fromMail : FromMail deployment submissions row) :
    FromMail deployment (submissions ++ more) row := by
  obtain ⟨submission, listed, rest⟩ := fromMail
  exact ⟨submission, List.mem_append_left more listed, rest⟩

/-- A delivery keeps the provenance of the rows and gives its own row one. -/
theorem receive_fromMail {submissions : List Submission} {world : World}
    (fromMail : ∀ row ∈ world.store.messages.rows, FromMail deployment submissions row)
    (submission : Submission) :
    ∀ row ∈ (receive deployment world submission).store.messages.rows,
      FromMail deployment (submissions ++ [submission]) row := by
  intro row stored
  rw [receive, ingest] at stored
  rcases submit_messages (deployment.platform submission.env.now) submission.env
      submission.fetched world with same | ⟨parsed, store, isMessage, inserted, same⟩
  · rw [same] at stored
    exact fromMail_mono (fromMail row stored)
  · rw [same] at stored
    obtain ⟨-, own, others⟩ := insertMessage_effect inserted
    by_cases isOwn : row.key = submission.fetched.key
    · obtain ⟨-, size, body⟩ := own row stored isOwn
      obtain ⟨mail, accepted, isBody⟩ := accepted_of_message? isMessage
      exact ⟨submission, List.mem_append_right _ List.mem_cons_self, mail, isOwn.symm, accepted,
        body.trans isBody, size⟩
    · exact fromMail_mono (fromMail row ((others row isOwn).mp stored))

theorem run_receive_fromMail (accounts : Table AccountRow SameAccount)
    (submissions : List Submission) :
    ∀ row ∈ (run (receive deployment) (World.fresh accounts) submissions).store.messages.rows,
      FromMail deployment submissions row := by
  induction submissions using List.reverseRecOn with
  | nil => exact fun row stored => nomatch stored
  | append_singleton submissions submission inductionHypothesis =>
      rw [run_append, run_cons, run_nil]
      exact receive_fromMail inductionHypothesis submission

/-- After any deliveries, failing or not, each stored body is that of a mail submitted under the
row's key: what was selected of it, up to the cap, or the placeholder if it is encrypted. -/
theorem stored_bodies (deployment : Deployment) (accounts : Table AccountRow SameAccount)
    (submissions : List Submission) :
    ∀ row ∈ (run (receive deployment) (World.fresh accounts) submissions).store.messages.rows,
      byteLength row.bodyMd.toList ≤ bodyMaxBytes ∧
      ∃ submission ∈ submissions, ∃ mail, submission.fetched.key = row.key ∧
        Accepted deployment.tools submission.fetched.rawBytes mail ∧
        (classify mail.contentType = .pgpEncrypted → row.bodyMd = encryptedPlaceholder) ∧
        (classify mail.contentType ≠ .pgpEncrypted → ∃ faults,
          Capped (selectedBody deployment.tools mail.parts).toList row.bodyMd.toList faults) := by
  intro row stored
  obtain ⟨submission, listed, mail, sameKey, accepted, isBody, -⟩ :=
    run_receive_fromMail accounts submissions row stored
  by_cases encrypted : classify mail.contentType = .pgpEncrypted
  · rw [parseContent_encrypted encrypted] at isBody
    have isPlaceholder : row.bodyMd = encryptedPlaceholder := isBody
    have short := encryptedPlaceholder_short
    rw [← isPlaceholder] at short
    exact ⟨short, submission, listed, mail, sameKey, accepted, fun _ => isBody,
      fun readable => absurd encrypted readable⟩
  · rw [parseContent_body encrypted] at isBody
    have capped := capped_selectBody deployment.tools mail.parts
    rw [← isBody] at capped
    exact ⟨capped.le, submission, listed, mail, sameKey, accepted,
      fun isEncrypted => absurd isEncrypted encrypted, fun _ => ⟨_, capped⟩⟩

/-- A text mail is stored. -/
def textDeployment : Deployment where
  tools := sampleTools
  hexSha256 := sampleDigest
  chrono := samplePlatform.chrono
  dataDir := "/data"

def textSubmission : Submission := ⟨{}, sampleMail "INBOX" 1 [1]⟩

theorem stored_bodies_text :
    ∃ row ∈ (run (receive textDeployment) (World.fresh workAccounts)
        [textSubmission]).store.messages.rows,
      byteLength row.bodyMd.toList ≤ bodyMaxBytes ∧
      ∃ submission ∈ [textSubmission], ∃ mail, submission.fetched.key = row.key ∧
        Accepted sampleTools submission.fetched.rawBytes mail ∧
        (classify mail.contentType = .pgpEncrypted → row.bodyMd = encryptedPlaceholder) ∧
        (classify mail.contentType ≠ .pgpEncrypted → ∃ faults,
          Capped (selectedBody sampleTools mail.parts).toList row.bodyMd.toList faults) := by
  obtain ⟨parsed, isMessage⟩ : ∃ parsed, (outcome (textDeployment.platform textSubmission.env.now)
      textSubmission.fetched).message? = some parsed := by
    rw [outcome_platform, FullOutcome.stored_message?]
    exact ⟨_, congrArg _ (parse_accepted 0 _ (accepted_textMail rfl)).1⟩
  have stored : (Store.fresh workAccounts).newRow {}
        (toInsert (textDeployment.platform textSubmission.env.now) textSubmission.fetched parsed) ∈
      (run (receive textDeployment) (World.fresh workAccounts)
        [textSubmission]).store.messages.rows := by
    rw [run_cons, run_nil, receive, ingest, submit, isMessage]
    exact List.mem_cons_self
  exact ⟨_, stored, stored_bodies textDeployment workAccounts [textSubmission] _ stored⟩

end Provenance

section Encrypted

/-- Two mails that are both encrypted and have the same header fields. -/
def EncryptedAlike (mail other : Email) : Prop :=
  mail.toMailHeaders = other.toMailHeaders ∧ classify mail.contentType = .pgpEncrypted

/-- Two submissions of the same mail, or of encrypted mails with the same header fields and the
same length, at the same place and time. -/
structure Twins (submission other : Submission) : Prop where
  env : submission.env = other.env
  key : submission.fetched.key = other.fetched.key
  internalDate : submission.fetched.internalDate = other.fetched.internalDate
  size : submission.fetched.rawBytes.length = other.fetched.rawBytes.length
  content : submission.fetched.rawBytes = other.fetched.rawBytes ∨
    ∃ mail otherMail, Accepted deployment.tools submission.fetched.rawBytes mail ∧
      Accepted deployment.tools other.fetched.rawBytes otherMail ∧ EncryptedAlike mail otherMail

/-- Two worlds with the same database and files under the same names. -/
structure SameDatabase (world other : World) : Prop where
  store : world.store = other.store
  notified : world.drainerNotified = other.drainerNotified
  names : ∀ path, (world.files path).isSome = (other.files path).isSome

variable {deployment}

theorem FetchedMessage.fields_of_key {fetched other : FetchedMessage}
    (same : fetched.key = other.key) :
    fetched.accountId = other.accountId ∧ fetched.folder = other.folder ∧
      fetched.serverUid = other.serverUid ∧ fetched.uidvalidity = other.uidvalidity := by
  simpa [FetchedMessage.key] using same

/-- Encrypted mails that are alike are parsed alike. -/
theorem EncryptedAlike.parsedMessage_eq {mail other : Email} (alike : EncryptedAlike mail other)
    (tools : MailTools) (now : Int) (ctx : ParseContext) :
    parsedMessage tools now mail ctx = parsedMessage tools now other ctx := by
  obtain ⟨sameHeaders, encrypted⟩ := alike
  have otherEncrypted : classify other.contentType = .pgpEncrypted := by
    rw [← encrypted, sameHeaders]
  rw [parsedMessage, parsedMessage, parseContent_encrypted encrypted,
    parseContent_encrypted otherEncrypted, sameHeaders]

theorem Twins.message?_eq {submission other : Submission}
    (twins : Twins deployment submission other) (now : Int) :
    (outcome (deployment.platform now) submission.fetched).message? =
      (outcome (deployment.platform now) other.fetched).message? := by
  obtain ⟨account, folder, uid, -⟩ := FetchedMessage.fields_of_key twins.key
  have sameContext : parseContext submission.fetched = parseContext other.fetched := by
    rw [parseContext, parseContext, account, folder, uid, twins.internalDate]
  rw [outcome_platform, outcome_platform, sameContext, FullOutcome.stored_message?,
    FullOutcome.stored_message?]
  rcases twins.content with same | ⟨mail, otherMail, accepted, otherAccepted, alike⟩
  · rw [same]
  · rw [(parse_accepted now _ accepted).1, (parse_accepted now _ otherAccepted).1,
      alike.parsedMessage_eq]

theorem SameDatabase.write {world other : World} (same : SameDatabase world other) (path : String)
    (bytes otherBytes : List UInt8) (store : Store) (notified : Bool) :
    SameDatabase ⟨store, world.files.write path bytes, notified⟩
      ⟨store, other.files.write path otherBytes, notified⟩ where
  store := rfl
  notified := rfl
  names name := by
    dsimp only
    by_cases isPath : name = path
    · rw [isPath, Files.write_same, Files.write_same]
      rfl
    · rw [Files.write_other _ _ isPath, Files.write_other _ _ isPath]
      exact same.names name

/-- What `submit` writes to the database depends on the raw bytes through the parsed message and
their number only. -/
theorem submitParsed_alike (platform : Platform) (env : CallEnv) {fetched other : FetchedMessage}
    (sameKey : fetched.key = other.key) (size : fetched.rawBytes.length = other.rawBytes.length)
    (parsed : ParsedMessage) {world otherWorld : World} (same : SameDatabase world otherWorld) :
    (submitParsed platform env fetched parsed world).1 =
        (submitParsed platform env other parsed otherWorld).1 ∧
      SameDatabase (submitParsed platform env fetched parsed world).2
        (submitParsed platform env other parsed otherWorld).2 := by
  obtain ⟨account, folder, uid, epoch⟩ := FetchedMessage.fields_of_key sameKey
  have sameId : messageId platform fetched parsed = messageId platform other parsed := by
    rw [messageId, messageId, canonicalId, canonicalId, account, folder, uid, epoch]
  have samePath : submitPath platform fetched parsed = submitPath platform other parsed := by
    rw [submitPath, submitPath, account, sameId]
  have sameInsert : toInsert platform fetched parsed = toInsert platform other parsed := by
    simp only [toInsert, account, folder, uid, epoch, sameId, samePath, size]
  unfold submitParsed
  rw [samePath, sameInsert, sameId, ← same.store]
  cases env.rawFault with
  | some message => exact ⟨rfl, same⟩
  | none =>
      simp only [writeRaw]
      cases attempt env.insertFault (insertMessage env.threads (toInsert platform other parsed)
          world.store) with
      | error reason =>
          refine ⟨rfl, ?_⟩
          have written := same.write (submitPath platform other parsed) fetched.rawBytes
            other.rawBytes world.store world.drainerNotified
          simpa only [← same.store, ← same.notified] using written
      | ok store =>
          simp only
          cases attempt env.enqueueFault
              (.ok (enqueue env.now (messageId platform other parsed) store)) with
          | error reason =>
              refine ⟨rfl, ?_⟩
              have written := same.write (submitPath platform other parsed) fetched.rawBytes
                other.rawBytes store world.drainerNotified
              simpa only [← same.notified] using written
          | ok queued =>
              exact ⟨rfl, same.write (submitPath platform other parsed) fetched.rawBytes
                other.rawBytes queued true⟩

theorem receive_twins {world otherWorld : World} {submission other : Submission}
    (same : SameDatabase world otherWorld) (twins : Twins deployment submission other) :
    SameDatabase (receive deployment world submission) (receive deployment otherWorld other) := by
  have sameMessage := twins.message?_eq submission.env.now
  rw [receive, receive, ingest, ingest, submit, submit, ← twins.env, ← sameMessage]
  cases (outcome (deployment.platform submission.env.now) submission.fetched).message? with
  | none => exact same
  | some parsed =>
      exact (submitParsed_alike _ submission.env twins.key twins.size parsed same).2

/-- Nothing of an encrypted mail but its header fields and its length reaches the database: two
sequences of deliveries that differ in what is inside encrypted mails leave the same rows, the
same queue and files under the same names. -/
theorem encrypted_noninterference (accounts : Table AccountRow SameAccount)
    {submissions others : List Submission}
    (twins : List.Forall₂ (Twins deployment) submissions others) :
    SameDatabase (run (receive deployment) (World.fresh accounts) submissions)
      (run (receive deployment) (World.fresh accounts) others) :=
  run_related receive_twins ⟨rfl, rfl, fun _ => rfl⟩ twins

/-- The parser reads the secret of an encrypted mail from the first byte. -/
def encryptedDeployment : Deployment where
  tools := { sampleTools with
    parser := fun rawBytes => some (textMail
      (sampleHeaders (some ⟨"multipart", some "encrypted"⟩)) (toString (rawBytes.headD 0).toNat)) }
  hexSha256 := sampleDigest
  chrono := samplePlatform.chrono
  dataDir := "/data"

theorem encrypted_noninterference_secrets :
    SameDatabase
      (run (receive encryptedDeployment) (World.fresh workAccounts)
        [⟨{}, sampleMail "INBOX" 1 [1]⟩])
      (run (receive encryptedDeployment) (World.fresh workAccounts)
        [⟨{}, sampleMail "INBOX" 1 [2]⟩]) :=
  encrypted_noninterference workAccounts (.cons {
    env := rfl
    key := rfl
    internalDate := rfl
    size := rfl
    content := .inr ⟨_, _, accepted_textMail rfl, accepted_textMail rfl, rfl, rfl⟩ } .nil)

end Encrypted

end Scryd.Runtime
