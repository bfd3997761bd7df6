import Scryd.Mime.Body

/-!
# `parse`

The raw bytes of a message become a parsed message and the faults met on the
way, or nothing.
-/

namespace Scryd.Mime

open Scryd.Foundation Scryd.Storage

/-- `scryd_mime::ParsedMessage`, with the attachments that no one stores. -/
structure FullMessage extends ParsedMessage where
  attachments : List AttachmentMeta

/-- `scryd_mime::ParseOutcome` -/
inductive FullOutcome where
  | parsed (message : FullMessage)
  | parsedDegraded (message : FullMessage) (faults : List ParseFault)
  | unparseable (faults : List ParseFault)

/-- What the sink uses of an outcome. -/
def FullOutcome.stored : FullOutcome → ParseOutcome
  | .parsed message => .parsed message.toParsedMessage
  | .parsedDegraded message faults => .parsedDegraded message.toParsedMessage faults
  | .unparseable faults => .unparseable faults

def FullOutcome.message? : FullOutcome → Option FullMessage
  | .parsed message => some message
  | .parsedDegraded message _ => some message
  | .unparseable _ => none

def FullOutcome.faults : FullOutcome → List ParseFault
  | .parsed _ => []
  | .parsedDegraded _ faults => faults
  | .unparseable faults => faults

section Parse

variable (tools : MailTools)

/-- `resolve_date`.  `now` is the clock in seconds since the epoch. -/
def resolveDate (now : Int) (date internalDate : Option Int) : Int × List ParseFault :=
  match date with
  | some timestamp => (timestamp, [])
  | none =>
      match internalDate with
      | some internal => (internal, [.dateFallback "internaldate"])
      | none => (now, [.dateFallback "now"])

/-- The body, the attachments and their faults. -/
def parseContent (mail : Email) : String × List AttachmentMeta × List ParseFault :=
  match classify mail.contentType with
  | .pgpEncrypted => (encryptedPlaceholder, [], [.encryptedNotIndexed])
  | .plain | .smimeSigned =>
      let body := selectBody tools mail.parts
      let found := enumerate mail.parts
      (body.1, found.1, body.2 ++ found.2)

def normalizeId (raw : String) : Option String := normalizeMessageId tools.lowercase.apply raw

/-- The message that `parse` builds from a mail within the caps. -/
def parsedMessage (now : Int) (mail : Email) (ctx : ParseContext) : FullMessage where
  headerMessageId := mail.messageId.bind (normalizeId tools)
  inReplyTo := mail.inReplyTo.bind (normalizeId tools)
  references := (mail.references.map fun list => list.filterMap (normalizeId tools)).getD []
  subject := mail.subject
  fromAddr := (mail.fromField.bind (normalize tools.lowercase)).getD ⟨"unknown", none⟩
  toAddrs := (mail.toField.map (normalizeList tools.lowercase)).getD []
  ccAddrs := (mail.ccField.map (normalizeList tools.lowercase)).getD []
  dateUnix := (resolveDate now mail.date ctx.internalDate).1
  bodyMd := (parseContent tools mail).1
  attachments := (parseContent tools mail).2.1

@[simp] theorem parsedMessage_bodyMd (now : Int) (mail : Email) (ctx : ParseContext) :
    (parsedMessage tools now mail ctx).bodyMd = (parseContent tools mail).1 := rfl

@[simp] theorem parsedMessage_attachments (now : Int) (mail : Email) (ctx : ParseContext) :
    (parsedMessage tools now mail ctx).attachments = (parseContent tools mail).2.1 := rfl

/-- The faults it collects, in order. -/
def mailFaults (now : Int) (mail : Email) (ctx : ParseContext) : List ParseFault :=
  (resolveDate now mail.date ctx.internalDate).2 ++ (parseContent tools mail).2.2

/-- `parse` -/
def parse (now : Int) (rawBytes : List UInt8) (ctx : ParseContext) : FullOutcome :=
  match tools.parser rawBytes with
  | none => .unparseable [.parseCapExceeded "outer-parse"]
  | some mail =>
      match checkCaps mail.outline mail.tree with
      | .error fault => .unparseable [fault]
      | .ok () =>
          let parsed := parsedMessage tools now mail ctx
          let faults := mailFaults tools now mail ctx
          if faults.isEmpty then .parsed parsed else .parsedDegraded parsed faults

end Parse

section Outcomes

variable {tools : MailTools} {now : Int} {rawBytes : List UInt8} {ctx : ParseContext}
  {mail : Email}

theorem parseContent_encrypted (encrypted : classify mail.contentType = .pgpEncrypted) :
    parseContent tools mail = (encryptedPlaceholder, [], [.encryptedNotIndexed]) := by
  rw [parseContent, encrypted]

theorem parseContent_readable (readable : classify mail.contentType ≠ .pgpEncrypted) :
    parseContent tools mail =
      ((selectBody tools mail.parts).1, (enumerate mail.parts).1,
        (selectBody tools mail.parts).2 ++ (enumerate mail.parts).2) := by
  rw [parseContent]
  split
  next encrypted => exact absurd encrypted readable
  next => rfl
  next => rfl

theorem parseContent_body (readable : classify mail.contentType ≠ .pgpEncrypted) :
    (parseContent tools mail).1 = (selectBody tools mail.parts).1 := by
  rw [parseContent_readable readable]

/-- A mail that is not refused. -/
def Accepted (tools : MailTools) (rawBytes : List UInt8) (mail : Email) : Prop :=
  tools.parser rawBytes = some mail ∧ checkCaps mail.outline mail.tree = .ok ()

/-- A mail of one text is within the caps. -/
theorem accepted_textMail {headers : MailHeaders} {text : String}
    (isMail : tools.parser rawBytes = some (textMail headers text)) :
    Accepted tools rawBytes (textMail headers text) := by
  refine ⟨isMail, (checkCaps_ok_iff _).mpr ?_⟩
  rintro (tooMany | ⟨part, member, exceeds⟩ | ⟨idx, deep, inside, at_, exceeds⟩)
  · exact absurd tooMany (show ¬ maxParts < 1 by decide)
  · obtain rfl := List.mem_singleton.mp member
    exact absurd exceeds (show ¬ maxHeaderBytesPerPart < 0 by decide)
  · cases at_ with
    | here => exact absurd exceeds (by decide)
    | under found child _ =>
        obtain rfl := List.mem_singleton.mp (List.mem_of_getElem? found)
        cases child

theorem parse_accepted (now : Int) (ctx : ParseContext)
    (accepted : Accepted tools rawBytes mail) :
    (parse tools now rawBytes ctx).message? = some (parsedMessage tools now mail ctx) ∧
      (parse tools now rawBytes ctx).faults = mailFaults tools now mail ctx := by
  rw [parse, accepted.1]
  simp only [accepted.2]
  split
  next none_ => exact ⟨rfl, (List.isEmpty_iff.mp none_).symm⟩
  next => exact ⟨rfl, rfl⟩

/-- The caps name the one that is exceeded. -/
theorem checkCaps_error {message : Message} {tree : FiniteTree message.parts} {fault : ParseFault}
    (refused : checkCaps message tree = .error fault) :
    ∃ cap, fault = .parseCapExceeded cap := by
  unfold checkCaps at refused
  split at refused
  · cases refused
    exact ⟨_, rfl⟩
  · split at refused
    · cases refused
      exact ⟨_, rfl⟩
    · split at refused
      · cases refused
        exact ⟨_, rfl⟩
      · cases refused

/-- A refused mail has one fault and no message. -/
theorem parse_refused (tools : MailTools) (now : Int) (ctx : ParseContext)
    (refused : ∀ mail, ¬ Accepted tools rawBytes mail) :
    ∃ cap, parse tools now rawBytes ctx = .unparseable [.parseCapExceeded cap] := by
  rw [parse]
  split
  next => exact ⟨_, rfl⟩
  next mail isMail =>
    split
    next fault isFault =>
      obtain ⟨cap, rfl⟩ := checkCaps_error isFault
      exact ⟨cap, rfl⟩
    next within => exact absurd ⟨isMail, within⟩ (refused mail)

/-- What each fault reports. -/
inductive FaultCause (tools : MailTools) (mail : Email) (ctx : ParseContext) :
    ParseFault → Prop where
  | internalDate (dateless : mail.date = none) (received : ctx.internalDate.isSome = true) :
      FaultCause tools mail ctx (.dateFallback "internaldate")
  | now (dateless : mail.date = none) (unknown : ctx.internalDate = none) :
      FaultCause tools mail ctx (.dateFallback "now")
  | encrypted (encrypted : classify mail.contentType = .pgpEncrypted) :
      FaultCause tools mail ctx .encryptedNotIndexed
  | truncated (readable : classify mail.contentType ≠ .pgpEncrypted)
      (exceeds : bodyMaxBytes < byteLength (selectedBody tools mail.parts).toList) :
      FaultCause tools mail ctx (.bodyTruncated (byteLength (selectedBody tools mail.parts).toList))
  | nameless (readable : classify mail.contentType ≠ .pgpEncrypted) {part : Part}
      (isAttached : part ∈ attached mail.parts) (unnamed : part.attachmentName = none) :
      FaultCause tools mail ctx .attachmentNameUndecodable

theorem mem_resolveDate_iff (mail : Email) (fault : ParseFault) :
    fault ∈ (resolveDate now mail.date ctx.internalDate).2 ↔
      (mail.date = none ∧ ctx.internalDate.isSome = true ∧ fault = .dateFallback "internaldate") ∨
        (mail.date = none ∧ ctx.internalDate = none ∧ fault = .dateFallback "now") := by
  cases dated : mail.date with
  | some timestamp => simp [resolveDate]
  | none =>
      cases received : ctx.internalDate with
      | some internal => simp [resolveDate]
      | none => simp [resolveDate]

theorem mem_selectBody_iff (parts : List Part) (fault : ParseFault) :
    fault ∈ (selectBody tools parts).2 ↔
      bodyMaxBytes < byteLength (selectedBody tools parts).toList ∧
        fault = .bodyTruncated (byteLength (selectedBody tools parts).toList) := by
  rw [selectBody, enforceSizeCap]
  split
  next fits => simp [Nat.not_lt.mpr fits]
  next exceeds => simp [Nat.lt_of_not_le exceeds]

theorem mem_enumerate_iff (parts : List Part) (fault : ParseFault) :
    fault ∈ (enumerate parts).2 ↔
      (∃ part ∈ attached parts, part.attachmentName = none) ∧
        fault = .attachmentNameUndecodable := by
  rw [enumerate_eq, List.mem_replicate, ← Nat.pos_iff_ne_zero, List.countP_pos_iff]
  simp only [Option.isNone_iff_eq_none]

theorem mem_mailFaults_iff (fault : ParseFault) :
    fault ∈ mailFaults tools now mail ctx ↔ FaultCause tools mail ctx fault := by
  rw [mailFaults, List.mem_append, mem_resolveDate_iff]
  constructor
  · rintro ((⟨dateless, received, rfl⟩ | ⟨dateless, unknown, rfl⟩) | content)
    · exact .internalDate dateless received
    · exact .now dateless unknown
    · by_cases encrypted : classify mail.contentType = .pgpEncrypted
      · rw [parseContent_encrypted encrypted] at content
        obtain rfl := List.mem_singleton.mp content
        exact .encrypted encrypted
      · rw [parseContent_readable encrypted] at content
        rcases List.mem_append.mp content with isBody | isAttachment
        · obtain ⟨exceeds, rfl⟩ := (mem_selectBody_iff mail.parts fault).mp isBody
          exact .truncated encrypted exceeds
        · obtain ⟨⟨part, isAttached, unnamed⟩, rfl⟩ :=
            (mem_enumerate_iff mail.parts fault).mp isAttachment
          exact .nameless encrypted isAttached unnamed
  · intro cause
    cases cause with
    | internalDate dateless received => exact .inl (.inl ⟨dateless, received, rfl⟩)
    | now dateless unknown => exact .inl (.inr ⟨dateless, unknown, rfl⟩)
    | encrypted encrypted =>
        rw [parseContent_encrypted encrypted]
        exact .inr List.mem_cons_self
    | truncated readable exceeds =>
        rw [parseContent_readable readable]
        have inBody := (mem_selectBody_iff mail.parts _).mpr ⟨exceeds, rfl⟩
        exact .inr (List.mem_append_left _ inBody)
    | nameless readable isAttached unnamed =>
        rw [parseContent_readable readable]
        have inAttachments := (mem_enumerate_iff mail.parts _).mpr ⟨⟨_, isAttached, unnamed⟩, rfl⟩
        exact .inr (List.mem_append_right _ inAttachments)

theorem parse_parsed_iff (accepted : Accepted tools rawBytes mail) :
    (∃ message, parse tools now rawBytes ctx = .parsed message) ↔
      mailFaults tools now mail ctx = [] := by
  rw [parse, accepted.1]
  simp only [accepted.2]
  split
  next none_ => exact iff_of_true ⟨_, rfl⟩ (List.isEmpty_iff.mp none_)
  next some_ => exact iff_of_false nofun (mt List.isEmpty_iff.mpr some_)

/-- A mail that is refused has the one fault of the refusal.  Any other one is parsed, with exactly
the faults that have a cause, and is degraded exactly if one has. -/
theorem parse_reports_causes (tools : MailTools) (now : Int) (rawBytes : List UInt8)
    (ctx : ParseContext) :
    let outcome := parse tools now rawBytes ctx
    ((∀ mail, ¬ Accepted tools rawBytes mail) ∧
      ∃ cap, outcome = .unparseable [.parseCapExceeded cap]) ∨
    ∃ mail, Accepted tools rawBytes mail ∧
      outcome.message? = some (parsedMessage tools now mail ctx) ∧
      (∀ fault, fault ∈ outcome.faults ↔ FaultCause tools mail ctx fault) ∧
      ((∃ message, outcome = .parsed message) ↔ ∀ fault, ¬ FaultCause tools mail ctx fault) := by
  intro outcome
  by_cases refused : ∀ mail, ¬ Accepted tools rawBytes mail
  · exact .inl ⟨refused, parse_refused tools now ctx refused⟩
  · apply Or.inr
    simp only [not_forall, not_not] at refused
    obtain ⟨mail, accepted⟩ := refused
    obtain ⟨isMessage, areFaults⟩ := parse_accepted now ctx accepted
    refine ⟨mail, accepted, isMessage, fun fault => ?_, ?_⟩
    · rw [areFaults, mem_mailFaults_iff]
    · rw [parse_parsed_iff accepted, List.eq_nil_iff_forall_not_mem]
      exact forall_congr' fun fault => not_congr (mem_mailFaults_iff fault)

/-- Each attachment has a name or counts as nameless. -/
theorem length_filterMap_meta? (parts : List Part) :
    (parts.filterMap Part.meta?).length +
      (parts.countP fun part => part.attachmentName.isNone) = parts.length := by
  induction parts with
  | nil => rfl
  | cons part parts inductionHypothesis =>
      cases named : part.attachmentName with
      | none =>
          rw [List.filterMap_cons_none (by rw [Part.meta?, named]; rfl),
            List.countP_cons_of_pos (by rw [named]; rfl), List.length_cons, ← inductionHypothesis,
            Nat.add_assoc]
      | some filename =>
          rw [List.filterMap_cons_some (by rw [Part.meta?, named]; rfl),
            List.countP_cons_of_neg (by rw [named]; exact Bool.false_ne_true), List.length_cons,
            List.length_cons, ← inductionHypothesis]
          omega

theorem count_nameless (readable : classify mail.contentType ≠ .pgpEncrypted) :
    (mailFaults tools now mail ctx).count .attachmentNameUndecodable =
      (attached mail.parts).countP fun part => part.attachmentName.isNone := by
  have dateFree : .attachmentNameUndecodable ∉
      (resolveDate now mail.date ctx.internalDate).2 := by
    rw [mem_resolveDate_iff]
    rintro (⟨-, -, impossible⟩ | ⟨-, -, impossible⟩) <;> cases impossible
  have bodyFree : .attachmentNameUndecodable ∉ (selectBody tools mail.parts).2 := by
    rw [mem_selectBody_iff]
    rintro ⟨-, impossible⟩
    cases impossible
  rw [mailFaults, parseContent_readable readable, List.count_append, List.count_append,
    List.count_eq_zero.mpr dateFree, List.count_eq_zero.mpr bodyFree, enumerate_eq,
    List.count_replicate_self, Nat.zero_add, Nat.zero_add]

/-- What the body and the attachments of a parsed mail are.  Of an encrypted one nothing is kept.
Otherwise the body is what was selected, up to the cap, and each attachment is listed or has its
fault. -/
theorem parse_content (accepted : Accepted tools rawBytes mail) :
    let outcome := parse tools now rawBytes ctx
    ∃ message, outcome.message? = some message ∧
      (classify mail.contentType = .pgpEncrypted →
        message.bodyMd = encryptedPlaceholder ∧ message.attachments = []) ∧
      (classify mail.contentType ≠ .pgpEncrypted →
        (∃ bodyFaults, Capped (selectedBody tools mail.parts).toList message.bodyMd.toList
          bodyFaults ∧ bodyFaults ⊆ outcome.faults) ∧
        message.attachments = (attached mail.parts).filterMap Part.meta? ∧
        message.attachments.length + outcome.faults.count .attachmentNameUndecodable =
          (attached mail.parts).length) := by
  intro outcome
  obtain ⟨isMessage, areFaults⟩ := parse_accepted now ctx accepted
  refine ⟨_, isMessage, fun encrypted => ?_, fun readable =>
    ⟨⟨(selectBody tools mail.parts).2, ?_, ?_⟩, ?_, ?_⟩⟩
  · rw [parsedMessage_bodyMd, parsedMessage_attachments, parseContent_encrypted encrypted]
    exact ⟨rfl, rfl⟩
  · rw [parsedMessage_bodyMd, parseContent_body readable]
    exact capped_selectBody tools mail.parts
  · rw [areFaults, mailFaults, parseContent_readable readable]
    exact List.subset_append_of_subset_right _ (List.subset_append_left _ _)
  · rw [parsedMessage_attachments, parseContent_readable readable, enumerate_eq]
  · rw [areFaults, count_nameless readable, parsedMessage_attachments,
      parseContent_readable readable, enumerate_eq]
    exact length_filterMap_meta? _

/-- A text with a named attachment and one whose name was lost. -/
def mixedParts (text : String) : List Part :=
  [⟨[], some ⟨"multipart", some "mixed"⟩, none, none, none, .multipart [1, 2, 3]⟩,
    ⟨[], some ⟨"text", some "plain"⟩, none, none, none, .text text⟩,
    ⟨[], some ⟨"application", some "pdf"⟩, some ⟨"attachment", none⟩, some "a.pdf", none,
      .binary [37, 80]⟩,
    ⟨[], some ⟨"application", some "zip"⟩, some ⟨"attachment", none⟩, none, none, .binary [80]⟩]

theorem mixedParts_children {text : String} {idx c : Nat} {part : MessagePart}
    (found : ((mixedParts text).map Part.outline)[idx]? = some part)
    (child : c ∈ part.children) : idx = 0 ∧ 0 < c ∧ c < 4 := by
  rcases idx with _ | _ | _ | _ | idx <;> cases found
  · have listed : c ∈ [1, 2, 3] := child
    simp only [List.mem_cons, List.not_mem_nil, or_false] at listed
    omega
  · cases child
  · cases child
  · cases child

def mixedMail (text : String) : Email where
  toMailHeaders := sampleHeaders (some ⟨"multipart", some "mixed"⟩)
  parts := mixedParts text
  tree := {
    rank := fun idx => if idx = 0 then 1 else 0
    descends := by
      intro idx part found c child
      obtain ⟨rfl, positive, below⟩ := mixedParts_children found child
      refine ⟨below, ?_⟩
      rw [if_pos rfl, if_neg (Nat.ne_of_gt positive)]
      exact Nat.one_pos }

theorem accepted_mixedMail {text : String} (isMail : tools.parser rawBytes = some (mixedMail text)) :
    Accepted tools rawBytes (mixedMail text) := by
  refine ⟨isMail, (checkCaps_ok_iff _).mpr ?_⟩
  rintro (tooMany | ⟨part, member, exceeds⟩ | ⟨idx, deep, inside, at_, exceeds⟩)
  · exact absurd tooMany (show ¬ maxParts < 4 by decide)
  · have headerless : part.headerBytes = 0 := by
      change part ∈ (mixedParts text).map Part.outline at member
      simp only [mixedParts, List.map_cons, List.map_nil, List.mem_cons, List.not_mem_nil,
        or_false] at member
      rcases member with rfl | rfl | rfl | rfl <;> rfl
    rw [headerless] at exceeds
    exact absurd exceeds (Nat.not_lt_zero _)
  · cases at_ with
    | here => exact absurd exceeds (by decide)
    | under found child later =>
        obtain ⟨-, positive, -⟩ := mixedParts_children found child
        cases later with
        | here => exact absurd exceeds (by decide)
        | under foundLater childLater _ =>
            obtain ⟨rfl, -⟩ := mixedParts_children foundLater childLater
            exact absurd positive (Nat.lt_irrefl 0)

/-- A body that exceeds the cap by one byte. -/
def longBody : String := String.ofList (List.replicate (bodyMaxBytes + 1) 'a')

def mixedTools : MailTools := { sampleTools with parser := fun _ => some (mixedMail longBody) }

/-- A mail with a body that is cut, an attachment that is listed and one that is not. -/
theorem parse_content_sample :
    let outcome := parse mixedTools 0 [] ⟨sampleAccountId, "INBOX", 1, none⟩
    ∃ message, outcome.message? = some message ∧
      (classify (mixedMail longBody).contentType = .pgpEncrypted →
        message.bodyMd = encryptedPlaceholder ∧ message.attachments = []) ∧
      (classify (mixedMail longBody).contentType ≠ .pgpEncrypted →
        (∃ bodyFaults, Capped (selectedBody mixedTools (mixedMail longBody).parts).toList
          message.bodyMd.toList bodyFaults ∧ bodyFaults ⊆ outcome.faults) ∧
        message.attachments = (attached (mixedMail longBody).parts).filterMap Part.meta? ∧
        message.attachments.length + outcome.faults.count .attachmentNameUndecodable =
          (attached (mixedMail longBody).parts).length) :=
  parse_content (accepted_mixedMail rfl)

example : (attached (mixedMail "").parts).filterMap Part.meta? =
    [⟨"a.pdf", "application/pdf", 2⟩] := by decide

end Outcomes

end Scryd.Mime
