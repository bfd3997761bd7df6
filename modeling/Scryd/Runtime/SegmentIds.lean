import Scryd.Mime.References
import Scryd.Runtime.Ingest
import Scryd.Search.Indexer

/-!
# Segment UUIDs of ingested mail

The index keys of a message are its id and the id with `#1` to `#7` behind it.
The id ends in a Message-ID, which its sender chooses.
-/

namespace Scryd.Runtime

open Scryd.Foundation Scryd.Storage Scryd.Mime Scryd.Imap Scryd.Search

/-- A mail as the sink gets it: the fetch, the rest of the parse, and the raw Message-ID
header. -/
structure IngestedMail where
  fetched : FetchedMessage
  parsed : ParsedMessage
  header : Option String

/-- The Message-ID the parser hands on. -/
def IngestedMail.normalized (toLowercase : String → String) (mail : IngestedMail) :
    Option String :=
  mail.header.bind (normalizeMessageId toLowercase)

/-- The message id that `submit` derives. -/
def IngestedMail.id (platform : Platform) (toLowercase : String → String) (mail : IngestedMail) :
    String :=
  messageId platform mail.fetched
    { mail.parsed with headerMessageId := mail.normalized toLowercase }

/-- Equal segment UUIDs are the same segment of the same message. -/
def SegmentsApart (first second : String) : Prop :=
  ∀ i j, i < maxSegmentsPerMessage → j < maxSegmentsPerMessage →
    segmentUuid first i = segmentUuid second j → first = second ∧ i = j

/-- One text continues the other with a segment number. -/
def ContinuedBy (short long : String) : Prop :=
  ∃ idx, 0 < idx ∧ idx < maxSegmentsPerMessage ∧ long = segmentUuid short idx

/-- No Message-ID of one account continues another one with a segment number. -/
def HeadersApart (toLowercase : String → String) (first second : IngestedMail) : Prop :=
  first.fetched.accountId = second.fetched.accountId →
    ∀ left right, first.normalized toLowercase = some left →
      second.normalized toLowercase = some right →
      ¬ ContinuedBy left right ∧ ¬ ContinuedBy right left

theorem segmentUuid_pos (id : String) {idx : Nat} (positive : 0 < idx) :
    segmentUuid id idx = id ++ "#" ++ toString idx := by
  rw [segmentUuid, if_neg (Nat.ne_of_gt positive)]

theorem length_toString_of_lt_ten {idx : Nat} (digit : idx < 10) :
    (toString idx).toList.length = 1 := by
  rw [Nat.toString_eq_repr, Nat.toList_repr, Nat.toDigits_of_lt_base digit]
  rfl

theorem ContinuedBy.length_lt {short long : String} (continued : ContinuedBy short long) :
    short.toList.length < long.toList.length := by
  obtain ⟨idx, positive, _, rfl⟩ := continued
  rw [segmentUuid_pos short positive, String.toList_append, String.toList_append,
    List.length_append, List.length_append]
  have mark : "#".toList.length = 1 := rfl
  omega

/-- Two ids collide only when one continues the other. -/
theorem segmentsApart_iff (first second : String) :
    SegmentsApart first second ↔ ¬ ContinuedBy first second ∧ ¬ ContinuedBy second first := by
  constructor
  · intro apart
    constructor
    · rintro ⟨idx, positive, inside, continued⟩
      have same := (apart idx 0 inside (by decide) continued.symm).2
      exact absurd positive (same ▸ Nat.lt_irrefl 0)
    · rintro ⟨idx, positive, inside, continued⟩
      have same := (apart 0 idx (by decide) inside continued).2
      exact absurd positive (same ▸ Nat.lt_irrefl 0)
  · rintro ⟨notFirst, notSecond⟩ i j iInside jInside same
    rcases Nat.eq_zero_or_pos i with rfl | iPositive
    · rcases Nat.eq_zero_or_pos j with rfl | jPositive
      · exact ⟨same, rfl⟩
      · exact absurd ⟨j, jPositive, jInside, same⟩ notSecond
    · rcases Nat.eq_zero_or_pos j with rfl | jPositive
      · exact absurd ⟨i, iPositive, iInside, same.symm⟩ notFirst
      · -- Both numbers have one digit, so the ids in front of them end at the same place.
        have bound : maxSegmentsPerMessage < 10 := by decide
        have characters := same
        rw [segmentUuid_pos first iPositive, segmentUuid_pos second jPositive,
          String.append_assoc, String.append_assoc] at characters
        have lists := congrArg String.toList characters
        rw [@String.toList_append first, @String.toList_append second] at lists
        have suffixes : ("#" ++ toString i).toList.length = ("#" ++ toString j).toList.length := by
          rw [String.toList_append, String.toList_append, List.length_append,
            List.length_append, length_toString_of_lt_ten (iInside.trans bound),
            length_toString_of_lt_ten (jInside.trans bound)]
        have sameId := String.toList_injective (List.append_inj_left' lists suffixes)
        subst sameId
        exact ⟨rfl, segmentUuid_injective first same⟩

section Ids

def isHexDigit (c : Char) : Bool := ('0' ≤ c && c ≤ '9') || ('a' ≤ c && c ≤ 'f')

variable {platform : Platform} {toLowercase : String → String}

theorem id_of_normalized {mail : IngestedMail} {header : String}
    (normalized : mail.normalized toLowercase = some header) :
    mail.id platform toLowercase = mail.fetched.accountId.text ++ ":" ++ header := by
  simp only [IngestedMail.id, messageId, canonicalId, normalized, Option.getD_some]

/-- Without a Message-ID the rest of the id is `synth-` and hexadecimal digits. -/
theorem id_of_synthesized
    (hexDigits : ∀ text, (platform.hexSha256 text).toList.all isHexDigit = true)
    {mail : IngestedMail} (none_normalized : mail.normalized toLowercase = none) :
    ∃ synthesized, mail.id platform toLowercase =
        mail.fetched.accountId.text ++ ":" ++ synthesized ∧
      '@' ∉ synthesized.toList ∧ '#' ∉ synthesized.toList := by
  refine ⟨_, by rw [IngestedMail.id, messageId], ?_⟩
  have digits := List.all_eq_true.mp (hexDigits
    (mail.fetched.folder ++ "|" ++ toString mail.fetched.uidvalidity ++ "|" ++
      toString mail.fetched.serverUid))
  simp only [canonicalId, none_normalized, Option.getD_none, String.toList_append,
    List.mem_append, not_or]
  refine ⟨⟨by decide, fun member => ?_⟩, by decide, fun member => ?_⟩
  · have digit := digits _ member
    revert digit
    decide
  · have digit := digits _ member
    revert digit
    decide

/-- What stands behind the account id in one message id continues what stands there in the
other. -/
theorem continuedBy_prefixed_iff (first second : AccountId) (left right : String) :
    ContinuedBy (first.text ++ ":" ++ left) (second.text ++ ":" ++ right) ↔
      first = second ∧ ContinuedBy left right := by
  have noColon : accountIdChar ':' = false := by decide
  constructor
  · rintro ⟨idx, positive, inside, continued⟩
    rw [segmentUuid_pos _ positive] at continued
    have characters := congrArg String.toList continued
    simp only [String.toList_append, List.append_assoc] at characters
    obtain ⟨sameText, sameRest⟩ := append_mark_inj (second.notMem_text noColon)
      (first.notMem_text noColon) characters
    change right.toList = left.toList ++ ("#".toList ++ (toString idx).toList) at sameRest
    refine ⟨AccountId.eq_of_text (String.toList_injective sameText.symm), idx, positive,
      inside, String.toList_injective ?_⟩
    rw [segmentUuid_pos _ positive, sameRest]
    simp only [String.toList_append, List.append_assoc]
  · rintro ⟨rfl, idx, positive, inside, continued⟩
    refine ⟨idx, positive, inside, ?_⟩
    rw [continued, segmentUuid_pos _ positive, segmentUuid_pos _ positive]
    simp only [String.append_assoc]

variable (first second : IngestedMail)

theorem id_continued_iff
    (hexDigits : ∀ text, (platform.hexSha256 text).toList.all isHexDigit = true)
    (keepsAt : ∀ text : String, '@' ∈ text.toList → '@' ∈ (toLowercase text).toList) :
    ContinuedBy (first.id platform toLowercase) (second.id platform toLowercase) ↔
      first.fetched.accountId = second.fetched.accountId ∧
        ∃ left right, first.normalized toLowercase = some left ∧
          second.normalized toLowercase = some right ∧ ContinuedBy left right := by
  have separated : ∀ {mail : IngestedMail} {header : String},
      mail.normalized toLowercase = some header → '@' ∈ header.toList := by
    intro mail header normalized
    obtain ⟨raw, _, parsed⟩ := Option.bind_eq_some_iff.mp normalized
    exact at_mem_of_normalizeMessageId keepsAt parsed
  cases firstHeader : first.normalized toLowercase with
  | some left =>
      rw [id_of_normalized firstHeader]
      cases secondHeader : second.normalized toLowercase with
      | some right =>
          rw [id_of_normalized secondHeader, continuedBy_prefixed_iff]
          simp
      | none =>
          -- A synthesized id has no `#`.
          obtain ⟨synthesized, sameId, _, noMark⟩ := id_of_synthesized hexDigits secondHeader
          rw [sameId, continuedBy_prefixed_iff]
          refine iff_of_false ?_ (by simp)
          rintro ⟨_, idx, positive, _, continued⟩
          rw [continued, segmentUuid_pos _ positive] at noMark
          simp [String.toList_append] at noMark
  | none =>
      obtain ⟨synthesized, sameId, noAt, _⟩ := id_of_synthesized hexDigits firstHeader
      rw [sameId]
      refine iff_of_false ?_ (by simp)
      cases secondHeader : second.normalized toLowercase with
      | some right =>
          -- What continues a synthesized id has no `@`, a Message-ID has one.
          rw [id_of_normalized secondHeader, continuedBy_prefixed_iff]
          rintro ⟨_, idx, positive, _, continued⟩
          have hasAt := separated secondHeader
          rw [continued, segmentUuid_pos _ positive, String.toList_append, String.toList_append,
            List.mem_append, List.mem_append] at hasAt
          rcases hasAt with (inside | inMark) | inNumber
          · exact noAt inside
          · revert inMark
            decide
          · have digit := isDigit_of_mem_toString inNumber
            revert digit
            decide
      | none =>
          obtain ⟨other, otherId, _, noMark⟩ := id_of_synthesized hexDigits secondHeader
          rw [otherId, continuedBy_prefixed_iff]
          rintro ⟨_, idx, positive, _, continued⟩
          rw [continued, segmentUuid_pos _ positive] at noMark
          simp [String.toList_append] at noMark

/-- Two ingested mails share no segment UUID exactly when they belong to different accounts or
no Message-ID of theirs continues the other with a segment number. -/
theorem segments_apart_iff_headers
    (hexDigits : ∀ text, (platform.hexSha256 text).toList.all isHexDigit = true)
    (keepsAt : ∀ text : String, '@' ∈ text.toList → '@' ∈ (toLowercase text).toList) :
    SegmentsApart (first.id platform toLowercase) (second.id platform toLowercase) ↔
      HeadersApart toLowercase first second := by
  rw [segmentsApart_iff, id_continued_iff first second hexDigits keepsAt,
    id_continued_iff second first hexDigits keepsAt, HeadersApart]
  constructor
  · rintro ⟨notFirst, notSecond⟩ sameAccount left right leftHeader rightHeader
    exact ⟨fun continued => notFirst ⟨sameAccount, left, right, leftHeader, rightHeader,
        continued⟩,
      fun continued => notSecond ⟨sameAccount.symm, right, left, rightHeader, leftHeader,
        continued⟩⟩
  · intro apart
    constructor
    · rintro ⟨sameAccount, left, right, leftHeader, rightHeader, continued⟩
      exact (apart sameAccount left right leftHeader rightHeader).1 continued
    · rintro ⟨sameAccount, right, left, rightHeader, leftHeader, continued⟩
      exact (apart sameAccount.symm left right leftHeader rightHeader).2 continued

end Ids

section Sample

/-- A mail in the INBOX of `work`. -/
def mailWithHeader (uid : Nat) (header : String) : IngestedMail where
  fetched := sampleMail "INBOX" uid [97]
  parsed := sampleParse [97]
  header := some header

def lowercaseAscii (text : String) : String := String.ofList (text.toList.map asciiLower)

/-- A platform whose digests are the digest of one message id. -/
def hexPlatform : Platform :=
  { samplePlatform with hexSha256 := fun _ => sampleDigest "work:a@example.org" }

theorem hexPlatform_digits (text : String) :
    (hexPlatform.hexSha256 text).toList.all isHexDigit = true := by
  change (sampleDigest "work:a@example.org").toList.all isHexDigit = true
  decide

theorem lowercaseAscii_keepsAt (text : String) (member : '@' ∈ text.toList) :
    '@' ∈ (lowercaseAscii text).toList := by
  rw [lowercaseAscii, String.toList_ofList]
  exact List.mem_map_of_mem member

theorem segments_apart_two_mails :
    SegmentsApart
      ((mailWithHeader 1 "<a@example.org>").id hexPlatform lowercaseAscii)
      ((mailWithHeader 2 "<b@example.org>").id hexPlatform lowercaseAscii) := by
  apply (segments_apart_iff_headers _ _ hexPlatform_digits lowercaseAscii_keepsAt).mpr
  have left : (mailWithHeader 1 "<a@example.org>").normalized lowercaseAscii =
      some "a@example.org" := by decide
  have right : (mailWithHeader 2 "<b@example.org>").normalized lowercaseAscii =
      some "b@example.org" := by decide
  intro _ first second isFirst isSecond
  rw [left] at isFirst
  rw [right] at isSecond
  cases isFirst
  cases isSecond
  have leftLength : "a@example.org".toList.length = 13 := by decide
  have rightLength : "b@example.org".toList.length = 13 := by decide
  constructor
  · intro continued
    have shorter := continued.length_lt
    rw [leftLength, rightLength] at shorter
    exact absurd shorter (Nat.lt_irrefl 13)
  · intro continued
    have shorter := continued.length_lt
    rw [leftLength, rightLength] at shorter
    exact absurd shorter (Nat.lt_irrefl 13)

/-- The second mail is stored where the first one keeps its second segment. -/
theorem segments_collide_with_numbered_header :
    ¬ SegmentsApart
      ((mailWithHeader 1 "<a@example.org>").id hexPlatform lowercaseAscii)
      ((mailWithHeader 2 "<a@example.org#1>").id hexPlatform lowercaseAscii) := by
  have first : (mailWithHeader 1 "<a@example.org>").id hexPlatform lowercaseAscii =
      "work:a@example.org" := by decide
  have second : (mailWithHeader 2 "<a@example.org#1>").id hexPlatform lowercaseAscii =
      "work:a@example.org#1" := by decide
  rw [first, second]
  intro apart
  have same := apart 1 0 (by decide) (by decide) (by decide)
  cases same.2

end Sample

end Scryd.Runtime
