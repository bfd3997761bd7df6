import Scryd.Runtime.SegmentIds

/-!
# What a message id stands for

The id of a message joins its account and its Message-ID, or its account and a
digest of its place in the mailbox.  What it was made from can be read off it.
-/

namespace Scryd.Runtime

open Scryd.Foundation Scryd.Storage Scryd.Mime Scryd.Imap

section Parts

/-- What stands behind the account id of a message id starts behind its first colon. -/
theorem prefixed_inj (first second : AccountId) (left right : String) :
    first.text ++ ":" ++ left = second.text ++ ":" ++ right ↔ first = second ∧ left = right := by
  have noColon : accountIdChar ':' = false := by decide
  constructor
  · intro same
    have characters := congrArg String.toList same
    simp only [String.toList_append, List.append_assoc] at characters
    obtain ⟨sameAccount, sameRest⟩ := append_mark_inj (first.notMem_text noColon)
      (second.notMem_text noColon) characters
    exact ⟨AccountId.eq_of_text (String.toList_injective sameAccount),
      String.toList_injective sameRest⟩
  · rintro ⟨rfl, rfl⟩
    rfl

/-- The text whose digest replaces a Message-ID. -/
def placeText (fetched : FetchedMessage) : String :=
  fetched.folder ++ "|" ++ toString fetched.uidvalidity ++ "|" ++ toString fetched.serverUid

theorem toList_placeText (fetched : FetchedMessage) : (placeText fetched).toList =
    (fetched.folder.toList ++ '|' :: (toString fetched.uidvalidity).toList) ++
      '|' :: (toString fetched.serverUid).toList := by
  simp [placeText, String.toList_append]

/-- The numbers at its end have no separators, so a folder may have some. -/
theorem placeText_inj (first second : FetchedMessage) :
    placeText first = placeText second ↔
      first.folder = second.folder ∧ first.uidvalidity = second.uidvalidity ∧
        first.serverUid = second.serverUid := by
  have noBar : ∀ n : Nat, '|' ∉ (toString n).toList := fun n member => by
    have digit := isDigit_of_mem_toString member
    revert digit
    decide
  constructor
  · intro same
    have characters := congrArg String.toList same
    rw [toList_placeText, toList_placeText] at characters
    obtain ⟨sameFront, sameUid⟩ := append_last_mark_inj (noBar _) (noBar _) characters
    obtain ⟨sameFolder, sameValidity⟩ := append_last_mark_inj (noBar _) (noBar _) sameFront
    exact ⟨String.toList_injective sameFolder,
      toString_nat_injective (String.toList_injective sameValidity),
      toString_nat_injective (String.toList_injective sameUid)⟩
  · rintro ⟨sameFolder, sameValidity, sameUid⟩
    rw [placeText, placeText, sameFolder, sameValidity, sameUid]

end Parts

section Ids

variable {platform : Platform} {toLowercase : String → String}

theorem id_of_place {mail : IngestedMail} (noHeader : mail.normalized toLowercase = none) :
    mail.id platform toLowercase = mail.fetched.accountId.text ++ ":" ++
      ("synth-" ++ platform.hexSha256 (placeText mail.fetched)) := by
  simp only [IngestedMail.id, messageId, canonicalId, noHeader, Option.getD_none, placeText]

/-- Two mails that the id scheme is to identify: mails of one account with the same Message-ID,
or without one at the same place. -/
inductive SameMail (toLowercase : String → String) (first second : IngestedMail) : Prop
  | header {header : String}
      (sameAccount : first.fetched.accountId = second.fetched.accountId)
      (firstHeader : first.normalized toLowercase = some header)
      (secondHeader : second.normalized toLowercase = some header)
  | place (sameAccount : first.fetched.accountId = second.fetched.accountId)
      (firstHeader : first.normalized toLowercase = none)
      (secondHeader : second.normalized toLowercase = none)
      (sameFolder : first.fetched.folder = second.fetched.folder)
      (sameValidity : first.fetched.uidvalidity = second.fetched.uidvalidity)
      (sameUid : first.fetched.serverUid = second.fetched.serverUid)

variable (first second : IngestedMail)

/-- A synthesized id has no `@` behind the account, a Message-ID has one. -/
theorem synthesized_id_ne_header_id
    (hexDigits : ∀ text, (platform.hexSha256 text).toList.all isHexDigit = true)
    (keepsAt : ∀ text : String, '@' ∈ text.toList → '@' ∈ (toLowercase text).toList)
    (noHeader : first.normalized toLowercase = none) {header : String}
    (hasHeader : second.normalized toLowercase = some header) :
    first.id platform toLowercase ≠ second.id platform toLowercase := by
  obtain ⟨synthesized, firstId, noAt, _⟩ := id_of_synthesized hexDigits noHeader
  obtain ⟨raw, _, parsed⟩ := Option.bind_eq_some_iff.mp hasHeader
  rw [firstId, id_of_normalized hasHeader]
  intro same
  obtain ⟨_, rfl⟩ := (prefixed_inj _ _ _ _).mp same
  exact noAt (at_mem_of_normalizeMessageId keepsAt parsed)

/-- Message ids are equal exactly for the mails they are to identify; so ids of different
accounts never meet, nor does a synthesized id ever meet one from a header. -/
theorem id_eq_iff (injective : Function.Injective platform.hexSha256)
    (hexDigits : ∀ text, (platform.hexSha256 text).toList.all isHexDigit = true)
    (keepsAt : ∀ text : String, '@' ∈ text.toList → '@' ∈ (toLowercase text).toList) :
    (first.id platform toLowercase = second.id platform toLowercase ↔
        SameMail toLowercase first second) ∧
      (first.fetched.accountId ≠ second.fetched.accountId →
        first.id platform toLowercase ≠ second.id platform toLowercase) ∧
      (first.normalized toLowercase = none → second.normalized toLowercase ≠ none →
        first.id platform toLowercase ≠ second.id platform toLowercase) := by
  have identifies : first.id platform toLowercase = second.id platform toLowercase ↔
      SameMail toLowercase first second := by
    constructor
    · intro same
      cases firstHeader : first.normalized toLowercase with
      | some left =>
          cases secondHeader : second.normalized toLowercase with
          | some right =>
              rw [id_of_normalized firstHeader, id_of_normalized secondHeader] at same
              obtain ⟨sameAccount, rfl⟩ := (prefixed_inj _ _ _ _).mp same
              exact .header sameAccount firstHeader secondHeader
          | none =>
              exact absurd same.symm (synthesized_id_ne_header_id second first hexDigits keepsAt
                secondHeader firstHeader)
      | none =>
          cases secondHeader : second.normalized toLowercase with
          | some right =>
              exact absurd same (synthesized_id_ne_header_id first second hexDigits keepsAt
                firstHeader secondHeader)
          | none =>
              rw [id_of_place firstHeader, id_of_place secondHeader] at same
              obtain ⟨sameAccount, sameDigest⟩ := (prefixed_inj _ _ _ _).mp same
              have digests := congrArg String.toList sameDigest
              rw [String.toList_append, String.toList_append] at digests
              have samePlace := injective
                (String.toList_injective (List.append_cancel_left digests))
              obtain ⟨sameFolder, sameValidity, sameUid⟩ := (placeText_inj _ _).mp samePlace
              exact .place sameAccount firstHeader secondHeader sameFolder sameValidity sameUid
    · intro same
      cases same with
      | header sameAccount firstHeader secondHeader =>
          rw [id_of_normalized firstHeader, id_of_normalized secondHeader, sameAccount]
      | place sameAccount firstHeader secondHeader sameFolder sameValidity sameUid =>
          rw [id_of_place firstHeader, id_of_place secondHeader, sameAccount,
            (placeText_inj _ _).mpr ⟨sameFolder, sameValidity, sameUid⟩]
  refine ⟨identifies, fun differentAccounts same => ?_, fun noHeader hasHeader => ?_⟩
  · cases identifies.mp same with
    | header sameAccount => exact differentAccounts sameAccount
    | place sameAccount => exact differentAccounts sameAccount
  · obtain ⟨header, hasHeader⟩ := Option.ne_none_iff_exists'.mp hasHeader
    exact synthesized_id_ne_header_id first second hexDigits keepsAt noHeader hasHeader

end Ids

section Sample

/-- SHA-256 at the place of one mail, and decimal numerals of the text elsewhere. -/
def placeDigest (text : String) : String :=
  if text = "INBOX|1|2" then "be7e39ce27454f74d217992a81fc9686716ba1abb79a367c6a47d52745c81289"
  else toString (textRank text.toList)

theorem placeDigest_injective : Function.Injective placeDigest := by
  have lettered : ∀ n : Nat,
      "be7e39ce27454f74d217992a81fc9686716ba1abb79a367c6a47d52745c81289" ≠ toString n := by
    intro n same
    have digit : 'b'.isDigit = true := @isDigit_of_mem_toString n _ (by rw [← same]; decide)
    revert digit
    decide
  intro left right same
  unfold placeDigest at same
  split at same
  next leftPlace =>
    split at same
    next rightPlace => rw [leftPlace, rightPlace]
    next => exact absurd same (lettered _)
  next =>
    split at same
    next => exact absurd same.symm (lettered _)
    next => exact textRank_toList_injective (toString_nat_injective same)

theorem placeDigest_hexDigits (text : String) :
    (placeDigest text).toList.all isHexDigit = true := by
  unfold placeDigest
  split
  · decide
  · rw [List.all_eq_true]
    intro c member
    have digit := isDigit_of_mem_toString member
    simp only [Char.isDigit, Bool.and_eq_true, decide_eq_true_eq] at digit
    simp only [isHexDigit, Bool.or_eq_true, Bool.and_eq_true, decide_eq_true_eq]
    exact .inl digit

/-- A mail without a Message-ID and one with it, of one account. -/
theorem id_eq_iff_two_mails :
    ({ mailWithHeader 2 "none" with header := none } : IngestedMail).id
        { samplePlatform with hexSha256 := placeDigest } lowercaseAscii ≠
      (mailWithHeader 2 "<a@example.org>").id
        { samplePlatform with hexSha256 := placeDigest } lowercaseAscii :=
  (@id_eq_iff { samplePlatform with hexSha256 := placeDigest } lowercaseAscii _ _
    placeDigest_injective placeDigest_hexDigits lowercaseAscii_keepsAt).2.2 rfl (by decide)

end Sample

end Scryd.Runtime
