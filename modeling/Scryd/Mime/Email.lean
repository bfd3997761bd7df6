import Scryd.Foundation.Utf8
import Scryd.Mime.Caps
import Scryd.Mime.HtmlClean
import Scryd.Mime.NormalForm

/-!
# Mails

What `mail_parser` makes of the raw bytes, as far as `parse` asks for it, and
the parts of `parse` that read the header fields.
-/

namespace Scryd.Mime

open Scryd.Foundation Scryd.Storage

/-- `mail_parser::ContentType`, also of a `Content-Disposition`. -/
structure ContentType where
  ctype : String
  subtype : Option String

/-- `mail_parser::Addr`. -/
structure Addr where
  name : Option String
  address : Option String

/-- `mail_parser::Address`. -/
inductive AddressField where
  | list (addresses : List Addr)
  | group (groups : List (List Addr))

/-- `mail_parser::PartType`. -/
inductive PartBody where
  | text (content : String)
  | html (content : String)
  | binary (content : List UInt8)
  | inlineBinary (content : List UInt8)
  | message (inner : Message)
  | multipart (children : List Nat)

/-- `mail_parser::MessagePart`, with its `MimeHeaders`. -/
structure Part where
  headers : List Header
  contentType : Option ContentType
  contentDisposition : Option ContentType
  attachmentName : Option String
  contentId : Option String
  body : PartBody

def PartBody.outline : PartBody → PartType
  | .text _ => .text
  | .html _ => .html
  | .binary _ => .binary
  | .inlineBinary _ => .inlineBinary
  | .message inner => .message inner
  | .multipart children => .multipart children

/-- What the caps see of a part. -/
def Part.outline (part : Part) : MessagePart := .mk part.headers part.body.outline

/-- The header fields of `mail_parser::Message` that `parse` reads. -/
structure MailHeaders where
  messageId : Option String
  /-- `in_reply_to().as_text()` -/
  inReplyTo : Option String
  /-- `references().as_text_list()` -/
  references : Option (List String)
  subject : Option String
  fromField : Option AddressField
  toField : Option AddressField
  ccField : Option AddressField
  /-- `date()` as a Unix timestamp. -/
  date : Option Int
  contentType : Option ContentType

/-- `mail_parser::Message`.  Its child indices form a tree. -/
structure Email extends MailHeaders where
  parts : List Part
  tree : FiniteTree (parts.map Part.outline)

def Email.outline (mail : Email) : Message := .mk (mail.parts.map Part.outline)

/-- Code outside the repository. -/
structure MailTools where
  /-- `MessageParser::default().parse` -/
  parser : List UInt8 → Option Email
  /-- `htmd::convert` -/
  convert : String → Option String
  words : WordTable
  lowercase : LowercaseTable

/-- A mail of one text. -/
def textMail (headers : MailHeaders) (text : String) : Email where
  toMailHeaders := headers
  parts := [⟨[], none, none, none, none, .text text⟩]
  tree := {
    rank := fun _ => 0
    descends := by
      intro idx part found child listed
      obtain rfl := List.mem_singleton.mp (List.mem_of_getElem? found)
      cases listed }

/-- Header fields without a date. -/
def sampleHeaders (contentType : Option ContentType) : MailHeaders where
  messageId := some "<A@Example.org>"
  inReplyTo := none
  references := none
  subject := some "Hello"
  fromField := some (.list [⟨some "A", some "A@Example.org"⟩])
  toField := none
  ccField := none
  date := none
  contentType

def sampleMail : Email := textMail (sampleHeaders none) "Hello"

def sampleTools : MailTools where
  parser _ := some sampleMail
  convert _ := none
  words := asciiWords
  lowercase := asciiTable

/-- `scryd_mime::AttachmentMeta`. -/
structure AttachmentMeta where
  filename : String
  mimeType : String
  sizeBytes : Nat
  deriving DecidableEq

section Addresses

variable (lowercase : LowercaseTable)

/-- One entry of an address list; those without an address are dropped. -/
def normalizeAddr (addr : Addr) : Option Address :=
  addr.address.map fun address => ⟨lowercase.apply address, addr.name⟩

/-- `iter_normalized`. -/
def iterNormalized : AddressField → List Address
  | .list addresses => addresses.filterMap (normalizeAddr lowercase)
  | .group groups => groups.flatMap fun group => group.filterMap (normalizeAddr lowercase)

/-- `addresses::normalize`. -/
def normalize (field : AddressField) : Option Address := (iterNormalized lowercase field).head?

/-- `addresses::normalize_list`. -/
def normalizeList (field : AddressField) : List Address := iterNormalized lowercase field

end Addresses

section Encryption

/-- `EncryptionClass`. -/
inductive EncryptionClass where
  | plain
  | pgpEncrypted
  | smimeSigned
  deriving DecidableEq

def encryptedPlaceholder : String := "[encrypted message — not indexed by scryd]"

/-- `encryption::classify`. -/
def classify (contentType : Option ContentType) : EncryptionClass :=
  match contentType with
  | none => .plain
  | some ct =>
      let sub := ct.subtype.getD ""
      if !eqIgnoreAsciiCase ct.ctype "multipart" then .plain
      else if eqIgnoreAsciiCase sub "encrypted" then .pgpEncrypted
      else if eqIgnoreAsciiCase sub "signed" then .smimeSigned
      else .plain

end Encryption

section Attachments

/-- `is_attachment_part`. -/
def isAttachmentPart (part : Part) : Bool :=
  (part.contentDisposition.any fun cd =>
    eqIgnoreAsciiCase cd.ctype "attachment" ||
      (eqIgnoreAsciiCase cd.ctype "inline" && part.attachmentName.isSome)) ||
  part.contentType.any fun ct =>
    !eqIgnoreAsciiCase ct.ctype "text" && !eqIgnoreAsciiCase ct.ctype "multipart"

/-- `part_mime_type`. -/
def partMimeType (part : Part) : String :=
  match part.contentType with
  | none => "application/octet-stream"
  | some ct => ct.ctype ++ "/" ++ ct.subtype.getD "octet-stream"

/-- `part_size_bytes`. -/
def partSizeBytes (part : Part) : Nat :=
  match part.body with
  | .binary content => content.length
  | .inlineBinary content => content.length
  | .text content => byteLength content.toList
  | .html content => byteLength content.toList
  | _ => 0

/-- One turn of the loop of `attachments::enumerate`. -/
def enumerateStep (found : List AttachmentMeta × List ParseFault) (part : Part) :
    List AttachmentMeta × List ParseFault :=
  if !isAttachmentPart part then found
  else
    match part.attachmentName with
    | none => (found.1, found.2 ++ [.attachmentNameUndecodable])
    | some filename =>
        (found.1 ++ [⟨filename, partMimeType part, partSizeBytes part⟩], found.2)

/-- `attachments::enumerate`: the root container is skipped. -/
def enumerate (parts : List Part) : List AttachmentMeta × List ParseFault :=
  parts.tail.foldl enumerateStep ([], [])

/-- What is recorded of an attachment that has a name. -/
def Part.meta? (part : Part) : Option AttachmentMeta :=
  part.attachmentName.map fun filename => ⟨filename, partMimeType part, partSizeBytes part⟩

/-- The attachments of a mail. -/
def attached (parts : List Part) : List Part := parts.tail.filter isAttachmentPart

/-- The loop lists the attachments with a name and counts those without, in order. -/
theorem foldl_enumerateStep (parts : List Part) (found : List AttachmentMeta × List ParseFault) :
    parts.foldl enumerateStep found =
      (found.1 ++ (parts.filter isAttachmentPart).filterMap Part.meta?,
        found.2 ++ List.replicate
          ((parts.filter isAttachmentPart).countP fun part => part.attachmentName.isNone)
          .attachmentNameUndecodable) := by
  induction parts generalizing found with
  | nil => simp
  | cons part parts inductionHypothesis =>
      rw [List.foldl_cons, inductionHypothesis, enumerateStep]
      by_cases isAttached : isAttachmentPart part = true
      · rw [List.filter_cons_of_pos isAttached, isAttached]
        cases named : part.attachmentName with
        | none => simp [Part.meta?, named, List.replicate_succ]
        | some filename => simp [Part.meta?, named]
      · rw [List.filter_cons_of_neg isAttached, Bool.not_eq_true] at *
        simp [isAttached]

theorem enumerate_eq (parts : List Part) :
    enumerate parts = ((attached parts).filterMap Part.meta?,
      List.replicate ((attached parts).countP fun part => part.attachmentName.isNone)
        .attachmentNameUndecodable) := by
  rw [enumerate, foldl_enumerateStep, List.nil_append, List.nil_append, attached]

end Attachments

end Scryd.Mime
