import Scryd.Storage.Messages
import Scryd.Storage.Queue
import Scryd.Storage.Raw

/-!
# What the tools return

The response shapes and the conversions from rows to them.  Raw mail is
decoded as `String::from_utf8_lossy` does it, with every maximal prefix of an
ill-formed sequence replaced by U+FFFD.
-/

namespace Scryd.Mcp

open Scryd.Storage

section Utf8

def replacementChar : Char := Char.ofNat 0xFFFD

/-- The number of continuation bytes a leading byte announces, the range the first of
them lies in and the leading byte's share of the code point. -/
def utf8Lead (byte : Nat) : Option (Nat × Nat × Nat × Nat) :=
  if 0xC2 ≤ byte ∧ byte ≤ 0xDF then some (1, 0x80, 0xBF, byte - 0xC0)
  else if byte = 0xE0 then some (2, 0xA0, 0xBF, 0)
  else if byte = 0xED then some (2, 0x80, 0x9F, 0xD)
  else if 0xE1 ≤ byte ∧ byte ≤ 0xEF then some (2, 0x80, 0xBF, byte - 0xE0)
  else if byte = 0xF0 then some (3, 0x90, 0xBF, 0)
  else if 0xF1 ≤ byte ∧ byte ≤ 0xF3 then some (3, 0x80, 0xBF, byte - 0xF0)
  else if byte = 0xF4 then some (3, 0x80, 0x8F, 4)
  else none

/-- Consume the continuation bytes of a sequence.  The result is the decoded character, or
the replacement where the sequence breaks off, and what follows. -/
def utf8Tail : Nat → Nat → Nat → Nat → List UInt8 → Char × List UInt8
  | 0, _, _, code, rest => (Char.ofNat code, rest)
  | _ + 1, _, _, _, [] => (replacementChar, [])
  | needed + 1, low, high, code, byte :: rest =>
      if low ≤ byte.toNat ∧ byte.toNat ≤ high then
        utf8Tail needed 0x80 0xBF (code * 64 + (byte.toNat - 0x80)) rest
      else
        (replacementChar, byte :: rest)

def utf8Chars : Nat → List UInt8 → List Char
  | 0, _ => []
  | _ + 1, [] => []
  | size + 1, byte :: rest =>
      if byte.toNat < 0x80 then
        Char.ofNat byte.toNat :: utf8Chars size rest
      else
        match utf8Lead byte.toNat with
        | none => replacementChar :: utf8Chars size rest
        | some (needed, low, high, code) =>
            let (c, following) := utf8Tail needed low high code rest
            c :: utf8Chars size following

def fromUtf8Lossy (bytes : List UInt8) : String :=
  String.ofList (utf8Chars bytes.length bytes)

-- An `é`, then a sequence that breaks off after two of its three bytes.
example : fromUtf8Lossy [0xC3, 0xA9, 0xE2, 0x82, 0x61] = "é\uFFFDa" := by decide

end Utf8

inductive McpError where
  | resourceNotFound (message : String)
  | invalidParams (message : String)
  | internalError (message : String)
  deriving DecidableEq

structure AddressDto where
  addr : String
  name : Option String
  deriving DecidableEq

/-- No modelled tool fills the attachment list, so its entries carry nothing here. -/
structure MessageDto where
  messageId : String
  accountId : AccountId
  folder : String
  headerMessageId : Option String
  inReplyTo : Option String
  references : List String
  threadId : String
  fromAddr : AddressDto
  toAddrs : List AddressDto
  ccAddrs : List AddressDto
  subject : Option String
  date : String
  bodyMd : String
  attachments : List Empty
  deriving DecidableEq

structure ThreadResponseDto where
  threadId : String
  messages : List MessageDto
  deriving DecidableEq

structure RawMessageDto where
  messageId : String
  raw : String
  deriving DecidableEq

structure AccountDto where
  accountId : AccountId
  folders : List String
  deriving DecidableEq

structure AccountStatusDto where
  accountId : AccountId
  folders : List String
  health : Option String
  lastSyncUnix : Option Int
  lastSeenUid : Option Nat
  deriving DecidableEq

structure DrainerStatusDto where
  queueDepth : Nat
  failedPermanent : Nat
  lastIndexError : Option QueueLastError
  deriving DecidableEq

structure DaemonStatusDto where
  restartCount : Int
  consecutiveCrashes : Nat
  lastCrashUnix : Option Int
  inCrashLoop : Bool
  inBackoff : Bool
  backoffUntilUnix : Option Int
  deriving DecidableEq

structure StatusResponseDto where
  ok : Bool
  uptimeSecs : Nat
  accounts : List AccountStatusDto
  drainer : DrainerStatusDto
  daemon : DaemonStatusDto
  deriving DecidableEq

/-- `iso8601_from_unix`: the epoch for timestamps out of range. -/
def iso8601FromUnix (chrono : Chrono) (unixSecs : Int) : String :=
  (chrono.rfc3339 unixSecs).getD "1970-01-01T00:00:00+00:00"

def addrToDto (address : Address) : AddressDto := ⟨address.addr, address.name⟩

def messageRowToDto (chrono : Chrono) (row : MessageRow) : MessageDto where
  messageId := row.messageId
  accountId := row.accountId
  folder := row.folder
  headerMessageId := row.headerMessageId
  inReplyTo := row.inReplyTo
  references := row.references
  threadId := row.threadId
  fromAddr := ⟨row.senderAddr, row.senderName⟩
  toAddrs := row.recipientsTo.map addrToDto
  ccAddrs := row.recipientsCc.map addrToDto
  subject := row.subject
  date := iso8601FromUnix chrono row.dateUnix
  bodyMd := row.bodyMd
  attachments := []

end Scryd.Mcp
