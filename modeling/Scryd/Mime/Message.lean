import Scryd.Storage.Schema

/-!
# What the MIME parser hands to the sink

The parser itself is a parameter of the ingest model: an arbitrary function of
the raw bytes and the fetch context with one of three outcomes.
-/

namespace Scryd.Mime

open Scryd.Storage

structure ParseContext where
  accountId : AccountId
  folder : String
  serverUid : Nat
  internalDate : Option Int

inductive ParseFault where
  | bodyTruncated (originalBytes : Nat)
  | dateFallback (source : String)
  | attachmentNameUndecodable
  | parseCapExceeded (cap : String)
  | encryptedNotIndexed
  deriving DecidableEq

/-- The fields of a parsed message that reach storage. -/
structure ParsedMessage where
  headerMessageId : Option String
  inReplyTo : Option String
  references : List String
  subject : Option String
  fromAddr : Address
  toAddrs : List Address
  ccAddrs : List Address
  dateUnix : Int
  bodyMd : String
  deriving DecidableEq

inductive ParseOutcome where
  | parsed (message : ParsedMessage)
  | parsedDegraded (message : ParsedMessage) (faults : List ParseFault)
  | unparseable (faults : List ParseFault)
  deriving DecidableEq

/-- The message of an outcome; an unparseable one has none. -/
def ParseOutcome.message? : ParseOutcome → Option ParsedMessage
  | .parsed message => some message
  | .parsedDegraded message _ => some message
  | .unparseable _ => none

end Scryd.Mime
