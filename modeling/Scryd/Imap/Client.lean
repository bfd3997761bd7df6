import Scryd.Imap.Sink

/-!
# The IMAP client as the fetch path sees it

A client answers three commands.  Its answers are data of the model: what a
server may answer is said where a run is described.
-/

namespace Scryd.Imap

open Scryd.Storage

/-- What `EXAMINE` reports of a mailbox that the fetch path reads. -/
structure MailboxMeta where
  uidValidity : Option Nat
  uidNext : Option Nat

/-- One `FETCH` response of `async_imap`. -/
structure FetchRow where
  uid : Option Nat
  internalDate : Option Int
  flags : List String
  body : Option (List UInt8)
  deriving DecidableEq

/-- The UID sets the fetch path asks for: `lo:hi` and `start:*`. -/
inductive UidRange where
  | between (lo hi : Nat)
  | onward (start : Nat)

/-- An open session on one folder. -/
structure Client where
  examineMeta : Except ClientError MailboxMeta
  uidFetch : UidRange → Except ClientError (List FetchRow)
  uidSearchAll : Except ClientError (List Nat)

/-- The connection's account and folder. -/
structure Connection where
  accountId : AccountId
  folder : String

def missingUid : ClientError := .server "FETCH response missing UID"

def parseFetchRow (conn : Connection) (uidvalidity : Nat) (fetch : FetchRow) :
    Except ClientError FetchedMessage :=
  match fetch.uid with
  | none => .error missingUid
  | some uid => .ok {
      accountId := conn.accountId
      folder := conn.folder
      serverUid := uid
      uidvalidity := uidvalidity
      internalDate := fetch.internalDate
      flags := fetch.flags
      rawBytes := fetch.body.getD [] }

/-- `fetch_batch`.  One bad response fails the whole batch. -/
def fetchBatch (client : Client) (range : UidRange) (conn : Connection) (uidvalidity : Nat) :
    Except ClientError (List FetchedMessage) :=
  match client.uidFetch range with
  | .error err => .error err
  | .ok rows => rows.mapM (parseFetchRow conn uidvalidity)

end Scryd.Imap
