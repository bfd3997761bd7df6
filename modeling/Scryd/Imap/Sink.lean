import Scryd.Storage.Schema

/-!
# The sink the IMAP side writes through

The fetch path is generic over the sink.  A sink is a record of state-passing
operations over an arbitrary state.
-/

namespace Scryd.Imap

open Scryd.Storage

inductive ClientError where
  | connect (message : String)
  | tlsHandshake (message : String)
  | server (message : String)
  | authRejected
  | mutatingCommandRejected
  | io (message : String)
  deriving DecidableEq

/-- Raw bytes and sync metadata of a fetched message. -/
structure FetchedMessage where
  accountId : AccountId
  folder : String
  serverUid : Nat
  uidvalidity : Nat
  internalDate : Option Int
  flags : List String
  rawBytes : List UInt8
  deriving DecidableEq

def FetchedMessage.key (fetched : FetchedMessage) : MessageKey :=
  ⟨fetched.accountId, fetched.folder, fetched.serverUid, fetched.uidvalidity⟩

/-- The fetch path's partial update; the health is still free text here. -/
structure SyncStateUpdate where
  uidvalidity : Option Nat := none
  lastSeenUid : Option Nat := none
  lastFullSyncAt : Option Int := none
  lastIdleAt : Option Int := none
  lastError : Option (Option String) := none
  backoffUntil : Option (Option Int) := none
  accountHealth : Option String := none
  deriving DecidableEq

/-- The `MessageSink` trait. -/
structure MessageSink (State : Type) where
  submit : FetchedMessage → State → Except ClientError Unit × State
  tombstone : String → State → Except ClientError Unit × State
  updateSyncState : AccountId → String → SyncStateUpdate → State →
    Except ClientError Unit × State
  listLocalUids : AccountId → String → Nat → State → Except ClientError (List Nat) × State
  storedUidvalidity : AccountId → String → State → Except ClientError (Option Nat) × State

end Scryd.Imap
