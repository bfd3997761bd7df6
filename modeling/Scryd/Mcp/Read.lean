import Scryd.Mcp.Scope
import Scryd.Mcp.Dto
import Scryd.Storage.SyncState

/-!
# The read tools

Each tool resolves the scope first and answers from the rows it leaves.
-/

namespace Scryd.Mcp

open Scryd.Foundation Scryd.Storage

structure DaemonHealthSnapshot where
  restartCount : Int
  consecutiveCrashes : Nat
  lastCrashUnix : Option Int
  inCrashLoop : Bool
  backoffUntilUnix : Option Int

/-- The storage a tool call sees. -/
structure Backend where
  store : Store
  files : Files

/-- The daemon's health, its uptime and the clock, at the time of a `status` call. -/
structure Daemon where
  health : DaemonHealthSnapshot
  uptimeSecs : Nat
  nowUnix : Int

def notFound (message : String) : McpError := .resourceNotFound message

/-- The `Debug` form of the health. -/
def debugHealth : AccountHealth → String
  | .unknown => "Unknown"
  | .active => "Active"
  | .degraded => "Degraded"
  | .authRejected => "AuthRejected"
  | .quotaExceeded => "QuotaExceeded"
  | .unreachable => "Unreachable"
  | .tlsFailed => "TlsFailed"

variable (chrono : Chrono) (order : ScanOrder) (scope : AccountScope)

/-- The row of an id, if it is live and its account allowed. -/
def visibleRow (store : Store) (id : String) : Option MessageRow :=
  let allowed := scope.allowedAccountIds store
  match Storage.getMessage store id with
  | some row =>
      if row.tombstonedAt.isNone && isAllowed allowed row.accountId then some row else none
  | none => none

def getMessage (backend : Backend) (id : String) : Except McpError MessageDto :=
  match visibleRow scope backend.store id with
  | some row => .ok (messageRowToDto chrono row)
  | none => .error (notFound "no such message")

def getRawMessage (backend : Backend) (id : String) : Except McpError RawMessageDto :=
  match visibleRow scope backend.store id with
  | none => .error (notFound "no such message")
  | some row =>
      match backend.files row.rawPath with
      | none => .error (.internalError "No such file or directory (os error 2)")
      | some bytes => .ok ⟨row.messageId, fromUtf8Lossy bytes⟩

def getThread (backend : Backend) (id : String) : Except McpError ThreadResponseDto :=
  let allowed := scope.allowedAccountIds backend.store
  let rows := retainAllowed allowed (Storage.getThread order backend.store id) (·.accountId)
  if rows.isEmpty then .error (notFound "no such thread")
  else .ok ⟨id, rows.map (messageRowToDto chrono)⟩

def listAccounts (backend : Backend) : Except McpError (List AccountDto) :=
  let allowed := scope.allowedAccountIds backend.store
  .ok ((retainAllowed allowed (listActiveAccounts backend.store) (·.accountId)).map fun account =>
    ⟨account.accountId, account.folders⟩)

/-- The line of an account in `status`. -/
def accountStatus (store : Store) (account : AccountRow) : AccountStatusDto :=
  let primaryFolder := account.folders.headD "INBOX"
  let sync := getSyncState store account.accountId primaryFolder
  { accountId := account.accountId
    folders := account.folders
    health := sync.map fun row => debugHealth row.accountHealth
    lastSyncUnix := sync.bind (·.lastFullSyncAt)
    lastSeenUid := sync.map (·.lastSeenUid) }

def daemonStatus (daemon : Daemon) : DaemonStatusDto where
  restartCount := daemon.health.restartCount
  consecutiveCrashes := daemon.health.consecutiveCrashes
  lastCrashUnix := daemon.health.lastCrashUnix
  inCrashLoop := daemon.health.inCrashLoop
  inBackoff := (daemon.health.backoffUntilUnix.map fun limit =>
    decide (daemon.nowUnix < limit)).getD false
  backoffUntilUnix := daemon.health.backoffUntilUnix

def status (daemon : Daemon) (backend : Backend) : Except McpError StatusResponseDto :=
  let allowed := scope.allowedAccountIds backend.store
  let accounts := retainAllowed allowed (listActiveAccounts backend.store) (·.accountId)
  let queue := queueHealth order backend.store
  .ok {
    ok := !daemon.health.inCrashLoop
    uptimeSecs := daemon.uptimeSecs
    accounts := accounts.map (accountStatus backend.store)
    drainer := ⟨queue.depth, queue.failedPermanent, queue.lastError⟩
    daemon := daemonStatus daemon }

end Scryd.Mcp
