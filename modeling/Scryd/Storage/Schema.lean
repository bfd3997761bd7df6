import Scryd.Foundation.Table
import Scryd.Foundation.Ranking
import Scryd.Foundation.Text

/-!
# The relations of `meta.sqlite`

One structure per row of the schema and one table per relation, with the
uniqueness constraints of the migration as the tables' conflict relations.
JSON columns hold the value they encode; integer columns hold naturals where
the daemon only ever writes unsigned values.
-/

namespace Scryd.Storage

open Scryd.Foundation

/-- A character of the config loader's `ACCOUNT_ID_PATTERN`, `^[a-z0-9_-]+$`. -/
def accountIdChar (c : Char) : Bool :=
  ('a' ≤ c && c ≤ 'z') || ('0' ≤ c && c ≤ '9') || c == '_' || c == '-'

/-- An account id.  Every id the daemon handles comes from a config that passed
`Config::validate`, so it matches the pattern. -/
structure AccountId where
  text : String
  nonempty : text.toList ≠ []
  wellFormed : text.toList.all accountIdChar = true
  deriving DecidableEq

/-- The account of the sample stores. -/
def sampleAccountId : AccountId := ⟨"work", by decide, by decide⟩

theorem AccountId.eq_of_text {left right : AccountId} (same : left.text = right.text) :
    left = right := by
  cases left
  cases right
  cases same
  rfl

/-- Two texts that start with an account id and then differ in a separator differ. -/
theorem AccountId.append_separator_ne (left right : AccountId) {leftMark rightMark : Char}
    (different : leftMark ≠ rightMark) (leftFree : accountIdChar leftMark = false)
    (rightFree : accountIdChar rightMark = false) (leftRest rightRest : List Char) :
    left.text.toList ++ leftMark :: leftRest ≠ right.text.toList ++ rightMark :: rightRest := by
  suffices general : ∀ first second : List Char, (∀ c ∈ first, accountIdChar c = true) →
      (∀ c ∈ second, accountIdChar c = true) →
      first ++ leftMark :: leftRest ≠ second ++ rightMark :: rightRest from
    general _ _ (List.all_eq_true.mp left.wellFormed) (List.all_eq_true.mp right.wellFormed)
  intro first
  induction first with
  | nil =>
      intro second _ secondValid same
      cases second with
      | nil => exact different (List.cons.inj same).1
      | cons c rest =>
          have valid := secondValid c List.mem_cons_self
          rw [← (List.cons.inj same).1, leftFree] at valid
          cases valid
  | cons c rest inductionHypothesis =>
      intro second firstValid secondValid same
      cases second with
      | nil =>
          have valid := firstValid c List.mem_cons_self
          rw [(List.cons.inj same).1, rightFree] at valid
          cases valid
      | cons d tail =>
          exact inductionHypothesis tail
            (fun later membership => firstValid later (List.mem_cons_of_mem c membership))
            (fun later membership => secondValid later (List.mem_cons_of_mem d membership))
            (List.cons.inj same).2

/-- A character outside the pattern does not occur in an account id. -/
theorem AccountId.notMem_text (account : AccountId) {mark : Char}
    (outside : accountIdChar mark = false) : mark ∉ account.text.toList := by
  intro member
  have allowed := List.all_eq_true.mp account.wellFormed mark member
  rw [outside] at allowed
  cases allowed

structure Address where
  addr : String
  name : Option String
  deriving DecidableEq

structure AccountRow where
  accountId : AccountId
  host : String
  port : Nat
  username : String
  folders : List String
  active : Bool
  mirroredAt : Int
  deriving DecidableEq

inductive AccountHealth where
  | unknown
  | active
  | degraded
  | authRejected
  | quotaExceeded
  | unreachable
  | tlsFailed
  deriving DecidableEq

structure SyncStateRow where
  accountId : AccountId
  folder : String
  uidvalidity : Option Nat
  lastSeenUid : Nat
  lastFullSyncAt : Option Int
  lastIdleAt : Option Int
  lastError : Option String
  accountHealth : AccountHealth
  backoffUntil : Option Int
  deriving DecidableEq

/-- The IMAP identity of a message, the target of the upsert. -/
structure MessageKey where
  accountId : AccountId
  folder : String
  serverUid : Nat
  uidvalidity : Nat
  deriving DecidableEq

structure MessageInsert where
  messageId : String
  accountId : AccountId
  folder : String
  serverUid : Nat
  uidvalidity : Nat
  headerMessageId : Option String
  inReplyTo : Option String
  references : List String
  senderAddr : String
  senderName : Option String
  recipientsTo : List Address
  recipientsCc : List Address
  subject : Option String
  dateUnix : Int
  rawPath : String
  bodyMd : String
  sizeBytes : Nat
  deriving DecidableEq

structure MessageRow where
  messageId : String
  accountId : AccountId
  folder : String
  serverUid : Nat
  uidvalidity : Nat
  headerMessageId : Option String
  inReplyTo : Option String
  references : List String
  threadId : String
  senderAddr : String
  senderName : Option String
  recipientsTo : List Address
  recipientsCc : List Address
  subject : Option String
  dateUnix : Int
  rawPath : String
  bodyMd : String
  sizeBytes : Nat
  tombstonedAt : Option Int
  deriving DecidableEq

def MessageInsert.key (m : MessageInsert) : MessageKey :=
  ⟨m.accountId, m.folder, m.serverUid, m.uidvalidity⟩

def MessageRow.key (row : MessageRow) : MessageKey :=
  ⟨row.accountId, row.folder, row.serverUid, row.uidvalidity⟩

structure IndexQueueRow where
  messageId : String
  attempts : Nat
  lastError : Option String
  queuedAt : Int
  failedPermanent : Bool
  lastFailedAt : Option Int
  deriving DecidableEq

/-- `PRIMARY KEY` of `accounts`. -/
def SameAccount (left right : AccountRow) : Prop := left.accountId = right.accountId

/-- `PRIMARY KEY (account_id, folder)` of `sync_state`. -/
def SameFolder (left right : SyncStateRow) : Prop :=
  left.accountId = right.accountId ∧ left.folder = right.folder

/-- `messages` has two independent constraints: the primary key and
`UNIQUE (account_id, folder, server_uid, uidvalidity)`. -/
def SameMessage (left right : MessageRow) : Prop :=
  left.messageId = right.messageId ∨ left.key = right.key

/-- `PRIMARY KEY` of `index_queue`. -/
def SameQueued (left right : IndexQueueRow) : Prop := left.messageId = right.messageId

instance : DecidableRel SameAccount := fun _ _ => inferInstanceAs (Decidable (_ = _))
instance : DecidableRel SameFolder := fun _ _ => inferInstanceAs (Decidable (_ ∧ _))
instance : DecidableRel SameMessage := fun _ _ => inferInstanceAs (Decidable (_ ∨ _))
instance : DecidableRel SameQueued := fun _ _ => inferInstanceAs (Decidable (_ = _))

theorem SameAccount.reflexive (row : AccountRow) : SameAccount row row := rfl

theorem SameMessage.reflexive (row : MessageRow) : SameMessage row row := .inl rfl

theorem SameQueued.reflexive (row : IndexQueueRow) : SameQueued row row := rfl

theorem SameAccount.symmetric (left right : AccountRow)
    (same : SameAccount left right) : SameAccount right left := Eq.symm same

theorem SameFolder.symmetric (left right : SyncStateRow)
    (same : SameFolder left right) : SameFolder right left := ⟨same.1.symm, same.2.symm⟩

theorem SameMessage.symmetric (left right : MessageRow)
    (same : SameMessage left right) : SameMessage right left :=
  same.imp Eq.symm Eq.symm

theorem SameQueued.symmetric (left right : IndexQueueRow)
    (same : SameQueued left right) : SameQueued right left := Eq.symm same

/-- The content of `meta.sqlite` that the daemon's read and write paths share. -/
structure Store where
  accounts : Table AccountRow SameAccount
  syncState : Table SyncStateRow SameFolder
  messages : Table MessageRow SameMessage
  indexQueue : Table IndexQueueRow SameQueued

/-- The store `migrations::run` leaves behind, with accounts mirrored into it. -/
def Store.fresh (accounts : Table AccountRow SameAccount) : Store :=
  ⟨accounts, .empty, .empty, .empty⟩

/-- The `StorageError` variants the modelled statements raise. -/
inductive StorageError where
  | sqlite (message : String)
  | invalidHealth (value : String)
  | io (message : String)
  deriving DecidableEq

def StorageError.text : StorageError → String
  | .sqlite message => "sqlite error: " ++ message
  | .invalidHealth value => "invalid account_health value `" ++ value ++ "`"
  | .io message => "io: " ++ message

/-- A fixed order of rows, by message id, in which a `SELECT` visits the rows that its `ORDER BY`,
if it has one, leaves in any order. -/
structure ScanOrder where
  rank : String → Nat
  injective : Function.Injective rank

/-- The scan order that looks at the characters of the id. -/
def ScanOrder.byText : ScanOrder where
  rank text := textRank text.toList
  injective := textRank_toList_injective

/-- Whether the foreign key of an account-scoped row is satisfied. -/
def Store.hasAccount (store : Store) (accountId : AccountId) : Bool :=
  store.accounts.rows.any fun account => decide (account.accountId = accountId)

def foreignKeyFailed : StorageError := .sqlite "FOREIGN KEY constraint failed"

/-- Accounts whose `active` flag is set, in the order `ORDER BY account_id` gives
them.  The primary key leaves no ties. -/
def listActiveAccounts (store : Store) : List AccountRow :=
  sortBy (fun account => account.accountId.text)
    (store.accounts.rows.filter fun account => account.active)

end Scryd.Storage
