import Scryd.Storage.Schema

/-!
# The `messages` relation

Idempotent insertion, thread resolution, tombstones and the three lookups.
The upsert names one of the two uniqueness constraints of the relation; a
violation of the other one fails the statement.
-/

namespace Scryd.Storage

open Scryd.Foundation

/-- What the surroundings decide for one `resolve_thread_id`: the order in which its queries, which
have a `LIMIT` and no `ORDER BY`, visit the rows, and the UUIDv4 that would be minted. -/
structure ThreadEnv where
  order : ScanOrder := .byText
  minted : String := ""

/-- `SELECT thread_id FROM messages WHERE account_id = ? AND header_message_id = ? LIMIT 1` -/
def selectThreadId (order : ScanOrder) (rows : List MessageRow) (accountId : AccountId)
    (cand : String) : Option String :=
  let found := rows.filter fun row =>
    decide (row.accountId = accountId ∧ row.headerMessageId = some cand)
  (sortBy (fun row => order.rank row.messageId) found).head?.map (·.threadId)

/-- `threading::resolve_thread_id`. -/
def resolveThreadId (env : ThreadEnv) (rows : List MessageRow) (accountId : AccountId)
    (inReplyTo : Option String) (references : List String) : String :=
  -- Newest reference first, In-Reply-To as the fallback.
  let candidates := references.reverse ++ inReplyTo.toList
  (candidates.findSome? (selectThreadId env.order rows accountId)).getD env.minted

def MessageInsert.toRow (m : MessageInsert) (threadId : String) : MessageRow where
  messageId := m.messageId
  accountId := m.accountId
  folder := m.folder
  serverUid := m.serverUid
  uidvalidity := m.uidvalidity
  headerMessageId := m.headerMessageId
  inReplyTo := m.inReplyTo
  references := m.references
  threadId := threadId
  senderAddr := m.senderAddr
  senderName := m.senderName
  recipientsTo := m.recipientsTo
  recipientsCc := m.recipientsCc
  subject := m.subject
  dateUnix := m.dateUnix
  rawPath := m.rawPath
  bodyMd := m.bodyMd
  sizeBytes := m.sizeBytes
  tombstonedAt := none

@[simp] theorem MessageInsert.toRow_key (m : MessageInsert) (threadId : String) :
    (m.toRow threadId).key = m.key := rfl

@[simp] theorem MessageInsert.toRow_messageId (m : MessageInsert) (threadId : String) :
    (m.toRow threadId).messageId = m.messageId := rfl

/-- `DO UPDATE SET body_md, size_bytes, raw_path`, for the row with the key of `m`. -/
def MessageInsert.refresh (m : MessageInsert) (row : MessageRow) : MessageRow :=
  if row.key = m.key then
    { row with bodyMd := m.bodyMd, sizeBytes := m.sizeBytes, rawPath := m.rawPath }
  else
    row

@[simp] theorem MessageInsert.refresh_key (m : MessageInsert) (row : MessageRow) :
    (m.refresh row).key = row.key := by
  unfold refresh
  split <;> rfl

@[simp] theorem MessageInsert.refresh_messageId (m : MessageInsert) (row : MessageRow) :
    (m.refresh row).messageId = row.messageId := by
  unfold refresh
  split <;> rfl

@[simp] theorem MessageInsert.refresh_accountId (m : MessageInsert) (row : MessageRow) :
    (m.refresh row).accountId = row.accountId := by
  unfold refresh
  split <;> rfl

theorem MessageInsert.refresh_of_ne (m : MessageInsert) {row : MessageRow}
    (other : row.key ≠ m.key) : m.refresh row = row := if_neg other

def messageIdTaken : StorageError := .sqlite "UNIQUE constraint failed: messages.message_id"

def Store.refreshMessage (store : Store) (m : MessageInsert) : Store :=
  { store with messages := store.messages.update m.refresh (by
      intro left right same
      simpa [SameMessage] using same) }

/-- A refresh changes nothing exactly when the row of its key has that content already. -/
theorem Store.refreshMessage_unchanged_iff (store : Store) (m : MessageInsert) :
    (store.refreshMessage m).messages.rows = store.messages.rows ↔
      ∀ row ∈ store.messages.rows, row.key = m.key →
        row.bodyMd = m.bodyMd ∧ row.sizeBytes = m.sizeBytes ∧ row.rawPath = m.rawPath := by
  have unchanged : (store.refreshMessage m).messages.rows = store.messages.rows ↔
      ∀ row ∈ store.messages.rows, m.refresh row = row := by
    rw [Store.refreshMessage, Table.update_rows]
    conv_lhs => rhs; rw [← List.map_id store.messages.rows]
    exact List.map_inj_left
  rw [unchanged]
  apply forall₂_congr
  intro row _
  rw [MessageInsert.refresh]
  constructor
  · intro unchanged sameKey
    rw [if_pos sameKey] at unchanged
    rw [← unchanged]
    exact ⟨rfl, rfl, rfl⟩
  · intro already
    split
    next sameKey =>
      obtain ⟨body, size, path⟩ := already sameKey
      rw [← body, ← size, ← path]
    next => rfl

/-- The row an insertion adds, under the thread resolved in the current rows. -/
def Store.newRow (store : Store) (env : ThreadEnv) (m : MessageInsert) : MessageRow :=
  m.toRow (resolveThreadId env store.messages.rows m.accountId m.inReplyTo m.references)

@[simp] theorem Store.newRow_key (store : Store) (env : ThreadEnv) (m : MessageInsert) :
    (store.newRow env m).key = m.key := rfl

@[simp] theorem Store.newRow_messageId (store : Store) (env : ThreadEnv) (m : MessageInsert) :
    (store.newRow env m).messageId = m.messageId := rfl

/-- `StorageHandle::insert_message`.  SQLite checks the constraint the upsert
names first; the primary key and the foreign key fail the statement. -/
def insertMessage (env : ThreadEnv) (m : MessageInsert) (store : Store) :
    Except StorageError Store :=
  if ∃ row ∈ store.messages.rows, row.key = m.key then
    .ok (store.refreshMessage m)
  else
    match store.messages.insert? (store.newRow env m) with
    | none => .error messageIdTaken
    | some messages =>
        if store.hasAccount m.accountId then .ok { store with messages := messages }
        else .error foreignKeyFailed

/-- Everything `insert_message` can do: refresh the row of its key, append a row
under a key and an id that are both new, or fail and change nothing. -/
theorem insertMessage_ok {env : ThreadEnv} {m : MessageInsert} {store next : Store}
    (inserted : insertMessage env m store = .ok next) :
    ((∃ row ∈ store.messages.rows, row.key = m.key) ∧ next = store.refreshMessage m) ∨
    ((∀ row ∈ store.messages.rows, row.key ≠ m.key ∧ row.messageId ≠ m.messageId) ∧
      store.hasAccount m.accountId = true ∧
      ∃ messages, next = { store with messages := messages } ∧
        messages.rows = store.messages.rows ++ [store.newRow env m]) := by
  unfold insertMessage at inserted
  split at inserted
  next stored =>
    cases inserted
    exact .inl ⟨stored, rfl⟩
  next absent =>
    split at inserted
    next refused => cases inserted
    next messages accepted =>
      split at inserted
      next known =>
        cases inserted
        apply Or.inr
        refine ⟨?_, known, messages, rfl, Table.insert?_rows accepted⟩
        intro row stored
        have free : ¬ SameMessage row (store.newRow env m) := by
          intro conflict
          have refused := (Table.insert?_eq_none_iff store.messages _).mpr ⟨row, stored, conflict⟩
          rw [refused] at accepted
          cases accepted
        simpa [SameMessage, not_or, and_comm] using free
      next unknown => cases inserted

theorem insertMessage_stored {m : MessageInsert} {store : Store}
    (stored : ∃ row ∈ store.messages.rows, row.key = m.key) (env : ThreadEnv) :
    insertMessage env m store = .ok (store.refreshMessage m) := by
  unfold insertMessage
  rw [if_pos stored]

theorem insertMessage_fresh {m : MessageInsert} {store : Store}
    (free : ∀ row ∈ store.messages.rows, row.key ≠ m.key ∧ row.messageId ≠ m.messageId)
    (known : store.hasAccount m.accountId = true) (env : ThreadEnv) :
    ∃ next, insertMessage env m store = .ok next ∧
      next.messages.rows = store.messages.rows ++ [store.newRow env m] := by
  have absent : ¬ ∃ row ∈ store.messages.rows, row.key = m.key := by
    rintro ⟨row, stored, same⟩
    exact (free row stored).1 same
  have unrelated : ∀ stored ∈ store.messages.rows,
      ¬ SameMessage stored (store.newRow env m) := by
    intro row stored
    simpa [SameMessage, not_or, and_comm] using free row stored
  obtain ⟨messages, accepted⟩ := Table.insert?_isSome unrelated
  refine ⟨{ store with messages := messages }, ?_, Table.insert?_rows accepted⟩
  unfold insertMessage
  rw [if_neg absent]
  simp [accepted, known]

/-- The insertion succeeds exactly when its key has a row, or its id is free and its account
known: the upsert does not forgive a taken id. -/
theorem insertMessage_isOk_iff (env : ThreadEnv) (m : MessageInsert) (store : Store) :
    (∃ next, insertMessage env m store = .ok next) ↔
      (∃ row ∈ store.messages.rows, row.key = m.key) ∨
        ((∀ row ∈ store.messages.rows, row.messageId ≠ m.messageId) ∧
          store.hasAccount m.accountId = true) := by
  constructor
  · rintro ⟨next, inserted⟩
    rcases insertMessage_ok inserted with ⟨rowOfKey, _⟩ | ⟨free, known, _⟩
    · exact .inl rowOfKey
    · exact .inr ⟨fun row stored => (free row stored).2, known⟩
  · intro admissible
    by_cases rowOfKey : ∃ row ∈ store.messages.rows, row.key = m.key
    · exact ⟨_, insertMessage_stored rowOfKey env⟩
    · obtain ⟨untaken, known⟩ := admissible.resolve_left rowOfKey
      have free : ∀ row ∈ store.messages.rows,
          row.key ≠ m.key ∧ row.messageId ≠ m.messageId := fun row stored =>
        ⟨fun same => rowOfKey ⟨row, stored, same⟩, untaken row stored⟩
      obtain ⟨next, inserted, _⟩ := insertMessage_fresh free known env
      exact ⟨next, inserted⟩

/-- `insert_message` writes no other relation. -/
theorem insertMessage_frame {env : ThreadEnv} {m : MessageInsert} {store next : Store}
    (inserted : insertMessage env m store = .ok next) :
    next.accounts = store.accounts ∧ next.syncState = store.syncState ∧
      next.indexQueue = store.indexQueue := by
  rcases insertMessage_ok inserted with ⟨_, rfl⟩ | ⟨_, _, messages, rfl, _⟩
  · exact ⟨rfl, rfl, rfl⟩
  · exact ⟨rfl, rfl, rfl⟩

/-- A successful insertion leaves the other keys' rows alone and gives its key a row
with the new content. -/
theorem insertMessage_effect {env : ThreadEnv} {m : MessageInsert} {store next : Store}
    (inserted : insertMessage env m store = .ok next) :
    (∃ row ∈ next.messages.rows, row.key = m.key) ∧
      (∀ row ∈ next.messages.rows, row.key = m.key →
        row.rawPath = m.rawPath ∧ row.sizeBytes = m.sizeBytes ∧ row.bodyMd = m.bodyMd) ∧
      (∀ row, row.key ≠ m.key →
        (row ∈ next.messages.rows ↔ row ∈ store.messages.rows)) := by
  rcases insertMessage_ok inserted with ⟨⟨found, stored, same⟩, rfl⟩ | ⟨free, _, messages, rfl, rows⟩
  · simp only [Store.refreshMessage, Table.update_rows, List.mem_map]
    refine ⟨⟨_, ⟨found, stored, rfl⟩, by simpa using same⟩, ?_, ?_⟩
    · rintro _ ⟨row, _, rfl⟩ sameKey
      rw [MessageInsert.refresh_key] at sameKey
      simp [MessageInsert.refresh, sameKey]
    · intro row other
      constructor
      · rintro ⟨old, stored, rfl⟩
        rw [MessageInsert.refresh_key] at other
        rwa [m.refresh_of_ne other]
      · exact fun stored => ⟨row, stored, m.refresh_of_ne other⟩
  · simp only [rows, List.mem_append, List.mem_singleton]
    refine ⟨⟨_, .inr rfl, rfl⟩, ?_, ?_⟩
    · rintro row (stored | rfl) sameKey
      · exact absurd sameKey (free row stored).1
      · exact ⟨rfl, rfl, rfl⟩
    · intro row other
      constructor
      · rintro (stored | rfl)
        · exact stored
        · exact absurd rfl other
      · exact .inl

/-- `StorageHandle::get_message`. -/
def getMessage (store : Store) (id : String) : Option MessageRow :=
  store.messages.rows.find? fun row => decide (row.messageId = id)

theorem getMessage_eq_some_iff (store : Store) (id : String) (row : MessageRow) :
    getMessage store id = some row ↔ row ∈ store.messages.rows ∧ row.messageId = id := by
  constructor
  · intro found
    exact ⟨List.mem_of_find?_eq_some found, by simpa using List.find?_some found⟩
  · rintro ⟨stored, rfl⟩
    apply store.messages.find?_eq_some SameMessage.symmetric _ stored (by simp)
    intro other passes
    exact .inl (by simpa using passes)

theorem getMessage_eq_none_iff (store : Store) (id : String) :
    getMessage store id = none ↔ ∀ row ∈ store.messages.rows, row.messageId ≠ id := by
  simp [getMessage]

/-- `StorageHandle::get_thread`: the live rows of a thread, `ORDER BY date_unix ASC`. -/
def getThread (order : ScanOrder) (store : Store) (threadId : String) : List MessageRow :=
  sortBy (fun row => toLex (row.dateUnix, order.rank row.messageId))
    (store.messages.rows.filter fun row =>
      decide (row.threadId = threadId ∧ row.tombstonedAt = none))

/-- `StorageHandle::tombstone`: an `UPDATE` by message id that skips tombstoned rows. -/
def tombstoneRow (now : Int) (id : String) (row : MessageRow) : MessageRow :=
  if row.messageId = id ∧ row.tombstonedAt = none then
    { row with tombstonedAt := some now }
  else
    row

@[simp] theorem tombstoneRow_key (now : Int) (id : String) (row : MessageRow) :
    (tombstoneRow now id row).key = row.key := by
  unfold tombstoneRow
  split <;> rfl

@[simp] theorem tombstoneRow_messageId (now : Int) (id : String) (row : MessageRow) :
    (tombstoneRow now id row).messageId = row.messageId := by
  unfold tombstoneRow
  split <;> rfl

@[simp] theorem tombstoneRow_accountId (now : Int) (id : String) (row : MessageRow) :
    (tombstoneRow now id row).accountId = row.accountId := by
  unfold tombstoneRow
  split <;> rfl

def tombstone (now : Int) (id : String) (store : Store) : Store :=
  { store with messages := store.messages.update (tombstoneRow now id) (by
      intro left right same
      simpa [SameMessage] using same) }

/-- Tombstoning an id that no row has changes nothing. -/
theorem tombstone_absent (now : Int) {id : String} {store : Store}
    (absent : ∀ row ∈ store.messages.rows, row.messageId ≠ id) :
    (tombstone now id store).messages.rows = store.messages.rows := by
  have unchanged : ∀ row ∈ store.messages.rows, tombstoneRow now id row = row := by
    intro row stored
    unfold tombstoneRow
    rw [if_neg]
    exact fun matched => absent row stored matched.1
  simpa [tombstone] using List.map_congr_left unchanged

/-- The live rows of one mailbox epoch. -/
def liveRow (accountId : AccountId) (folder : String) (uidvalidity : Nat)
    (row : MessageRow) : Bool :=
  decide (row.accountId = accountId ∧ row.folder = folder ∧ row.uidvalidity = uidvalidity ∧
    row.tombstonedAt = none)

/-- `StorageHandle::list_uids_for`. -/
def listUidsFor (store : Store) (accountId : AccountId) (folder : String)
    (uidvalidity : Nat) : List Nat :=
  (store.messages.rows.filter (liveRow accountId folder uidvalidity)).map (·.serverUid)

end Scryd.Storage
