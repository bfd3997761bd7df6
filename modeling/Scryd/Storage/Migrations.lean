import Scryd.Foundation.Migration

/-!
# Schema migrations

`migrations::run` as the statements SQLite sees.  A statement of a migration
fails where SQLite refuses it on the catalogue it meets, so that a migration
applied twice or out of order does not go through.
-/

namespace Scryd.Storage

open Scryd.Foundation

inductive TableName where
  | accounts | syncState | messages | attachments | indexQueue | daemonRuns
  deriving DecidableEq

inductive IndexName where
  | messagesDate | messagesThread | messagesSender | messagesFolder | messagesAccount
  | attachmentsMessage | indexQueueDrainer | daemonRunsStarted
  deriving DecidableEq

inductive ColumnName where
  | accountId | host | port | username | foldersJson | active | mirroredAt
  | folder | uidvalidity | lastSeenUid | lastFullSyncAt | lastIdleAt | lastError
  | accountHealth | backoffUntil
  | messageId | serverUid | headerMessageId | inReplyTo | referencesJson | threadId
  | senderAddr | senderName | recipientsToJson | recipientsCcJson | subject | dateUnix
  | rawPath | bodyMd | sizeBytes | tombstonedAt
  | attachmentId | filename | mimeType
  | attempts | queuedAt | failedPermanent | lastFailedAt
  | runId | startedAt | stoppedAt | clean | version | pid
  deriving DecidableEq

inductive ColumnType where
  | text | integer
  deriving DecidableEq

inductive DefaultValue where
  | number (value : Int)
  | string (value : String)
  deriving DecidableEq

inductive ColumnKey where
  | plain | primary | autoincrement
  deriving DecidableEq

structure Column where
  name : ColumnName
  type : ColumnType
  notNull : Bool
  default? : Option DefaultValue
  key : ColumnKey
  deriving DecidableEq

inductive TableConstraint where
  | primaryKey (columns : List ColumnName)
  | unique (columns : List ColumnName)
  | foreignKey (column : ColumnName) (table : TableName) (references : ColumnName)
  deriving DecidableEq

structure TableDdl where
  name : TableName
  columns : List Column
  constraints : List TableConstraint
  deriving DecidableEq

inductive SortOrder where
  | asc | desc
  deriving DecidableEq

structure IndexDdl where
  name : IndexName
  table : TableName
  columns : List (ColumnName × SortOrder)
  deriving DecidableEq

/-- `sqlite_master`, without `schema_version`. -/
structure Catalogue where
  tables : List TableDdl
  indexes : List IndexDdl
  deriving DecidableEq

inductive SchemaError where
  | tableExists (name : TableName)
  | indexExists (name : IndexName)
  | noSuchTable (name : TableName)
  | noSuchColumn (name : ColumnName)
  | duplicateColumn (name : ColumnName)
  /-- `ALTER TABLE` adds neither keys nor `NOT NULL` columns without a default. -/
  | cannotAdd (name : ColumnName)
  deriving DecidableEq

namespace Catalogue

def empty : Catalogue := ⟨[], []⟩

def table? (catalogue : Catalogue) (name : TableName) : Option TableDdl :=
  catalogue.tables.find? fun table => table.name = name

/-- `CREATE TABLE`. -/
def createTable (table : TableDdl) (catalogue : Catalogue) : Except SchemaError Catalogue :=
  match catalogue.table? table.name with
  | some _ => .error (.tableExists table.name)
  | none => .ok { catalogue with tables := catalogue.tables ++ [table] }

/-- `CREATE INDEX`. -/
def createIndex (index : IndexDdl) (catalogue : Catalogue) : Except SchemaError Catalogue :=
  match catalogue.table? index.table with
  | none => .error (.noSuchTable index.table)
  | some table =>
      if index.name ∈ catalogue.indexes.map (·.name) then .error (.indexExists index.name)
      else
        match index.columns.find? fun column => column.1 ∉ table.columns.map (·.name) with
        | some column => .error (.noSuchColumn column.1)
        | none => .ok { catalogue with indexes := catalogue.indexes ++ [index] }

/-- `ALTER TABLE ... ADD COLUMN`. -/
def addColumn (name : TableName) (column : Column) (catalogue : Catalogue) :
    Except SchemaError Catalogue :=
  match catalogue.table? name with
  | none => .error (.noSuchTable name)
  | some table =>
      if column.name ∈ table.columns.map (·.name) then .error (.duplicateColumn column.name)
      else if column.key ≠ .plain ∨ column.notNull ∧ column.default? = none then
        .error (.cannotAdd column.name)
      else
        .ok { catalogue with
          tables := catalogue.tables.map fun other =>
            if other.name = name then { other with columns := other.columns ++ [column] }
            else other }

end Catalogue

open Catalogue

/-- `<name> <type> PRIMARY KEY`. -/
def Column.primary (name : ColumnName) (type : ColumnType) : Column :=
  ⟨name, type, false, none, .primary⟩

/-- `<name> <type> NOT NULL`. -/
def Column.required (name : ColumnName) (type : ColumnType) : Column :=
  ⟨name, type, true, none, .plain⟩

/-- `<name> <type> NOT NULL DEFAULT <value>`. -/
def Column.defaulting (name : ColumnName) (type : ColumnType) (value : DefaultValue) : Column :=
  ⟨name, type, true, some value, .plain⟩

/-- `<name> <type> NULL`. -/
def Column.nullable (name : ColumnName) (type : ColumnType) : Column :=
  ⟨name, type, false, none, .plain⟩

namespace V1Initial

def accounts : TableDdl where
  name := .accounts
  columns := [.primary .accountId .text, .required .host .text, .required .port .integer,
    .required .username .text, .required .foldersJson .text,
    .defaulting .active .integer (.number 1), .required .mirroredAt .integer]
  constraints := []

def syncState : TableDdl where
  name := .syncState
  columns := [.required .accountId .text, .required .folder .text,
    .nullable .uidvalidity .integer, .defaulting .lastSeenUid .integer (.number 0),
    .nullable .lastFullSyncAt .integer, .nullable .lastIdleAt .integer,
    .nullable .lastError .text, .defaulting .accountHealth .text (.string "unknown"),
    .nullable .backoffUntil .integer]
  constraints := [.primaryKey [.accountId, .folder],
    .foreignKey .accountId .accounts .accountId]

def messages : TableDdl where
  name := .messages
  columns := [.primary .messageId .text, .required .accountId .text, .required .folder .text,
    .required .serverUid .integer, .required .uidvalidity .integer,
    .nullable .headerMessageId .text, .nullable .inReplyTo .text,
    .nullable .referencesJson .text, .required .threadId .text, .required .senderAddr .text,
    .nullable .senderName .text, .nullable .recipientsToJson .text,
    .nullable .recipientsCcJson .text, .nullable .subject .text, .required .dateUnix .integer,
    .required .rawPath .text, .required .bodyMd .text, .required .sizeBytes .integer,
    .nullable .tombstonedAt .integer]
  constraints := [.unique [.accountId, .folder, .serverUid, .uidvalidity],
    .foreignKey .accountId .accounts .accountId]

def attachments : TableDdl where
  name := .attachments
  columns := [.primary .attachmentId .text, .required .messageId .text,
    .required .filename .text, .required .mimeType .text, .required .sizeBytes .integer]
  constraints := [.foreignKey .messageId .messages .messageId]

def indexQueue : TableDdl where
  name := .indexQueue
  columns := [.primary .messageId .text, .defaulting .attempts .integer (.number 0),
    .nullable .lastError .text, .required .queuedAt .integer,
    .defaulting .failedPermanent .integer (.number 0)]
  constraints := []

/-- `v1_initial::SQL`. -/
def sql : List (Catalogue → Except SchemaError Catalogue) := [
  createTable accounts,
  createTable syncState,
  createTable messages,
  createIndex ⟨.messagesDate, .messages, [(.dateUnix, .desc)]⟩,
  createIndex ⟨.messagesThread, .messages, [(.threadId, .asc), (.dateUnix, .asc)]⟩,
  createIndex ⟨.messagesSender, .messages, [(.senderAddr, .asc), (.dateUnix, .desc)]⟩,
  createIndex ⟨.messagesFolder, .messages, [(.folder, .asc), (.dateUnix, .desc)]⟩,
  createIndex ⟨.messagesAccount, .messages, [(.accountId, .asc), (.dateUnix, .desc)]⟩,
  createTable attachments,
  createIndex ⟨.attachmentsMessage, .attachments, [(.messageId, .asc)]⟩,
  createTable indexQueue,
  createIndex ⟨.indexQueueDrainer, .indexQueue, [(.failedPermanent, .asc), (.queuedAt, .asc)]⟩]

end V1Initial

namespace V2DaemonRuns

def daemonRuns : TableDdl where
  name := .daemonRuns
  columns := [⟨.runId, .integer, false, none, .autoincrement⟩, .required .startedAt .integer,
    .nullable .stoppedAt .integer, .defaulting .clean .integer (.number 0),
    .nullable .version .text, .nullable .pid .integer]
  constraints := []

/-- `v2_daemon_runs::SQL`. -/
def sql : List (Catalogue → Except SchemaError Catalogue) := [
  createTable daemonRuns,
  createIndex ⟨.daemonRunsStarted, .daemonRuns, [(.startedAt, .desc)]⟩,
  addColumn .indexQueue (.nullable .lastFailedAt .integer)]

end V2DaemonRuns

/-- `MIGRATIONS`. -/
def migrations : List (Migration Catalogue SchemaError) :=
  [⟨1, V1Initial.sql⟩, ⟨2, V2DaemonRuns.sql⟩]

/-- `migrations::latest_version` of a registry. -/
def latestVersion (registry : List (Migration Catalogue SchemaError)) : Nat :=
  (registry.map (·.version)).max?.getD 0

theorem migrations_applicable : Applicable migrations Catalogue.empty where
  ascending := by decide
  positive := by decide
  applies := rfl

/-- The catalogue a release leaves that has the first migrations. -/
abbrev catalogueAt (count : Nat) : Catalogue :=
  schemaAt migrations Catalogue.empty count

example : (catalogueAt 2).tables.map (·.name) =
    [.accounts, .syncState, .messages, .attachments, .indexQueue, .daemonRuns] := by decide

theorem versions_eq_range' {count : Nat} (bounded : count ≤ migrations.length) :
    (migrations.take count).map (·.version) = List.range' 1 count := by
  match count with
  | 0 => rfl
  | 1 => rfl
  | 2 => rfl

/-- The version on the disk tells how many migrations are applied. -/
theorem version_of_migrated {count : Nat} {disk : Disk Catalogue}
    (migrated : Migrated migrations Catalogue.empty count disk) : disk.version = count := by
  rw [Disk.version, migrated.recorded]
  have bounded : count ≤ 2 := migrated.bounded
  obtain rfl | rfl | rfl : count = 0 ∨ count = 1 ∨ count = 2 := by omega
  · rfl
  · rfl
  · rfl

/-- The database after starts of any releases, each killed before any statement or not at all. -/
def migrationHistory (events : List (MigratorEvent Catalogue SchemaError)) :
    Migrator Catalogue SchemaError :=
  run Migrator.step (.fresh Catalogue.empty) events

variable {events later : List (MigratorEvent Catalogue SchemaError)}

theorem migrationHistory_invariant (released : ∀ event ∈ events, event.Released migrations) :
    ∃ known count,
      MigratorInvariant migrations Catalogue.empty known count (migrationHistory events) := by
  obtain ⟨known, count, -, invariant⟩ :=
    (MigratorInvariant.fresh migrations Catalogue.empty).run migrations_applicable released
  exact ⟨known, count, invariant⟩

/-- No migration ever fails.  The catalogue is always the one of the version recorded, which is
reached through all versions before it and never falls. -/
theorem migrationHistory_consistent
    (released : ∀ event ∈ events ++ later, event.Released migrations) :
    let reached := migrationHistory events
    reached.faults = [] ∧ reached.disk.version ≤ latestVersion migrations ∧
      reached.disk.schema = catalogueAt reached.disk.version ∧
      reached.disk.recorded.getD [] = List.range' 1 reached.disk.version ∧
      reached.disk.version ≤ (migrationHistory (events ++ later)).disk.version := by
  intro reached
  obtain ⟨releasedFirst, releasedLater⟩ := List.forall_mem_append.mp released
  obtain ⟨_, count, invariant⟩ := migrationHistory_invariant releasedFirst
  obtain ⟨_, next, grown, last⟩ := invariant.run migrations_applicable releasedLater
  have isCount : reached.disk.version = count := version_of_migrated invariant.migrated
  have isNext : (migrationHistory (events ++ later)).disk.version = next := by
    rw [migrationHistory, run_append]
    exact version_of_migrated last.migrated
  rw [isCount, isNext]
  exact ⟨invariant.faultless, invariant.migrated.bounded, invariant.migrated.schema,
    invariant.migrated.recorded.trans (versions_eq_range' invariant.migrated.bounded), grown⟩

/-- A first start of the first release is killed in its migration, a second one is not. -/
def firstRelease : List (MigratorEvent Catalogue SchemaError) :=
  .start (migrations.take 1) :: .advance :: .kill :: .start (migrations.take 1) ::
    List.replicate 13 .advance

theorem firstRelease_released : ∀ event ∈ firstRelease, event.Released migrations := by
  simp [firstRelease, MigratorEvent.Released, List.take_prefix]

theorem firstRelease_consistent :
    let reached := migrationHistory firstRelease
    reached.faults = [] ∧ reached.disk.version ≤ latestVersion migrations ∧
      reached.disk.schema = catalogueAt reached.disk.version ∧
      reached.disk.recorded.getD [] = List.range' 1 reached.disk.version ∧
      reached.disk.version ≤ (migrationHistory (firstRelease ++ [])).disk.version :=
  migrationHistory_consistent (by
    rw [List.append_nil]
    exact firstRelease_released)

/-- A start of a release that is left alone ends without a fault on the newest version that this
release or an earlier start knows, with the catalogue a new database would have. -/
theorem migrationHistory_start_completes {own : List (Migration Catalogue SchemaError)}
    (released : ∀ event ∈ events, event.Released migrations) (known : own <+: migrations)
    (idle : (migrationHistory events).session = none) {rounds : Nat}
    (enough : (migrationHistory (events ++ [.start own])).left ≤ rounds) :
    let before := migrationHistory events
    let reached := migrationHistory (events ++ .start own :: List.replicate rounds .advance)
    reached.session = none ∧ reached.faults = [] ∧
      reached.disk.version = max before.disk.version (latestVersion own) ∧
      reached.disk.schema = catalogueAt reached.disk.version := by
  intro before reached
  obtain ⟨_, count, invariant⟩ := migrationHistory_invariant released
  have within := known.length_le
  have ownTake : own = migrations.take own.length := List.prefix_iff_eq_take.mp known
  have isLatest : latestVersion own = own.length := by
    rw [latestVersion, ownTake, versions_eq_range' within, List.length_take_of_le within]
    match own.length, within with
    | 0, _ => rfl
    | 1, _ => rfl
    | 2, _ => rfl
  have isReached : reached = run Migrator.step (migrationHistory events)
      (.start (migrations.take own.length) :: List.replicate rounds .advance) := by
    rw [← ownTake]
    exact run_append ..
  have isEnough :
      ((migrationHistory events).step (.start (migrations.take own.length))).left ≤ rounds := by
    rw [← ownTake]
    rw [migrationHistory, run_append] at enough
    exact enough
  obtain ⟨ended, faultless, migrated⟩ := MigratorInvariant.start_complete migrations_applicable
    invariant.migrated invariant.faultless idle within isEnough
  rw [← isReached] at ended faultless migrated
  have isVersion := version_of_migrated migrated
  refine ⟨ended, faultless, ?_, ?_⟩
  · rw [isVersion, isLatest, version_of_migrated invariant.migrated]
  · rw [isVersion]
    exact migrated.schema

theorem upgrade_completes :
    let reached := migrationHistory (firstRelease ++ .start migrations :: List.replicate 4 .advance)
    reached.session = none ∧ reached.faults = [] ∧
      reached.disk.version =
        max (migrationHistory firstRelease).disk.version (latestVersion migrations) ∧
      reached.disk.schema = catalogueAt reached.disk.version :=
  migrationHistory_start_completes firstRelease_released List.prefix_rfl rfl (by decide)

end Scryd.Storage
