import Scryd.Mcp.Read

/-!
# Noninterference of the direct reads

What a scope may see of a store: its owned accounts, their messages and the
raw files these point to.  The direct reads are functions of that view.
-/

namespace Scryd.Mcp

open Scryd.Foundation Scryd.Storage

variable {chrono : Chrono} {order : ScanOrder} {scope : AccountScope}

/-- Two backends show the scope the same accounts, messages and raw files. -/
structure SameView (scope : AccountScope) (left right : Backend) : Prop where
  accounts : SameOwned scope left.store right.store
  messages : ∀ row : MessageRow, row.accountId ∈ scope.allowedAccountIds left.store →
    (row ∈ left.store.messages.rows ↔ row ∈ right.store.messages.rows)
  files : ∀ row ∈ left.store.messages.rows, row.accountId ∈ scope.allowedAccountIds left.store →
    left.files row.rawPath = right.files row.rawPath

theorem visibleRow_eq_some_iff (store : Store) (id : String) (row : MessageRow) :
    visibleRow scope store id = some row ↔
      row ∈ store.messages.rows ∧ row.messageId = id ∧ row.tombstonedAt = none ∧
        row.accountId ∈ scope.allowedAccountIds store := by
  simp only [visibleRow]
  cases found : Storage.getMessage store id with
  | none =>
      have absent := (getMessage_eq_none_iff store id).mp found
      constructor
      · intro same
        cases same
      · rintro ⟨stored, isId, _⟩
        exact absurd isId (absent row stored)
  | some other =>
      have isOther := (getMessage_eq_some_iff store id other).mp found
      simp only
      split
      next visible =>
        simp only [Bool.and_eq_true, Option.isNone_iff_eq_none, isAllowed_iff] at visible
        constructor
        · intro same
          cases same
          exact ⟨isOther.1, isOther.2, visible⟩
        · rintro ⟨stored, isId, _⟩
          rw [← found]
          exact (getMessage_eq_some_iff store id row).mpr ⟨stored, isId⟩
      next hidden =>
        constructor
        · intro same
          cases same
        · rintro ⟨stored, isId, live, allowed⟩
          rw [(getMessage_eq_some_iff store id row).mpr ⟨stored, isId⟩] at found
          cases found
          simp [live, allowed] at hidden

theorem SameView.visibleRow_eq {left right : Backend} (same : SameView scope left right)
    (id : String) : visibleRow scope left.store id = visibleRow scope right.store id := by
  apply Option.ext
  intro row
  simp only [visibleRow_eq_some_iff, ← same.accounts.mem_allowed_iff]
  constructor
  · rintro ⟨stored, isId, live, allowed⟩
    exact ⟨(same.messages row allowed).mp stored, isId, live, allowed⟩
  · rintro ⟨stored, isId, live, allowed⟩
    exact ⟨(same.messages row allowed).mpr stored, isId, live, allowed⟩

/-- The rank of a thread tells messages apart. -/
theorem threadRank_apart (store : Store) :
    ∀ first ∈ store.messages.rows, ∀ second ∈ store.messages.rows,
      toLex (first.dateUnix, order.rank first.messageId) =
        toLex (second.dateUnix, order.rank second.messageId) → first = second := by
  intro first firstStored second secondStored sameRank
  have sameId := order.injective (congrArg Prod.snd (toLex.injective sameRank))
  exact store.messages.eq_of_conflict SameMessage.symmetric firstStored secondStored (.inl sameId)

/-- The allowed rows of a thread, ranked. -/
theorem retainAllowed_thread (store : Store) (id : String) :
    retainAllowed (scope.allowedAccountIds store) (Storage.getThread order store id)
        (·.accountId) =
      sortBy (fun row => toLex (row.dateUnix, order.rank row.messageId))
        (store.messages.rows.filter fun row =>
          isAllowed (scope.allowedAccountIds store) row.accountId &&
            decide (row.threadId = id ∧ row.tombstonedAt = none)) := by
  unfold retainAllowed Storage.getThread
  rw [filter_sortBy, List.filter_filter]
  intro first firstIn second secondIn
  exact threadRank_apart store first (List.mem_of_mem_filter firstIn) second
    (List.mem_of_mem_filter secondIn)

theorem SameView.thread_eq {left right : Backend} (same : SameView scope left right)
    (id : String) :
    retainAllowed (scope.allowedAccountIds left.store) (Storage.getThread order left.store id)
        (·.accountId) =
      retainAllowed (scope.allowedAccountIds right.store)
        (Storage.getThread order right.store id) (·.accountId) := by
  rw [retainAllowed_thread, retainAllowed_thread]
  simp only [← same.accounts.isAllowed_eq]
  refine sortBy_filter_congr _ (left.store.messages.nodup SameMessage.reflexive)
    (right.store.messages.nodup SameMessage.reflexive) ?_ (threadRank_apart left.store)
  intro row selected
  simp only [Bool.and_eq_true, isAllowed_iff] at selected
  exact same.messages row selected.1

theorem visibleRow_eq_none_of_foreign {store : Store} {id : String}
    (foreign : ∀ row ∈ store.messages.rows, row.messageId = id →
      row.accountId ∉ scope.allowedAccountIds store) :
    visibleRow scope store id = none := by
  cases visible : visibleRow scope store id with
  | none => rfl
  | some row =>
      obtain ⟨stored, isId, _, allowed⟩ := (visibleRow_eq_some_iff store id row).mp visible
      exact absurd allowed (foreign row stored isId)

/-- The four direct reads answer the same in two backends that show the scope the same, and
an id that no owned account has is not found, whether or not another account has it. -/
theorem direct_reads_noninterference (chrono : Chrono) (order : ScanOrder)
    (scope : AccountScope) (left right : Backend) (same : SameView scope left right) :
    (∀ id, getMessage chrono scope left id = getMessage chrono scope right id ∧
      getRawMessage scope left id = getRawMessage scope right id ∧
      getThread chrono order scope left id = getThread chrono order scope right id) ∧
    listAccounts scope left = listAccounts scope right ∧
    (∀ id, (∀ row ∈ left.store.messages.rows, row.messageId = id →
        row.accountId ∉ scope.allowedAccountIds left.store) →
      getMessage chrono scope left id = .error (notFound "no such message") ∧
        getRawMessage scope left id = .error (notFound "no such message")) ∧
    (∀ id, (∀ row ∈ left.store.messages.rows, row.threadId = id →
        row.accountId ∉ scope.allowedAccountIds left.store) →
      getThread chrono order scope left id = .error (notFound "no such thread")) := by
  refine ⟨fun id => ⟨?_, ?_, ?_⟩, ?_, fun id foreign => ?_, fun id foreign => ?_⟩
  · simp only [getMessage, same.visibleRow_eq]
  · simp only [getRawMessage, ← same.visibleRow_eq]
    cases visible : visibleRow scope left.store id with
    | none => rfl
    | some row =>
        obtain ⟨stored, _, _, allowed⟩ := (visibleRow_eq_some_iff _ id row).mp visible
        simp only [same.files row stored allowed]
  · simp only [getThread, same.thread_eq]
  · simp only [listAccounts, same.accounts.retainAllowed_accounts_eq]
  · simp only [getMessage, getRawMessage, visibleRow_eq_none_of_foreign foreign, and_self]
  · have empty : retainAllowed (scope.allowedAccountIds left.store)
        (Storage.getThread order left.store id) (·.accountId) = [] := by
      refine List.filter_eq_nil_iff.mpr fun row inThread allowed => ?_
      simp only [Storage.getThread, mem_sortBy, List.mem_filter, decide_eq_true_eq] at inThread
      exact foreign row inThread.1 inThread.2.1 ((isAllowed_iff _ _).mp allowed)
    simp only [getThread, empty, List.isEmpty_nil, if_true]

section Sample

def ownId : AccountId := sampleAccountId

def foreignId : AccountId := ⟨"home", by decide, by decide⟩

def sampleAccount (id : AccountId) (username : String) : AccountRow :=
  ⟨id, "imap.example.org", 993, username, ["INBOX"], true, 0⟩

def sampleScope : AccountScope := ⟨"me@example.org"⟩

/-- One live mail of an account's inbox. -/
def sampleRow (accountId : AccountId) (uid : Nat) : MessageRow where
  messageId := accountId.text ++ ":" ++ toString uid
  accountId := accountId
  folder := "INBOX"
  serverUid := uid
  uidvalidity := 1
  headerMessageId := none
  inReplyTo := none
  references := []
  threadId := "t"
  senderAddr := "you@example.org"
  senderName := none
  recipientsTo := []
  recipientsCc := []
  subject := none
  dateUnix := 0
  rawPath := accountId.text ++ ".eml"
  bodyMd := "hello"
  sizeBytes := 1
  tombstonedAt := none

/-- One mail of the scope's own account. -/
def aloneBackend : Backend where
  store := ⟨⟨[sampleAccount ownId "Me@Example.org"], by decide⟩, .empty,
    ⟨[sampleRow ownId 1], by decide⟩, .empty⟩
  files := fun path => if path = "work.eml" then some [104] else none

/-- The same, with another account, its mail in the same thread and its raw file. -/
def sharedBackend : Backend where
  store := ⟨⟨[sampleAccount foreignId "you@example.org",
      sampleAccount ownId "Me@Example.org"], by decide⟩, .empty,
    ⟨[sampleRow foreignId 1, sampleRow ownId 1], by decide⟩, .empty⟩
  files := fun path =>
    if path = "work.eml" then some [104] else if path = "home.eml" then some [105] else none

theorem allowedAccountIds_alone :
    sampleScope.allowedAccountIds aloneBackend.store = [ownId] := by decide

theorem sameView_sample : SameView sampleScope aloneBackend sharedBackend where
  accounts := by
    intro account owned
    simp only [aloneBackend, sharedBackend, List.mem_cons, List.not_mem_nil, or_false]
    constructor
    · exact .inr
    · rintro (rfl | rfl)
      · revert owned
        decide
      · rfl
  messages := by
    intro row allowed
    rw [allowedAccountIds_alone, List.mem_singleton] at allowed
    simp only [aloneBackend, sharedBackend, List.mem_cons, List.not_mem_nil, or_false]
    constructor
    · exact .inr
    · rintro (rfl | rfl)
      · revert allowed
        decide
      · rfl
  files := by
    intro row stored _
    simp only [aloneBackend, List.mem_cons, List.not_mem_nil, or_false] at stored
    rw [stored]
    decide

def sampleChrono : Chrono :=
  ⟨fun _ => some ("1970", "01"), fun _ => some "1970-01-01T00:00:00+00:00", fun _ => none⟩

theorem direct_reads_noninterference_sample :
    getThread sampleChrono ScanOrder.byText sampleScope aloneBackend "t" =
        getThread sampleChrono ScanOrder.byText sampleScope sharedBackend "t" ∧
      getMessage sampleChrono sampleScope aloneBackend "home:1" =
        getMessage sampleChrono sampleScope sharedBackend "home:1" :=
  have same := (direct_reads_noninterference sampleChrono ScanOrder.byText sampleScope aloneBackend
    sharedBackend sameView_sample).1
  ⟨(same "t").2.2, (same "home:1").1⟩

end Sample

end Scryd.Mcp
