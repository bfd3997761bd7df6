import Scryd.Mcp.Read
import Scryd.Storage.Threading

/-!
# Conversations as the tools show them

`get_thread` filters the rows of a thread by their account.  No thread has rows
of two accounts, so the filter leaves all of them or none: a conversation is
never shown in part, and `get_message` and `get_thread` show the same messages.
-/

namespace Scryd.Mcp

open Scryd.Foundation Scryd.Storage

section Thread

variable (chrono : Chrono) (order : ScanOrder) (scope : AccountScope) (backend : Backend)

/-- What the two tools promise each other. -/
structure ThreadsWhole : Prop where
  /-- A thread is answered with all its live messages. -/
  whole : ∀ id response, getThread chrono order scope backend id = .ok response →
    response = ⟨id, (Storage.getThread order backend.store id).map (messageRowToDto chrono)⟩
  /-- The thread of a message that can be read can be read, and has it. -/
  followed : ∀ id message, getMessage chrono scope backend id = .ok message →
    ∃ response, getThread chrono order scope backend message.threadId = .ok response ∧
      message ∈ response.messages
  /-- Each message of a thread that can be read can be read. -/
  opened : ∀ id response, getThread chrono order scope backend id = .ok response →
    ∀ message ∈ response.messages,
      getMessage chrono scope backend message.messageId = .ok message

variable {chrono order scope backend}

theorem mem_getThread {store : Store} {id : String} {row : MessageRow} :
    row ∈ Storage.getThread order store id ↔
      row ∈ store.messages.rows ∧ row.threadId = id ∧ row.tombstonedAt = none := by
  rw [Storage.getThread, mem_sortBy, List.mem_filter, decide_eq_true_eq]

/-- One row of a thread stands for all of them. -/
theorem allowed_of_thread {store : Store} (separate : OneAccountPerThread store) {id : String}
    {allowed : List AccountId} {row other : MessageRow}
    (inThread : row ∈ Storage.getThread order store id)
    (otherInThread : other ∈ Storage.getThread order store id)
    (isAllowed : row.accountId ∈ allowed) : other.accountId ∈ allowed := by
  obtain ⟨stored, sameThread, -⟩ := mem_getThread.mp inThread
  obtain ⟨otherStored, otherThread, -⟩ := mem_getThread.mp otherInThread
  rwa [separate other otherStored row stored (otherThread.trans sameThread.symm)]

/-- The filter of `get_thread` leaves the whole thread of an allowed row. -/
theorem retainAllowed_of_separate {store : Store} (separate : OneAccountPerThread store)
    {id : String} {allowed : List AccountId} {row : MessageRow}
    (inThread : row ∈ Storage.getThread order store id) (isAllowed : row.accountId ∈ allowed) :
    retainAllowed allowed (Storage.getThread order store id) (·.accountId) =
      Storage.getThread order store id :=
  List.filter_eq_self.mpr fun _ otherInThread =>
    (isAllowed_iff _ _).mpr (allowed_of_thread separate inThread otherInThread isAllowed)

theorem getThread_of_allowed (separate : OneAccountPerThread backend.store) {id : String}
    {row : MessageRow} (inThread : row ∈ Storage.getThread order backend.store id)
    (isAllowed : row.accountId ∈ scope.allowedAccountIds backend.store) :
    getThread chrono order scope backend id =
      .ok ⟨id, (Storage.getThread order backend.store id).map (messageRowToDto chrono)⟩ := by
  have nonempty : (Storage.getThread order backend.store id).isEmpty = false :=
    List.isEmpty_eq_false_iff.mpr (List.ne_nil_of_mem inThread)
  rw [getThread, retainAllowed_of_separate separate inThread isAllowed, nonempty, if_neg nofun]

/-- A thread that is answered has an allowed row. -/
theorem exists_allowed_of_getThread {id : String} {response : ThreadResponseDto}
    (answered : getThread chrono order scope backend id = .ok response) :
    ∃ row ∈ Storage.getThread order backend.store id,
      row.accountId ∈ scope.allowedAccountIds backend.store := by
  simp only [getThread] at answered
  split at answered
  next => cases answered
  next nonempty =>
    obtain ⟨row, kept⟩ := List.exists_mem_of_ne_nil _
      fun empty => nonempty (List.isEmpty_iff.mpr empty)
    obtain ⟨inThread, allowed⟩ := List.mem_filter.mp kept
    exact ⟨row, inThread, (isAllowed_iff _ _).mp allowed⟩

theorem getMessage_eq_ok_iff {id : String} {message : MessageDto} :
    getMessage chrono scope backend id = .ok message ↔
      ∃ row ∈ backend.store.messages.rows, row.messageId = id ∧ row.tombstonedAt = none ∧
        row.accountId ∈ scope.allowedAccountIds backend.store ∧
        message = messageRowToDto chrono row := by
  simp only [getMessage, visibleRow]
  constructor
  · intro answered
    cases found : Storage.getMessage backend.store id with
    | none => simp [found] at answered
    | some row =>
        obtain ⟨stored, isId⟩ := (getMessage_eq_some_iff _ _ _).mp found
        simp only [found] at answered
        split at answered
        next row' visible =>
          split at visible
          next shown =>
            cases visible
            cases answered
            rw [Bool.and_eq_true, isAllowed_iff, Option.isNone_iff_eq_none] at shown
            exact ⟨row, stored, isId, shown.1, shown.2, rfl⟩
          next => cases visible
        next => cases answered
  · rintro ⟨row, stored, isId, live, allowed, rfl⟩
    have found := (getMessage_eq_some_iff backend.store id row).mpr ⟨stored, isId⟩
    simp only [found, live, Option.isNone_none, Bool.true_and, (isAllowed_iff _ _).mpr allowed,
      if_true]

theorem threadsWhole_of_separate (separate : OneAccountPerThread backend.store) :
    ThreadsWhole chrono order scope backend where
  whole := by
    intro id response answered
    obtain ⟨row, inThread, allowed⟩ := exists_allowed_of_getThread answered
    rw [getThread_of_allowed separate inThread allowed] at answered
    exact (Except.ok.inj answered).symm
  followed := by
    intro id message answered
    obtain ⟨row, stored, -, live, allowed, rfl⟩ := getMessage_eq_ok_iff.mp answered
    have inThread : row ∈ Storage.getThread order backend.store row.threadId :=
      mem_getThread.mpr ⟨stored, rfl, live⟩
    exact ⟨_, getThread_of_allowed separate inThread allowed, List.mem_map_of_mem inThread⟩
  opened := by
    intro id response answered message member
    obtain ⟨row, inThread, allowed⟩ := exists_allowed_of_getThread answered
    rw [getThread_of_allowed separate inThread allowed] at answered
    cases answered
    obtain ⟨other, otherInThread, rfl⟩ := List.mem_map.mp member
    obtain ⟨stored, -, live⟩ := mem_getThread.mp otherInThread
    exact getMessage_eq_ok_iff.mpr ⟨other, stored, rfl, live,
      allowed_of_thread separate inThread otherInThread allowed, rfl⟩

/-- Over every history of insertions and tombstones, and whatever the accounts are by then, the
tools show whole conversations and agree on them. -/
theorem threads_whole (accounts : Table AccountRow SameAccount) (events : List MessageEvent)
    (fresh : Guarded messageStep FreshMint (.fresh accounts) events)
    (sameMessages : backend.store.messages = (run messageStep (.fresh accounts) events).messages) :
    ThreadsWhole chrono order scope backend := by
  have initially : OneAccountPerThread (.fresh accounts) := List.forall_mem_nil _
  have separate : OneAccountPerThread (run messageStep (.fresh accounts) events) :=
    (always_of_guarded (fun store event separate mint => separate.step mint) initially
      fresh).last
  apply threadsWhole_of_separate
  rw [OneAccountPerThread, sameMessages]
  exact separate

/-- A reply whose parent is tombstoned, read by the owner of the account. -/
theorem threads_whole_reply :
    ThreadsWhole ⟨fun _ => none, fun _ => none, fun _ => none⟩ .byText ⟨"me@example.org"⟩
      ⟨run messageStep (.fresh Storage.oneAccount)
        [.insert { minted := "x" } (threadMail 1 "a" []), .tombstone 0 "work:a",
          .insert { minted := "y" } (threadMail 2 "b" ["a"])], .none⟩ := by
  refine threads_whole Storage.oneAccount _ ?_ rfl
  simp only [Guarded, FreshMint]
  decide

end Thread

end Scryd.Mcp
