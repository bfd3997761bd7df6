import Scryd.Foundation.Run
import Scryd.Storage.Messages

/-!
# Threads over whole histories

A thread id is resolved once, when the row goes in, from the rows that are there
at that time.  Upserts and tombstones keep it.
-/

namespace Scryd.Storage

open Scryd.Foundation

/-- The calls that write `messages`. -/
inductive MessageEvent where
  | insert (env : ThreadEnv) (m : MessageInsert)
  | tombstone (now : Int) (id : String)

/-- A failing insertion changes nothing. -/
def messageStep (store : Store) : MessageEvent → Store
  | .insert env m =>
      match insertMessage env m store with
      | .ok next => next
      | .error _ => store
  | .tombstone now id => tombstone now id store

/-- The UUID that an insertion would mint is no thread's yet. -/
def FreshMint (store : Store) : MessageEvent → Prop
  | .insert env _ => ∀ row ∈ store.messages.rows, row.threadId ≠ env.minted
  | .tombstone _ _ => True

section Resolution

/-- The header ids that are looked for, in this order. -/
def MessageInsert.candidates (m : MessageInsert) : List String :=
  m.references.reverse ++ m.inReplyTo.toList

/-- A row of the account that carries the header id. -/
def MessageRow.Carries (row : MessageRow) (accountId : AccountId) (header : String) : Prop :=
  row.accountId = accountId ∧ row.headerMessageId = some header

/-- The thread of a new message: that of a row which carries the first candidate that is known
at all, or one that no row has. -/
def JoinsThread (rows : List MessageRow) (m : MessageInsert) (threadId : String) : Prop :=
  (∃ before header after, m.candidates = before ++ header :: after ∧
    (∀ earlier ∈ before, ∀ row ∈ rows, ¬ row.Carries m.accountId earlier) ∧
    ∃ row ∈ rows, row.Carries m.accountId header ∧ row.threadId = threadId) ∨
  ((∀ header ∈ m.candidates, ∀ row ∈ rows, ¬ row.Carries m.accountId header) ∧
    ∀ row ∈ rows, row.threadId ≠ threadId)

variable {order : ScanOrder} {rows : List MessageRow} {accountId : AccountId} {header : String}

theorem selectThreadId_eq_none_iff :
    selectThreadId order rows accountId header = none ↔
      ∀ row ∈ rows, ¬ row.Carries accountId header := by
  simp only [selectThreadId, Option.map_eq_none_iff, List.head?_eq_none_iff,
    List.eq_nil_iff_forall_not_mem, mem_sortBy, List.mem_filter, decide_eq_true_eq, not_and,
    MessageRow.Carries]

theorem exists_carries_of_selectThreadId {threadId : String}
    (answered : selectThreadId order rows accountId header = some threadId) :
    ∃ row ∈ rows, row.Carries accountId header ∧ row.threadId = threadId := by
  obtain ⟨row, isFirst, isThread⟩ := Option.map_eq_some_iff.mp answered
  have found := (mem_sortBy _ _ row).mp (List.mem_of_head? isFirst)
  rw [List.mem_filter, decide_eq_true_eq] at found
  exact ⟨row, found.1, found.2, isThread⟩

/-- Whichever row its queries meet first, `resolve_thread_id` answers with the thread of a row
that carries the first known candidate, or mints. -/
theorem resolveThreadId_cases (env : ThreadEnv) (rows : List MessageRow) (m : MessageInsert) :
    (∃ before header after, m.candidates = before ++ header :: after ∧
      (∀ earlier ∈ before, ∀ row ∈ rows, ¬ row.Carries m.accountId earlier) ∧
      ∃ row ∈ rows, row.Carries m.accountId header ∧
        resolveThreadId env rows m.accountId m.inReplyTo m.references = row.threadId) ∨
    ((∀ header ∈ m.candidates, ∀ row ∈ rows, ¬ row.Carries m.accountId header) ∧
      resolveThreadId env rows m.accountId m.inReplyTo m.references = env.minted) := by
  have resolved : resolveThreadId env rows m.accountId m.inReplyTo m.references =
      (m.candidates.findSome? (selectThreadId env.order rows m.accountId)).getD env.minted := rfl
  rw [resolved]
  cases found : m.candidates.findSome? (selectThreadId env.order rows m.accountId) with
  | none =>
      apply Or.inr
      have noHeader := List.findSome?_eq_none_iff.mp found
      exact ⟨fun header candidate => selectThreadId_eq_none_iff.mp (noHeader _ candidate), rfl⟩
  | some threadId =>
      apply Or.inl
      obtain ⟨before, header, after, split, answered, earlierFail⟩ :=
        List.findSome?_eq_some_iff.mp found
      obtain ⟨row, stored, carries, isThread⟩ := exists_carries_of_selectThreadId answered
      exact ⟨before, header, after, split, fun earlier isBefore =>
        selectThreadId_eq_none_iff.mp (earlierFail earlier isBefore), row, stored, carries,
        isThread.symm⟩

theorem newRow_joinsThread {store : Store} {env : ThreadEnv}
    (fresh : ∀ row ∈ store.messages.rows, row.threadId ≠ env.minted) (m : MessageInsert) :
    JoinsThread store.messages.rows m (store.newRow env m).threadId := by
  have isThread : (store.newRow env m).threadId =
      resolveThreadId env store.messages.rows m.accountId m.inReplyTo m.references := rfl
  rw [isThread]
  rcases resolveThreadId_cases env store.messages.rows m with
    ⟨before, header, after, split, unknown, row, stored, carries, same⟩ | ⟨unknown, same⟩
  · exact .inl ⟨before, header, after, split, unknown, row, stored, carries, same.symm⟩
  · rw [same]
    exact .inr ⟨unknown, fresh⟩

end Resolution

section Histories

/-- What an in-place change of a row keeps. -/
def threadIdentity (row : MessageRow) : String × MessageKey × String :=
  (row.messageId, row.key, row.threadId)

theorem MessageInsert.refresh_threadIdentity (m : MessageInsert) (row : MessageRow) :
    threadIdentity (m.refresh row) = threadIdentity row := by
  unfold threadIdentity MessageInsert.refresh
  split <;> rfl

theorem tombstoneRow_threadIdentity (now : Int) (id : String) (row : MessageRow) :
    threadIdentity (tombstoneRow now id row) = threadIdentity row := by
  unfold threadIdentity tombstoneRow
  split <;> rfl

/-- Everything a call can do to the identities of the rows: nothing, or add one row. -/
theorem messageStep_identities (store : Store) (event : MessageEvent) :
    (messageStep store event).messages.rows.map threadIdentity =
        store.messages.rows.map threadIdentity ∨
      ∃ env m, event = .insert env m ∧
        (messageStep store event).messages.rows =
          store.messages.rows ++ [store.newRow env m] := by
  cases event with
  | tombstone now id =>
      apply Or.inl
      simp only [messageStep, tombstone, Table.update_rows, List.map_map]
      exact List.map_congr_left fun row _ => tombstoneRow_threadIdentity now id row
  | insert env m =>
      simp only [messageStep]
      cases inserted : insertMessage env m store with
      | error err => exact .inl rfl
      | ok next =>
          rcases insertMessage_ok inserted with ⟨_, rfl⟩ | ⟨_, _, messages, rfl, rows⟩
          · apply Or.inl
            simp only [Store.refreshMessage, Table.update_rows, List.map_map]
            exact List.map_congr_left fun row _ => m.refresh_threadIdentity row
          · exact .inr ⟨env, m, rfl, rows⟩

/-- Each identity is there to stay. -/
theorem identities_persist (events : List MessageEvent) {store : Store}
    {identity : String × MessageKey × String}
    (stored : identity ∈ store.messages.rows.map threadIdentity) :
    identity ∈ (run messageStep store events).messages.rows.map threadIdentity := by
  apply @run_preserves _ _ messageStep
    (fun store => identity ∈ store.messages.rows.map threadIdentity) _ _ stored
  intro current event before
  rcases messageStep_identities current event with same | ⟨env, m, _, rows⟩
  · rwa [same]
  · rw [rows, List.map_append]
    exact List.mem_append_left _ before

/-- Rows of one thread belong to one account. -/
def OneAccountPerThread (store : Store) : Prop :=
  ∀ row ∈ store.messages.rows, ∀ other ∈ store.messages.rows, row.threadId = other.threadId →
    row.accountId = other.accountId

theorem oneAccountPerThread_iff (store : Store) : OneAccountPerThread store ↔
    ∀ identity ∈ store.messages.rows.map threadIdentity,
      ∀ other ∈ store.messages.rows.map threadIdentity,
        identity.2.2 = other.2.2 → identity.2.1.accountId = other.2.1.accountId := by
  simp only [List.forall_mem_map]
  rfl

theorem OneAccountPerThread.step {store : Store} (separate : OneAccountPerThread store)
    {event : MessageEvent} (fresh : FreshMint store event) :
    OneAccountPerThread (messageStep store event) := by
  rcases messageStep_identities store event with same | ⟨env, m, rfl, rows⟩
  · rw [oneAccountPerThread_iff, same, ← oneAccountPerThread_iff]
    exact separate
  · -- The new row is of the account of every row whose thread it has joined.
    have joined : ∀ row ∈ store.messages.rows,
        row.threadId = (store.newRow env m).threadId → row.accountId = m.accountId := by
      intro row stored sameThread
      rcases newRow_joinsThread fresh m with
        ⟨_, _, _, _, _, found, foundStored, carries, isThread⟩ | ⟨_, unshared⟩
      · rw [separate row stored found foundStored (sameThread.trans isThread.symm)]
        exact carries.1
      · exact absurd sameThread (unshared row stored)
    intro row rowStored other otherStored sameThread
    rw [rows, List.mem_append, List.mem_singleton] at rowStored otherStored
    rcases rowStored with rowOld | rfl <;> rcases otherStored with otherOld | rfl
    · exact separate row rowOld other otherOld sameThread
    · exact joined row rowOld sameThread
    · exact (joined other otherOld sameThread.symm).symm
    · rfl

/-- Over every history of insertions and tombstones in which the minted ids are fresh: rows of
one thread belong to one account; a row keeps its thread id; and a new row joins the thread of
the first candidate that is known, or starts a thread of its own. -/
theorem thread_identity (accounts : Table AccountRow SameAccount) (events : List MessageEvent)
    (fresh : Guarded messageStep FreshMint (.fresh accounts) events) :
    Always messageStep OneAccountPerThread (.fresh accounts) events ∧
      (∀ before after, events = before ++ after →
        ∀ row ∈ (run messageStep (.fresh accounts) before).messages.rows,
          ∃ later ∈ (run messageStep (.fresh accounts) events).messages.rows,
            later.messageId = row.messageId ∧ later.key = row.key ∧
              later.threadId = row.threadId) ∧
      (∀ before env m after next, events = before ++ .insert env m :: after →
        insertMessage env m (run messageStep (.fresh accounts) before) = .ok next →
        (∀ row ∈ (run messageStep (.fresh accounts) before).messages.rows, row.key ≠ m.key) →
        ∃ row ∈ next.messages.rows, row.key = m.key ∧
          JoinsThread (run messageStep (.fresh accounts) before).messages.rows m row.threadId) := by
  refine ⟨?_, ?_, ?_⟩
  · apply always_of_guarded (fun store event separate mint => separate.step mint) _ fresh
    intro row stored
    cases stored
  · rintro before after rfl row stored
    have persists := identities_persist after (List.mem_map_of_mem (f := threadIdentity) stored)
    rw [run_append]
    obtain ⟨later, laterStored, same⟩ := List.mem_map.mp persists
    simp only [threadIdentity, Prod.mk.injEq] at same
    exact ⟨later, laterStored, same⟩
  · rintro before env m after next rfl inserted newKey
    have mint := ((guarded_append _ _ _).mp fresh).2.1
    rcases insertMessage_ok inserted with ⟨⟨row, stored, same⟩, _⟩ | ⟨_, _, messages, rfl, rows⟩
    · exact absurd same (newKey row stored)
    · refine ⟨Store.newRow _ env m, ?_, rfl, newRow_joinsThread mint m⟩
      rw [rows]
      exact List.mem_append_right _ (List.mem_singleton.mpr rfl)

end Histories

section ReplyTrees

/-- New messages of an account, each but the root a reply to another one of them: a reply names
its parent in `In-Reply-To`, and behind the parent's own references in `References`. -/
structure ReplyTree where
  accountId : AccountId
  root : MessageInsert
  messages : List MessageInsert
  rootIn : root ∈ messages
  ofAccount : ∀ m ∈ messages, m.accountId = accountId
  headed : ∀ m ∈ messages, m.headerMessageId.isSome
  distinct : (messages.map (·.headerMessageId)).Nodup
  start : root.references = [] ∧ root.inReplyTo = none
  replies : ∀ m ∈ messages, m = root ∨ ∃ parent ∈ messages, ∃ header,
    parent.headerMessageId = some header ∧ m.inReplyTo = some header ∧
      m.references = parent.references ++ [header]

/-- Every reply refers to the root, and only to messages of the tree. -/
theorem ReplyTree.references_spec (tree : ReplyTree) {m : MessageInsert}
    (inTree : m ∈ tree.messages) :
    (m = tree.root ∨ ∃ header, tree.root.headerMessageId = some header ∧
        header ∈ m.references) ∧
      ∀ header ∈ m.references, ∃ other ∈ tree.messages,
        other.headerMessageId = some header := by
  induction length : m.references.length using Nat.strongRecOn generalizing m with
  | ind size inductionHypothesis =>
      rcases tree.replies m inTree with rfl | ⟨parent, parentIn, header, isHeader, _, isReferences⟩
      · refine ⟨.inl rfl, fun header member => ?_⟩
        rw [tree.start.1] at member
        cases member
      · have shorter : parent.references.length < size := by
          rw [← length, isReferences, List.length_append, List.length_singleton]
          exact Nat.lt_succ_self _
        obtain ⟨ofRoot, ofTree⟩ := inductionHypothesis _ shorter parentIn rfl
        rw [isReferences]
        constructor
        · apply Or.inr
          rcases ofRoot with rfl | ⟨rootHeader, isRoot, member⟩
          · exact ⟨header, isHeader, by simp⟩
          · exact ⟨rootHeader, isRoot, List.mem_append_left _ member⟩
        · intro other member
          rcases List.mem_append.mp member with before | last
          · exact ofTree other before
          · rw [List.mem_singleton.mp last]
            exact ⟨parent, parentIn, isHeader⟩

/-- What a message of the tree looks for are header ids of the tree. -/
theorem ReplyTree.candidates_spec (tree : ReplyTree) {m : MessageInsert}
    (inTree : m ∈ tree.messages) {header : String} (candidate : header ∈ m.candidates) :
    ∃ other ∈ tree.messages, other.headerMessageId = some header := by
  rcases List.mem_append.mp candidate with referred | answered
  · exact (tree.references_spec inTree).2 header (List.mem_reverse.mp referred)
  · rcases tree.replies m inTree with rfl | ⟨parent, parentIn, other, isHeader, isReply, _⟩
    · rw [tree.start.2] at answered
      cases answered
    · rw [isReply, Option.toList_some, List.mem_singleton] at answered
      exact ⟨parent, parentIn, answered ▸ isHeader⟩

/-- No two messages have a key or an id in common. -/
def Apart (first second : MessageInsert) : Prop :=
  first.key ≠ second.key ∧ first.messageId ≠ second.messageId

/-- The messages are yet to be stored: their keys and ids are free and their account is known. -/
structure ReplyTree.Pending (tree : ReplyTree) (pending : List MessageInsert) (store : Store) :
    Prop where
  known : store.hasAccount tree.accountId = true
  inTree : ∀ m ∈ pending, m ∈ tree.messages
  apart : pending.Pairwise Apart
  free : ∀ m ∈ pending, ∀ row ∈ store.messages.rows,
    row.key ≠ m.key ∧ row.messageId ≠ m.messageId

/-- The account has no row with a header id of the tree. -/
def ReplyTree.Unheard (tree : ReplyTree) (store : Store) : Prop :=
  ∀ row ∈ store.messages.rows, row.accountId = tree.accountId →
    ∀ m ∈ tree.messages, row.headerMessageId ≠ m.headerMessageId

/-- Messages in the order of their insertion, each with what the surroundings decide for it. -/
def inserts (arrivals : List (ThreadEnv × MessageInsert)) : List MessageEvent :=
  arrivals.map fun arrival => .insert arrival.1 arrival.2

def threadOf (store : Store) (m : MessageInsert) : Option String :=
  (getMessage store m.messageId).map (·.threadId)

variable {tree : ReplyTree}

/-- The first pending message goes in, and the others stay pending. -/
theorem ReplyTree.Pending.insert {m : MessageInsert} {rest : List MessageInsert} {store : Store}
    (pending : tree.Pending (m :: rest) store) (env : ThreadEnv) :
    (messageStep store (.insert env m)).messages.rows =
        store.messages.rows ++ [store.newRow env m] ∧
      tree.Pending rest (messageStep store (.insert env m)) := by
  have ofAccount := tree.ofAccount m (pending.inTree m List.mem_cons_self)
  obtain ⟨next, inserted, rows⟩ := insertMessage_fresh (pending.free m List.mem_cons_self)
    (ofAccount ▸ pending.known) env
  have frame := (insertMessage_frame inserted).1
  obtain ⟨apart, restApart⟩ := List.pairwise_cons.mp pending.apart
  simp only [messageStep, inserted]
  refine ⟨rows, ?_, fun later inRest => pending.inTree later (List.mem_cons_of_mem m inRest),
    restApart, ?_⟩
  · simpa only [Store.hasAccount, frame] using pending.known
  · intro later inRest row stored
    rw [rows, List.mem_append, List.mem_singleton] at stored
    rcases stored with old | rfl
    · exact pending.free later (List.mem_cons_of_mem m inRest) row old
    · exact apart later inRest

theorem ReplyTree.Pending.run {arrivals : List (ThreadEnv × MessageInsert)}
    {rest : List MessageInsert} {store : Store}
    (pending : tree.Pending (arrivals.map Prod.snd ++ rest) store) :
    tree.Pending rest (Foundation.run messageStep store (inserts arrivals)) := by
  induction arrivals generalizing store with
  | nil => exact pending
  | cons arrival later inductionHypothesis =>
      exact inductionHypothesis (pending.insert arrival.1).2

/-- The rows of an identity that is stored answer for the message of that id. -/
theorem threadOf_of_identity {store : Store} {m : MessageInsert} {key : MessageKey}
    {threadId : String}
    (stored : (m.messageId, key, threadId) ∈ store.messages.rows.map threadIdentity) :
    threadOf store m = some threadId := by
  obtain ⟨row, rowStored, same⟩ := List.mem_map.mp stored
  simp only [threadIdentity, Prod.mk.injEq] at same
  rw [threadOf, (getMessage_eq_some_iff store m.messageId row).mpr ⟨rowStored, same.1⟩,
    Option.map_some, same.2.2]

/-- A message keeps the thread it gets when it goes in. -/
theorem ReplyTree.Pending.threadOf {m : MessageInsert} {rest : List MessageInsert}
    {store : Store} (pending : tree.Pending (m :: rest) store) (env : ThreadEnv)
    (later : List MessageEvent) :
    Storage.threadOf (Foundation.run messageStep store (.insert env m :: later)) m =
      some (store.newRow env m).threadId := by
  have stored : threadIdentity (store.newRow env m) ∈
      (messageStep store (.insert env m)).messages.rows.map threadIdentity := by
    rw [(pending.insert env).1, List.map_append]
    exact List.mem_append_right _ (List.mem_singleton.mpr rfl)
  exact threadOf_of_identity (identities_persist later stored)

/-- The root is stored, and whatever the account has of the tree is in one thread. -/
structure ReplyTree.Gathered (tree : ReplyTree) (threadId : String) (store : Store) : Prop where
  rootStored : ∃ row ∈ store.messages.rows, row.accountId = tree.accountId ∧
    row.headerMessageId = tree.root.headerMessageId
  joined : ∀ row ∈ store.messages.rows, row.accountId = tree.accountId →
    (∃ m ∈ tree.messages, row.headerMessageId = m.headerMessageId) → row.threadId = threadId

/-- Every reply that goes in then joins that thread. -/
theorem ReplyTree.Gathered.newRow_threadId {threadId : String} {store : Store}
    (gathered : tree.Gathered threadId store) {m : MessageInsert} (inTree : m ∈ tree.messages)
    (reply : m ≠ tree.root) (env : ThreadEnv) :
    (store.newRow env m).threadId = threadId := by
  have isThread : (store.newRow env m).threadId =
      resolveThreadId env store.messages.rows m.accountId m.inReplyTo m.references := rfl
  rw [isThread]
  rcases resolveThreadId_cases env store.messages.rows m with
    ⟨before, header, after, split, _, row, stored, carries, same⟩ | ⟨unknown, _⟩
  · have candidate : header ∈ m.candidates := by
      rw [split]
      simp
    obtain ⟨other, otherIn, isHeader⟩ := tree.candidates_spec inTree candidate
    rw [same]
    exact gathered.joined row stored (carries.1.trans (tree.ofAccount m inTree))
      ⟨other, otherIn, carries.2.trans isHeader.symm⟩
  · obtain ⟨header, isRoot, referred⟩ := (tree.references_spec inTree).1.resolve_left reply
    obtain ⟨row, stored, ofAccount, sameHeader⟩ := gathered.rootStored
    have candidate : header ∈ m.candidates :=
      List.mem_append_left _ (List.mem_reverse.mpr referred)
    exact absurd ⟨ofAccount.trans (tree.ofAccount m inTree).symm, sameHeader.trans isRoot⟩
      (unknown header candidate row stored)

theorem ReplyTree.Gathered.append {threadId : String} {store next : Store}
    (gathered : tree.Gathered threadId store) {row : MessageRow}
    (rows : next.messages.rows = store.messages.rows ++ [row])
    (isThread : row.threadId = threadId) : tree.Gathered threadId next where
  rootStored := by
    obtain ⟨rootRow, stored, isRoot⟩ := gathered.rootStored
    exact ⟨rootRow, rows ▸ List.mem_append_left _ stored, isRoot⟩
  joined := by
    intro other stored
    rw [rows, List.mem_append, List.mem_singleton] at stored
    rcases stored with old | rfl
    · exact gathered.joined other old
    · exact fun _ _ => isThread

/-- Once the root is there, every order of the replies keeps the tree together. -/
theorem ReplyTree.Gathered.run {threadId : String} {arrivals : List (ThreadEnv × MessageInsert)}
    {store : Store} (gathered : tree.Gathered threadId store)
    (pending : tree.Pending (arrivals.map Prod.snd) store)
    (replies : ∀ arrival ∈ arrivals, arrival.2 ≠ tree.root) :
    ∀ arrival ∈ arrivals,
      threadOf (Foundation.run messageStep store (inserts arrivals)) arrival.2 =
        some threadId := by
  induction arrivals generalizing store with
  | nil => exact nofun
  | cons first rest inductionHypothesis =>
      have isReply := replies first List.mem_cons_self
      have inTree := pending.inTree first.2 List.mem_cons_self
      have joins := gathered.newRow_threadId inTree isReply first.1
      obtain ⟨rows, restPending⟩ := ReplyTree.Pending.insert pending first.1
      intro arrival member
      rcases List.mem_cons.mp member with rfl | later
      · rw [← joins]
        exact ReplyTree.Pending.threadOf pending arrival.1 (inserts rest)
      · exact inductionHypothesis (gathered.append rows joins) restPending
          (fun other isLater => replies other (List.mem_cons_of_mem first isLater)) arrival later

/-- The root finds no thread: it starts one with the id that is minted for it. -/
theorem ReplyTree.newRow_root (tree : ReplyTree) (store : Store) (env : ThreadEnv) :
    (store.newRow env tree.root).threadId = env.minted := by
  simp only [Store.newRow, MessageInsert.toRow, tree.start.1, tree.start.2]
  rfl

/-- Into a store that has not heard of the tree its root goes as a thread of its own. -/
theorem ReplyTree.Unheard.gathered {store next : Store} (unheard : tree.Unheard store)
    {env : ThreadEnv}
    (rows : next.messages.rows = store.messages.rows ++ [store.newRow env tree.root]) :
    tree.Gathered env.minted next where
  rootStored := by
    refine ⟨store.newRow env tree.root, ?_, tree.ofAccount _ tree.rootIn, rfl⟩
    rw [rows]
    exact List.mem_append_right _ (List.mem_singleton.mpr rfl)
  joined := by
    intro row stored ofAccount ofTree
    rw [rows, List.mem_append, List.mem_singleton] at stored
    rcases stored with old | rfl
    · obtain ⟨m, inTree, same⟩ := ofTree
      exact absurd same (unheard row old ofAccount m inTree)
    · exact tree.newRow_root store env

/-- A root that comes later finds the first message's thread in place, and starts another one. -/
theorem ReplyTree.Pending.root_apart {first : ThreadEnv × MessageInsert}
    {before after : List (ThreadEnv × MessageInsert)} {env : ThreadEnv} {store : Store}
    (pending : tree.Pending
      ((first :: (before ++ (env, tree.root) :: after)).map Prod.snd) store)
    (mints : Guarded messageStep FreshMint store
      (inserts (first :: (before ++ (env, tree.root) :: after)))) :
    Storage.threadOf (Foundation.run messageStep store
        (inserts (first :: (before ++ (env, tree.root) :: after)))) first.2 ≠
      Storage.threadOf (Foundation.run messageStep store
        (inserts (first :: (before ++ (env, tree.root) :: after)))) tree.root := by
  have split : inserts (first :: (before ++ (env, tree.root) :: after)) =
      inserts (first :: before) ++ .insert env tree.root :: inserts after := by
    simp [inserts]
  have rootPending : tree.Pending (tree.root :: after.map Prod.snd)
      (Foundation.run messageStep store (inserts (first :: before))) := by
    apply ReplyTree.Pending.run
    simpa using pending
  have rootThread := rootPending.threadOf env (inserts after)
  rw [← run_append, ← split, tree.newRow_root] at rootThread
  have firstThread := ReplyTree.Pending.threadOf pending first.1 (inserts before)
  have inTheEnd := ReplyTree.Pending.threadOf pending first.1
    (inserts (before ++ (env, tree.root) :: after))
  obtain ⟨row, found, isThread⟩ := Option.map_eq_some_iff.mp firstThread
  have stored := ((getMessage_eq_some_iff _ _ _).mp found).1
  rw [split] at mints
  have mint := ((guarded_append _ _ _).mp mints).2.1
  intro same
  apply mint row stored
  rw [isThread]
  exact Option.some.inj (inTheEnd.symm.trans (same.trans rootThread))

/-- A tree ends up in one thread exactly in the orders of insertion that begin with its root. -/
theorem replyTree_one_thread_iff (tree : ReplyTree) {store : Store}
    {arrivals : List (ThreadEnv × MessageInsert)}
    (all : (arrivals.map Prod.snd).Perm tree.messages)
    (pending : tree.Pending tree.messages store) (unheard : tree.Unheard store)
    (mints : Guarded messageStep FreshMint store (inserts arrivals)) :
    (∃ threadId, ∀ m ∈ tree.messages,
        threadOf (run messageStep store (inserts arrivals)) m = some threadId) ↔
      (arrivals.map Prod.snd).head? = some tree.root := by
  have arriving : tree.Pending (arrivals.map Prod.snd) store := by
    refine ⟨pending.known, fun m member => all.mem_iff.mp member, ?_,
      fun m member => pending.free m (all.mem_iff.mp member)⟩
    exact (all.pairwise_iff fun apart => ⟨apart.1.symm, apart.2.symm⟩).mpr pending.apart
  cases arrivals with
  | nil =>
      have empty := all.mem_iff.mpr tree.rootIn
      cases empty
  | cons first rest =>
      obtain ⟨rows, restPending⟩ := ReplyTree.Pending.insert arriving first.1
      have once := (List.pairwise_cons.mp arriving.apart).1
      simp only [List.map_cons, List.head?_cons, Option.some.injEq]
      constructor
      · rintro ⟨threadId, together⟩
        by_contra notFirst
        have rootArrives := all.mem_iff.mpr tree.rootIn
        rw [List.map_cons, List.mem_cons] at rootArrives
        obtain ⟨⟨env, _⟩, isLater, rfl⟩ :=
          List.mem_map.mp (rootArrives.resolve_left (Ne.symm notFirst))
        obtain ⟨before, after, rfl⟩ := List.append_of_mem isLater
        have firstIn := arriving.inTree first.2 List.mem_cons_self
        exact arriving.root_apart mints
          ((together first.2 firstIn).trans (together _ tree.rootIn).symm)
      · intro isRoot
        have gathered :
            tree.Gathered first.1.minted (messageStep store (.insert first.1 first.2)) :=
          unheard.gathered (isRoot ▸ rows)
        have replies : ∀ arrival ∈ rest, arrival.2 ≠ tree.root := by
          intro arrival later same
          apply (once arrival.2 (List.mem_map_of_mem later)).1
          rw [isRoot, same]
        refine ⟨first.1.minted, fun m inTree => ?_⟩
        rcases List.mem_cons.mp (all.mem_iff.mpr inTree) with rfl | later
        · have inTheEnd := ReplyTree.Pending.threadOf arriving first.1 (inserts rest)
          rwa [isRoot, tree.newRow_root, ← isRoot] at inTheEnd
        · obtain ⟨arrival, isLater, rfl⟩ := List.mem_map.mp later
          exact gathered.run restPending replies arrival isLater

end ReplyTrees

section Sample

def oneAccount : Table AccountRow SameAccount :=
  ⟨[⟨sampleAccountId, "imap.example.org", 993, "me@example.org", ["INBOX"], true, 0⟩],
    List.pairwise_singleton _ _⟩

/-- A mail with a header id that refers to others, the last of which it answers. -/
def threadMail (uid : Nat) (header : String) (references : List String) : MessageInsert where
  messageId := "work:" ++ header
  accountId := sampleAccountId
  folder := "INBOX"
  serverUid := uid
  uidvalidity := 1
  headerMessageId := some header
  inReplyTo := references.getLast?
  references := references
  senderAddr := "sender@example.org"
  senderName := none
  recipientsTo := []
  recipientsCc := []
  subject := none
  dateUnix := 0
  rawPath := "/data/raw/" ++ header
  bodyMd := "hello"
  sizeBytes := 5

/-- A mail, a reply to it and a reply to the reply. -/
def threeMailTree : ReplyTree where
  accountId := sampleAccountId
  root := threadMail 1 "a" []
  messages := [threadMail 1 "a" [], threadMail 2 "b" ["a"], threadMail 3 "c" ["a", "b"]]
  rootIn := List.mem_cons_self
  ofAccount := by simp [threadMail]
  headed := by simp [threadMail]
  distinct := by decide
  start := ⟨rfl, rfl⟩
  replies := by
    intro m inTree
    simp only [List.mem_cons, List.not_mem_nil, or_false] at inTree
    rcases inTree with rfl | rfl | rfl
    · exact .inl rfl
    · exact .inr ⟨threadMail 1 "a" [], List.mem_cons_self, "a", rfl, rfl, rfl⟩
    · exact .inr ⟨threadMail 2 "b" ["a"], by simp, "b", rfl, rfl, rfl⟩

/-- A reply that arrives before the mail it answers stays in a thread of its own. -/
theorem reply_before_root_split :
    (([({ minted := "x" }, threadMail 2 "b" ["a"]), ({ minted := "y" }, threadMail 1 "a" []),
        ({ minted := "z" }, threadMail 3 "c" ["a", "b"])] :
          List (ThreadEnv × MessageInsert)).map Prod.snd).Perm threeMailTree.messages ∧
    ¬ ∃ threadId, ∀ m ∈ threeMailTree.messages,
      threadOf (run messageStep (.fresh oneAccount) (inserts
        [({ minted := "x" }, threadMail 2 "b" ["a"]), ({ minted := "y" }, threadMail 1 "a" []),
          ({ minted := "z" }, threadMail 3 "c" ["a", "b"])])) m = some threadId := by
  refine ⟨List.Perm.swap _ _ _, ?_⟩
  rintro ⟨threadId, together⟩
  have root := together (threadMail 1 "a" []) (by decide)
  have reply := together (threadMail 2 "b" ["a"]) (by decide)
  have rootThread : threadOf (run messageStep (.fresh oneAccount) (inserts
      [({ minted := "x" }, threadMail 2 "b" ["a"]), ({ minted := "y" }, threadMail 1 "a" []),
        ({ minted := "z" }, threadMail 3 "c" ["a", "b"])])) (threadMail 1 "a" []) = some "y" := by
    decide
  have replyThread : threadOf (run messageStep (.fresh oneAccount) (inserts
      [({ minted := "x" }, threadMail 2 "b" ["a"]), ({ minted := "y" }, threadMail 1 "a" []),
        ({ minted := "z" }, threadMail 3 "c" ["a", "b"])])) (threadMail 2 "b" ["a"]) = some "x" := by
    decide
  rw [rootThread] at root
  rw [replyThread, ← root] at reply
  exact absurd reply (by decide)

theorem replyTree_one_thread_root_first :
    (∃ threadId, ∀ m ∈ threeMailTree.messages,
        threadOf (run messageStep (.fresh oneAccount) (inserts
          [({ minted := "x" }, threadMail 1 "a" []),
            ({ minted := "y" }, threadMail 3 "c" ["a", "b"]),
            ({ minted := "z" }, threadMail 2 "b" ["a"])])) m = some threadId) ↔
      some (threadMail 1 "a" []) = some threeMailTree.root := by
  apply replyTree_one_thread_iff threeMailTree
  · exact (List.Perm.swap _ _ _).cons _
  · exact ⟨by decide, fun m member => member, by unfold Apart; decide, fun m _ row stored => by
      cases stored⟩
  · intro row stored
    cases stored
  · simp only [Guarded, inserts, List.map_cons, List.map_nil, FreshMint]
    decide

theorem thread_identity_replies :
    Always messageStep OneAccountPerThread (.fresh oneAccount)
      [.insert { minted := "x" } (threadMail 1 "a" []), .tombstone 0 "work:a",
        .insert { minted := "y" } (threadMail 2 "b" ["a"])] := by
  refine (thread_identity oneAccount _ ?_).1
  simp only [Guarded, FreshMint]
  decide

end Sample

end Scryd.Storage
