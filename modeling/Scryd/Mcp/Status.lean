import Scryd.Mcp.Noninterference

/-!
# What `status` shows of other accounts

The accounts of a `status` response pass through the scope, the queue's health
does not.  The response depends on foreign queue rows through two counts and
through the most recent failure.
-/

namespace Scryd.Mcp

open Scryd.Foundation Scryd.Storage

section Latest

variable (order : ScanOrder)

/-- A queue's failures are told apart by their rank. -/
theorem failureRank_apart (queue : Table IndexQueueRow SameQueued) :
    ∀ first ∈ queue.rows, ∀ second ∈ queue.rows,
      failureRank order first = failureRank order second → first = second := by
  intro first firstStored second secondStored sameRank
  have ids : order.rank first.messageId = order.rank second.messageId := by
    simp only [failureRank, EmbeddingLike.apply_eq_iff_eq, Prod.mk.injEq] at sameRank
    exact sameRank.2.2.2
  exact queue.eq_of_conflict SameQueued.symmetric firstStored secondStored
    (order.injective ids)

variable {order}

theorem latestFailure_eq_best (rows : List IndexQueueRow) :
    latestFailure order rows =
      best (failureRank order) (rows.filter fun row => row.lastError.isSome) := rfl

theorem mem_of_latestFailure {rows : List IndexQueueRow} {row : IndexQueueRow}
    (isLatest : latestFailure order rows = some row) : row ∈ rows :=
  List.mem_of_mem_filter (best_spec isLatest).1

/-- The latest failure is in one half of a queue, if the other half's is not later. -/
theorem latestFailure_half (queue : Table IndexQueueRow SameQueued) (half : IndexQueueRow → Bool)
    (bounded : ∀ other, latestFailure order (queue.rows.filter fun row => !half row) = some other →
      ∃ top, latestFailure order (queue.rows.filter half) = some top ∧
        failureRank order other ≤ failureRank order top) :
    latestFailure order queue.rows = latestFailure order (queue.rows.filter half) := by
  simp only [latestFailure_eq_best, List.filter_comm _ _ queue.rows] at bounded ⊢
  apply best_eq_best_filter _ half bounded
  intro first firstIn second secondIn
  exact failureRank_apart order queue first (List.mem_of_mem_filter firstIn) second
    (List.mem_of_mem_filter secondIn)

/-- A failure that comes after the other one, or comes alone. -/
def Outranks (order : ScanOrder) (challenger champion : Option IndexQueueRow) : Prop :=
  ∃ row, challenger = some row ∧
    ∀ other, champion = some other → failureRank order other < failureRank order row

theorem latestFailure_of_outranks (queue : Table IndexQueueRow SameQueued)
    (half : IndexQueueRow → Bool)
    (outranks : Outranks order (latestFailure order (queue.rows.filter fun row => !half row))
      (latestFailure order (queue.rows.filter half))) :
    latestFailure order queue.rows =
      latestFailure order (queue.rows.filter fun row => !half row) := by
  obtain ⟨row, isLatest, later⟩ := outranks
  apply latestFailure_half
  intro other isOther
  simp only [Bool.not_not] at isOther
  exact ⟨row, isLatest, (later other isOther).le⟩

theorem latestFailure_of_not_outranks (queue : Table IndexQueueRow SameQueued)
    (half : IndexQueueRow → Bool)
    (notOutranked : ¬ Outranks order
      (latestFailure order (queue.rows.filter fun row => !half row))
      (latestFailure order (queue.rows.filter half))) :
    latestFailure order queue.rows = latestFailure order (queue.rows.filter half) := by
  apply latestFailure_half
  intro other isOther
  by_contra unbounded
  apply notOutranked
  refine ⟨other, isOther, fun top isTop => ?_⟩
  by_contra notLater
  exact unbounded ⟨top, isTop, not_lt.mp notLater⟩

end Latest

section Queue

/-- The queue row is for a message of an allowed account. -/
def ownsQueued (scope : AccountScope) (store : Store) (row : IndexQueueRow) : Bool :=
  store.messages.rows.any fun message => decide (message.messageId = row.messageId) &&
    isAllowed (scope.allowedAccountIds store) message.accountId

def ownQueue (scope : AccountScope) (store : Store) : List IndexQueueRow :=
  store.indexQueue.rows.filter (ownsQueued scope store)

def foreignQueue (scope : AccountScope) (store : Store) : List IndexQueueRow :=
  store.indexQueue.rows.filter fun row => !ownsQueued scope store row

/-- Two stores agree on the owned accounts, their sync state and their messages' queue rows. -/
structure SameStatusView (scope : AccountScope) (left right : Store) : Prop where
  accounts : SameOwned scope left right
  sync : ∀ row : SyncStateRow, row.accountId ∈ scope.allowedAccountIds left →
    (row ∈ left.syncState.rows ↔ row ∈ right.syncState.rows)
  queue : ∀ row, row ∈ ownQueue scope left ↔ row ∈ ownQueue scope right

variable {order : ScanOrder} {scope : AccountScope} {left right : Store}

theorem SameStatusView.ownQueue_perm (same : SameStatusView scope left right) :
    (ownQueue scope left).Perm (ownQueue scope right) :=
  (List.perm_ext_iff_of_nodup ((left.indexQueue.nodup SameQueued.reflexive).filter _)
    ((right.indexQueue.nodup SameQueued.reflexive).filter _)).mpr same.queue

theorem SameStatusView.ownLatest_eq (same : SameStatusView scope left right) :
    latestFailure order (ownQueue scope left) = latestFailure order (ownQueue scope right) := by
  unfold latestFailure
  congr 1
  apply sortBy_eq_of_perm _ (same.ownQueue_perm.filter _)
  intro first firstIn second secondIn sameRank
  exact failureRank_apart order left.indexQueue first
    (List.mem_of_mem_filter (List.mem_of_mem_filter firstIn)) second
    (List.mem_of_mem_filter (List.mem_of_mem_filter secondIn)) (OrderDual.toDual.injective sameRank)

/-- A count over the whole queue differs by the foreign rows only. -/
theorem SameStatusView.count_eq_iff (same : SameStatusView scope left right)
    (counted : IndexQueueRow → Bool) :
    (left.indexQueue.rows.filter counted).length = (right.indexQueue.rows.filter counted).length ↔
      ((foreignQueue scope left).filter counted).length =
        ((foreignQueue scope right).filter counted).length := by
  have halves : ∀ store : Store, (store.indexQueue.rows.filter counted).length =
      ((ownQueue scope store).filter counted).length +
        ((foreignQueue scope store).filter counted).length := by
    intro store
    rw [List.length_eq_length_filter_add (ownsQueued scope store), List.filter_comm,
      List.filter_comm (fun row => !ownsQueued scope store row)]
    rfl
  have own := (same.ownQueue_perm.filter counted).length_eq
  rw [halves left, halves right]
  omega

/-- A foreign failure comes after every own one. -/
def ForeignShown (order : ScanOrder) (scope : AccountScope) (store : Store) : Prop :=
  Outranks order (latestFailure order (foreignQueue scope store))
    (latestFailure order (ownQueue scope store))

theorem queueHealth_lastError_of_shown (shown : ForeignShown order scope left) :
    (queueHealth order left).lastError =
      (latestFailure order (foreignQueue scope left)).map IndexQueueRow.report :=
  congrArg (Option.map IndexQueueRow.report)
    (latestFailure_of_outranks left.indexQueue (ownsQueued scope left) shown)

theorem queueHealth_lastError_of_not_shown (hidden : ¬ ForeignShown order scope left) :
    (queueHealth order left).lastError =
      (latestFailure order (ownQueue scope left)).map IndexQueueRow.report :=
  congrArg (Option.map IndexQueueRow.report)
    (latestFailure_of_not_outranks left.indexQueue (ownsQueued scope left) hidden)

/-- A foreign failure that is shown is not one of the own failures. -/
theorem foreign_report_ne_own (shown : ForeignShown order scope left) :
    (latestFailure order (foreignQueue scope left)).map IndexQueueRow.report ≠
      (latestFailure order (ownQueue scope left)).map IndexQueueRow.report := by
  obtain ⟨row, isLatest, _⟩ := shown
  have foreign := List.mem_filter.mp (mem_of_latestFailure isLatest)
  intro same
  rw [isLatest] at same
  cases own : latestFailure order (ownQueue scope left) with
  | none =>
      rw [own] at same
      cases same
  | some other =>
      have owned := List.mem_filter.mp (mem_of_latestFailure own)
      rw [own, Option.map_some, Option.map_some] at same
      have sameId : row.messageId = other.messageId :=
        congrArg QueueLastError.messageId (Option.some.inj same)
      rw [left.indexQueue.eq_of_conflict SameQueued.symmetric foreign.1 owned.1 sameId] at foreign
      simp [owned.2] at foreign

/-- The reported failure is the same exactly when foreign failures are shown in neither store,
or in both and look the same. -/
theorem SameStatusView.lastError_eq_iff (same : SameStatusView scope left right) :
    (queueHealth order left).lastError = (queueHealth order right).lastError ↔
      (¬ ForeignShown order scope left ∧ ¬ ForeignShown order scope right) ∨
      (ForeignShown order scope left ∧ ForeignShown order scope right ∧
        (latestFailure order (foreignQueue scope left)).map IndexQueueRow.report =
          (latestFailure order (foreignQueue scope right)).map IndexQueueRow.report) := by
  have own : latestFailure order (ownQueue scope left) =
      latestFailure order (ownQueue scope right) := same.ownLatest_eq
  by_cases leftShown : ForeignShown order scope left <;>
    by_cases rightShown : ForeignShown order scope right
  · rw [queueHealth_lastError_of_shown leftShown, queueHealth_lastError_of_shown rightShown]
    simp [leftShown, rightShown]
  · rw [queueHealth_lastError_of_shown leftShown, queueHealth_lastError_of_not_shown rightShown,
      ← own]
    simp [leftShown, rightShown, foreign_report_ne_own leftShown]
  · rw [queueHealth_lastError_of_not_shown leftShown, queueHealth_lastError_of_shown rightShown,
      own]
    simp [leftShown, rightShown, (foreign_report_ne_own rightShown).symm]
  · rw [queueHealth_lastError_of_not_shown leftShown,
      queueHealth_lastError_of_not_shown rightShown, own]
    simp [leftShown, rightShown]

theorem SameStatusView.accountStatus_eq (same : SameStatusView scope left right)
    {account : AccountRow} (allowed : account.accountId ∈ scope.allowedAccountIds left) :
    accountStatus left account = accountStatus right account := by
  have sync : ∀ folder, getSyncState left account.accountId folder =
      getSyncState right account.accountId folder := by
    intro folder
    apply Option.ext
    intro row
    rw [getSyncState_eq_some_iff, getSyncState_eq_some_iff]
    constructor
    · rintro ⟨stored, isAccount, isFolder⟩
      exact ⟨(same.sync row (isAccount ▸ allowed)).mp stored, isAccount, isFolder⟩
    · rintro ⟨stored, isAccount, isFolder⟩
      exact ⟨(same.sync row (isAccount ▸ allowed)).mpr stored, isAccount, isFolder⟩
  simp only [accountStatus, sync]

end Queue

/-- `status` answers the same in two stores that agree on the scope's own accounts, sync state
and queue rows exactly when as many foreign rows are drainable and as many permanently failed
in both, and foreign failures are shown in neither, or in both and look the same. -/
theorem status_eq_iff (order : ScanOrder) (scope : AccountScope) (daemon : Daemon)
    (left right : Backend) (same : SameStatusView scope left.store right.store) :
    status order scope daemon left = status order scope daemon right ↔
      ((foreignQueue scope left.store).filter fun row => !row.failedPermanent).length =
          ((foreignQueue scope right.store).filter fun row => !row.failedPermanent).length ∧
        ((foreignQueue scope left.store).filter fun row => row.failedPermanent).length =
          ((foreignQueue scope right.store).filter fun row => row.failedPermanent).length ∧
        ((¬ ForeignShown order scope left.store ∧ ¬ ForeignShown order scope right.store) ∨
          (ForeignShown order scope left.store ∧ ForeignShown order scope right.store ∧
            (latestFailure order (foreignQueue scope left.store)).map IndexQueueRow.report =
              (latestFailure order (foreignQueue scope right.store)).map
                IndexQueueRow.report)) := by
  have accounts : (retainAllowed (scope.allowedAccountIds left.store)
        (listActiveAccounts left.store) (·.accountId)).map (accountStatus left.store) =
      (retainAllowed (scope.allowedAccountIds right.store)
        (listActiveAccounts right.store) (·.accountId)).map (accountStatus right.store) := by
    rw [← same.accounts.retainAllowed_accounts_eq]
    refine List.map_congr_left fun account retained => same.accountStatus_eq ?_
    exact (isAllowed_iff _ _).mp (List.mem_filter.mp retained).2
  rw [← same.count_eq_iff, ← same.count_eq_iff, ← same.lastError_eq_iff]
  simp only [status, accounts, Except.ok.injEq, StatusResponseDto.mk.injEq, true_and, and_true,
    DrainerStatusDto.mk.injEq, queueHealth]

section Sample

/-- The own mail is queued; nothing failed. -/
def quietBackend : Backend where
  store := { aloneBackend.store with
    indexQueue := ⟨[⟨"work:1", 0, none, 0, false, none⟩], by decide⟩ }
  files := aloneBackend.files

/-- The same, and the index run over another account's mail failed for good. -/
def failingBackend : Backend where
  store := { sharedBackend.store with
    indexQueue := ⟨[⟨"work:1", 0, none, 0, false, none⟩,
      ⟨"home:1", 5, some "boom", 0, true, some 7⟩], by decide⟩ }
  files := sharedBackend.files

/-- Another account's mail is queued too, since the given time. -/
def queuedBackend (queuedAt : Int) : Backend where
  store := { sharedBackend.store with
    indexQueue := ⟨[⟨"work:1", 0, none, 0, false, none⟩,
      ⟨"home:1", 0, none, queuedAt, false, none⟩], by simp [SameQueued]⟩ }
  files := sharedBackend.files

def sampleDaemon : Daemon := ⟨⟨1, 0, none, false, none⟩, 10, 100⟩

theorem sameStatusView_sample :
    SameStatusView sampleScope quietBackend.store failingBackend.store where
  accounts := sameView_sample.accounts
  sync := by
    intro row _
    rfl
  queue := by
    have left : ownQueue sampleScope quietBackend.store = [⟨"work:1", 0, none, 0, false, none⟩] := by
      decide
    have right : ownQueue sampleScope failingBackend.store =
        [⟨"work:1", 0, none, 0, false, none⟩] := by
      decide
    intro row
    rw [left, right]

/-- Another account's message id, its error and the count of failed rows are in the response. -/
theorem status_shows_foreign_failure :
    SameStatusView sampleScope quietBackend.store failingBackend.store ∧
      status ScanOrder.byText sampleScope sampleDaemon quietBackend ≠
        status ScanOrder.byText sampleScope sampleDaemon failingBackend := by
  refine ⟨sameStatusView_sample, fun same => ?_⟩
  have drainer := congrArg (fun response =>
    response.toOption.map fun status => status.drainer.failedPermanent) same
  revert drainer
  decide

theorem status_eq_queued_earlier :
    status ScanOrder.byText sampleScope sampleDaemon (queuedBackend 0) =
      status ScanOrder.byText sampleScope sampleDaemon (queuedBackend 5) := by
  have own : ∀ queuedAt, ownQueue sampleScope (queuedBackend queuedAt).store =
      [⟨"work:1", 0, none, 0, false, none⟩] := fun queuedAt => rfl
  refine (status_eq_iff ScanOrder.byText sampleScope sampleDaemon (queuedBackend 0) (queuedBackend 5)
    ⟨fun _ _ => Iff.rfl, fun _ _ => Iff.rfl, fun row => by rw [own, own]⟩).mpr
    ⟨rfl, rfl, .inl ⟨?_, ?_⟩⟩
  · rintro ⟨row, isLatest, _⟩
    cases isLatest
  · rintro ⟨row, isLatest, _⟩
    cases isLatest

end Sample

end Scryd.Mcp
