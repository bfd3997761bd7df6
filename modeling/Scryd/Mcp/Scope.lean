import Scryd.Storage.Messages

/-!
# The `USER_EMAIL` scope

The scope resolves an email address to the account ids it owns, afresh on every
tool call, and filters rows by them.
-/

namespace Scryd.Mcp

open Scryd.Foundation Scryd.Storage

structure AccountScope where
  email : String

/-- An active account whose login is the scope's address. -/
def AccountScope.owns (scope : AccountScope) (account : AccountRow) : Bool :=
  account.active && eqIgnoreAsciiCase account.username scope.email

/-- `AccountScope::allowed_account_ids`. -/
def AccountScope.allowedAccountIds (scope : AccountScope) (store : Store) : List AccountId :=
  ((listActiveAccounts store).filter fun account =>
    eqIgnoreAsciiCase account.username scope.email).map (·.accountId)

def isAllowed (allowed : List AccountId) (accountId : AccountId) : Bool :=
  allowed.any fun id => decide (id = accountId)

@[simp] theorem isAllowed_iff (allowed : List AccountId) (accountId : AccountId) :
    isAllowed allowed accountId = true ↔ accountId ∈ allowed := by
  simp [isAllowed]

/-- `scope::narrow`.  An empty caller list is no filter at all. -/
def narrow (allowed : List AccountId) (caller : List String) : List AccountId :=
  if caller.isEmpty then allowed
  else allowed.filter fun id => caller.any fun text => decide (text = id.text)

def retainAllowed {Row : Type} (allowed : List AccountId) (rows : List Row)
    (key : Row → AccountId) : List Row :=
  rows.filter fun row => isAllowed allowed (key row)

variable {scope : AccountScope}

theorem mem_allowedAccountIds_iff (store : Store) (accountId : AccountId) :
    accountId ∈ scope.allowedAccountIds store ↔
      ∃ account ∈ store.accounts.rows, scope.owns account = true ∧
        account.accountId = accountId := by
  simp only [AccountScope.allowedAccountIds, listActiveAccounts, List.mem_map, List.mem_filter,
    mem_sortBy, AccountScope.owns, Bool.and_eq_true]
  constructor
  · rintro ⟨account, ⟨⟨stored, active⟩, login⟩, rfl⟩
    exact ⟨account, stored, ⟨active, login⟩, rfl⟩
  · rintro ⟨account, stored, ⟨active, login⟩, rfl⟩
    exact ⟨account, ⟨⟨stored, active⟩, login⟩, rfl⟩

/-- Two stores agree on the accounts the scope owns. -/
def SameOwned (scope : AccountScope) (left right : Store) : Prop :=
  ∀ account, scope.owns account = true →
    (account ∈ left.accounts.rows ↔ account ∈ right.accounts.rows)

/-- No two accounts of a store have the same id. -/
theorem account_apart (store : Store) : ∀ first ∈ store.accounts.rows,
    ∀ second ∈ store.accounts.rows, first.accountId.text = second.accountId.text →
      first = second := by
  intro first firstStored second secondStored same
  exact store.accounts.eq_of_conflict SameAccount.symmetric firstStored secondStored
    (AccountId.eq_of_text same)

/-- The owned accounts, in the order of `list_active_accounts`. -/
theorem filter_listActiveAccounts (store : Store) :
    (listActiveAccounts store).filter (fun account =>
        eqIgnoreAsciiCase account.username scope.email) =
      sortBy (fun account => account.accountId.text) (store.accounts.rows.filter scope.owns) := by
  unfold listActiveAccounts
  rw [filter_sortBy, List.filter_filter]
  · congr 1
    apply List.filter_congr
    intro account _
    exact Bool.and_comm _ _
  · intro first firstIn second secondIn
    exact account_apart store first (List.mem_of_mem_filter firstIn) second
      (List.mem_of_mem_filter secondIn)

/-- Keeping the accounts with an allowed id is keeping the owned ones. -/
theorem retainAllowed_accounts (store : Store) :
    retainAllowed (scope.allowedAccountIds store) (listActiveAccounts store) (·.accountId) =
      (listActiveAccounts store).filter fun account =>
        eqIgnoreAsciiCase account.username scope.email := by
  apply List.filter_congr
  intro account listed
  simp only [listActiveAccounts, mem_sortBy, List.mem_filter] at listed
  rw [Bool.eq_iff_iff, isAllowed_iff, mem_allowedAccountIds_iff]
  constructor
  · rintro ⟨other, otherStored, owned, sameId⟩
    rw [account_apart store other otherStored account listed.1 (congrArg AccountId.text sameId)]
      at owned
    exact (Bool.and_eq_true_iff.mp owned).2
  · intro login
    exact ⟨account, listed.1, Bool.and_eq_true_iff.mpr ⟨listed.2, login⟩, rfl⟩

section SameOwned

variable {left right : Store}

/-- The owned accounts come out the same, in the same order. -/
theorem SameOwned.owned_eq (same : SameOwned scope left right) :
    (listActiveAccounts left).filter (fun account =>
        eqIgnoreAsciiCase account.username scope.email) =
      (listActiveAccounts right).filter fun account =>
        eqIgnoreAsciiCase account.username scope.email := by
  rw [filter_listActiveAccounts, filter_listActiveAccounts]
  exact sortBy_filter_congr _ (left.accounts.nodup SameAccount.reflexive)
    (right.accounts.nodup SameAccount.reflexive) same (account_apart left)

theorem SameOwned.retainAllowed_accounts_eq (same : SameOwned scope left right) :
    retainAllowed (scope.allowedAccountIds left) (listActiveAccounts left) (·.accountId) =
      retainAllowed (scope.allowedAccountIds right) (listActiveAccounts right) (·.accountId) := by
  rw [retainAllowed_accounts, retainAllowed_accounts, same.owned_eq]

theorem SameOwned.allowedAccountIds_eq (same : SameOwned scope left right) :
    scope.allowedAccountIds left = scope.allowedAccountIds right := by
  unfold AccountScope.allowedAccountIds
  rw [same.owned_eq]

theorem SameOwned.mem_allowed_iff (same : SameOwned scope left right) (accountId : AccountId) :
    accountId ∈ scope.allowedAccountIds left ↔ accountId ∈ scope.allowedAccountIds right := by
  rw [same.allowedAccountIds_eq]

theorem SameOwned.isAllowed_eq (same : SameOwned scope left right) (accountId : AccountId) :
    isAllowed (scope.allowedAccountIds left) accountId =
      isAllowed (scope.allowedAccountIds right) accountId := by
  rw [same.allowedAccountIds_eq]

end SameOwned

end Scryd.Mcp
