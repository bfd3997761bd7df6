import Scryd.Mcp.Scope
import Scryd.Storage.Mirror

/-!
# The owner's accounts at startup

`serve_init` keeps the configured accounts of `USER_EMAIL`, and every tool call
looks them up again.  Both compare with the scope's address, which
`AccountScope::new` has lowercased.
-/

namespace Scryd.Mcp

open Scryd.Foundation

inductive ConfigError where
  | userEmailMissing
  deriving DecidableEq

def ConfigError.text : ConfigError → String
  | .userEmailMissing => "USER_EMAIL must be set to a non-empty email address"

/-- `AccountScope::new`. -/
def AccountScope.new (table : LowercaseTable) (email : String) :
    Except ConfigError AccountScope :=
  let trimmed := trim email.toList
  if trimmed.isEmpty then .error .userEmailMissing
  else .ok ⟨String.ofList (toLowercase table trimmed)⟩

end Scryd.Mcp

namespace Scryd.Runtime

open Scryd.Foundation Scryd.Loader Scryd.Storage Scryd.Mcp

/-- `cfg.accounts.retain(..)` of `serve_init`. -/
def retainOwned (scope : AccountScope) (accounts : List AccountCfg) : List AccountCfg :=
  accounts.filter fun account => eqIgnoreAsciiCase account.user scope.email

/-- An active row that mirrors a configured account. -/
structure Mirrors (account : AccountCfg) (row : AccountRow) : Prop where
  id : row.accountId.text = account.id
  user : row.username = account.user
  active : row.active = true

/-- What `reconcile_from_config` stores for an account mirrors it. -/
theorem mirrors_row (now : Int) (account : AccountCfg)
    (idMatches : accountIdMatches account.id) :
    Mirrors account ((ConfigSnapshot.fromCfg account idMatches).row now) :=
  ⟨rfl, rfl, rfl⟩

variable {table : LowercaseTable} {scope : AccountScope}

/-- Of the mirrored accounts the tools see those that the startup filter keeps. -/
theorem mem_allowedAccountIds_iff_retained {accounts : List AccountCfg} {account : AccountCfg}
    (configured : account ∈ accounts) {store : Store} {row : AccountRow}
    (stored : row ∈ store.accounts.rows) (mirrors : Mirrors account row) :
    row.accountId ∈ scope.allowedAccountIds store ↔ account ∈ retainOwned scope accounts := by
  have kept : account ∈ retainOwned scope accounts ↔ scope.owns row = true := by
    rw [retainOwned, List.mem_filter, AccountScope.owns, mirrors.active, mirrors.user,
      Bool.true_and]
    exact and_iff_right configured
  rw [kept, mem_allowedAccountIds_iff]
  constructor
  · rintro ⟨other, otherStored, owned, sameId⟩
    rwa [account_apart store other otherStored row stored (congrArg AccountId.text sameId)]
      at owned
  · exact fun owned => ⟨row, stored, owned, rfl⟩

/-- After a reconciliation the tools see those of its accounts that the startup filter keeps. -/
theorem allowed_reconciled_iff {loaded : LoadedConfig} {now : Int} {before after : Store}
    {diff : ReconcileDiff} (mirrored : MirrorsConfig loaded now before diff after)
    (account : loaded.Account) :
    account.snapshot.id ∈ scope.allowedAccountIds after ↔
      account.1 ∈ retainOwned scope loaded.config.accounts := by
  have stored : account.snapshot.row now ∈ after.accounts.rows :=
    (mirrored.rows _).mpr (.inl ⟨account, rfl⟩)
  exact mem_allowedAccountIds_iff_retained account.2 stored
    (mirrors_row now account.1 (loaded.valid account.2).idMatches)

/-- The accounts of the trimmed `USER_EMAIL` are kept at startup and allowed once they are
mirrored, and of the mirrored accounts the ones kept are the ones allowed. -/
structure OwnerInScope (scope : AccountScope) (userEmail : String) : Prop where
  kept : ∀ accounts : List AccountCfg, ∀ account ∈ accounts,
    account.user.toList = trim userEmail.toList → account ∈ retainOwned scope accounts
  allowed : ∀ account : AccountCfg, account.user.toList = trim userEmail.toList →
    ∀ (store : Store), ∀ row ∈ store.accounts.rows, Mirrors account row →
      row.accountId ∈ scope.allowedAccountIds store
  same : ∀ accounts : List AccountCfg, ∀ account ∈ accounts,
    ∀ (store : Store), ∀ row ∈ store.accounts.rows, Mirrors account row →
      (row.accountId ∈ scope.allowedAccountIds store ↔ account ∈ retainOwned scope accounts)

/-- The owner is in scope exactly when lowercasing the trimmed `USER_EMAIL` changes no character
outside ASCII. -/
theorem owner_in_scope_iff (table : LowercaseTable) (userEmail : String)
    (nonempty : trim userEmail.toList ≠ []) :
    (∃ scope, AccountScope.new table userEmail = .ok scope ∧ OwnerInScope scope userEmail) ↔
      ∀ c ∈ trim userEmail.toList, 0x80 ≤ c.toNat → table.lower c = [c] := by
  have created : AccountScope.new table userEmail =
      .ok ⟨String.ofList (toLowercase table (trim userEmail.toList))⟩ := by
    simp only [AccountScope.new]
    rw [if_neg (by simpa using nonempty)]
  rw [created, ← eqIgnoreAsciiCase_toLowercase_iff]
  constructor
  · rintro ⟨scope, isScope, inScope⟩
    cases isScope
    have owner := inScope.kept
      [⟨"owner", "localhost", 993, String.ofList (trim userEmail.toList), none⟩] _
      List.mem_cons_self String.toList_ofList
    exact (List.mem_filter.mp owner).2
  · intro folded
    have kept : ∀ accounts : List AccountCfg, ∀ account ∈ accounts,
        account.user.toList = trim userEmail.toList → account ∈ retainOwned
          ⟨String.ofList (toLowercase table (trim userEmail.toList))⟩ accounts := by
      intro accounts account configured isOwner
      have user : account.user = String.ofList (trim userEmail.toList) := by
        rw [← isOwner, String.ofList_toList]
      rw [retainOwned, List.mem_filter, user]
      exact ⟨configured, folded⟩
    refine ⟨_, rfl, kept, ?_, ?_⟩
    · intro account isOwner store row stored mirrors
      rw [mem_allowedAccountIds_iff_retained List.mem_cons_self stored mirrors]
      exact kept [account] account List.mem_cons_self isOwner
    · intro accounts account configured store row stored mirrors
      exact mem_allowedAccountIds_iff_retained configured stored mirrors

section Sample

/-- The mappings of the Latin-1 characters. -/
def latin1Table : LowercaseTable where
  lower c :=
    if c = 'Σ' then ['σ']
    else if 0xC0 ≤ c.toNat ∧ c.toNat ≤ 0xDE ∧ c.toNat ≠ 0xD7 then [Char.ofNat (c.toNat + 32)]
    else [asciiLower c]
  finalSigma _ _ := false
  nonempty c := by
    split
    · exact List.cons_ne_nil _ _
    · split <;> exact List.cons_ne_nil _ _
  ascii c below := by
    have notSigma : c ≠ 'Σ' := by
      rintro rfl
      exact absurd below (by decide)
    rw [if_neg notSigma, if_neg (by omega)]
  sigma := rfl

theorem owner_in_scope_ascii :
    ∃ scope, AccountScope.new latin1Table " Alice@Example.ORG" = .ok scope ∧
      OwnerInScope scope " Alice@Example.ORG" := by
  apply (owner_in_scope_iff latin1Table " Alice@Example.ORG" (by decide)).mpr
  intro c member beyond
  have ascii : (trim " Alice@Example.ORG".toList).all (fun c => c.toNat < 0x80) = true := by
    decide
  exact absurd (of_decide_eq_true (List.all_eq_true.mp ascii c member)) (Nat.not_lt.mpr beyond)

/-- An account is dropped although its user is `USER_EMAIL` itself. -/
theorem accented_owner_dropped :
    ¬ ∃ scope, AccountScope.new latin1Table "Émile@example.org" = .ok scope ∧
      OwnerInScope scope "Émile@example.org" := by
  rintro ⟨scope, isScope, inScope⟩
  cases isScope
  have owner := inScope.kept [⟨"work", "imap.example.org", 993, "Émile@example.org", none⟩] _
    List.mem_cons_self rfl
  revert owner
  decide

end Sample

end Scryd.Runtime
