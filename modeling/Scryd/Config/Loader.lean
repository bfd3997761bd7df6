import Scryd.Storage.Schema

/-!
# The configuration file

What `Config::validate` checks before anything else of the daemon sees a config.
The sections that no modelled function reads are left out.
-/

namespace Scryd.Loader

open Scryd.Storage

structure SyncCfg where
  folders : List String
  deriving DecidableEq

structure AccountCfg where
  id : String
  host : String
  port : Nat
  user : String
  folders : Option (List String)
  deriving DecidableEq

structure Config where
  sync : SyncCfg
  accounts : List AccountCfg
  deriving DecidableEq

inductive ConfigError where
  | invalidAccountId (id : String)
  | invalidPort (id : String) (port : Nat)
  | noFolders (id : String)
  | duplicateAccountId (id : String)
  deriving DecidableEq

def ConfigError.text : ConfigError → String
  | .invalidAccountId id => "invalid account id `" ++ id ++ "`: must match ^[a-z0-9_-]+$"
  | .invalidPort id port =>
      "account `" ++ id ++ "` has invalid port " ++ toString port ++ ": must be 1..=65535"
  | .noFolders id =>
      "account `" ++ id ++
        "` has no folders to sync (override is empty and [sync].folders is empty)"
  | .duplicateAccountId id => "duplicate account id `" ++ id ++ "`"

/-- Whether an id matches `ACCOUNT_ID_PATTERN`. -/
def accountIdMatches (id : String) : Prop :=
  id.toList ≠ [] ∧ id.toList.all accountIdChar = true

instance (id : String) : Decidable (accountIdMatches id) :=
  inferInstanceAs (Decidable (_ ∧ _))

/-- The folder list `validate` checks for an account. -/
def foldersForAccount (sync : SyncCfg) (account : AccountCfg) : List String :=
  account.folders.getD sync.folders

/-- The loop of `validate`, with the ids seen so far. -/
def validateFrom (sync : SyncCfg) : List String → List AccountCfg → Except ConfigError Unit
  | _, [] => .ok ()
  | seen, account :: rest =>
      if ¬ accountIdMatches account.id then .error (.invalidAccountId account.id)
      else if account.port = 0 then .error (.invalidPort account.id account.port)
      else if foldersForAccount sync account = [] then .error (.noFolders account.id)
      else if account.id ∈ seen then .error (.duplicateAccountId account.id)
      else validateFrom sync (account.id :: seen) rest

/-- `Config::validate`. -/
def Config.validate (config : Config) : Except ConfigError Unit :=
  validateFrom config.sync [] config.accounts

/-- What `validate` asks of one account. -/
structure AccountCfg.Valid (sync : SyncCfg) (account : AccountCfg) : Prop where
  idMatches : accountIdMatches account.id
  port : account.port ≠ 0
  folders : foldersForAccount sync account ≠ []

theorem validateFrom_ok_iff (sync : SyncCfg) (seen : List String) (accounts : List AccountCfg) :
    validateFrom sync seen accounts = .ok () ↔
      (∀ account ∈ accounts, account.Valid sync ∧ account.id ∉ seen) ∧
        (accounts.map (·.id)).Nodup := by
  induction accounts generalizing seen with
  | nil => simp [validateFrom]
  | cons account rest inductionHypothesis =>
      simp only [validateFrom]
      by_cases idMatches : accountIdMatches account.id
      · by_cases port : account.port = 0
        · simp only [idMatches, not_true, if_false, port, if_true, reduceCtorEq, false_iff]
          intro valid
          exact (valid.1 account List.mem_cons_self).1.port port
        · by_cases folders : foldersForAccount sync account = []
          · simp only [idMatches, not_true, if_false, port, folders, if_true, reduceCtorEq,
              false_iff]
            intro valid
            exact (valid.1 account List.mem_cons_self).1.folders folders
          · by_cases duplicate : account.id ∈ seen
            · simp only [idMatches, not_true, if_false, port, folders, duplicate, if_true,
                reduceCtorEq, false_iff]
              intro valid
              exact (valid.1 account List.mem_cons_self).2 duplicate
            · simp only [idMatches, not_true, if_false, port, folders, duplicate,
                inductionHypothesis, List.mem_cons, forall_eq_or_imp, not_or, List.map_cons,
                List.nodup_cons, List.mem_map, not_exists, not_and]
              constructor
              · rintro ⟨valid, nodup⟩
                exact ⟨⟨⟨⟨idMatches, port, folders⟩, not_false⟩, fun later membership =>
                  ⟨(valid later membership).1, (valid later membership).2.2⟩⟩,
                  fun later membership => (valid later membership).2.1, nodup⟩
              · rintro ⟨⟨_, valid⟩, apart, nodup⟩
                exact ⟨fun later membership => ⟨(valid later membership).1,
                  apart later membership, (valid later membership).2⟩, nodup⟩
      · simp only [idMatches, not_false_eq_true, if_true, reduceCtorEq, false_iff]
        intro valid
        exact idMatches (valid.1 account List.mem_cons_self).1.idMatches

/-- What `Config::load` returns: a config that passed `validate`. -/
structure LoadedConfig where
  config : Config
  accepted : config.validate = .ok ()

namespace LoadedConfig

variable (loaded : LoadedConfig)

theorem valid {account : AccountCfg} (configured : account ∈ loaded.config.accounts) :
    account.Valid loaded.config.sync :=
  (((validateFrom_ok_iff _ _ _).mp loaded.accepted).1 account configured).1

theorem ids_nodup : (loaded.config.accounts.map (·.id)).Nodup :=
  ((validateFrom_ok_iff _ _ _).mp loaded.accepted).2

end LoadedConfig

/-- The id of an account as the other layers handle it. -/
def AccountCfg.accountId (account : AccountCfg) (idMatches : accountIdMatches account.id) :
    AccountId :=
  ⟨account.id, idMatches.1, idMatches.2⟩

end Scryd.Loader
