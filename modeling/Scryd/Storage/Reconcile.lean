import Scryd.Config.Loader
import Scryd.Foundation.Autocommit
import Scryd.Storage.SyncState
import Mathlib.Data.List.Induction

/-!
# Mirroring the configured accounts

`reconcile_from_config` reads and writes one account after the other and then
inactivates the accounts that are no longer configured.
-/

namespace Scryd.Storage

open Scryd.Foundation

structure ConfigSnapshot where
  id : AccountId
  host : String
  port : Nat
  username : String
  folders : List String
  deriving DecidableEq

/-- `ConfigSnapshot::from_cfg`. -/
def ConfigSnapshot.fromCfg (account : Loader.AccountCfg)
    (idMatches : Loader.accountIdMatches account.id) : ConfigSnapshot where
  id := account.accountId idMatches
  host := account.host
  port := account.port
  username := account.user
  folders := account.folders.getD ["INBOX"]

structure ReconcileDiff where
  added : List AccountId := []
  updated : List AccountId := []
  inactivated : List AccountId := []

/-- `fetch_account`. -/
def fetchAccount (store : Store) (id : AccountId) : Option AccountRow :=
  store.accounts.rows.find? fun row => decide (row.accountId = id)

/-- The row of an account mirrored at a time. -/
def ConfigSnapshot.row (now : Int) (snap : ConfigSnapshot) : AccountRow :=
  ⟨snap.id, snap.host, snap.port, snap.username, snap.folders, true, now⟩

def uniqueFailed : StorageError := .sqlite "UNIQUE constraint failed: accounts.account_id"

/-- `INSERT INTO accounts ...`. -/
def insertAccount (now : Int) (snap : ConfigSnapshot) (store : Store) :
    Except StorageError Store :=
  match store.accounts.insert? (snap.row now) with
  | none => .error uniqueFailed
  | some accounts => .ok { store with accounts := accounts }

/-- The effect of `UPDATE accounts SET host, port, username, folders_json, active = 1,
mirrored_at WHERE account_id = ?6` on one row. -/
def setMirrored (now : Int) (snap : ConfigSnapshot) (row : AccountRow) : AccountRow :=
  if row.accountId = snap.id then
    { row with
      host := snap.host
      port := snap.port
      username := snap.username
      folders := snap.folders
      active := true
      mirroredAt := now }
  else
    row

/-- The effect of `UPDATE accounts SET active = 0, mirrored_at WHERE account_id = ?2`. -/
def setInactive (now : Int) (id : AccountId) (row : AccountRow) : AccountRow :=
  if row.accountId = id then { row with active := false, mirroredAt := now } else row

@[simp] theorem setMirrored_accountId (now : Int) (snap : ConfigSnapshot) (row : AccountRow) :
    (setMirrored now snap row).accountId = row.accountId := by
  unfold setMirrored
  split <;> rfl

@[simp] theorem setInactive_accountId (now : Int) (id : AccountId) (row : AccountRow) :
    (setInactive now id row).accountId = row.accountId := by
  unfold setInactive
  split <;> rfl

theorem setMirrored_of_eq (now : Int) {snap : ConfigSnapshot} {row : AccountRow}
    (same : row.accountId = snap.id) : setMirrored now snap row = snap.row now := by
  simp [setMirrored, ConfigSnapshot.row, same]

theorem setMirrored_of_ne (now : Int) {snap : ConfigSnapshot} {row : AccountRow}
    (different : row.accountId ≠ snap.id) : setMirrored now snap row = row := if_neg different

def updateAccount (now : Int) (snap : ConfigSnapshot) (store : Store) : Store :=
  { store with accounts := store.accounts.update (setMirrored now snap) (by
      intro left right same
      simpa [SameAccount] using same) }

def inactivateAccount (now : Int) (id : AccountId) (store : Store) : Store :=
  { store with accounts := store.accounts.update (setInactive now id) (by
      intro left right same
      simpa [SameAccount] using same) }

/-- Whether an update changes more than the time of the mirroring. -/
def structuralChanged (prev : AccountRow) (snap : ConfigSnapshot) : Bool :=
  decide (prev.host ≠ snap.host) || decide (prev.port ≠ snap.port) ||
    decide (prev.username ≠ snap.username) || decide (prev.folders ≠ snap.folders) ||
    !prev.active

/-- The loop over the configured accounts: read the row, then insert or update it. -/
def mirrorAll (now : Int) : List ConfigSnapshot → ReconcileDiff →
    (ReconcileDiff → Script Store StorageError ReconcileDiff) →
    Script Store StorageError ReconcileDiff
  | [], diff, next => next diff
  | snap :: rest, diff, next =>
      .issue .ok fun store =>
        match fetchAccount store snap.id with
        | none =>
            .issue (insertAccount now snap) fun _ =>
              mirrorAll now rest { diff with added := diff.added ++ [snap.id] } next
        | some prev =>
            .issue (fun current => .ok (updateAccount now snap current)) fun _ =>
              mirrorAll now rest
                (if structuralChanged prev snap then
                  { diff with updated := diff.updated ++ [snap.id] }
                else diff) next

/-- The loop over the accounts that are no longer configured. -/
def inactivateAll (now : Int) : List AccountId → ReconcileDiff →
    Script Store StorageError ReconcileDiff
  | [], diff => .done diff
  | id :: rest, diff =>
      .issue (fun current => .ok (inactivateAccount now id current)) fun _ =>
        inactivateAll now rest { diff with inactivated := diff.inactivated ++ [id] }

/-- The active accounts that a config does not name, in the order of their rows. -/
def staleIds (configured : List ConfigSnapshot) (store : Store) : List AccountId :=
  (store.accounts.rows.filter fun row =>
    row.active && decide (row.accountId ∉ configured.map (·.id))).map (·.accountId)

/-- `StorageHandle::reconcile_from_config`. -/
def reconcileFromConfig (now : Int) (configured : List ConfigSnapshot) :
    Script Store StorageError ReconcileDiff :=
  mirrorAll now configured {} fun diff =>
    .issue .ok fun store => inactivateAll now (staleIds configured store) diff

section Mirroring

variable {now : Int}

/-- The content after the account of one entry is mirrored. -/
def mirror (now : Int) (store : Store) (snap : ConfigSnapshot) : Store :=
  match fetchAccount store snap.id with
  | none => ((insertAccount now snap store).toOption).getD store
  | some _ => updateAccount now snap store

def mirrored (now : Int) (configured : List ConfigSnapshot) (store : Store) : Store :=
  configured.foldl (mirror now) store

def inactivated (now : Int) (ids : List AccountId) (store : Store) : Store :=
  ids.foldl (fun current id => inactivateAccount now id current) store

theorem fetchAccount_eq_none_iff (store : Store) (id : AccountId) :
    fetchAccount store id = none ↔ ∀ row ∈ store.accounts.rows, row.accountId ≠ id := by
  simp [fetchAccount]

/-- Mirroring an account: it has a row, which is rewritten, or it has none and gets one. -/
theorem mirror_cases (now : Int) (store : Store) (snap : ConfigSnapshot) :
    ((∃ prev, fetchAccount store snap.id = some prev) ∧
      (∃ row ∈ store.accounts.rows, row.accountId = snap.id) ∧
      mirror now store snap = updateAccount now snap store) ∨
    (fetchAccount store snap.id = none ∧
      (∀ row ∈ store.accounts.rows, row.accountId ≠ snap.id) ∧
      insertAccount now snap store = .ok (mirror now store snap) ∧
      (mirror now store snap).accounts.rows = store.accounts.rows ++ [snap.row now]) := by
  cases found : fetchAccount store snap.id with
  | some prev =>
      apply Or.inl
      refine ⟨⟨prev, rfl⟩, ⟨prev, List.mem_of_find?_eq_some found, ?_⟩, by simp [mirror, found]⟩
      simpa using List.find?_some found
  | none =>
      apply Or.inr
      have absent := (fetchAccount_eq_none_iff store snap.id).mp found
      obtain ⟨accounts, inserted⟩ : ∃ accounts,
          store.accounts.insert? (snap.row now) = some accounts := Table.insert?_isSome absent
      have result : insertAccount now snap store = .ok { store with accounts := accounts } := by
        simp only [insertAccount, inserted]
      have content : mirror now store snap = { store with accounts := accounts } := by
        simp [mirror, found, result, Except.toOption]
      refine ⟨rfl, absent, by rw [content, result], ?_⟩
      rw [content]
      exact Table.insert?_rows inserted

theorem mirrored_concat (configured : List ConfigSnapshot) (snap : ConfigSnapshot)
    (store : Store) :
    mirrored now (configured ++ [snap]) store = mirror now (mirrored now configured store) snap := by
  simp [mirrored]

/-- After its account was mirrored an entry is a row. -/
theorem row_mem_mirror (store : Store) (snap : ConfigSnapshot) :
    snap.row now ∈ (mirror now store snap).accounts.rows := by
  rcases mirror_cases now store snap with ⟨_, ⟨row, stored, same⟩, updated⟩ | ⟨_, _, _, appended⟩
  · rw [updated]
    exact List.mem_map.mpr ⟨row, stored, setMirrored_of_eq now same⟩
  · rw [appended]
    exact List.mem_append_right _ (List.mem_singleton.mpr rfl)

/-- Other accounts' rows stay, and none is added. -/
theorem mem_mirror_iff (store : Store) {snap : ConfigSnapshot} {row : AccountRow}
    (other : row.accountId ≠ snap.id) :
    row ∈ (mirror now store snap).accounts.rows ↔ row ∈ store.accounts.rows := by
  rcases mirror_cases now store snap with ⟨_, _, updated⟩ | ⟨_, _, _, appended⟩
  · rw [updated]
    simp only [updateAccount, Table.update_rows, List.mem_map]
    constructor
    · rintro ⟨source, stored, same⟩
      have different : source.accountId ≠ snap.id := by
        intro sameId
        rw [← same, setMirrored_accountId] at other
        exact other sameId
      rw [setMirrored_of_ne now different] at same
      rwa [← same]
    · intro stored
      exact ⟨row, stored, setMirrored_of_ne now other⟩
  · rw [appended, List.mem_append, List.mem_singleton]
    constructor
    · rintro (stored | rfl)
      · exact stored
      · exact absurd rfl other
    · exact .inl

theorem mem_mirrored_iff {configured : List ConfigSnapshot} {row : AccountRow}
    (unconfigured : row.accountId ∉ configured.map (·.id)) (store : Store) :
    row ∈ (mirrored now configured store).accounts.rows ↔ row ∈ store.accounts.rows := by
  induction configured using List.reverseRecOn with
  | nil => rfl
  | append_singleton configured snap inductionHypothesis =>
      rw [List.map_append, List.mem_append, not_or, List.map_singleton,
        List.mem_singleton] at unconfigured
      rw [mirrored_concat, mem_mirror_iff _ unconfigured.2]
      exact inductionHypothesis unconfigured.1

/-- The last of the entries of an account. -/
def lastEntry (configured : List ConfigSnapshot) (id : AccountId) : Option ConfigSnapshot :=
  configured.reverse.find? fun snap => decide (snap.id = id)

theorem lastEntry_isSome {configured : List ConfigSnapshot} {snap : ConfigSnapshot}
    (entry : snap ∈ configured) : ∃ last, lastEntry configured snap.id = some last := by
  rw [← Option.isSome_iff_exists, lastEntry, List.find?_isSome]
  exact ⟨snap, List.mem_reverse.mpr entry, by simp⟩

theorem lastEntry_mem {configured : List ConfigSnapshot} {id : AccountId}
    {last : ConfigSnapshot} (isLast : lastEntry configured id = some last) :
    last ∈ configured ∧ last.id = id :=
  ⟨List.mem_reverse.mp (List.mem_of_find?_eq_some isLast), by
    simpa using List.find?_some isLast⟩

/-- The last entry of an account is its row. -/
theorem lastEntry_row_mem {configured : List ConfigSnapshot} {id : AccountId}
    {last : ConfigSnapshot} (isLast : lastEntry configured id = some last) (store : Store) :
    last.row now ∈ (mirrored now configured store).accounts.rows := by
  induction configured using List.reverseRecOn with
  | nil => cases isLast
  | append_singleton configured snap inductionHypothesis =>
      rw [mirrored_concat]
      simp only [lastEntry, List.reverse_append, List.reverse_singleton, List.singleton_append,
        List.find?_cons] at isLast
      by_cases newest : snap.id = id
      · simp only [newest, decide_true, Option.some.injEq] at isLast
        rw [← isLast]
        exact row_mem_mirror _ snap
      · simp only [newest, decide_false] at isLast
        have sameId := (lastEntry_mem isLast).2
        apply (mem_mirror_iff _ _).mpr (inductionHypothesis isLast)
        rw [ConfigSnapshot.row, sameId]
        exact fun same => newest same.symm

/-- Every account an entry names has a row that is the last of its entries already. -/
def Mirrored (now : Int) (configured : List ConfigSnapshot) (store : Store) : Prop :=
  ∀ snap ∈ configured, ∀ last, lastEntry configured snap.id = some last →
    last.row now ∈ store.accounts.rows

instance (configured : List ConfigSnapshot) (store : Store) :
    Decidable (Mirrored now configured store) :=
  decidable_of_iff (∀ snap ∈ configured,
      ((lastEntry configured snap.id).all fun last =>
        decide (last.row now ∈ store.accounts.rows)) = true)
    (by simp [Mirrored, Option.all_eq_true])

theorem mirror_frame (store : Store) (snap : ConfigSnapshot) :
    mirror now store snap = { store with accounts := (mirror now store snap).accounts } := by
  unfold mirror insertAccount
  cases fetchAccount store snap.id with
  | some prev => rfl
  | none => cases store.accounts.insert? (snap.row now) <;> rfl

theorem mirrored_frame (configured : List ConfigSnapshot) (store : Store) :
    mirrored now configured store =
      { store with accounts := (mirrored now configured store).accounts } := by
  induction configured using List.reverseRecOn with
  | nil => rfl
  | append_singleton configured snap inductionHypothesis =>
      rw [mirrored_concat, mirror_frame, inductionHypothesis]

/-- Where every named account has a row, no row is added. -/
theorem mirrored_ids {configured : List ConfigSnapshot} {store : Store}
    (present : ∀ snap ∈ configured, snap.id ∈ store.accounts.rows.map (·.accountId)) :
    (mirrored now configured store).accounts.rows.map (·.accountId) =
      store.accounts.rows.map (·.accountId) := by
  induction configured using List.reverseRecOn with
  | nil => rfl
  | append_singleton configured snap inductionHypothesis =>
      have earlier := inductionHypothesis fun entry membership =>
        present entry (List.mem_append_left _ membership)
      have here := present snap (List.mem_append_right _ (List.mem_singleton.mpr rfl))
      rw [mirrored_concat]
      rcases mirror_cases now (mirrored now configured store) snap with
        ⟨_, _, updated⟩ | ⟨_, absent, _, _⟩
      · rw [updated, ← earlier]
        simp [updateAccount]
      · rw [← earlier] at here
        obtain ⟨row, stored, same⟩ := List.mem_map.mp here
        exact absurd same (absent row stored)

/-- Mirroring changes nothing exactly when the rows are the last entries already. -/
theorem mirrored_eq_self_iff (configured : List ConfigSnapshot) (store : Store) :
    mirrored now configured store = store ↔ Mirrored now configured store := by
  constructor
  · intro same snap entry last isLast
    have stored : last.row now ∈ (mirrored now configured store).accounts.rows :=
      lastEntry_row_mem isLast store
    rwa [same] at stored
  · intro settled
    have present : ∀ snap ∈ configured, snap.id ∈ store.accounts.rows.map (·.accountId) := by
      intro snap entry
      obtain ⟨last, isLast⟩ := lastEntry_isSome entry
      exact List.mem_map.mpr ⟨_, settled snap entry last isLast, (lastEntry_mem isLast).2⟩
    have kept : ∀ row ∈ (mirrored now configured store).accounts.rows,
        row ∈ store.accounts.rows := by
      intro row stored
      by_cases unconfigured : row.accountId ∉ configured.map (·.id)
      · exact (mem_mirrored_iff unconfigured store).mp stored
      · obtain ⟨snap, entry, sameId⟩ := List.mem_map.mp (not_not.mp unconfigured)
        obtain ⟨last, isLast⟩ := lastEntry_isSome entry
        have unique : row = last.row now := Table.eq_of_conflict SameAccount.symmetric _ stored
          (lastEntry_row_mem isLast store) (sameId.symm.trans (lastEntry_mem isLast).2.symm)
        rw [unique]
        exact settled snap entry last isLast
    have sameRows : (mirrored now configured store).accounts.rows = store.accounts.rows :=
      eq_of_map_eq (mirrored_ids present) fun first firstStored second secondStored sameId =>
        Table.eq_of_conflict SameAccount.symmetric _ (kept first firstStored) secondStored sameId
    rw [mirrored_frame, Table.ext sameRows]

/-- Mirroring leaves the accounts that are no longer configured for the second loop. -/
theorem staleIds_mirrored {named configured : List ConfigSnapshot}
    (subset : ∀ snap ∈ named, snap.id ∈ configured.map (·.id)) (store : Store) :
    staleIds configured (mirrored now named store) = staleIds configured store := by
  induction named using List.reverseRecOn with
  | nil => rfl
  | append_singleton named snap inductionHypothesis =>
      have earlier := inductionHypothesis fun entry membership =>
        subset entry (List.mem_append_left _ membership)
      have here := subset snap (List.mem_append_right _ (List.mem_singleton.mpr rfl))
      rw [mirrored_concat, ← earlier]
      rcases mirror_cases now (mirrored now named store) snap with
        ⟨_, _, updated⟩ | ⟨_, _, _, appended⟩
      · rw [updated]
        simp only [staleIds, updateAccount, Table.update_rows, List.filter_map, List.map_map]
        congr 1
        · funext row
          simp
        · apply List.filter_congr
          intro row _
          by_cases same : row.accountId = snap.id
          · simp only [Function.comp_apply, setMirrored_of_eq now same, ConfigSnapshot.row, same,
              here, not_true, decide_false, Bool.and_false]
          · simp [setMirrored_of_ne now same]
      · simpa [staleIds, appended, ConfigSnapshot.row] using here

end Mirroring

section Performing

variable (now : Int) (failure : StorageError)

/-- Two statements mirror one account. -/
theorem mirrorAll_cons (next : ReconcileDiff → Script Store StorageError ReconcileDiff)
    (snap : ConfigSnapshot) (rest : List ConfigSnapshot) (diff : ReconcileDiff) (store : Store) :
    ∃ after,
      (∀ fault, (mirrorAll now (snap :: rest) diff next).perform failure (some (fault + 2)) store =
        (mirrorAll now rest after next).perform failure (some fault) (mirror now store snap)) ∧
      (mirrorAll now (snap :: rest) diff next).perform failure none store =
        (mirrorAll now rest after next).perform failure none (mirror now store snap) ∧
      (mirrorAll now (snap :: rest) diff next).perform failure (some 1) store =
        (.error failure, store) := by
  rcases mirror_cases now store snap with ⟨⟨prev, found⟩, _, updated⟩ | ⟨found, _, inserted, _⟩
  · refine ⟨if structuralChanged prev snap then
      { diff with updated := diff.updated ++ [snap.id] } else diff, fun fault => ?_, ?_, ?_⟩
    · simp only [mirrorAll, Script.perform, found, updated]
    · simp only [mirrorAll, Script.perform, found, updated]
    · simp only [mirrorAll, Script.perform, found]
  · refine ⟨{ diff with added := diff.added ++ [snap.id] }, fun fault => ?_, ?_, ?_⟩
    · simp only [mirrorAll, Script.perform, found, inserted]
    · simp only [mirrorAll, Script.perform, found, inserted]
    · simp only [mirrorAll, Script.perform, found]

/-- A fault in the first loop leaves the accounts of the earlier entries mirrored. -/
theorem mirrorAll_cut (next : ReconcileDiff → Script Store StorageError ReconcileDiff)
    (configured : List ConfigSnapshot) (diff : ReconcileDiff) (store : Store) {fault : Nat}
    (early : fault < 2 * configured.length) :
    (mirrorAll now configured diff next).perform failure (some fault) store =
      (.error failure, mirrored now (configured.take (fault / 2)) store) := by
  induction configured generalizing diff store fault with
  | nil => cases early
  | cons snap rest inductionHypothesis =>
      obtain ⟨after, onward, _, second⟩ :=
        mirrorAll_cons now failure next snap rest diff store
      rcases fault with _ | _ | fault
      · rfl
      · exact second
      · rw [List.length_cons] at early
        have half : (fault + 2) / 2 = fault / 2 + 1 := by omega
        rw [onward, inductionHypothesis after _ (by omega), half, List.take_succ_cons]
        rfl

/-- Past the first loop every account is mirrored. -/
theorem mirrorAll_through (next : ReconcileDiff → Script Store StorageError ReconcileDiff)
    (configured : List ConfigSnapshot) (diff : ReconcileDiff) (store : Store) :
    ∃ after,
      (∀ fault, (mirrorAll now configured diff next).perform failure
          (some (fault + 2 * configured.length)) store =
        (next after).perform failure (some fault) (mirrored now configured store)) ∧
      (mirrorAll now configured diff next).perform failure none store =
        (next after).perform failure none (mirrored now configured store) := by
  induction configured generalizing diff store with
  | nil => exact ⟨diff, fun fault => rfl, rfl⟩
  | cons snap rest inductionHypothesis =>
      obtain ⟨middle, onward, unfailing, _⟩ :=
        mirrorAll_cons now failure next snap rest diff store
      obtain ⟨after, later, last⟩ := inductionHypothesis middle (mirror now store snap)
      refine ⟨after, fun fault => ?_, ?_⟩
      · have shifted : fault + 2 * (snap :: rest).length = fault + 2 * rest.length + 2 := by
          rw [List.length_cons]
          omega
        rw [shifted, onward, later]
        rfl
      · rw [unfailing, last]
        rfl

/-- A fault in the second loop leaves the earlier ones of its accounts inactive. -/
theorem inactivateAll_cut (ids : List AccountId) (diff : ReconcileDiff) (store : Store)
    {fault : Nat} (early : fault < ids.length) :
    (inactivateAll now ids diff).perform failure (some fault) store =
      (.error failure, inactivated now (ids.take fault) store) := by
  induction ids generalizing diff store fault with
  | nil => cases early
  | cons id rest inductionHypothesis =>
      cases fault with
      | zero => rfl
      | succ fault =>
          simp only [inactivateAll, Script.perform]
          rw [inductionHypothesis _ _ (Nat.lt_of_succ_lt_succ early)]
          rfl

theorem inactivateAll_through (ids : List AccountId) (diff : ReconcileDiff) (store : Store) :
    ∃ after,
      (∀ fault, ids.length ≤ fault →
        (inactivateAll now ids diff).perform failure (some fault) store =
          (.ok after, inactivated now ids store)) ∧
      (inactivateAll now ids diff).perform failure none store =
        (.ok after, inactivated now ids store) := by
  induction ids generalizing diff store with
  | nil => exact ⟨diff, fun fault _ => Script.perform_done _ _, rfl⟩
  | cons id rest inductionHypothesis =>
      obtain ⟨after, later, last⟩ := inductionHypothesis
        { diff with inactivated := diff.inactivated ++ [id] } (inactivateAccount now id store)
      refine ⟨after, fun fault issued => ?_, ?_⟩
      · cases fault with
        | zero => cases issued
        | succ fault =>
            simp only [inactivateAll, Script.perform]
            rw [later fault (Nat.le_of_succ_le_succ issued)]
            rfl
      · simp only [inactivateAll, Script.perform]
        rw [last]
        rfl

variable {now}

/-- The second loop rewrites the rows of its accounts. -/
theorem inactivated_rows (ids : List AccountId) (store : Store) :
    (inactivated now ids store).accounts.rows = store.accounts.rows.map fun row =>
      if row.accountId ∈ ids then { row with active := false, mirroredAt := now } else row := by
  induction ids using List.reverseRecOn with
  | nil => simp [inactivated]
  | append_singleton ids id inductionHypothesis =>
      have last : (inactivated now (ids ++ [id]) store).accounts.rows =
          (inactivated now ids store).accounts.rows.map (setInactive now id) := by
        rw [inactivated, List.foldl_append, List.foldl_cons, List.foldl_nil]
        rfl
      rw [last, inductionHypothesis, List.map_map]
      apply List.map_congr_left
      intro row _
      by_cases listed : row.accountId ∈ ids
      · rw [Function.comp_apply, if_pos listed, if_pos (List.mem_append_left _ listed),
          setInactive]
        split <;> rfl
      · by_cases here : row.accountId = id
        · rw [Function.comp_apply, if_neg listed, setInactive, if_pos here,
            if_pos (List.mem_append_right _ (List.mem_singleton.mpr here))]
        · rw [Function.comp_apply, if_neg listed, setInactive, if_neg here,
            if_neg (by simp [listed, here])]

theorem inactive_of_inactivated {ids : List AccountId} {store : Store} {row : AccountRow}
    (stored : row ∈ (inactivated now ids store).accounts.rows) (listed : row.accountId ∈ ids) :
    row.active = false := by
  rw [inactivated_rows] at stored
  obtain ⟨source, _, rfl⟩ := List.mem_map.mp stored
  split at listed
  next sourceListed => rw [if_pos sourceListed]
  next unlisted => exact absurd listed unlisted

theorem mem_inactivated {ids : List AccountId} {store : Store} {row : AccountRow}
    (stored : row ∈ store.accounts.rows) (unlisted : row.accountId ∉ ids) :
    row ∈ (inactivated now ids store).accounts.rows := by
  rw [inactivated_rows]
  exact List.mem_map.mpr ⟨row, stored, if_neg unlisted⟩

variable (now)

/-- A reconciliation that is not disturbed mirrors every account and inactivates the rest. -/
theorem reconcileFromConfig_perform (configured : List ConfigSnapshot) (store : Store) :
    ∃ diff, (reconcileFromConfig now configured).perform failure none store =
      (.ok diff, inactivated now (staleIds configured store)
        (mirrored now configured store)) := by
  obtain ⟨middle, _, mirroredAll⟩ := mirrorAll_through now failure
    (fun diff => .issue .ok fun store =>
      inactivateAll now (staleIds configured store) diff) configured {} store
  obtain ⟨after, _, last⟩ := inactivateAll_through now failure (staleIds configured store)
    middle (mirrored now configured store)
  refine ⟨after, ?_⟩
  rw [reconcileFromConfig, mirroredAll, Script.perform_issue_none _ rfl,
    staleIds_mirrored fun snap entry => List.mem_map_of_mem entry]
  exact last

/-- What a failing statement leaves: the accounts mirrored by then, and, if it is one of the
second loop, the accounts inactivated by then. -/
theorem reconcileFromConfig_cut (configured : List ConfigSnapshot) (store : Store) (fault : Nat) :
    (fault ≤ 2 * configured.length ∧
      (reconcileFromConfig now configured).perform failure (some fault) store =
        (.error failure, mirrored now (configured.take (fault / 2)) store)) ∨
    (∃ position < (staleIds configured store).length,
      fault = 2 * configured.length + 1 + position ∧
        (reconcileFromConfig now configured).perform failure (some fault) store =
          (.error failure, inactivated now ((staleIds configured store).take position)
            (mirrored now configured store))) ∨
    (2 * configured.length + 1 + (staleIds configured store).length ≤ fault ∧
      ∃ diff, (reconcileFromConfig now configured).perform failure (some fault) store =
        (.ok diff, inactivated now (staleIds configured store)
          (mirrored now configured store))) := by
  obtain ⟨middle, through, _⟩ := mirrorAll_through now failure
    (fun diff => .issue .ok fun current =>
      inactivateAll now (staleIds configured current) diff) configured {} store
  by_cases early : fault < 2 * configured.length
  · exact .inl ⟨Nat.le_of_lt early, mirrorAll_cut now failure _ configured {} store early⟩
  · obtain ⟨later, rfl⟩ : ∃ later, fault = later + 2 * configured.length :=
      ⟨fault - 2 * configured.length, by omega⟩
    rw [reconcileFromConfig, through]
    cases later with
    | zero =>
        -- The fault hits the `SELECT` between the loops.
        rw [Script.perform_issue_zero, Nat.zero_add, Nat.mul_div_cancel_left _ (by decide),
          List.take_length]
        exact .inl ⟨Nat.le_refl _, rfl⟩
    | succ position =>
        have leftover : staleIds configured (mirrored now configured store) =
            staleIds configured store :=
          staleIds_mirrored (fun snap entry => List.mem_map_of_mem entry) store
        rw [Script.perform_issue_succ _ rfl, leftover]
        by_cases issued : position < (staleIds configured store).length
        · exact .inr (.inl ⟨position, issued, by omega,
            inactivateAll_cut now failure _ _ _ issued⟩)
        · obtain ⟨after, done, _⟩ := inactivateAll_through now failure
            (staleIds configured store) middle (mirrored now configured store)
          exact .inr (.inr ⟨by omega, after, done position (Nat.le_of_not_lt issued)⟩)

end Performing

end Scryd.Storage
