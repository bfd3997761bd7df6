import Scryd.Config.Loader
import Scryd.Imap.Idle

/-!
# The scheduler and its supervisors

Which folders are supervised, and what a supervisor does for one of them: a
cycle of login, backfill and IDLE loop, the health it reports and the delay it
sleeps before the next cycle.
-/

namespace Scryd.Imap

open Scryd.Foundation Scryd.Storage

def maxConnectionsPerAccount : Nat := 5

section Keys

/-- The account and the folder of a supervisor. -/
abbrev SupervisorKey := String × String

/-- The folders the scheduler takes of an account. -/
def supervisedFolders (account : Loader.AccountCfg) : List String :=
  (account.folders.getD ["INBOX"]).take maxConnectionsPerAccount

/-- `Scheduler::desired_keys`. -/
def desiredKeys (config : Loader.Config) : List SupervisorKey :=
  config.accounts.flatMap fun account =>
    (supervisedFolders account).map fun folder => (account.id, folder)

/-- Spawn a supervisor unless the key has one. -/
def spawnOnce (handles : List SupervisorKey) (key : SupervisorKey) : List SupervisorKey :=
  if key ∈ handles then handles else handles ++ [key]

/-- `Scheduler::spawn_diff_against_config`, on the keys of the handles. -/
def spawnDiffAgainstConfig (config : Loader.Config) (handles : List SupervisorKey) :
    List SupervisorKey :=
  config.accounts.foldl (fun handles account =>
    (supervisedFolders account).foldl (fun handles folder => spawnOnce handles (account.id, folder))
      handles) handles

/-- `Scheduler::reconcile`: supervisors of other keys exit first. -/
def Scheduler.reconcile (config : Loader.Config) (handles : List SupervisorKey) :
    List SupervisorKey :=
  spawnDiffAgainstConfig config (handles.filter fun key => decide (key ∈ desiredKeys config))

theorem mem_foldl_spawnOnce (keys : List SupervisorKey) (handles : List SupervisorKey)
    (key : SupervisorKey) : key ∈ keys.foldl spawnOnce handles ↔ key ∈ handles ∨ key ∈ keys := by
  induction keys generalizing handles with
  | nil => simp
  | cons first rest inductionHypothesis =>
      rw [List.foldl_cons, inductionHypothesis, List.mem_cons, ← or_assoc]
      apply or_congr_left
      unfold spawnOnce
      split
      next taken =>
        constructor
        · exact .inl
        · rintro (stored | rfl)
          · exact stored
          · exact taken
      next => rw [List.mem_append, List.mem_singleton]

theorem mem_spawnDiffAgainstConfig (config : Loader.Config) (handles : List SupervisorKey)
    (key : SupervisorKey) :
    key ∈ spawnDiffAgainstConfig config handles ↔ key ∈ handles ∨ key ∈ desiredKeys config := by
  have flat : spawnDiffAgainstConfig config handles =
      (desiredKeys config).foldl spawnOnce handles := by
    simp only [spawnDiffAgainstConfig, desiredKeys, List.foldl_flatMap, List.foldl_map]
  rw [flat, mem_foldl_spawnOnce]

/-- After a reconciliation exactly the desired keys are supervised, whatever ran before. -/
theorem Scheduler.mem_reconcile (config : Loader.Config) (handles : List SupervisorKey)
    (key : SupervisorKey) :
    key ∈ Scheduler.reconcile config handles ↔ key ∈ desiredKeys config := by
  rw [Scheduler.reconcile, mem_spawnDiffAgainstConfig, List.mem_filter]
  constructor
  · rintro (⟨_, wanted⟩ | wanted)
    · exact of_decide_eq_true wanted
    · exact wanted
  · exact .inr

end Keys

section Backoff

/-- `Duration::from_secs`, in milliseconds. -/
def fromSecs (secs : Nat) : Nat := 1000 * secs

def initialBackoff : Nat := fromSecs 30

def backoffCap : Nat := 3600

/-- `backoff_after`. -/
def backoffAfter (failures : Nat) : Nat :=
  let exp := min failures 20
  let secs := min (30 * 2 ^ exp) (2 ^ 64 - 1)
  fromSecs (min secs backoffCap)

example : backoffAfter 5 = fromSecs 960 := by decide

/-- How a cycle ends; a failed one either had completed its backfill or not. -/
inductive CycleOutcome where
  | clean
  | failed (ready : Bool) (err : ClientError)

def CycleOutcome.isFailed : CycleOutcome → Bool
  | .clean => false
  | .failed _ _ => true

/-- The cycle failed before its backfill was completed. -/
def CycleOutcome.isUnready : CycleOutcome → Bool
  | .failed false _ => true
  | _ => false

/-- The failure counter, the delay slept last, and the outcomes so far, the newest first. -/
structure Reconnect where
  consecutiveFailures : Nat
  delay : Nat
  outcomes : List CycleOutcome

def Reconnect.started : Reconnect := ⟨0, 0, []⟩

/-- The bookkeeping of `run_account_supervisor` after a cycle. -/
def Reconnect.next (reconnect : Reconnect) (outcome : CycleOutcome) : Reconnect :=
  let failures :=
    match outcome with
    | .clean => 0
    | .failed _ _ => saturatingAdd reconnect.consecutiveFailures 1
  ⟨failures, if failures = 0 then 100 else backoffAfter (failures - 1),
    outcome :: reconnect.outcomes⟩

end Backoff

section Supervisor

variable {State : Type} (sink : MessageSink State) (conn : Connection)

/-- `update_health`.  Its result is ignored. -/
def updateHealth (text : String) (state : State) : State :=
  (sink.updateSyncState conn.accountId conn.folder { accountHealth := some text } state).2

/-- The health text of a failed cycle. -/
def failureHealth : ClientError → String
  | .authRejected => "auth-rejected"
  | .connect _ => "connect-failure"
  | .tlsHandshake _ => "tls-failure"
  | _ => "transient"

/-- What the environment decides for one cycle: the login, the client and the clock of the
backfill, when it is stopped, the rounds of the loop, and whether a shutdown or exit signal is
seen at the end. -/
structure CycleEnv where
  login : Except ClientError Unit
  client : Client
  now : Int
  untilShutdown : Nat
  rounds : List IdleRound
  stop : Bool

/-- The result of a cycle, the sink it leaves, whether the backfill was completed, and the
scans of its loop. -/
structure CycleReport (State : Type) where
  result : Except ClientError Nat
  sink : State
  ready : Bool
  scans : List (ScanRecord State)

/-- The part of a cycle behind the login. -/
def syncFolder (env : CycleEnv) (lastSeenUid : Nat) (state : State) : CycleReport State :=
  match runInitialBackfill sink env.client conn env.now env.untilShutdown state with
  | (.error err, next) => ⟨.error err, next, false, []⟩
  | (.ok (), next) =>
      let idle := runIdleLoop sink conn (env.client.examinedEpoch.getD 0) lastSeenUid env.rounds
        next
      ⟨idle.result, idle.sink, true, idle.scans⟩

/-- `run_one_cycle`. -/
def runOneCycle (env : CycleEnv) (lastSeenUid : Nat) (state : State) : CycleReport State :=
  match env.login with
  | .error err => ⟨.error err, state, false, []⟩
  | .ok () => syncFolder sink conn env lastSeenUid (updateHealth sink conn "active" state)

/-- The variables of `run_account_supervisor`, and whether it has returned. -/
structure Supervisor (State : Type) where
  sink : State
  lastSeenUid : Nat
  reconnect : Reconnect
  stopped : Bool

def Supervisor.started (state : State) : Supervisor State := ⟨state, 0, .started, false⟩

def CycleReport.outcome (report : CycleReport State) : CycleOutcome :=
  match report.result with
  | .ok _ => .clean
  | .error err => .failed report.ready err

/-- The health a supervisor reports for a cycle. -/
def CycleReport.health (report : CycleReport State) : String :=
  match report.result with
  | .ok _ => "active"
  | .error err => failureHealth err

/-- One turn of the loop of `run_account_supervisor`. -/
def superviseStep (supervisor : Supervisor State) (env : CycleEnv) : Supervisor State :=
  if supervisor.stopped then supervisor
  else
    let report := runOneCycle sink conn env supervisor.lastSeenUid supervisor.sink
    { sink := updateHealth sink conn report.health report.sink
      lastSeenUid := report.result.toOption.getD supervisor.lastSeenUid
      reconnect := supervisor.reconnect.next report.outcome
      stopped := env.stop }

variable {sink conn}

theorem Preserved.syncFolder {property : State → Prop} (preserved : Preserved sink conn property)
    (env : CycleEnv) (lastSeenUid : Nat) {state : State} (initially : property state) :
    property (Imap.syncFolder sink conn env lastSeenUid state).sink := by
  have filled := preserved.runInitialBackfill env.client env.now env.untilShutdown initially
  unfold Imap.syncFolder
  split
  next err next failed => rwa [failed] at filled
  next next done =>
    rw [done] at filled
    exact preserved.runIdleLoop _ lastSeenUid env.rounds filled

theorem superviseStep_stopped {supervisor : Supervisor State} (stopped : supervisor.stopped = true)
    (env : CycleEnv) : superviseStep sink conn supervisor env = supervisor := by
  rw [superviseStep, if_pos stopped]

end Supervisor

end Scryd.Imap
