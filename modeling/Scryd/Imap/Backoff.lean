import Scryd.Imap.Scheduler

/-!
# The reconnect delay over whole runs

The failure counter does not know whether a failed cycle had connected.  The
delay is the one that counts failed connections alone exactly in the runs in
which a session that ends in an error has no failed cycle next to it.
-/

namespace Scryd.Imap

open Scryd.Foundation Scryd.Storage

section Delay

theorem backoffAfter_eq (failures : Nat) :
    backoffAfter failures = fromSecs (min (30 * 2 ^ failures) backoffCap) := by
  have large : backoffCap ≤ 30 * 2 ^ 20 := by decide
  have wide : 30 * 2 ^ 20 ≤ 2 ^ 64 - 1 := by decide
  simp only [backoffAfter]
  rcases Nat.le_total failures 20 with few | many
  · have grows : 2 ^ failures ≤ 2 ^ 20 := Nat.pow_le_pow_right (by decide) few
    rw [Nat.min_eq_left few, Nat.min_eq_left (by omega : 30 * 2 ^ failures ≤ 2 ^ 64 - 1)]
  · have grows : 2 ^ 20 ≤ 2 ^ failures := Nat.pow_le_pow_right (by decide) many
    rw [Nat.min_eq_right many, Nat.min_eq_left wide, Nat.min_eq_right large,
      Nat.min_eq_right (by omega : backoffCap ≤ 30 * 2 ^ failures)]

theorem initialBackoff_lt_backoffAfter {failures : Nat} (again : 0 < failures) :
    initialBackoff < backoffAfter failures := by
  have grows : 2 ^ 1 ≤ 2 ^ failures := Nat.pow_le_pow_right (by decide) again
  rw [backoffAfter_eq]
  simp only [initialBackoff, fromSecs, backoffCap]
  omega

def failedStreak (outcomes : List CycleOutcome) : Nat :=
  (outcomes.takeWhile CycleOutcome.isFailed).length

def unreadyStreak (outcomes : List CycleOutcome) : Nat :=
  (outcomes.takeWhile CycleOutcome.isUnready).length

/-- The delay counts the failed connections in a row, and is short after a cycle that had
completed its backfill. -/
def DelayRight (reconnect : Reconnect) : Prop :=
  match reconnect.outcomes with
  | [] => True
  | .failed false _ :: _ => reconnect.delay =
      fromSecs (min (30 * 2 ^ (unreadyStreak reconnect.outcomes - 1)) backoffCap)
  | _ :: _ => reconnect.delay ≤ initialBackoff

/-- A session that ends in an error has no failed cycle right before it, and a failed
connection no such session. -/
def Undisturbed (reconnect : Reconnect) : CycleOutcome → Prop
  | .clean => True
  | .failed true _ => reconnect.outcomes.head?.all (fun last => !last.isFailed) = true
  | .failed false _ => reconnect.outcomes.head?.all
      (fun last => !last.isFailed || last.isUnready) = true

/-- The counter counts the failed cycles in a row, and they are failed connections or a single
session. -/
structure Counted (reconnect : Reconnect) : Prop where
  counter : reconnect.consecutiveFailures =
    min (failedStreak reconnect.outcomes) (2 ^ 32 - 1)
  shape : failedStreak reconnect.outcomes = unreadyStreak reconnect.outcomes ∨
    (unreadyStreak reconnect.outcomes = 0 ∧ failedStreak reconnect.outcomes = 1)

theorem failedStreak_eq_zero_iff (outcomes : List CycleOutcome) :
    failedStreak outcomes = 0 ↔ outcomes.head?.all (fun last => !last.isFailed) = true := by
  cases outcomes with
  | nil => simp [failedStreak]
  | cons last earlier =>
      cases failed : last.isFailed with
      | false => simp [failedStreak, failed]
      | true => simp [failedStreak, failed]

@[simp] theorem unreadyStreak_cons (err : ClientError) (earlier : List CycleOutcome) :
    unreadyStreak (.failed false err :: earlier) = unreadyStreak earlier + 1 := rfl

theorem Counted.failedStreak_eq_iff {reconnect : Reconnect} (counted : Counted reconnect) :
    failedStreak reconnect.outcomes = unreadyStreak reconnect.outcomes ↔
      reconnect.outcomes.head?.all (fun last => !last.isFailed || last.isUnready) = true := by
  have shape := counted.shape
  cases outcomes : reconnect.outcomes with
  | nil => simp [failedStreak, unreadyStreak]
  | cons last earlier =>
      rw [outcomes] at shape
      cases last with
      | clean => exact iff_of_true rfl rfl
      | failed ready err =>
          cases ready with
          | true => exact iff_of_false (Nat.succ_ne_zero _) (by simp [CycleOutcome.isFailed,
              CycleOutcome.isUnready])
          | false =>
              refine iff_of_true (shape.resolve_right ?_) rfl
              rintro ⟨unready, _⟩
              cases unready

/-- The delay after one more failed cycle. -/
theorem Counted.delay_failed {reconnect : Reconnect} (counted : Counted reconnect)
    (ready : Bool) (err : ClientError) :
    (reconnect.next (.failed ready err)).delay =
      fromSecs (min (30 * 2 ^ failedStreak reconnect.outcomes) backoffCap) := by
  have positive : saturatingAdd reconnect.consecutiveFailures 1 ≠ 0 := by
    simp only [saturatingAdd]
    omega
  have capped : min (saturatingAdd reconnect.consecutiveFailures 1 - 1) 20 =
      min (failedStreak reconnect.outcomes) 20 := by
    rw [counted.counter]
    simp only [saturatingAdd]
    omega
  rw [← backoffAfter_eq]
  simp only [Reconnect.next, if_neg positive, backoffAfter, capped]

theorem Counted.counter_failed {reconnect : Reconnect} (counted : Counted reconnect)
    (ready : Bool) (err : ClientError) :
    (reconnect.next (.failed ready err)).consecutiveFailures =
      min (failedStreak reconnect.outcomes + 1) (2 ^ 32 - 1) := by
  simp only [Reconnect.next, saturatingAdd, counted.counter]
  omega

/-- The delay after one more cycle is right exactly when the cycle is undisturbed. -/
theorem Counted.delayRight_next_iff {reconnect : Reconnect} (counted : Counted reconnect)
    (outcome : CycleOutcome) :
    DelayRight (reconnect.next outcome) ↔ Undisturbed reconnect outcome := by
  cases outcome with
  | clean =>
      refine iff_of_true ?_ trivial
      change 100 ≤ initialBackoff
      decide
  | failed ready err =>
      have delay := counted.delay_failed ready err
      cases ready with
      | true =>
          change (reconnect.next (.failed true err)).delay ≤ initialBackoff ↔
            reconnect.outcomes.head?.all (fun last => !last.isFailed) = true
          rw [← failedStreak_eq_zero_iff, delay, ← backoffAfter_eq]
          constructor
          · intro short
            by_contra again
            exact Nat.not_le_of_lt (initialBackoff_lt_backoffAfter (Nat.pos_of_ne_zero again)) short
          · intro first
            rw [first]
            decide
      | false =>
          change (reconnect.next (.failed false err)).delay = fromSecs
            (min (30 * 2 ^ (unreadyStreak (.failed false err :: reconnect.outcomes) - 1))
              backoffCap) ↔ reconnect.outcomes.head?.all
              (fun last => !last.isFailed || last.isUnready) = true
          rw [← counted.failedStreak_eq_iff, delay, unreadyStreak_cons, Nat.add_sub_cancel]
          rcases counted.shape with same | ⟨unready, failed⟩
          · exact iff_of_true (by rw [same]) same
          · rw [unready, failed]
            decide

theorem Counted.next {reconnect : Reconnect} (counted : Counted reconnect)
    {outcome : CycleOutcome} (undisturbed : Undisturbed reconnect outcome) :
    Counted (reconnect.next outcome) := by
  cases outcome with
  | clean => exact ⟨rfl, .inl rfl⟩
  | failed ready err =>
      refine ⟨counted.counter_failed ready err, ?_⟩
      cases ready with
      | true =>
          have first := (failedStreak_eq_zero_iff _).mpr undisturbed
          exact .inr ⟨rfl, congrArg (· + 1) first⟩
      | false =>
          have same := counted.failedStreak_eq_iff.mpr undisturbed
          exact .inl (congrArg (· + 1) same)

end Delay

section Runs

variable {State : Type} (sink : MessageSink State) (conn : Connection)

/-- The outcome of the cycle that a supervisor runs next. -/
def Supervisor.outcome (supervisor : Supervisor State) (env : CycleEnv) : CycleOutcome :=
  (runOneCycle sink conn env supervisor.lastSeenUid supervisor.sink).outcome

/-- Whenever the supervisor goes on, it sleeps the right delay. -/
def SleepsRight (supervisor : Supervisor State) : Prop :=
  supervisor.stopped = false → DelayRight supervisor.reconnect

def CycleUndisturbed (supervisor : Supervisor State) (env : CycleEnv) : Prop :=
  supervisor.stopped = false → env.stop = false →
    Undisturbed supervisor.reconnect (supervisor.outcome sink conn env)

/-- While the supervisor runs its bookkeeping is counted and its delay right. -/
def Paced (supervisor : Supervisor State) : Prop :=
  supervisor.stopped = false → Counted supervisor.reconnect ∧ DelayRight supervisor.reconnect

variable {sink conn}

theorem superviseStep_running {supervisor : Supervisor State}
    (running : supervisor.stopped = false) (env : CycleEnv) :
    (superviseStep sink conn supervisor env).reconnect =
        supervisor.reconnect.next (supervisor.outcome sink conn env) ∧
      (superviseStep sink conn supervisor env).stopped = env.stop := by
  rw [superviseStep, if_neg (by simp [running])]
  exact ⟨rfl, rfl⟩

/-- One cycle keeps the pace exactly when it is undisturbed; a right delay is enough to see it. -/
theorem paced_step {supervisor : Supervisor State} (paced : Paced supervisor) (env : CycleEnv) :
    (SleepsRight (superviseStep sink conn supervisor env) ↔
      CycleUndisturbed sink conn supervisor env) ∧
    (CycleUndisturbed sink conn supervisor env →
      Paced (superviseStep sink conn supervisor env)) := by
  cases stopped : supervisor.stopped with
  | true =>
      rw [superviseStep_stopped stopped]
      refine ⟨iff_of_true ?_ ?_, fun _ => paced⟩
      · intro running
        rw [stopped] at running
        cases running
      · intro running
        rw [stopped] at running
        cases running
  | false =>
      obtain ⟨reconnect, stop⟩ := @superviseStep_running _ sink conn _ stopped env
      have counted := (paced stopped).1
      have delay := counted.delayRight_next_iff (supervisor.outcome sink conn env)
      simp only [SleepsRight, CycleUndisturbed, Paced, reconnect, stop, stopped, forall_const]
      refine ⟨imp_congr_right fun _ => delay, fun undisturbed goesOn => ?_⟩
      exact ⟨counted.next (undisturbed goesOn), delay.mpr (undisturbed goesOn)⟩

/-- Every delay slept counts the failed connections in a row, and is short after a session,
exactly when no session that ended in an error has a failed cycle right before or after it. -/
theorem delays_right_iff_undisturbed (sink : MessageSink State) (conn : Connection)
    (state : State) (cycles : List CycleEnv) :
    Always (superviseStep sink conn) SleepsRight (.started state) cycles ↔
      Guarded (superviseStep sink conn) (CycleUndisturbed sink conn) (.started state) cycles := by
  have initially : Paced (.started state : Supervisor State) :=
    fun _ => ⟨⟨rfl, .inl rfl⟩, trivial⟩
  have exactStep : ∀ (supervisor : Supervisor State) (env : CycleEnv), Paced supervisor →
      (Paced (superviseStep sink conn supervisor env) ↔
        CycleUndisturbed sink conn supervisor env) := by
    intro supervisor env paced
    obtain ⟨right, keeps⟩ := @paced_step _ sink conn supervisor paced env
    exact ⟨fun next => right.mp fun running => (next running).2, keeps⟩
  rw [← always_iff_guarded exactStep initially cycles]
  constructor
  · apply Always.strengthen _ initially
    intro supervisor env paced right
    obtain ⟨isRight, keeps⟩ := @paced_step _ sink conn supervisor paced env
    exact keeps (isRight.mp right)
  · intro always
    exact always.imp fun supervisor holds running => (holds running).2

end Runs

section Sample

/-- A sink that stores nothing. -/
def voidSink : MessageSink Unit where
  submit _ _ := (.ok (), ())
  tombstone _ _ := (.ok (), ())
  updateSyncState _ _ _ _ := (.ok (), ())
  listLocalUids _ _ _ _ := (.ok [], ())
  storedUidvalidity _ _ _ := (.ok none, ())

/-- A client of an empty mailbox. -/
def emptyClient : Client where
  examineMeta := .ok ⟨some 1, some 1⟩
  uidFetch _ := .ok []
  uidSearchAll := .ok []

/-- A cycle that logs in, completes its backfill and then loses its IDLE channel. -/
def droppedSession : CycleEnv where
  login := .ok ()
  client := emptyClient
  now := 0
  untilShutdown := 1
  rounds := [⟨emptyClient, .ok (), .error (.server "connection reset"), none, emptyClient, 0⟩]
  stop := false

/-- The second of two dropped sessions is followed by a delay of a minute. -/
theorem second_dropped_session_waits_longer :
    ¬ Always (superviseStep voidSink ⟨sampleAccountId, "INBOX"⟩) SleepsRight (.started ())
      [droppedSession, droppedSession] := by
  intro always
  have slept : (run (superviseStep voidSink ⟨sampleAccountId, "INBOX"⟩) (.started ())
      [droppedSession, droppedSession]).reconnect.delay ≤ initialBackoff := always.last rfl
  revert slept
  decide

end Sample

end Scryd.Imap
