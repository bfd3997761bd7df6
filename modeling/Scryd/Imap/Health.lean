import Scryd.Imap.Scheduler
import Scryd.Storage.SyncState

/-!
# The health a supervisor leaves behind

A login writes `active`, a failed cycle writes the text of its error.  Which of
these texts a sink understands decides whether a failure can be seen afterwards.
-/

namespace Scryd.Imap

open Scryd.Foundation Scryd.Storage

variable {State : Type}

/-- A health that tells of a failure. -/
def VisibleHealth (health : AccountHealth) : Prop :=
  health ≠ .active ∧ health ≠ .unknown

instance (health : AccountHealth) : Decidable (VisibleHealth health) :=
  inferInstanceAs (Decidable (_ ∧ _))

/-- The health a sink stores for the folder.  It is only written by an update with a health text
that is committed, and only where the text is one of the closed set. -/
structure HealthView (sink : MessageSink State) (conn : Connection) where
  health : State → AccountHealth
  /-- An update of the health is committed in this state. -/
  commits : State → Prop
  preserved : ∀ value, Preserved sink conn fun state => health state = value
  written : ∀ text state, commits state →
    health (updateHealth sink conn text state) =
      (AccountHealth.fromStr text).toOption.getD (health state)
  unwritten : ∀ text state, ¬ commits state →
    health (updateHealth sink conn text state) = health state

variable {sink : MessageSink State} {conn : Connection}

/-- After a failed cycle the stored health tells of a failure. -/
def FailureVisible (view : HealthView sink conn) (supervisor : Supervisor State) : Prop :=
  ∀ last, supervisor.reconnect.outcomes.head? = some last → last.isFailed = true →
    VisibleHealth (view.health supervisor.sink)

/-- A failed cycle ends in a rejected login and its health is written, or a failure was visible
before it and no `active` has been written over it. -/
def FailureReported (view : HealthView sink conn) (supervisor : Supervisor State)
    (env : CycleEnv) : Prop :=
  supervisor.stopped = false → ∀ err,
    (runOneCycle sink conn env supervisor.lastSeenUid supervisor.sink).result = .error err →
    (err = .authRejected ∧
      view.commits (runOneCycle sink conn env supervisor.lastSeenUid supervisor.sink).sink) ∨
    (VisibleHealth (view.health supervisor.sink) ∧
      (env.login = .ok () → ¬ view.commits supervisor.sink))

theorem failureHealth_undecoded {err : ClientError} (accepted : err ≠ .authRejected) :
    (AccountHealth.fromStr (failureHealth err)).toOption = none := by
  cases err with
  | authRejected => exact absurd rfl accepted
  | connect _ => rfl
  | tlsHandshake _ => rfl
  | server _ => rfl
  | mutatingCommandRejected => rfl
  | io _ => rfl

/-- Of the four failure texts only one is understood. -/
theorem visible_after_failure_iff (view : HealthView sink conn) (err : ClientError)
    (state : State) :
    VisibleHealth (view.health (updateHealth sink conn (failureHealth err) state)) ↔
      (err = .authRejected ∧ view.commits state) ∨ VisibleHealth (view.health state) := by
  by_cases written : view.commits state
  · rw [view.written _ _ written]
    by_cases rejected : err = .authRejected
    · subst rejected
      refine iff_of_true ?_ (.inl ⟨rfl, written⟩)
      change VisibleHealth .authRejected
      decide
    · rw [failureHealth_undecoded rejected, Option.getD_none]
      exact ⟨.inr, fun either => either.resolve_left fun both => rejected both.1⟩
  · rw [view.unwritten _ _ written]
    refine ⟨.inr, fun either => either.resolve_left ?_⟩
    rintro ⟨_, alsoWritten⟩
    exact written alsoWritten

/-- What is visible at the end of a cycle was visible before it and survived the login. -/
theorem visible_after_cycle_iff (view : HealthView sink conn) (env : CycleEnv)
    (lastSeenUid : Nat) (state : State) :
    VisibleHealth (view.health (runOneCycle sink conn env lastSeenUid state).sink) ↔
      VisibleHealth (view.health state) ∧
        (env.login = .ok () → ¬ view.commits state) := by
  unfold runOneCycle
  cases env.login with
  | error err => simp
  | ok loggedIn =>
      have kept := (view.preserved _).syncFolder env lastSeenUid
        (rfl : view.health (updateHealth sink conn "active" state) = _)
      dsimp only
      rw [kept]
      by_cases written : view.commits state
      · rw [view.written _ _ written]
        exact iff_of_false (fun visible => visible.1 rfl) fun both => both.2 rfl written
      · rw [view.unwritten _ _ written]
        exact ⟨fun visible => ⟨visible, fun _ => written⟩, And.left⟩

theorem failureVisible_step_iff {view : HealthView sink conn} (supervisor : Supervisor State)
    (env : CycleEnv) (visible : FailureVisible view supervisor) :
    FailureVisible view (superviseStep sink conn supervisor env) ↔
      FailureReported view supervisor env := by
  cases stopped : supervisor.stopped with
  | true =>
      rw [superviseStep_stopped stopped]
      refine iff_of_true visible fun running => ?_
      rw [stopped] at running
      cases running
  | false =>
      rw [superviseStep, if_neg (by simp [stopped])]
      simp only [FailureVisible, FailureReported, Reconnect.next, List.head?_cons,
        Option.some.injEq, forall_eq', stopped, forall_const, CycleReport.outcome,
        CycleReport.health]
      cases result : (runOneCycle sink conn env supervisor.lastSeenUid supervisor.sink).result with
      | ok newUid =>
          refine iff_of_true (fun failed => ?_) (fun err same => ?_)
          · cases failed
          · cases same
      | error err =>
          have reported := visible_after_failure_iff view err
            (runOneCycle sink conn env supervisor.lastSeenUid supervisor.sink).sink
          rw [visible_after_cycle_iff] at reported
          constructor
          · intro now other same
            cases same
            exact reported.mp (now rfl)
          · intro guarded _
            exact reported.mpr (guarded err rfl)

/-- In every state after a failed cycle the failure is visible exactly when every failed cycle
reports a rejected login or finds a failure that is still visible. -/
theorem failures_visible_iff_reported (view : HealthView sink conn) (state : State)
    (cycles : List CycleEnv) :
    Always (superviseStep sink conn) (FailureVisible view) (.started state) cycles ↔
      Guarded (superviseStep sink conn) (FailureReported view) (.started state) cycles := by
  apply always_iff_guarded failureVisible_step_iff
  intro last isLast
  cases isLast

end Scryd.Imap
