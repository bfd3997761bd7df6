import Scryd.Imap.Supervision

/-!
# Tear-down of the daemon

`serve_run` stops the components one after another and then marks the run as
cleanly stopped.  A crash leaves no mark, so a run that has one must not write
anything after it.
-/

namespace Scryd.Runtime

open Scryd.Foundation Scryd.Imap

/-- Who writes to the storage. -/
inductive Writer where
  | supervisor (task : Nat)
  | drainer
  | finishRun
  deriving DecidableEq

/-- Where `serve_run` stands. -/
inductive ServePhase where
  | waiting
  | stoppingMcp
  | stoppingScheduler
  | stoppingDrainer
  | finished
  deriving DecidableEq

structure Daemon where
  supervision : Supervision
  drainerCancelled : Bool
  drainerReturned : Bool
  phase : ServePhase
  /-- The writes so far, the newest first. -/
  writes : List Writer

inductive DaemonEvent where
  /-- A supervisor takes its next step. -/
  | proceed (task : Nat)
  | timer (task : Nat)
  /-- A cycle calls the sink. -/
  | submit (task : Nat)
  | drain
  /-- The drainer looks at its token. -/
  | drainerLooks
  | signal
  /-- `serve_run` takes its next step. -/
  | tearDown

variable (config : Loader.Config)

/-- What `serve_init` returns. -/
def Daemon.booted : Daemon :=
  ⟨Supervision.new.step config .start, false, false, .waiting, []⟩

def inCycle (supervision : Supervision) (task : Nat) : Bool :=
  (supervision.tasks[task]?.map fun task => decide (task.phase = .cycle)).getD false

/-- The next step of `serve_run` after the signal. -/
def Daemon.tearDown (daemon : Daemon) : Daemon :=
  match daemon.phase with
  | .waiting => daemon
  | .stoppingMcp =>
      { daemon with
        supervision := daemon.supervision.step config .shutdown
        phase := .stoppingScheduler }
  | .stoppingScheduler =>
      let supervision := daemon.supervision.step config (.advance 0)
      if supervision.calls[0]? = some .returned then
        { daemon with
          supervision := supervision
          drainerCancelled := true
          phase := .stoppingDrainer }
      else { daemon with supervision := supervision }
  | .stoppingDrainer =>
      if daemon.drainerReturned then
        { daemon with phase := .finished, writes := .finishRun :: daemon.writes }
      else daemon
  | .finished => daemon

def Daemon.step (daemon : Daemon) : DaemonEvent → Daemon
  | .proceed task => { daemon with supervision := daemon.supervision.step config (.proceed task) }
  | .timer task => { daemon with supervision := daemon.supervision.step config (.timer task) }
  | .submit task =>
      if inCycle daemon.supervision task then
        { daemon with writes := .supervisor task :: daemon.writes }
      else daemon
  | .drain =>
      if daemon.drainerReturned then daemon
      else { daemon with writes := .drainer :: daemon.writes }
  | .drainerLooks =>
      if daemon.drainerCancelled then { daemon with drainerReturned := true } else daemon
  | .signal =>
      match daemon.phase with
      | .waiting => { daemon with phase := .stoppingMcp }
      | _ => daemon
  | .tearDown => daemon.tearDown config

section Invariant

/-- What has been stopped in each phase. -/
structure Daemon.Ordered (daemon : Daemon) : Prop where
  sound : daemon.supervision.Sound config
  calls : daemon.phase = .waiting ∨ daemon.phase = .stoppingMcp → daemon.supervision.calls = []
  stopping : daemon.phase = .stoppingScheduler → daemon.supervision.shutdown = true ∧
    (daemon.supervision.calls = [.signalled] ∨
      ∃ joins, daemon.supervision.calls = [.joining joins])
  quiet : daemon.phase = .stoppingDrainer ∨ daemon.phase = .finished → daemon.supervision.Quiet
  drainer : daemon.phase = .finished → daemon.drainerReturned = true
  marked : daemon.phase ≠ .finished → .finishRun ∉ daemon.writes
  last : daemon.phase = .finished → ∃ earlier, daemon.writes = .finishRun :: earlier ∧
    .finishRun ∉ earlier

variable {config : Loader.Config} {daemon : Daemon}

theorem Daemon.Ordered.booted (config : Loader.Config) :
    (Daemon.booted config).Ordered config where
  sound := Supervision.Sound.new.spawnDiff
  calls := fun _ => Supervision.spawnDiff_calls .new
  stopping := nofun
  quiet := by rintro (stopping | finished) <;> contradiction
  drainer := nofun
  marked := fun _ => List.not_mem_nil
  last := nofun

theorem inCycle_iff {supervision : Supervision} {task : Nat} :
    inCycle supervision task = true ↔
      ∃ found, supervision.tasks[task]? = some found ∧ found.phase = .cycle := by
  rw [inCycle]
  cases supervision.tasks[task]? with
  | none => simp
  | some found => simp

/-- The only call goes on joining or returns. -/
theorem advance_only_call {supervision : Supervision}
    (isCall : supervision.calls = [.signalled] ∨ ∃ joins, supervision.calls = [.joining joins]) :
    (supervision.step config (.advance 0)).calls = [.returned] ∨
      ∃ joins, (supervision.step config (.advance 0)).calls = [.joining joins] := by
  rcases isCall with signalled | ⟨joins, joining⟩
  · simp [Supervision.step, Supervision.advance, signalled]
  · by_cases ended : joins.all supervision.hasReturned = true
    · simp [Supervision.step, Supervision.advance, joining, ended]
    · simp [Supervision.step, Supervision.advance, joining, ended]

/-- A step of a supervisor. -/
theorem Daemon.Ordered.supervise (ordered : daemon.Ordered config) {event : SupervisionEvent}
    (sameCalls : (daemon.supervision.step config event).calls = daemon.supervision.calls) :
    Daemon.Ordered config
      { daemon with supervision := daemon.supervision.step config event } where
  sound := ordered.sound.step event
  calls := fun early => sameCalls.trans (ordered.calls early)
  stopping := by
    intro stopping
    rw [sameCalls]
    exact ⟨Supervision.step_down (ordered.stopping stopping).1 event,
      (ordered.stopping stopping).2⟩
  quiet := fun late => (ordered.quiet late).step event
  drainer := ordered.drainer
  marked := ordered.marked
  last := ordered.last

/-- A write of a component that is not stopped. -/
theorem Daemon.Ordered.write (ordered : daemon.Ordered config) {writer : Writer}
    (notMark : writer ≠ .finishRun) (before : daemon.phase ≠ .finished) :
    Daemon.Ordered config { daemon with writes := writer :: daemon.writes } where
  sound := ordered.sound
  calls := ordered.calls
  stopping := ordered.stopping
  quiet := ordered.quiet
  drainer := ordered.drainer
  marked := fun _ =>
    List.not_mem_cons_of_ne_of_not_mem notMark.symm (ordered.marked before)
  last := fun finished => absurd finished before

theorem Daemon.Ordered.tearDown (ordered : daemon.Ordered config) :
    (daemon.tearDown config).Ordered config := by
  rw [Daemon.tearDown]
  split
  next => exact ordered
  next stoppingMcp =>
    have noCalls := ordered.calls (.inr stoppingMcp)
    refine ⟨ordered.sound.step .shutdown, ?_, ?_, ?_, by rintro ⟨⟩, ?_, by rintro ⟨⟩⟩
    · rintro (waiting | stopping) <;> contradiction
    · refine fun _ => ⟨rfl, .inl ?_⟩
      rw [Supervision.step, noCalls, List.nil_append]
    · rintro (stopping | finished) <;> contradiction
    · exact fun _ => ordered.marked (by rw [stoppingMcp]; decide)
  next stoppingScheduler =>
    have unmarked := ordered.marked (by rw [stoppingScheduler]; decide)
    obtain ⟨down, isCall⟩ := ordered.stopping stoppingScheduler
    have stillDown : (daemon.supervision.step config (.advance 0)).shutdown = true :=
      Supervision.step_down down _
    have sound := ordered.sound.step (.advance 0)
    dsimp only
    have advanced : (daemon.supervision.step config (.advance 0)).calls = [.returned] ∨ _ :=
      advance_only_call isCall
    rcases advanced with ended | ⟨joins, joining⟩
    · have quiet := sound.quiet stillDown fun call member => by
        rw [ended] at member
        exact List.mem_singleton.mp member
      rw [if_pos (by rw [ended]; rfl)]
      refine ⟨sound, ?_, by rintro ⟨⟩, fun _ => quiet, by rintro ⟨⟩, fun _ => unmarked,
        by rintro ⟨⟩⟩
      rintro (waiting | stopping) <;> contradiction
    · rw [if_neg (by simp [joining])]
      refine ⟨sound, ?_, fun _ => ⟨stillDown, .inr ⟨joins, joining⟩⟩, ?_, ?_, fun _ => unmarked, ?_⟩
      · rintro (waiting | stopping)
        · cases stoppingScheduler.symm.trans waiting
        · cases stoppingScheduler.symm.trans stopping
      · rintro (stopping | finished)
        · cases stoppingScheduler.symm.trans stopping
        · cases stoppingScheduler.symm.trans finished
      · intro finished
        cases stoppingScheduler.symm.trans finished
      · intro finished
        cases stoppingScheduler.symm.trans finished
  next stoppingDrainer =>
    split
    next returned =>
      refine ⟨ordered.sound, ?_, by rintro ⟨⟩, fun _ => ordered.quiet (.inl stoppingDrainer),
        fun _ => returned, fun notFinished => absurd rfl notFinished, fun _ => ⟨_, rfl, ?_⟩⟩
      · rintro (waiting | stopping) <;> contradiction
      · exact ordered.marked (by rw [stoppingDrainer]; decide)
    next => exact ordered
  next => exact ordered

theorem Daemon.Ordered.step (ordered : daemon.Ordered config) (event : DaemonEvent) :
    (daemon.step config event).Ordered config := by
  cases event with
  | proceed task => exact ordered.supervise rfl
  | timer task => exact ordered.supervise rfl
  | submit task =>
      rw [Daemon.step]
      split
      next inCycle =>
        refine ordered.write (by simp) fun finished => ?_
        obtain ⟨found, isTask, isCycle⟩ := inCycle_iff.mp inCycle
        exact (ordered.quiet (.inr finished)).idle found (List.mem_of_getElem? isTask)
          (.inl isCycle)
      next => exact ordered
  | drain =>
      rw [Daemon.step]
      split
      next => exact ordered
      next running =>
        exact ordered.write (by decide) fun finished => running (ordered.drainer finished)
  | drainerLooks =>
      rw [Daemon.step]
      split
      next => exact ⟨ordered.sound, ordered.calls, ordered.stopping, ordered.quiet, fun _ => rfl,
        ordered.marked, ordered.last⟩
      next => exact ordered
  | signal =>
      rw [Daemon.step]
      split
      next waiting =>
        refine ⟨ordered.sound, fun _ => ordered.calls (.inl waiting), by rintro ⟨⟩, ?_,
          by rintro ⟨⟩, fun _ => ordered.marked (by rw [waiting]; decide), by rintro ⟨⟩⟩
        rintro (stopping | finished) <;> contradiction
      next => exact ordered
  | tearDown => exact ordered.tearDown

/-- In a run that ends with the mark of a clean stop nothing is written after the mark, however
the supervisors, the drainer and the tear-down interleave. -/
theorem clean_mark_last (config : Loader.Config) (events : List DaemonEvent)
    (earlier later : List Writer) :
    (run (Daemon.step config) (.booted config) events).writes = later ++ .finishRun :: earlier →
      later = [] ∧ .finishRun ∉ earlier := by
  intro split_
  have preserved : ∀ (daemon : Daemon) event, daemon.Ordered config →
      (daemon.step config event).Ordered config := fun _ event ordered => ordered.step event
  have ordered := run_preserves preserved (.booted config) events
  by_cases finished : (run (Daemon.step config) (.booted config) events).phase = .finished
  · obtain ⟨rest, isLast, once⟩ := ordered.last finished
    rw [split_] at isLast
    cases later with
    | nil =>
        obtain rfl := (List.cons.inj isLast).2
        exact ⟨rfl, once⟩
    | cons writer later =>
        refine absurd ?_ once
        rw [← (List.cons.inj isLast).2]
        exact List.mem_append_right _ List.mem_cons_self
  · refine absurd ?_ (ordered.marked finished)
    rw [split_]
    exact List.mem_append_right _ List.mem_cons_self

/-- A mail is submitted, then the daemon is stopped while the cycle runs. -/
def stoppedInCycle : List DaemonEvent :=
  [.proceed 0, .submit 0, .signal, .tearDown, .tearDown, .submit 0, .proceed 0, .proceed 0,
    .tearDown, .drainerLooks, .tearDown, .submit 0, .drain]

theorem clean_mark_last_in_cycle :
    (run (Daemon.step oneAccount) (.booted oneAccount) stoppedInCycle).writes =
        [.finishRun, .supervisor 0, .supervisor 0] ∧
      .finishRun ∉ [Writer.supervisor 0, .supervisor 0] :=
  ⟨rfl, (clean_mark_last oneAccount stoppedInCycle [_, _] [] rfl).2⟩

end Invariant

end Scryd.Runtime
