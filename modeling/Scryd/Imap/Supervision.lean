import Mathlib.Data.List.Perm.Subperm
import Scryd.Imap.Scheduler

/-!
# Running supervisors

The scheduler spawns a task for each (account, folder) and keeps its handle;
`start`, `reconcile` and `shutdown` may be called at any time and while the
tasks run.  No folder is worked on by two tasks at once.
-/

namespace Scryd.Imap

open Scryd.Foundation

section Model

/-- Where `run_account_supervisor` stands. -/
inductive SupervisorPhase where
  | loopHead
  | cycle
  /-- The cycle is over and its health is reported. -/
  | reported
  | sleeping
  | returned
  deriving DecidableEq

structure SupervisorTask where
  key : SupervisorKey
  /-- Its own exit signal. -/
  exit : Bool
  phase : SupervisorPhase

/-- Where a call of a method of the scheduler stands. -/
inductive SchedulerCall where
  /-- The keys `reconcile` has still to remove, and the task it awaits. -/
  | reconciling (remaining : List SupervisorKey) (awaited : Option Nat)
  /-- `shutdown` has sent the signal and not drained the handles yet. -/
  | signalled
  | joining (joins : List Nat)
  | returned
  deriving DecidableEq

/-- The handles name the tasks by the order in which these were spawned. -/
structure Supervision where
  handles : List (SupervisorKey × Nat)
  tasks : List SupervisorTask
  shutdown : Bool
  calls : List SchedulerCall

inductive SupervisionEvent where
  | start
  | reconcile
  | shutdown
  /-- A call that awaits something takes its next step. -/
  | advance (call : Nat)
  | proceed (task : Nat)
  /-- The delay of a sleeping task is over. -/
  | timer (task : Nat)
  deriving DecidableEq

/-- `Scheduler::new`. -/
def Supervision.new : Supervision := ⟨[], [], false, []⟩

variable (config : Loader.Config)

/-- The next step of a task that is not about to be woken by its timer. -/
def SupervisorTask.proceed (shutdown : Bool) (task : SupervisorTask) : SupervisorTask :=
  match task.phase with
  | .loopHead =>
      if shutdown || task.exit then { task with phase := .returned }
      else
        match config.accounts.find? fun account => account.id = task.key.1 with
        | none => { task with phase := .returned }
        | some _ => { task with phase := .cycle }
  | .cycle => { task with phase := .reported }
  | .reported =>
      if shutdown || task.exit then { task with phase := .returned }
      else { task with phase := .sleeping }
  | .sleeping => if shutdown || task.exit then { task with phase := .returned } else task
  | .returned => task

def SupervisorTask.wake (task : SupervisorTask) : SupervisorTask :=
  match task.phase with
  | .sleeping => { task with phase := .loopHead }
  | _ => task

/-- The body of the inner loop of `spawn_diff_against_config`. -/
def Supervision.spawn (state : Supervision) (key : SupervisorKey) : Supervision :=
  if ∃ handle ∈ state.handles, handle.1 = key then state
  else
    { state with
      handles := state.handles ++ [(key, state.tasks.length)]
      tasks := state.tasks ++ [⟨key, false, .loopHead⟩] }

/-- `Scheduler::spawn_diff_against_config`. -/
def Supervision.spawnDiff (state : Supervision) : Supervision :=
  config.accounts.foldl (fun state account =>
    (supervisedFolders account).foldl (fun state folder => state.spawn (account.id, folder))
      state) state

def Supervision.hasReturned (state : Supervision) (task : Nat) : Bool :=
  (state.tasks[task]?.map fun task => decide (task.phase = .returned)).getD true

/-- The next step of a call that runs. -/
def Supervision.advance (state : Supervision) (index : Nat) : Supervision :=
  match state.calls[index]? with
  | some (.reconciling remaining (some task)) =>
      if state.hasReturned task then
        { state with calls := state.calls.set index (.reconciling remaining none) }
      else state
  | some (.reconciling (key :: rest) none) =>
      match state.handles.find? fun handle => handle.1 = key with
      | none => { state with calls := state.calls.set index (.reconciling rest none) }
      | some (_, task) =>
          { state with
            handles := state.handles.filter fun handle => handle.1 ≠ key
            tasks := state.tasks.modify task fun task => { task with exit := true }
            calls := state.calls.set index (.reconciling rest (some task)) }
  | some (.reconciling [] none) =>
      { state.spawnDiff config with calls := state.calls.set index .returned }
  | some .signalled =>
      { state with
        handles := []
        calls := state.calls.set index (.joining (state.handles.map Prod.snd)) }
  | some (.joining joins) =>
      if joins.all state.hasReturned then { state with calls := state.calls.set index .returned }
      else state
  | some .returned => state
  | none => state

def Supervision.step (state : Supervision) : SupervisionEvent → Supervision
  | .start => state.spawnDiff config
  | .reconcile =>
      let removed := (state.handles.map Prod.fst).filter fun key =>
        ∀ desired ∈ desiredKeys config, desired ≠ key
      { state with calls := state.calls ++ [.reconciling removed none] }
  | .shutdown => { state with shutdown := true, calls := state.calls ++ [.signalled] }
  | .advance index => state.advance config index
  | .proceed task =>
      { state with tasks := state.tasks.modify task (.proceed config state.shutdown) }
  | .timer task => { state with tasks := state.tasks.modify task .wake }

end Model

section Invariant

/-- A task is at work: in a cycle, or not past the check that follows it and its delay. -/
def SupervisorPhase.Busy (phase : SupervisorPhase) : Prop :=
  phase = .cycle ∨ phase = .reported ∨ phase = .sleeping

/-- What a step of a task leaves of it: once the signal is sent, it takes up no work. -/
structure SupervisorTask.Follows (shutdown : Bool) (task next : SupervisorTask) : Prop where
  key : next.key = task.key
  cycle : next.phase = .cycle → task.phase = .cycle ∨ shutdown = false
  busy : next.phase.Busy → task.phase.Busy ∨ shutdown = false

structure Supervision.Sound (config : Loader.Config) (state : Supervision) : Prop where
  handles : ∀ handle ∈ state.handles, handle.1 ∈ desiredKeys config
  tasks : ∀ task ∈ state.tasks, task.key ∈ desiredKeys config
  keys : (state.handles.map Prod.fst).Nodup
  linked : ∀ handle ∈ state.handles, handle.2 < state.tasks.length
  /-- Handles are given up only by a shutdown. -/
  held : state.shutdown = false → ∀ (index : Nat) task, state.tasks[index]? = some task →
    (task.key, index) ∈ state.handles
  alone : ∀ (index other : Nat) first second, state.tasks[index]? = some first →
    state.tasks[other]? = some second → first.phase = .cycle → second.phase = .cycle →
    first.key = second.key → index = other
  /-- The config never changes, so `reconcile` finds nothing to remove. -/
  reconciling : ∀ remaining awaited, .reconciling remaining awaited ∈ state.calls →
    remaining = [] ∧ awaited = none
  stopping : .signalled ∈ state.calls → state.shutdown = true
  /-- Whoever is at work is awaited by a shutdown, or has a handle that one will drain. -/
  awaited : ∀ (index : Nat) task, state.tasks[index]? = some task → task.phase.Busy →
    (∃ joins, .joining joins ∈ state.calls ∧ index ∈ joins) ∨
      index ∈ state.handles.map Prod.snd ∧ (state.shutdown = true → .signalled ∈ state.calls)

variable {config : Loader.Config} {state : Supervision}

theorem SupervisorTask.proceed_follows (shutdown : Bool) (task : SupervisorTask) :
    task.Follows shutdown (task.proceed config shutdown) := by
  obtain ⟨key, exit, phase⟩ := task
  cases shutdown with
  | false =>
      refine ⟨?_, fun _ => .inr rfl, fun _ => .inr rfl⟩
      unfold SupervisorTask.proceed
      split
      · split
        · rfl
        · split <;> rfl
      · rfl
      · split <;> rfl
      · split <;> rfl
      · rfl
  | true =>
      cases phase <;>
        exact ⟨rfl, by simp [SupervisorTask.proceed],
          by simp [SupervisorTask.proceed, SupervisorPhase.Busy]⟩

theorem SupervisorTask.wake_follows (shutdown : Bool) (task : SupervisorTask) :
    task.Follows shutdown task.wake := by
  obtain ⟨key, exit, phase⟩ := task
  cases phase <;>
    exact ⟨rfl, by simp [SupervisorTask.wake],
      by simp [SupervisorTask.wake, SupervisorPhase.Busy]⟩

/-- Two tasks of one key are the same task as long as no shutdown was called. -/
theorem Supervision.Sound.same_task (sound : state.Sound config) (up : state.shutdown = false)
    {index other : Nat} {first second : SupervisorTask}
    (isFirst : state.tasks[index]? = some first) (isSecond : state.tasks[other]? = some second)
    (sameKey : first.key = second.key) : index = other := by
  have firstHeld := sound.held up index first isFirst
  have secondHeld := sound.held up other second isSecond
  rw [← sameKey] at secondHeld
  exact congrArg Prod.snd (List.inj_on_of_nodup_map sound.keys firstHeld secondHeld rfl)

theorem getElem?_modify_eq_some {tasks : List SupervisorTask} {task index : Nat}
    {change : SupervisorTask → SupervisorTask} {next : SupervisorTask}
    (found : (tasks.modify task change)[index]? = some next) :
    ∃ before, tasks[index]? = some before ∧
      (next = before ∨ index = task ∧ next = change before) := by
  rw [List.getElem?_modify] at found
  obtain ⟨before, isBefore, rfl⟩ := Option.map_eq_some_iff.mp found
  refine ⟨before, isBefore, ?_⟩
  split
  next same => exact .inr ⟨same.symm, rfl⟩
  next => exact .inl rfl

/-- The step of a task. -/
theorem Supervision.Sound.modify (sound : state.Sound config) (task : Nat)
    {change : SupervisorTask → SupervisorTask}
    (follows : ∀ before : SupervisorTask, before.Follows state.shutdown (change before)) :
    Supervision.Sound config { state with tasks := state.tasks.modify task change } := by
  have traced : ∀ {index : Nat} {next : SupervisorTask},
      (state.tasks.modify task change)[index]? = some next →
      ∃ before, state.tasks[index]? = some before ∧ before.Follows state.shutdown next := by
    intro index next found
    obtain ⟨before, isBefore, rfl | ⟨-, rfl⟩⟩ := getElem?_modify_eq_some found
    · exact ⟨next, isBefore, rfl, .inl, .inl⟩
    · exact ⟨before, isBefore, follows before⟩
  have held : state.shutdown = false → ∀ (index : Nat) next,
      (state.tasks.modify task change)[index]? = some next →
      (next.key, index) ∈ state.handles := by
    intro up index next found
    obtain ⟨before, isBefore, after⟩ := traced found
    rw [after.key]
    exact sound.held up index before isBefore
  refine ⟨sound.handles, ?_, sound.keys, ?_, held, ?_, sound.reconciling, sound.stopping, ?_⟩
  · intro next member
    obtain ⟨index, found⟩ := List.getElem?_of_mem member
    obtain ⟨before, isBefore, after⟩ := traced found
    rw [after.key]
    exact sound.tasks before (List.mem_of_getElem? isBefore)
  · rw [List.length_modify]
    exact sound.linked
  · intro index other first second isFirst isSecond firstCycle secondCycle sameKey
    obtain ⟨before, isBefore, after⟩ := traced isFirst
    obtain ⟨otherBefore, isOther, otherAfter⟩ := traced isSecond
    rw [after.key, otherAfter.key] at sameKey
    rcases after.cycle firstCycle with inCycle | up
    · rcases otherAfter.cycle secondCycle with otherInCycle | up
      · exact sound.alone index other before otherBefore isBefore isOther inCycle otherInCycle
          sameKey
      · exact sound.same_task up isBefore isOther sameKey
    · exact sound.same_task up isBefore isOther sameKey
  · intro index next found busy
    obtain ⟨before, isBefore, after⟩ := traced found
    rcases after.busy busy with wasBusy | up
    · exact sound.awaited index before isBefore wasBusy
    · have stillUp : state.shutdown ≠ true := Bool.eq_false_iff.mp up
      exact .inr ⟨List.mem_map_of_mem (held up index next found), fun down => absurd down stillUp⟩

theorem Supervision.Sound.new : Supervision.Sound config .new where
  handles := List.forall_mem_nil _
  tasks := List.forall_mem_nil _
  keys := List.nodup_nil
  linked := List.forall_mem_nil _
  held := fun _ _ _ found => nomatch found
  alone := fun _ _ _ _ found => nomatch found
  reconciling := fun _ _ member => nomatch member
  stopping := fun member => nomatch member
  awaited := fun _ _ found => nomatch found

/-- A new task is at the head of its loop. -/
theorem Supervision.Sound.spawn (sound : state.Sound config) {key : SupervisorKey}
    (wanted : key ∈ desiredKeys config) : (state.spawn key).Sound config := by
  rw [Supervision.spawn]
  split
  next => exact sound
  next absent =>
    have isOld : ∀ {index : Nat} {task : SupervisorTask},
        (state.tasks ++ [⟨key, false, .loopHead⟩])[index]? = some task →
        state.tasks[index]? = some task ∨
          index = state.tasks.length ∧ task = ⟨key, false, .loopHead⟩ := by
      intro index task found
      rw [List.getElem?_append] at found
      split at found
      next => exact .inl found
      next beyond =>
        rw [List.getElem?_singleton] at found
        split at found
        next isFirst => exact .inr ⟨by omega, (Option.some.inj found).symm⟩
        next => cases found
    refine ⟨?_, ?_, ?_, ?_, ?_, ?_, sound.reconciling, sound.stopping, ?_⟩
    · intro handle member
      rcases List.mem_append.mp member with old | new
      · exact sound.handles handle old
      · rw [List.mem_singleton.mp new]
        exact wanted
    · intro task member
      rcases List.mem_append.mp member with old | new
      · exact sound.tasks task old
      · rw [List.mem_singleton.mp new]
        exact wanted
    · rw [List.map_append, List.map_singleton, List.nodup_append]
      refine ⟨sound.keys, List.nodup_singleton key, fun old isOld new isNew => ?_⟩
      rw [List.mem_singleton.mp isNew]
      exact fun (same : old = key) => absent (List.mem_map.mp (same ▸ isOld))
    · intro handle member
      rw [List.length_append, List.length_singleton]
      rcases List.mem_append.mp member with old | new
      · exact (sound.linked handle old).trans (Nat.lt_succ_self _)
      · rw [List.mem_singleton.mp new]
        exact Nat.lt_succ_self _
    · intro up index task found
      rcases isOld found with old | ⟨rfl, rfl⟩
      · exact List.mem_append_left _ (sound.held up index task old)
      · exact List.mem_append_right _ List.mem_cons_self
    · intro index other first second isFirst isSecond firstCycle secondCycle sameKey
      rcases isOld isFirst with old | ⟨-, rfl⟩
      · rcases isOld isSecond with otherOld | ⟨-, rfl⟩
        · exact sound.alone index other first second old otherOld firstCycle secondCycle sameKey
        · cases secondCycle
      · cases firstCycle
    · intro index task found busy
      rcases isOld found with old | ⟨-, rfl⟩
      · rcases sound.awaited index task old busy with joined | ⟨held, signalled⟩
        · exact .inl joined
        · rw [List.map_append]
          exact .inr ⟨List.mem_append_left _ held, signalled⟩
      · rcases busy with inCycle | reported | sleeping
        · cases inCycle
        · cases reported
        · cases sleeping

theorem Supervision.spawnDiff_eq (state : Supervision) :
    state.spawnDiff config = (desiredKeys config).foldl .spawn state := by
  simp only [Supervision.spawnDiff, desiredKeys, List.foldl_flatMap, List.foldl_map]

/-- The keys of the handles are those that the scheduler's diff leaves. -/
theorem Supervision.spawnDiff_keys (state : Supervision) :
    (state.spawnDiff config).handles.map Prod.fst =
      spawnDiffAgainstConfig config (state.handles.map Prod.fst) := by
  have flat : spawnDiffAgainstConfig config (state.handles.map Prod.fst) =
      (desiredKeys config).foldl spawnOnce (state.handles.map Prod.fst) := by
    simp only [spawnDiffAgainstConfig, desiredKeys, List.foldl_flatMap, List.foldl_map]
  rw [Supervision.spawnDiff_eq, flat]
  clear flat
  induction desiredKeys config generalizing state with
  | nil => rfl
  | cons key rest inductionHypothesis =>
      rw [List.foldl_cons, List.foldl_cons, inductionHypothesis, Supervision.spawn, spawnOnce]
      by_cases held : key ∈ state.handles.map Prod.fst
      · rw [if_pos held, if_pos (List.mem_map.mp held)]
      · rw [if_neg held, if_neg fun holds => held (List.mem_map.mpr holds), List.map_append,
          List.map_singleton]

theorem Supervision.Sound.spawnDiff (sound : state.Sound config) :
    (state.spawnDiff config).Sound config := by
  rw [Supervision.spawnDiff_eq]
  have spawned : ∀ keys ⊆ desiredKeys config, ∀ state : Supervision, state.Sound config →
      (keys.foldl .spawn state).Sound config := by
    intro keys wanted
    induction keys with
    | nil => exact fun state sound => sound
    | cons key rest inductionHypothesis =>
        intro state sound
        exact inductionHypothesis (fun later member => wanted (List.mem_cons_of_mem key member)) _
          (sound.spawn (wanted List.mem_cons_self))
  exact spawned _ (List.Subset.refl _) state sound

@[simp] theorem Supervision.spawn_calls (state : Supervision) (key : SupervisorKey) :
    (state.spawn key).calls = state.calls := by
  rw [Supervision.spawn]
  split <;> rfl

theorem Supervision.spawnDiff_calls (state : Supervision) :
    (state.spawnDiff config).calls = state.calls := by
  rw [Supervision.spawnDiff_eq]
  induction desiredKeys config generalizing state with
  | nil => rfl
  | cons key rest inductionHypothesis =>
      rw [List.foldl_cons, inductionHypothesis, Supervision.spawn_calls]

/-- Calls may go on as long as whoever is at work stays awaited. -/
theorem Supervision.Sound.withCalls (sound : state.Sound config) {calls : List SchedulerCall}
    (reconciling : ∀ remaining awaited, .reconciling remaining awaited ∈ calls →
      .reconciling remaining awaited ∈ state.calls ∨ remaining = [] ∧ awaited = none)
    (signalled : .signalled ∈ calls ↔ .signalled ∈ state.calls)
    (joining : ∀ joins, .joining joins ∈ state.calls → .joining joins ∈ calls ∨
      ∀ index ∈ joins, state.hasReturned index = true) :
    Supervision.Sound config { state with calls := calls } where
  handles := sound.handles
  tasks := sound.tasks
  keys := sound.keys
  linked := sound.linked
  held := sound.held
  alone := sound.alone
  reconciling := fun remaining awaited member =>
    (reconciling remaining awaited member).elim (sound.reconciling remaining awaited) id
  stopping := fun member => sound.stopping (signalled.mp member)
  awaited := by
    intro index task found busy
    rcases sound.awaited index task found busy with ⟨joins, isCall, joined⟩ | ⟨held, willDrain⟩
    · rcases joining joins isCall with kept | returned
      · exact .inl ⟨joins, kept, joined⟩
      · have hasReturned := returned index joined
        rw [Supervision.hasReturned, found] at hasReturned
        have isOver : task.phase = .returned := of_decide_eq_true hasReturned
        rw [isOver] at busy
        rcases busy with inCycle | reported | sleeping
        · cases inCycle
        · cases reported
        · cases sleeping
    · exact .inr ⟨held, fun down => signalled.mpr (willDrain down)⟩

theorem mem_set_of_ne {calls : List SchedulerCall} {index : Nat} {old new call : SchedulerCall}
    (found : calls[index]? = some old) (member : call ∈ calls) (other : call ≠ old) :
    call ∈ calls.set index new := by
  obtain ⟨place, isCall⟩ := List.getElem?_of_mem member
  have apart : index ≠ place := by
    rintro rfl
    exact other (Option.some.inj (isCall.symm.trans found))
  have kept : (calls.set index new)[place]? = some call :=
    (List.getElem?_set_ne apart).trans isCall
  exact List.mem_of_getElem? kept

theorem Supervision.Sound.drain (sound : state.Sound config) {index : Nat}
    (isCall : state.calls[index]? = some .signalled) :
    Supervision.Sound config
      { state with
        handles := []
        calls := state.calls.set index (.joining (state.handles.map Prod.snd)) } where
  handles := List.forall_mem_nil _
  tasks := sound.tasks
  keys := List.nodup_nil
  linked := List.forall_mem_nil _
  held := fun up => absurd (up.symm.trans (sound.stopping (List.mem_of_getElem? isCall)))
    Bool.false_ne_true
  alone := sound.alone
  reconciling := by
    intro remaining awaited member
    rcases List.mem_or_eq_of_mem_set member with old | new
    · exact sound.reconciling remaining awaited old
    · cases new
  stopping := fun _ => sound.stopping (List.mem_of_getElem? isCall)
  awaited := by
    intro task found isTask busy
    rcases sound.awaited task found isTask busy with ⟨joins, isJoining, joined⟩ | ⟨held, -⟩
    · exact .inl ⟨joins, mem_set_of_ne isCall isJoining (by simp), joined⟩
    · have inRange : index < state.calls.length := (List.getElem?_eq_some_iff.mp isCall).1
      exact .inl ⟨_, List.mem_set inRange _, held⟩

theorem Supervision.Sound.signal (sound : state.Sound config) :
    Supervision.Sound config
      { state with shutdown := true, calls := state.calls ++ [.signalled] } where
  handles := sound.handles
  tasks := sound.tasks
  keys := sound.keys
  linked := sound.linked
  held := fun up => absurd up.symm Bool.false_ne_true
  alone := sound.alone
  reconciling := by
    intro remaining awaited member
    rcases List.mem_append.mp member with old | new
    · exact sound.reconciling remaining awaited old
    · cases List.mem_singleton.mp new
  stopping := fun _ => rfl
  awaited := by
    intro index task found busy
    rcases sound.awaited index task found busy with ⟨joins, joining, joined⟩ | ⟨held, -⟩
    · exact .inl ⟨joins, List.mem_append_left _ joining, joined⟩
    · exact .inr ⟨held, fun _ => List.mem_append_right _ List.mem_cons_self⟩

theorem Supervision.Sound.reconcile (sound : state.Sound config) :
    (state.step config .reconcile).Sound config := by
  have nothing :
      ((state.handles.map Prod.fst).filter fun key =>
        ∀ desired ∈ desiredKeys config, desired ≠ key) = [] := by
    refine List.filter_eq_nil_iff.mpr fun key member => ?_
    obtain ⟨handle, held, rfl⟩ := List.mem_map.mp member
    exact fun unwanted => of_decide_eq_true unwanted _ (sound.handles handle held) rfl
  rw [Supervision.step, nothing]
  refine sound.withCalls ?_ ?_ fun joins joining => .inl (List.mem_append_left _ joining)
  · intro remaining awaited member
    rcases List.mem_append.mp member with old | new
    · exact .inl old
    · cases List.mem_singleton.mp new
      exact .inr ⟨rfl, rfl⟩
  · simp

/-- A call that has nothing more to do returns. -/
theorem Supervision.Sound.returnCall (sound : state.Sound config) {index : Nat}
    {call : SchedulerCall} (isCall : state.calls[index]? = some call) (notSignalled : call ≠ .signalled)
    (ended : ∀ joins, call = .joining joins → ∀ task ∈ joins, state.hasReturned task = true) :
    Supervision.Sound config { state with calls := state.calls.set index .returned } := by
  refine sound.withCalls ?_ ⟨?_, ?_⟩ ?_
  · intro remaining awaited member
    rcases List.mem_or_eq_of_mem_set member with old | new
    · exact .inl old
    · cases new
  · intro member
    rcases List.mem_or_eq_of_mem_set member with old | new
    · exact old
    · cases new
  · exact fun member => mem_set_of_ne isCall member notSignalled.symm
  · intro joins joining
    by_cases same : call = .joining joins
    · exact .inr (ended joins same)
    · exact .inl (mem_set_of_ne isCall joining (Ne.symm same))

theorem Supervision.Sound.advance (sound : state.Sound config) (index : Nat) :
    (state.advance config index).Sound config := by
  rw [Supervision.advance]
  cases isCall : state.calls[index]? with
  | none => exact sound
  | some call =>
      have member := List.mem_of_getElem? isCall
      cases call with
      | reconciling remaining awaited =>
          obtain ⟨rfl, rfl⟩ := sound.reconciling remaining awaited member
          have sameCall : (state.spawnDiff config).calls[index]? = some (.reconciling [] none) := by
            rw [Supervision.spawnDiff_calls]
            exact isCall
          have returned := sound.spawnDiff.returnCall sameCall (by simp) (by simp)
          rw [Supervision.spawnDiff_calls] at returned
          exact returned
      | signalled => exact sound.drain isCall
      | joining joins =>
          dsimp only
          split
          next ended =>
            refine sound.returnCall isCall (by simp) fun other same => ?_
            cases same
            exact List.all_eq_true.mp ended
          next => exact sound
      | returned => exact sound

theorem Supervision.Sound.step (sound : state.Sound config) (event : SupervisionEvent) :
    (state.step config event).Sound config := by
  cases event with
  | start => exact sound.spawnDiff
  | reconcile => exact sound.reconcile
  | shutdown => exact sound.signal
  | advance index => exact sound.advance index
  | proceed task => exact sound.modify task (SupervisorTask.proceed_follows state.shutdown)
  | timer task => exact sound.modify task (SupervisorTask.wake_follows state.shutdown)

theorem Supervision.Sound.run (sound : state.Sound config) (events : List SupervisionEvent) :
    (run (Supervision.step config) state events).Sound config :=
  run_preserves (fun _ event sound => sound.step event) sound events

end Invariant

section Exclusion

variable {config : Loader.Config}

/-- An account has at most as many supervisors as connections are allowed. -/
theorem desiredKeys_of_account_length (accounts : List Loader.AccountCfg)
    (distinct : (accounts.map (·.id)).Nodup) (id : String) :
    ((accounts.flatMap fun account =>
      (supervisedFolders account).map fun folder => (account.id, folder)).filter
        fun key => key.1 = id).length ≤ maxConnectionsPerAccount := by
  induction accounts with
  | nil => exact Nat.zero_le _
  | cons account rest inductionHypothesis =>
      rw [List.map_cons, List.nodup_cons] at distinct
      rw [List.flatMap_cons, List.filter_append, List.length_append, List.filter_map,
        List.length_map]
      by_cases own : account.id = id
      · have noOther : ((rest.flatMap fun account =>
            (supervisedFolders account).map fun folder => (account.id, folder)).filter
              fun key => key.1 = id) = [] := by
          refine List.filter_eq_nil_iff.mpr fun key member sameId => ?_
          obtain ⟨other, listed, wanted⟩ := List.mem_flatMap.mp member
          obtain ⟨folder, -, rfl⟩ := List.mem_map.mp wanted
          have isOwn : other.id = id := of_decide_eq_true sameId
          exact distinct.1 (List.mem_map.mpr ⟨other, listed, isOwn.trans own.symm⟩)
        rw [noOther, List.length_nil, Nat.add_zero]
        exact (List.length_filter_le _ _).trans (List.length_take_le _ _)
      · have notOwn : ((supervisedFolders account).filter
            ((fun key : SupervisorKey => decide (key.1 = id)) ∘
              fun folder => (account.id, folder))) = [] :=
          List.filter_eq_nil_iff.mpr fun folder _ sameId => own (of_decide_eq_true sameId)
        rw [notOwn, List.length_nil, Nat.zero_add]
        exact inductionHypothesis distinct.2

/-- Whatever methods are called and however the tasks interleave with them, a cycle is run only
for a configured folder, never twice at once for the same one, and an account has no more cycles
than connections are allowed. -/
theorem one_cycle_per_folder (loaded : Loader.LoadedConfig) (events : List SupervisionEvent) :
    let cycles := (run (Supervision.step loaded.config) .new events).tasks.filter fun task =>
      task.phase = .cycle
    (cycles.map (·.key)).Nodup ∧ cycles.map (·.key) ⊆ desiredKeys loaded.config ∧
      ∀ id, (cycles.filter fun task => task.key.1 = id).length ≤ maxConnectionsPerAccount := by
  intro cycles
  have sound : (run (Supervision.step loaded.config) .new events).Sound loaded.config :=
    .run .new events
  have apart : (cycles.map (·.key)).Nodup := by
    rw [List.Nodup, List.pairwise_map, List.pairwise_filter, List.pairwise_iff_getElem]
    intro index other inRange otherInRange before isCycle otherIsCycle sameKey
    exact before.ne (sound.alone index other _ _ (List.getElem?_eq_getElem inRange)
      (List.getElem?_eq_getElem otherInRange) (of_decide_eq_true isCycle)
      (of_decide_eq_true otherIsCycle) sameKey)
  have wanted : cycles.map (·.key) ⊆ desiredKeys loaded.config := by
    intro key member
    obtain ⟨task, isCycle, rfl⟩ := List.mem_map.mp member
    exact sound.tasks task (List.mem_of_mem_filter isCycle)
  refine ⟨apart, wanted, fun id => ?_⟩
  have ownNodup : ((cycles.filter fun task => task.key.1 = id).map (·.key)).Nodup :=
    apart.sublist (List.filter_sublist.map _)
  have ownWanted : (cycles.filter fun task => task.key.1 = id).map (·.key) ⊆
      (desiredKeys loaded.config).filter fun key => key.1 = id := by
    intro key member
    obtain ⟨task, isOwn, rfl⟩ := List.mem_map.mp member
    obtain ⟨isCycle, sameId⟩ := List.mem_filter.mp isOwn
    exact List.mem_filter.mpr ⟨wanted (List.mem_map_of_mem isCycle), sameId⟩
  have fewer := (List.subperm_of_subset ownNodup ownWanted).length_le
  rw [List.length_map] at fewer
  exact fewer.trans
    (desiredKeys_of_account_length loaded.config.accounts loaded.ids_nodup id)

/-- One account, whose only folder is the default. -/
def oneAccount : Loader.Config := ⟨⟨["INBOX"]⟩, [⟨"work", "mail.example.org", 993, "me", none⟩]⟩

/-- The second start finds the handle of the first. -/
theorem one_cycle_per_folder_restarted :
    let cycles := (run (Supervision.step oneAccount) .new
      [.start, .proceed 0, .start, .proceed 1]).tasks.filter fun task => task.phase = .cycle
    (cycles.map (·.key)).Nodup ∧ cycles.map (·.key) ⊆ desiredKeys oneAccount ∧
      ∀ id, (cycles.filter fun task => task.key.1 = id).length ≤ maxConnectionsPerAccount :=
  one_cycle_per_folder ⟨oneAccount, by decide⟩ _

end Exclusion

section Shutdown

/-- The signal is sent and nobody is at work. -/
structure Supervision.Quiet (state : Supervision) : Prop where
  down : state.shutdown = true
  idle : ∀ task ∈ state.tasks, ¬ task.phase.Busy

variable {config : Loader.Config} {state : Supervision}

/-- Nobody is at work once all calls have returned. -/
theorem Supervision.Sound.quiet (sound : state.Sound config) (down : state.shutdown = true)
    (ended : ∀ call ∈ state.calls, call = .returned) : state.Quiet := by
  refine ⟨down, fun task member busy => ?_⟩
  obtain ⟨index, found⟩ := List.getElem?_of_mem member
  rcases sound.awaited index task found busy with ⟨joins, joining, -⟩ | ⟨-, signalled⟩
  · cases ended _ joining
  · cases ended _ (signalled down)

theorem Supervision.Quiet.spawnDiff (quiet : state.Quiet) : (state.spawnDiff config).Quiet := by
  rw [Supervision.spawnDiff_eq]
  induction desiredKeys config generalizing state with
  | nil => exact quiet
  | cons key rest inductionHypothesis =>
      refine inductionHypothesis ?_
      rw [Supervision.spawn]
      split
      next => exact quiet
      next =>
        refine ⟨quiet.down, fun task member => ?_⟩
        rcases List.mem_append.mp member with old | new
        · exact quiet.idle task old
        · rw [List.mem_singleton.mp new]
          simp [SupervisorPhase.Busy]

theorem Supervision.Quiet.modify (quiet : state.Quiet) (task : Nat)
    {change : SupervisorTask → SupervisorTask}
    (busy : ∀ before : SupervisorTask, (change before).phase.Busy → before.phase.Busy) :
    Supervision.Quiet { state with tasks := state.tasks.modify task change } := by
  refine ⟨quiet.down, fun next member isBusy => ?_⟩
  obtain ⟨index, found⟩ := List.getElem?_of_mem member
  obtain ⟨before, isBefore, rfl | ⟨-, rfl⟩⟩ := getElem?_modify_eq_some found
  · exact quiet.idle next (List.mem_of_getElem? isBefore) isBusy
  · exact quiet.idle before (List.mem_of_getElem? isBefore) (busy before isBusy)

theorem Supervision.Quiet.advance (quiet : state.Quiet) (index : Nat) :
    (state.advance config index).Quiet := by
  rw [Supervision.advance]
  split
  · split
    · exact ⟨quiet.down, quiet.idle⟩
    · exact quiet
  · split
    · exact ⟨quiet.down, quiet.idle⟩
    next task _ =>
      have exits := quiet.modify task fun before =>
        (id : ({ before with exit := true } : SupervisorTask).phase.Busy → before.phase.Busy)
      exact ⟨exits.down, exits.idle⟩
  · exact ⟨quiet.spawnDiff.down, quiet.spawnDiff.idle⟩
  · exact ⟨quiet.down, quiet.idle⟩
  · split
    · exact ⟨quiet.down, quiet.idle⟩
    · exact quiet
  · exact quiet
  · exact quiet

theorem Supervision.Quiet.step (quiet : state.Quiet) (event : SupervisionEvent) :
    (state.step config event).Quiet := by
  have down : state.shutdown ≠ false := Bool.ne_false_iff.mpr quiet.down
  cases event with
  | start => exact quiet.spawnDiff
  | reconcile => exact ⟨quiet.down, quiet.idle⟩
  | shutdown => exact ⟨rfl, quiet.idle⟩
  | advance index => exact quiet.advance index
  | proceed task =>
      exact quiet.modify task fun before busy =>
        ((SupervisorTask.proceed_follows state.shutdown before).busy busy).resolve_right down
  | timer task =>
      exact quiet.modify task fun before busy =>
        ((SupervisorTask.wake_follows state.shutdown before).busy busy).resolve_right down

/-- Once a shutdown was called and all calls have returned nobody is at work, and nobody will
be. -/
theorem shutdown_quiesces (config : Loader.Config) (events later : List SupervisionEvent) :
    let reached := run (Supervision.step config) .new events
    reached.shutdown = true → (∀ call ∈ reached.calls, call = .returned) →
      ∀ task ∈ (run (Supervision.step config) reached later).tasks, ¬ task.phase.Busy := by
  intro reached down ended
  have sound : reached.Sound config := .run .new events
  have quiet := sound.quiet down ended
  have preserved : ∀ (state : Supervision) event, state.Quiet → (state.step config event).Quiet :=
    fun _ event quiet => quiet.step event
  exact (run_preserves preserved quiet later).idle

/-- After the shutdown a start spawns tasks that only return. -/
theorem shutdown_quiesces_restarted :
    ∀ task ∈ (run (Supervision.step oneAccount)
      (run (Supervision.step oneAccount) .new
        [.start, .proceed 0, .shutdown, .advance 0, .proceed 0, .proceed 0, .advance 0])
      [.start, .proceed 1]).tasks, ¬ task.phase.Busy :=
  shutdown_quiesces oneAccount _ _ rfl (by decide)

/-- The steps a task needs at most to return once the signal is sent. -/
def SupervisorPhase.left : SupervisorPhase → Nat
  | .cycle => 2
  | .loopHead => 1
  | .reported => 1
  | .sleeping => 1
  | .returned => 0

theorem SupervisorPhase.left_le_two (phase : SupervisorPhase) : phase.left ≤ 2 := by
  cases phase <;> decide

theorem SupervisorPhase.left_eq_zero_iff {phase : SupervisorPhase} :
    phase.left = 0 ↔ phase = .returned := by
  cases phase <;> decide

theorem SupervisorTask.proceed_left (task : SupervisorTask) :
    (task.proceed config true).phase.left = task.phase.left - 1 := by
  obtain ⟨key, exit, phase⟩ := task
  cases phase <;> rfl

theorem SupervisorTask.wake_left (task : SupervisorTask) :
    task.wake.phase.left = task.phase.left := by
  obtain ⟨key, exit, phase⟩ := task
  cases phase <;> rfl

/-- The tasks of a state are still there later, each at most that far from its return. -/
def Supervision.Closer (state next : Supervision) (steps : Nat → Nat) : Prop :=
  ∀ (index : Nat) task, state.tasks[index]? = some task → ∃ after, next.tasks[index]? = some after ∧
    after.phase.left ≤ task.phase.left - steps index

theorem Supervision.Closer.of_modify {task : Nat} {change : SupervisorTask → SupervisorTask}
    {steps : Nat → Nat} {next : Supervision}
    (modified : next.tasks = state.tasks.modify task change)
    (elsewhere : ∀ index ≠ task, steps index = 0)
    (own : ∀ before : SupervisorTask,
      (change before).phase.left ≤ before.phase.left - steps task) : state.Closer next steps := by
  intro index before found
  rw [modified, List.getElem?_modify, found]
  refine ⟨_, rfl, ?_⟩
  dsimp only
  split
  next same =>
    cases same
    exact own before
  next other => exact (elsewhere index (Ne.symm other)).symm ▸ Nat.le_refl _

theorem Supervision.Closer.spawnDiff : state.Closer (state.spawnDiff config) fun _ => 0 := by
  rw [Supervision.spawnDiff_eq]
  intro index before found
  refine ⟨before, ?_, Nat.le_refl _⟩
  induction desiredKeys config generalizing state with
  | nil => exact found
  | cons key rest inductionHypothesis =>
      refine inductionHypothesis ?_
      rw [Supervision.spawn]
      split
      next => exact found
      next =>
        have inRange := (List.getElem?_eq_some_iff.mp found).1
        exact (List.getElem?_append_left inRange).trans found

theorem Supervision.Closer.advance (index : Nat) :
    state.Closer (state.advance config index) fun _ => 0 := by
  have same : state.Closer state fun _ => 0 := fun _ task found => ⟨task, found, Nat.le_refl _⟩
  rw [Supervision.advance]
  split
  · split <;> exact same
  · split
    · exact same
    next task _ => exact .of_modify rfl (fun _ _ => rfl) fun _ => Nat.le_refl _
  · exact .spawnDiff
  · exact same
  · split <;> exact same
  · exact same
  · exact same

/-- Under the signal no step takes a task back, and its own steps take it on. -/
theorem Supervision.Closer.step (down : state.shutdown = true) (event : SupervisionEvent) :
    state.Closer (state.step config event) fun index =>
      if event = .proceed index then 1 else 0 := by
  cases event with
  | start => exact .spawnDiff
  | reconcile => exact fun _ task found => ⟨task, found, Nat.le_refl _⟩
  | shutdown => exact fun _ task found => ⟨task, found, Nat.le_refl _⟩
  | advance index => exact .advance index
  | proceed task =>
      refine .of_modify rfl (fun index other => if_neg ?_) fun before => ?_
      · exact fun same => other (SupervisionEvent.proceed.inj same).symm
      · rw [if_pos rfl, down, SupervisorTask.proceed_left]
  | timer task =>
      exact .of_modify rfl (fun _ _ => rfl) fun before => (SupervisorTask.wake_left before).le

theorem Supervision.spawnDiff_shutdown (state : Supervision) :
    (state.spawnDiff config).shutdown = state.shutdown := by
  rw [Supervision.spawnDiff_eq]
  induction desiredKeys config generalizing state with
  | nil => rfl
  | cons key rest inductionHypothesis =>
      rw [List.foldl_cons, inductionHypothesis, Supervision.spawn]
      split <;> rfl

theorem Supervision.step_down (down : state.shutdown = true) (event : SupervisionEvent) :
    (state.step config event).shutdown = true := by
  cases event with
  | start => exact (Supervision.spawnDiff_shutdown state).trans down
  | reconcile => exact down
  | shutdown => rfl
  | advance index =>
      rw [Supervision.step, Supervision.advance]
      split
      · split <;> exact down
      · split <;> exact down
      · exact (Supervision.spawnDiff_shutdown state).trans down
      · exact down
      · split <;> exact down
      · exact down
      · exact down
  | proceed task => exact down
  | timer task => exact down

theorem Supervision.Closer.run (down : state.shutdown = true) (later : List SupervisionEvent) :
    state.Closer (Foundation.run (Supervision.step config) state later) fun index =>
      later.count (.proceed index) := by
  induction later generalizing state with
  | nil => exact fun _ task found => ⟨task, found, Nat.le_refl _⟩
  | cons event rest inductionHypothesis =>
      intro index task found
      have closerStep : state.Closer (state.step config event) _ := .step down event
      have stillDown : (state.step config event).shutdown = true := Supervision.step_down down event
      obtain ⟨after, isAfter, closer⟩ := closerStep index task found
      obtain ⟨last, isLast, closest⟩ := inductionHypothesis stillDown index after isAfter
      refine ⟨last, isLast, closest.trans ?_⟩
      simp only [List.count_cons, beq_iff_eq] at closer ⊢
      omega

/-- A shutdown that has drained the handles stays where it is until it returns. -/
def Supervision.Joins (state : Supervision) (call : Nat) (joins : List Nat) : Prop :=
  state.calls[call]? = some (.joining joins) ∨ state.calls[call]? = some .returned

/-- The step of another call. -/
theorem Supervision.Joins.set {call : Nat} {joins : List Nat} (isJoining : state.Joins call joins)
    {index : Nat} {old new : SchedulerCall} (isCall : state.calls[index]? = some old)
    (notJoining : ∀ joins, old ≠ .joining joins) (notReturned : old ≠ .returned)
    {next : Supervision} (isSet : next.calls = state.calls.set index new) :
    next.Joins call joins := by
  have apart : index ≠ call := by
    rintro rfl
    rcases isJoining with joining | returned
    · exact notJoining joins (Option.some.inj (isCall.symm.trans joining))
    · exact notReturned (Option.some.inj (isCall.symm.trans returned))
  rw [Supervision.Joins, isSet, List.getElem?_set_ne apart]
  exact isJoining

theorem Supervision.Joins.advance {call : Nat} {joins : List Nat}
    (isJoining : state.Joins call joins) (index : Nat) :
    (state.advance config index).Joins call joins := by
  rw [Supervision.advance]
  cases isCall : state.calls[index]? with
  | none => exact isJoining
  | some old =>
      cases old with
      | reconciling remaining awaited =>
          have other : ∀ {next : Supervision} {new : SchedulerCall},
              next.calls = state.calls.set index new → next.Joins call joins :=
            isJoining.set isCall (by simp) (by simp)
          cases awaited with
          | some task =>
              dsimp only
              split
              · exact other rfl
              · exact isJoining
          | none =>
              cases remaining with
              | nil => exact other rfl
              | cons key rest =>
                  dsimp only
                  split
                  · exact other rfl
                  · exact other rfl
      | signalled => exact isJoining.set isCall (by simp) (by simp) rfl
      | joining awaited =>
          dsimp only
          split
          next =>
            by_cases same : index = call
            · refine .inr ?_
              rw [← same]
              exact List.getElem?_set_self (List.getElem?_eq_some_iff.mp isCall).1
            · rw [Supervision.Joins, List.getElem?_set_ne same]
              exact isJoining
          next => exact isJoining
      | returned => exact isJoining

theorem Supervision.Joins.step {call : Nat} {joins : List Nat} (isJoining : state.Joins call joins)
    (event : SupervisionEvent) : (state.step config event).Joins call joins := by
  have appended : ∀ more, (state.calls ++ more)[call]? = state.calls[call]? := by
    intro more
    refine List.getElem?_append_left ?_
    rcases isJoining with joining | returned
    · exact (List.getElem?_eq_some_iff.mp joining).1
    · exact (List.getElem?_eq_some_iff.mp returned).1
  cases event with
  | start =>
      rw [Supervision.step, Supervision.Joins, Supervision.spawnDiff_calls]
      exact isJoining
  | reconcile =>
      rw [Supervision.step, Supervision.Joins, appended]
      exact isJoining
  | shutdown =>
      rw [Supervision.step, Supervision.Joins, appended]
      exact isJoining
  | advance index => exact isJoining.advance index
  | proceed task => exact isJoining
  | timer task => exact isJoining

/-- A shutdown returns as soon as each task that was there has taken the rest of its cycle and
the two checks, whatever else is called and happens meanwhile. -/
theorem shutdown_completes (config : Loader.Config) (events later : List SupervisionEvent) :
    let before := run (Supervision.step config) .new events
    let call := before.calls.length
    (∀ index < before.tasks.length, 2 ≤ later.count (.proceed index)) →
      (run (Supervision.step config) before
        (.shutdown :: .advance call :: later ++ [.advance call])).calls[call]? =
          some .returned := by
  intro before call enough
  have sound : before.Sound config := .run .new events
  let drained := run (Supervision.step config) before [.shutdown, .advance call]
  let last := run (Supervision.step config) drained later
  have isCall : (before.calls ++ [.signalled])[call]? = some .signalled :=
    List.getElem?_concat_length
  have isDrained : drained = { before with
      shutdown := true
      handles := []
      calls := (before.calls ++ [SchedulerCall.signalled]).set call
        (.joining (before.handles.map Prod.snd)) } := by
    simp only [drained, run_cons, run_nil, Supervision.step, Supervision.advance, isCall]
  have joins : last.Joins call (before.handles.map Prod.snd) := by
    have started : drained.Joins call (before.handles.map Prod.snd) := by
      rw [isDrained]
      exact .inl (List.getElem?_set_self (List.getElem?_eq_some_iff.mp isCall).1)
    have preserved : ∀ (state : Supervision) event,
        state.Joins call (before.handles.map Prod.snd) →
        (state.step config event).Joins call (before.handles.map Prod.snd) :=
      fun _ event joins => joins.step event
    exact run_preserves preserved started later
  have drainedDown : drained.shutdown = true := by rw [isDrained]
  have closer : drained.Closer (run (Supervision.step config) drained later) _ :=
    .run drainedDown later
  have ended : ∀ index ∈ before.handles.map Prod.snd, last.hasReturned index = true := by
    intro index member
    obtain ⟨handle, held, rfl⟩ := List.mem_map.mp member
    have inRange := sound.linked handle held
    obtain ⟨after, isAfter, close⟩ := closer handle.2 before.tasks[handle.2] (by
      rw [isDrained]
      exact List.getElem?_eq_getElem inRange)
    have twice := enough handle.2 inRange
    have nearly : before.tasks[handle.2].phase.left ≤ 2 := SupervisorPhase.left_le_two _
    have isOver : after.phase.left = 0 := by
      omega
    rw [Supervision.hasReturned, isAfter]
    exact decide_eq_true (SupervisorPhase.left_eq_zero_iff.mp isOver)
  rw [List.cons_append, List.cons_append, run_cons, run_cons, run_append]
  show (last.advance config call).calls[call]? = some .returned
  rcases joins with joining | returned
  · simp only [Supervision.advance, joining, List.all_eq_true.mpr ended, if_true]
    exact List.getElem?_set_self (List.getElem?_eq_some_iff.mp joining).1
  · simp only [Supervision.advance, returned]

theorem shutdown_completes_in_cycle :
    (run (Supervision.step oneAccount)
      (run (Supervision.step oneAccount) .new [.start, .proceed 0])
      [.shutdown, .advance 0, .proceed 0, .proceed 0, .advance 0]).calls[0]? = some .returned := by
  refine shutdown_completes oneAccount [.start, .proceed 0] [.proceed 0, .proceed 0] ?_
  intro index inRange
  obtain rfl : index = 0 := Nat.lt_one_iff.mp inRange
  decide

end Shutdown

end Scryd.Imap
