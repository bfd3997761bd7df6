import Scryd.Search.Drainer
import Scryd.Search.Indexer
import Mathlib.Data.List.Induction

/-!
# When the drainer clusters

`Drainer::run` with arbitrary outcomes of its calls.  The trace records what the
loop does; what is pending is read off the trace, apart from the loop's counter.
-/

namespace Scryd.Search

open Scryd.Foundation Scryd.Storage

inductive DrainerEvent where
  | loopHead
  | flushEmbeddings (outcome : Except IndexError Nat)
  | flushIndex (outcome : Except IndexError Unit)
  | idleWait
  | backoffWait

/-- The documents reported embedded since the last `flush_index`, after one more event. -/
def reported (pending : Nat) : DrainerEvent → Nat
  | .flushEmbeddings (.ok embedded) => pending + embedded
  | .flushIndex _ => 0
  | _ => pending

/-- The documents reported embedded since the last `flush_index` of a trace. -/
def pendingOf (trace : List DrainerEvent) : Nat := trace.foldl reported 0

@[simp] theorem pendingOf_nil : pendingOf [] = 0 := rfl

@[simp] theorem pendingOf_concat (trace : List DrainerEvent) (event : DrainerEvent) :
    pendingOf (trace ++ [event]) = reported (pendingOf trace) event := by
  simp [pendingOf]

/-- What the loop meets in one pass: whether it is cancelled at its head, the outcomes of its
calls, the embed calls by their number, and whether the shutdown ends its wait. -/
structure Pass where
  cancelled : Bool
  tick : Except StorageError Nat
  flushEmbeddings : Nat → Except IndexError Nat
  flushIndex : Except IndexError Unit
  shutdown : Bool

structure RunState where
  embedsSinceLastIndex : Nat
  trace : List DrainerEvent
  returned : Bool

namespace RunState

def started : RunState := ⟨0, [], false⟩

def note (event : DrainerEvent) (state : RunState) : RunState :=
  { state with trace := state.trace ++ [event] }

/-- `run_flush_index`; the error is only logged.  Both of its callers reset the counter. -/
def runFlushIndex (outcome : Except IndexError Unit) (state : RunState) : RunState :=
  { state.note (.flushIndex outcome) with embedsSinceLastIndex := 0 }

/-- The bounded embed loop, with the number of calls made so far. -/
def embedLoop (outcomes : Nat → Except IndexError Nat) : Nat → Nat → RunState → RunState
  | 0, _, state => state
  | rounds + 1, call, state =>
      let asked := state.note (.flushEmbeddings (outcomes call))
      match outcomes call with
      | .ok 0 => asked
      | .ok (embedded + 1) =>
          embedLoop outcomes rounds (call + 1) { asked with
            embedsSinceLastIndex :=
              min (asked.embedsSinceLastIndex + (embedded + 1)) usizeMax }
      | .error _ => asked

/-- One pass of the loop of `Drainer::run`. -/
def pass (state : RunState) (met : Pass) : RunState :=
  if state.returned then state
  else
    let head := state.note .loopHead
    if met.cancelled then { head with returned := true }
    else
      match met.tick with
      | .ok 0 =>
          let clustered :=
            if 0 < head.embedsSinceLastIndex then head.runFlushIndex met.flushIndex else head
          { clustered.note .idleWait with returned := met.shutdown }
      | .ok (_ + 1) =>
          let embedded := head.embedLoop met.flushEmbeddings flushRounds 0
          if indexRebuildThreshold ≤ embedded.embedsSinceLastIndex then
            embedded.runFlushIndex met.flushIndex
          else
            embedded
      | .error _ => { head.note .backoffWait with returned := met.shutdown }

end RunState

section Cadence

/-- What has to be pending, or not, where an event happens. -/
def Timely (pending : Nat) : DrainerEvent → Prop
  | .flushIndex _ => 0 < pending
  | .loopHead => pending < indexRebuildThreshold
  | .idleWait => pending = 0
  | _ => True

/-- Every event of a trace happens in time. -/
def Cadenced (trace : List DrainerEvent) : Prop :=
  ∀ before event after, trace = before ++ event :: after → Timely (pendingOf before) event

theorem cadenced_concat {trace : List DrainerEvent} {event : DrainerEvent}
    (cadenced : Cadenced trace) (timely : Timely (pendingOf trace) event) :
    Cadenced (trace ++ [event]) := by
  intro before other after split
  cases after using List.reverseRecOn with
  | nil =>
      obtain ⟨sameBefore, sameEvent⟩ := List.append_inj' split rfl
      cases sameEvent
      rwa [← sameBefore]
  | append_singleton after last =>
      apply cadenced before other after
      rw [← List.cons_append, ← List.append_assoc] at split
      exact (List.append_inj' split rfl).1

/-- The counter is what is pending, up to saturation, and the trace is in time. -/
structure Counted (state : RunState) : Prop where
  counter : state.embedsSinceLastIndex = min (pendingOf state.trace) usizeMax
  cadenced : Cadenced state.trace

theorem Counted.note {state : RunState} (counted : Counted state) {event : DrainerEvent}
    (timely : Timely (pendingOf state.trace) event)
    (silent : reported (pendingOf state.trace) event = pendingOf state.trace) :
    Counted (state.note event) where
  counter := by
    rw [RunState.note, pendingOf_concat, silent]
    exact counted.counter
  cadenced := cadenced_concat counted.cadenced timely

theorem pendingOf_runFlushIndex (outcome : Except IndexError Unit) (state : RunState) :
    pendingOf (state.runFlushIndex outcome).trace = 0 := pendingOf_concat _ _

theorem Counted.runFlushIndex {state : RunState} (counted : Counted state)
    (positive : 0 < state.embedsSinceLastIndex) (outcome : Except IndexError Unit) :
    Counted (state.runFlushIndex outcome) where
  counter := by
    rw [pendingOf_runFlushIndex]
    rfl
  cadenced := by
    apply cadenced_concat counted.cadenced
    have counter := counted.counter
    simp only [Timely]
    omega

/-- A call of `flush_embeddings` adds what it reports. -/
theorem Counted.embedded {state : RunState} (counted : Counted state) (embedded : Nat) :
    Counted { state.note (.flushEmbeddings (.ok embedded)) with
      embedsSinceLastIndex := min (state.embedsSinceLastIndex + embedded) usizeMax } where
  counter := by
    have counter := counted.counter
    simp only [RunState.note, pendingOf_concat, reported]
    omega
  cadenced := cadenced_concat counted.cadenced trivial

theorem Counted.embedLoop (outcomes : Nat → Except IndexError Nat) (rounds call : Nat)
    {state : RunState} (counted : Counted state) :
    Counted (state.embedLoop outcomes rounds call) := by
  induction rounds generalizing call state with
  | zero => exact counted
  | succ rounds inductionHypothesis =>
      simp only [RunState.embedLoop]
      split
      next answer =>
        rw [answer]
        exact counted.note trivial rfl
      next embedded answer =>
        rw [answer]
        exact inductionHypothesis (call + 1) (counted.embedded (embedded + 1))
      next error answer =>
        rw [answer]
        exact counted.note trivial rfl

/-- Between two passes less than a cluster pass's worth is pending. -/
structure BetweenPasses (state : RunState) : Prop extends Counted state where
  below : state.embedsSinceLastIndex < indexRebuildThreshold

theorem BetweenPasses.pending_eq {state : RunState} (between : BetweenPasses state) :
    pendingOf state.trace = state.embedsSinceLastIndex := by
  have counter := between.counter
  have below := between.below
  have sizes : indexRebuildThreshold ≤ usizeMax := by decide
  omega

theorem BetweenPasses.pass {state : RunState} (between : BetweenPasses state) (met : Pass) :
    BetweenPasses (state.pass met) := by
  have positive : 0 < indexRebuildThreshold := by decide
  have head : Counted (state.note .loopHead) := by
    refine between.toCounted.note ?_ rfl
    rw [between.pending_eq]
    exact between.below
  simp only [RunState.pass]
  split
  · exact between
  · split
    · exact ⟨⟨head.counter, head.cadenced⟩, between.below⟩
    · split
      · -- The queue is empty: whatever is pending is clustered before the wait.
        split
        next pending =>
          have clustered := head.runFlushIndex pending met.flushIndex
          have idle := @Counted.note _ clustered .idleWait (pendingOf_runFlushIndex _ _) rfl
          exact ⟨⟨idle.counter, idle.cadenced⟩, positive⟩
        next none_pending =>
          have empty : pendingOf (state.note .loopHead).trace = 0 := by
            rw [RunState.note, pendingOf_concat]
            exact between.pending_eq.trans (Nat.eq_zero_of_not_pos none_pending)
          have idle := @Counted.note _ head .idleWait empty rfl
          exact ⟨⟨idle.counter, idle.cadenced⟩, between.below⟩
      · have embedded := head.embedLoop met.flushEmbeddings flushRounds 0
        split
        next full =>
          exact ⟨embedded.runFlushIndex (positive.trans_le full) met.flushIndex, positive⟩
        next => exact ⟨embedded, by omega⟩
      · have waited := @Counted.note _ head .backoffWait trivial rfl
        exact ⟨⟨waited.counter, waited.cadenced⟩, between.below⟩

theorem betweenPasses_started : BetweenPasses .started where
  counter := rfl
  cadenced before event after split := by simp [RunState.started] at split
  below := by decide

theorem betweenPasses_run (passes : List Pass) :
    BetweenPasses (run RunState.pass .started passes) :=
  run_preserves (fun _ met between => between.pass met) betweenPasses_started passes

/-- In every run of the drainer a cluster pass has something to cluster, less than a pass's
worth is pending at every loop head, and nothing is pending where the loop waits. -/
theorem run_cadence (passes : List Pass) {before after : List DrainerEvent}
    {event : DrainerEvent}
    (happened : (run RunState.pass .started passes).trace = before ++ event :: after) :
    ((∃ outcome, event = .flushIndex outcome) → 0 < pendingOf before) ∧
      (event = .loopHead → pendingOf before < indexRebuildThreshold) ∧
      (event = .idleWait → pendingOf before = 0) := by
  have timely := (betweenPasses_run passes).cadenced before event after happened
  refine ⟨?_, ?_, ?_⟩
  · rintro ⟨outcome, rfl⟩
    exact timely
  · rintro rfl
    exact timely
  · rintro rfl
    exact timely

/-- Two batches of one embed call each; the second one fills a cluster pass. -/
theorem run_cadence_two_batches :
    0 < pendingOf [.loopHead, .flushEmbeddings (.ok 200), .flushEmbeddings (.ok 0), .loopHead,
      .flushEmbeddings (.ok 60), .flushEmbeddings (.error (.io "disk full"))] := by
  let embeds := fun embedded outcome : Except IndexError Nat => fun call : Nat =>
    if call = 0 then embedded else outcome
  have cadence := @run_cadence
    [⟨false, .ok 32, embeds (.ok 200) (.ok 0), .ok (), false⟩,
      ⟨false, .ok 32, embeds (.ok 60) (.error (.io "disk full")), .ok (), false⟩]
    [.loopHead, .flushEmbeddings (.ok 200), .flushEmbeddings (.ok 0), .loopHead,
      .flushEmbeddings (.ok 60), .flushEmbeddings (.error (.io "disk full"))] []
    (.flushIndex (.ok ())) rfl
  exact cadence.1 ⟨_, rfl⟩

end Cadence

section Indexer

variable {order : ScanOrder} {embedder : EmbedChunks}

/-- The pass of a drainer over its indexer: the embed calls embed one slice after the other. -/
def passOf (order : ScanOrder) (embedder : EmbedChunks) (drainer : DrainerState)
    (env : TickEnv) : Pass where
  cancelled := false
  tick :=
    match tick order env drainer.indexer with
    | some (attempted, _) => .ok attempted
    | none => .error (.sqlite "queue read failed")
  flushEmbeddings call :=
    match tick order env drainer.indexer with
    | some (_, indexer) =>
        .ok (Search.flushEmbeddings embedder
          ((fun state => (Search.flushEmbeddings embedder state).2)^[call] indexer)).1
    | none => .ok 0
  flushIndex := .ok ()
  shutdown := false

/-- The embed loop counts what the slices of the indexer amount to. -/
theorem embedLoop_flushLoop (indexer : State) (rounds call : Nat) (state : RunState)
    {outcomes : Nat → Except IndexError Nat}
    (slices : ∀ later, outcomes later = .ok (Search.flushEmbeddings embedder
      ((fun state => (Search.flushEmbeddings embedder state).2)^[later] indexer)).1) :
    (state.embedLoop outcomes rounds call).embedsSinceLastIndex =
      (flushLoop embedder rounds
        ((fun state => (Search.flushEmbeddings embedder state).2)^[call] indexer)
        state.embedsSinceLastIndex).2 := by
  induction rounds generalizing call state with
  | zero => rfl
  | succ rounds inductionHypothesis =>
      have next := Function.iterate_succ_apply'
        (fun state => (Search.flushEmbeddings embedder state).2) call indexer
      simp only [RunState.embedLoop, flushLoop, slices call]
      generalize (fun state => (Search.flushEmbeddings embedder state).2)^[call] indexer = current
        at next ⊢
      cases slice : Search.flushEmbeddings embedder current with
      | mk embedded after =>
          rw [slice] at next
          cases embedded with
          | zero => rfl
          | succ embedded =>
              dsimp only at next ⊢
              rw [inductionHypothesis, next]
              rfl

theorem embedLoop_returned (outcomes : Nat → Except IndexError Nat) (rounds call : Nat)
    (state : RunState) :
    (state.embedLoop outcomes rounds call).returned = state.returned := by
  induction rounds generalizing call state with
  | zero => rfl
  | succ rounds inductionHypothesis =>
      simp only [RunState.embedLoop]
      split
      · rfl
      · rw [inductionHypothesis]
        rfl
      · rfl

/-- The drainer over its indexer counts as the loop does. -/
theorem pass_iterate {drainer : DrainerState} {state : RunState} (env : TickEnv)
    (running : state.returned = false)
    (same : state.embedsSinceLastIndex = drainer.embedsSinceLastIndex) :
    (state.pass (passOf order embedder drainer env)).embedsSinceLastIndex =
        (iterate order embedder drainer env).embedsSinceLastIndex ∧
      (state.pass (passOf order embedder drainer env)).returned = false := by
  simp only [RunState.pass, running, Bool.false_eq_true, if_false]
  cases ticked : tick order env drainer.indexer with
  | none => simp [passOf, iterate, ticked, RunState.note, same]
  | some result =>
      obtain ⟨attempted, indexer⟩ := result
      cases attempted with
      | zero =>
          simp only [passOf, iterate, ticked, RunState.note, Bool.false_eq_true, if_false, and_true]
          split
          · rfl
          next none_pending => exact Nat.eq_zero_of_not_pos none_pending
      | succ attempted =>
          have counted := @embedLoop_flushLoop embedder indexer flushRounds 0
            (state.note .loopHead) _ fun later => rfl
          have open_loop := embedLoop_returned (fun call => .ok (Search.flushEmbeddings embedder
            ((fun state => (Search.flushEmbeddings embedder state).2)^[call] indexer)).1)
            flushRounds 0 (state.note .loopHead)
          have sameStart : (state.note .loopHead).embedsSinceLastIndex =
              drainer.embedsSinceLastIndex := same
          simp only [passOf, iterate, ticked, Bool.false_eq_true, if_false]
          generalize (state.note .loopHead).embedLoop _ flushRounds 0 = embedded
            at counted open_loop ⊢
          rw [sameStart, Function.iterate_zero, id_eq] at counted
          rw [counted]
          split
          · exact ⟨rfl, open_loop.trans running⟩
          · exact ⟨counted, open_loop.trans running⟩

end Indexer

end Scryd.Search
