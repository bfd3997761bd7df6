import Scryd.Foundation.Run
import Mathlib.Logic.Function.Basic

/-!
# Publishing files by renaming

Writers put their content into sidecars of their own, in pieces, and rename the
complete sidecar over the final name.  They run beside each other and may die
at any moment.  As long as no two of them share a sidecar and no sidecar is a
final name, a reader of a final name cannot tell this from writes that happen
at once.
-/

namespace Scryd.Foundation

universe u v w

/-- The content of the files, by name. -/
abbrev Directory (Name : Type u) (Byte : Type v) := Name → Option (List Byte)

/-- What a writer is to publish. -/
structure Publication (Name : Type u) (Byte : Type v) where
  sidecar : Name
  target : Name
  payload : List Byte

/-- How far a writer has got. -/
inductive Stage where
  | waiting
  | writing (written : Nat)
  | synced
  | done
  | dead
  deriving DecidableEq

inductive WriterMove where
  /-- Create the sidecar, or truncate it. -/
  | create
  /-- Write the next bytes of the payload, at most so many. -/
  | write (count : Nat)
  | sync
  | rename
  /-- Fail, or be killed. -/
  | die

/-- The files, the stages and the writers that have renamed, in this order. -/
structure Publishing (Name : Type u) (Byte : Type v) (Writer : Type w) where
  files : Directory Name Byte
  stage : Writer → Stage
  published : List Writer

section Content

variable {Name : Type u} {Byte : Type v}

/-- Bytes written into a content at an offset. -/
def overwrite (content : List Byte) (offset : Nat) (piece : List Byte) : List Byte :=
  content.take offset ++ piece ++ content.drop (offset + piece.length)

theorem overwrite_take (payload : List Byte) (written count : Nat) :
    overwrite (payload.take written) written ((payload.drop written).take count) =
      payload.take (written + ((payload.drop written).take count).length) := by
  have beyond : (payload.take written).drop
      (written + ((payload.drop written).take count).length) = [] := by
    rw [List.drop_eq_nil_iff]
    exact Nat.le_trans (List.length_take_le _ _) (Nat.le_add_right _ _)
  have piece : (payload.drop written).take ((payload.drop written).take count).length =
      (payload.drop written).take count := by
    rw [List.length_take, List.take_eq_take_iff]
    omega
  rw [overwrite, beyond, List.append_nil, List.take_take, Nat.min_self, List.take_add, piece]

/-- What a writer has put into its sidecar. -/
def SidecarHolds (job : Publication Name Byte) (files : Directory Name Byte) : Stage → Prop
  | .writing written =>
      written ≤ job.payload.length ∧ files job.sidecar = some (job.payload.take written)
  | .synced => files job.sidecar = some job.payload
  | _ => True

theorem SidecarHolds.congr {job : Publication Name Byte} {files next : Directory Name Byte}
    {stage : Stage} (holds : SidecarHolds job files stage)
    (same : next job.sidecar = files job.sidecar) : SidecarHolds job next stage := by
  unfold SidecarHolds at holds ⊢
  split at holds
  · rwa [same]
  · rwa [same]
  · trivial

end Content

section Moves

variable {Name : Type u} {Byte : Type v} {Writer : Type w}

def Publishing.started (files : Directory Name Byte) : Publishing Name Byte Writer :=
  ⟨files, fun _ => .waiting, []⟩

variable [DecidableEq Writer]

def Publishing.moveTo (state : Publishing Name Byte Writer) (writer : Writer) (stage : Stage)
    (files : Directory Name Byte) : Publishing Name Byte Writer :=
  { state with files := files, stage := Function.update state.stage writer stage }

@[simp] theorem Publishing.moveTo_files (state : Publishing Name Byte Writer) (writer : Writer)
    (stage : Stage) (files : Directory Name Byte) :
    (state.moveTo writer stage files).files = files := rfl

@[simp] theorem Publishing.moveTo_published (state : Publishing Name Byte Writer)
    (writer : Writer) (stage : Stage) (files : Directory Name Byte) :
    (state.moveTo writer stage files).published = state.published := rfl

@[simp] theorem Publishing.moveTo_self (state : Publishing Name Byte Writer) (writer : Writer)
    (stage : Stage) (files : Directory Name Byte) :
    (state.moveTo writer stage files).stage writer = stage := Function.update_self ..

theorem Publishing.moveTo_of_ne (state : Publishing Name Byte Writer) {writer other : Writer}
    (different : other ≠ writer) (stage : Stage) (files : Directory Name Byte) :
    (state.moveTo writer stage files).stage other = state.stage other :=
  Function.update_of_ne different ..

/-- The writer has renamed its sidecar. -/
def Publishing.publish (state : Publishing Name Byte Writer) (writer : Writer)
    (files : Directory Name Byte) : Publishing Name Byte Writer :=
  { state.moveTo writer .done files with published := state.published ++ [writer] }

@[simp] theorem Publishing.publish_files (state : Publishing Name Byte Writer) (writer : Writer)
    (files : Directory Name Byte) : (state.publish writer files).files = files := rfl

@[simp] theorem Publishing.publish_published (state : Publishing Name Byte Writer)
    (writer : Writer) (files : Directory Name Byte) :
    (state.publish writer files).published = state.published ++ [writer] := rfl

theorem Publishing.publish_stage (state : Publishing Name Byte Writer) (writer : Writer)
    (files : Directory Name Byte) :
    (state.publish writer files).stage = (state.moveTo writer .done files).stage := rfl

end Moves

section Apart

variable {Name : Type u} {Byte : Type v} {Writer : Type w} (jobs : Writer → Publication Name Byte)

/-- No two writers share a sidecar, and nobody publishes under the name of one. -/
structure SidecarsApart : Prop where
  injective : Function.Injective fun writer => (jobs writer).sidecar
  unpublished : ∀ writer other, (jobs writer).sidecar ≠ (jobs other).target

variable {jobs} [DecidableEq Writer] {next : Directory Name Byte}
  {state : Publishing Name Byte Writer}

/-- A change of one sidecar leaves the others alone. -/
theorem SidecarsApart.holds_moveTo (apart : SidecarsApart jobs)
    (holds : ∀ writer, SidecarHolds (jobs writer) state.files (state.stage writer))
    {writer : Writer} {stage : Stage}
    (here : SidecarHolds (jobs writer) next stage)
    (elsewhere : ∀ name, name ≠ (jobs writer).sidecar → (∀ other, name ≠ (jobs other).target) →
      next name = state.files name) (other : Writer) :
    SidecarHolds (jobs other) next ((state.moveTo writer stage next).stage other) := by
  by_cases same : other = writer
  · subst same
    rwa [Publishing.moveTo_self]
  · rw [Publishing.moveTo_of_ne _ same]
    exact (holds other).congr (elsewhere _ (fun shared => same (apart.injective shared))
      fun target => apart.unpublished other target)

end Apart

section Reference

variable {Name : Type u} {Byte : Type v} {Writer : Type w} [DecidableEq Name]

/-- The write of a payload that happens at once. -/
def publishAtOnce (files : Directory Name Byte) (job : Publication Name Byte) :
    Directory Name Byte :=
  Function.update files job.target (some job.payload)

/-- Writes at once leave the content that was there, or that of the last one. -/
theorem foldl_publishAtOnce (initial : Directory Name Byte)
    (published : List (Publication Name Byte)) (name : Name) :
    (published.foldl publishAtOnce initial name = initial name ∧
        ∀ job ∈ published, job.target ≠ name) ∨
      ∃ earlier job later, published = earlier ++ job :: later ∧ job.target = name ∧
        published.foldl publishAtOnce initial name = some job.payload ∧
        ∀ other ∈ later, other.target ≠ name := by
  induction published generalizing initial with
  | nil => exact .inl ⟨rfl, nofun⟩
  | cons job rest inductionHypothesis =>
      rw [List.foldl_cons]
      rcases inductionHypothesis (publishAtOnce initial job) with
        ⟨same, none_later⟩ | ⟨earlier, last, later, rfl, isTarget, content, none_later⟩
      · by_cases isTarget : job.target = name
        · apply Or.inr
          refine ⟨[], job, rest, rfl, isTarget, ?_, none_later⟩
          rw [same, publishAtOnce, isTarget, Function.update_self]
        · apply Or.inl
          rw [same, publishAtOnce, Function.update_of_ne (Ne.symm isTarget)]
          exact ⟨rfl, List.forall_mem_cons.mpr ⟨isTarget, none_later⟩⟩
      · exact .inr ⟨job :: earlier, last, later, rfl, isTarget, content, none_later⟩

variable (jobs : Writer → Publication Name Byte)

/-- The sidecars hold what was written, the names that are no sidecars what was published, and
exactly the writers that are done have published, each once. -/
structure PublishingInvariant (initial : Directory Name Byte)
    (state : Publishing Name Byte Writer) : Prop where
  sidecars : ∀ writer, SidecarHolds (jobs writer) state.files (state.stage writer)
  targets : ∀ name, (∀ writer, (jobs writer).sidecar ≠ name) →
    state.files name = (state.published.map jobs).foldl publishAtOnce initial name
  done : ∀ writer, writer ∈ state.published ↔ state.stage writer = .done
  once : state.published.Nodup

theorem PublishingInvariant.started (jobs : Writer → Publication Name Byte)
    (initial : Directory Name Byte) : PublishingInvariant jobs initial (.started initial) where
  sidecars _ := trivial
  targets _ _ := rfl
  done writer := by simp [Publishing.started]
  once := List.nodup_nil

end Reference

section Step

variable {Name : Type u} {Byte : Type v} {Writer : Type w} [DecidableEq Name]
  [DecidableEq Writer] (jobs : Writer → Publication Name Byte)

/-- A move of one writer.  A move that does not fit its stage does nothing; a writer whose
sidecar is gone dies. -/
def publishStep (state : Publishing Name Byte Writer) (event : Writer × WriterMove) :
    Publishing Name Byte Writer :=
  let (writer, move) := event
  let job := jobs writer
  match state.stage writer, move with
  | .waiting, .create =>
      state.moveTo writer (.writing 0) (Function.update state.files job.sidecar (some []))
  | .writing written, .write count =>
      let piece := (job.payload.drop written).take count
      match state.files job.sidecar with
      | none => state.moveTo writer .dead state.files
      | some content =>
          state.moveTo writer (.writing (written + piece.length))
            (Function.update state.files job.sidecar (some (overwrite content written piece)))
  | .writing written, .sync =>
      if written = job.payload.length then state.moveTo writer .synced state.files else state
  | .synced, .rename =>
      match state.files job.sidecar with
      | none => state.moveTo writer .dead state.files
      | some content =>
          state.publish writer (Function.update
            (Function.update state.files job.sidecar none) job.target (some content))
  | .done, _ => state
  | _, .die => state.moveTo writer .dead state.files
  | _, _ => state

variable {jobs} {initial : Directory Name Byte} {state : Publishing Name Byte Writer}

/-- Everything a move can do: nothing; leave the files alone; write a sidecar; publish. -/
theorem publishStep_cases (holds : ∀ writer, SidecarHolds (jobs writer) state.files
    (state.stage writer)) (writer : Writer) (move : WriterMove) :
    publishStep jobs state (writer, move) = state ∨
    (state.stage writer ≠ .done ∧
      ((∃ stage, stage ≠ .done ∧ SidecarHolds (jobs writer) state.files stage ∧
          publishStep jobs state (writer, move) = state.moveTo writer stage state.files) ∨
        (∃ written, written ≤ (jobs writer).payload.length ∧
          publishStep jobs state (writer, move) = state.moveTo writer (.writing written)
            (Function.update state.files (jobs writer).sidecar
              (some ((jobs writer).payload.take written)))) ∨
        publishStep jobs state (writer, move) = state.publish writer (publishAtOnce
          (Function.update state.files (jobs writer).sidecar none) (jobs writer)))) := by
  have held := holds writer
  cases at_ : state.stage writer with
  | waiting =>
      cases move with
      | create => exact .inr ⟨nofun, .inr (.inl ⟨0, Nat.zero_le _, by simp [publishStep, at_]⟩)⟩
      | die => exact .inr ⟨nofun, .inl ⟨.dead, nofun, trivial, by simp [publishStep, at_]⟩⟩
      | write count => exact .inl (by simp [publishStep, at_])
      | sync => exact .inl (by simp [publishStep, at_])
      | rename => exact .inl (by simp [publishStep, at_])
  | writing written =>
      rw [at_] at held
      obtain ⟨bounded, content⟩ := held
      cases move with
      | create => exact .inl (by simp [publishStep, at_])
      | rename => exact .inl (by simp [publishStep, at_])
      | die => exact .inr ⟨nofun, .inl ⟨.dead, nofun, trivial, by simp [publishStep, at_]⟩⟩
      | write count =>
          refine .inr ⟨nofun, .inr (.inl
            ⟨written + (((jobs writer).payload.drop written).take count).length, ?_, ?_⟩)⟩
          · simp only [List.length_take, List.length_drop]
            omega
          · simp only [publishStep, at_, content, overwrite_take]
      | sync =>
          by_cases complete : written = (jobs writer).payload.length
          · refine .inr ⟨nofun, .inl ⟨.synced, nofun, ?_, by simp [publishStep, at_, complete]⟩⟩
            rw [SidecarHolds, content, complete, List.take_length]
          · exact .inl (by simp [publishStep, at_, complete])
  | synced =>
      rw [at_] at held
      have content : state.files (jobs writer).sidecar = some (jobs writer).payload := held
      cases move with
      | rename =>
          exact .inr ⟨nofun, .inr (.inr (by
            simp only [publishStep, at_, content, publishAtOnce]))⟩
      | die => exact .inr ⟨nofun, .inl ⟨.dead, nofun, trivial, by simp [publishStep, at_]⟩⟩
      | create => exact .inl (by simp [publishStep, at_])
      | write count => exact .inl (by simp [publishStep, at_])
      | sync => exact .inl (by simp [publishStep, at_])
  | done => exact .inl (by simp [publishStep, at_])
  | dead =>
      cases move with
      | die => exact .inr ⟨nofun, .inl ⟨.dead, nofun, trivial, by simp [publishStep, at_]⟩⟩
      | create => exact .inl (by simp [publishStep, at_])
      | write count => exact .inl (by simp [publishStep, at_])
      | sync => exact .inl (by simp [publishStep, at_])
      | rename => exact .inl (by simp [publishStep, at_])

/-- One step of the simulation. -/
theorem PublishingInvariant.step (apart : SidecarsApart jobs)
    (invariant : PublishingInvariant jobs initial state) (event : Writer × WriterMove) :
    PublishingInvariant jobs initial (publishStep jobs state event) := by
  obtain ⟨writer, move⟩ := event
  have stillDone : ∀ {stage next}, state.stage writer ≠ .done → stage ≠ .done → ∀ other,
      other ∈ state.published ↔ (state.moveTo writer stage next).stage other = .done := by
    intro stage next notDone notNow other
    rw [invariant.done]
    by_cases same : other = writer
    · subst same
      rw [Publishing.moveTo_self]
      exact iff_of_false notDone notNow
    · rw [Publishing.moveTo_of_ne _ same]
  rcases publishStep_cases invariant.sidecars writer move with
    same | ⟨notDone, ⟨stage, notNow, here, same⟩ | ⟨written, bounded, same⟩ | same⟩
  · rwa [same]
  · rw [same]
    exact ⟨apart.holds_moveTo invariant.sidecars here fun _ _ _ => rfl, invariant.targets,
      stillDone notDone notNow, invariant.once⟩
  · rw [same]
    refine ⟨apart.holds_moveTo invariant.sidecars ⟨bounded, Function.update_self ..⟩
      fun name other _ => Function.update_of_ne other .., ?_, stillDone notDone nofun,
      invariant.once⟩
    intro name noSidecar
    rw [Publishing.moveTo_files, Function.update_of_ne (noSidecar writer).symm]
    exact invariant.targets name noSidecar
  · rw [same]
    have unpublished : writer ∉ state.published := mt (invariant.done writer).mp notDone
    have nothingHeld : ∀ files, SidecarHolds (jobs writer) files .done := fun _ => trivial
    refine ⟨apart.holds_moveTo invariant.sidecars (nothingHeld _) ?_, ?_, ?_, ?_⟩
    · intro name other noTarget
      rw [Publishing.publish_files, publishAtOnce, Function.update_of_ne (noTarget writer),
        Function.update_of_ne other]
    · intro name noSidecar
      rw [Publishing.publish_published, List.map_append, List.foldl_append, List.map_singleton,
        List.foldl_cons, List.foldl_nil, Publishing.publish_files, publishAtOnce, publishAtOnce]
      by_cases target : name = (jobs writer).target
      · rw [target, Function.update_self, Function.update_self]
      · rw [Function.update_of_ne target, Function.update_of_ne target,
          Function.update_of_ne (noSidecar writer).symm]
        exact invariant.targets name noSidecar
    · intro other
      rw [Publishing.publish_published, List.mem_append, List.mem_singleton, invariant.done,
        Publishing.publish_stage]
      by_cases isWriter : other = writer
      · subst isWriter
        rw [Publishing.moveTo_self]
        exact iff_of_true (.inr rfl) rfl
      · rw [or_iff_left isWriter, Publishing.moveTo_of_ne _ isWriter]
    · rw [Publishing.publish_published, List.nodup_append]
      refine ⟨invariant.once, List.pairwise_singleton _ _, ?_⟩
      rintro earlier isEarlier latest isLatest rfl
      exact unpublished (List.mem_singleton.mp isLatest ▸ isEarlier)

/-- Whatever the writers do, the names that are no sidecars hold what writes at once would have
left there, in the order in which the writers renamed. -/
theorem PublishingInvariant.run (apart : SidecarsApart jobs) (initial : Directory Name Byte)
    (events : List (Writer × WriterMove)) :
    PublishingInvariant jobs initial (run (publishStep jobs) (.started initial) events) :=
  run_preserves (fun _ event invariant => invariant.step apart event)
    (.started jobs initial) events

/-- Who has renamed stays where it is in the order. -/
theorem PublishingInvariant.published_run (apart : SidecarsApart jobs)
    (invariant : PublishingInvariant jobs initial state) (events : List (Writer × WriterMove)) :
    state.published <+: (Foundation.run (publishStep jobs) state events).published := by
  induction events generalizing state with
  | nil => exact List.prefix_rfl
  | cons event rest inductionHypothesis =>
      refine List.IsPrefix.trans ?_ (inductionHypothesis (invariant.step apart event))
      obtain ⟨writer, move⟩ := event
      rcases publishStep_cases invariant.sidecars writer move with
        same | ⟨-, ⟨stage, -, -, same⟩ | ⟨written, -, same⟩ | same⟩
      · exact ⟨[], by rw [List.append_nil, same]⟩
      · exact ⟨[], by rw [List.append_nil, same, Publishing.moveTo_published]⟩
      · exact ⟨[], by rw [List.append_nil, same, Publishing.moveTo_published]⟩
      · rw [same, Publishing.publish_published]
        exact List.prefix_append _ _

end Step

end Scryd.Foundation
