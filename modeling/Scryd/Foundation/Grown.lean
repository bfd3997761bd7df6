import Scryd.Foundation.Autocommit

/-!
# What is never lost

Rows that stay where they are while new ones are appended, and the rules that
carry a preorder from single statements to scripts and runs.
-/

namespace Scryd.Foundation

universe u v w

section Rows

variable {Row : Type u} {keeps : Row → Row → Prop}

/-- Every row is still at its place, changed only as allowed. -/
def Grown (keeps : Row → Row → Prop) (before after : List Row) : Prop :=
  ∀ (index : Nat) row, before[index]? = some row →
    ∃ later, after[index]? = some later ∧ keeps row later

theorem Grown.refl (reflexive : ∀ row, keeps row row) (rows : List Row) :
    Grown keeps rows rows :=
  fun _ row found => ⟨row, found, reflexive row⟩

theorem Grown.trans {before middle after : List Row} (first : Grown keeps before middle)
    (second : Grown keeps middle after)
    (transitive : ∀ first second third, keeps first second → keeps second third →
      keeps first third) : Grown keeps before after := by
  intro index row found
  obtain ⟨between, isBetween, kept⟩ := first index row found
  obtain ⟨later, isLater, stillKept⟩ := second index between isBetween
  exact ⟨later, isLater, transitive _ _ _ kept stillKept⟩

theorem Grown.map {change : Row → Row} (changes : ∀ row, keeps row (change row))
    (rows : List Row) : Grown keeps rows (rows.map change) := by
  intro index row found
  refine ⟨change row, ?_, changes row⟩
  rw [List.getElem?_map, found, Option.map_some]

theorem Grown.append (reflexive : ∀ row, keeps row row) (rows added : List Row) :
    Grown keeps rows (rows ++ added) := by
  intro index row found
  refine ⟨row, ?_, reflexive row⟩
  exact (List.getElem?_append_left (List.getElem?_eq_some_iff.mp found).1).trans found

theorem Grown.later {before after : List Row} (grown : Grown keeps before after) {row : Row}
    (stored : row ∈ before) : ∃ later ∈ after, keeps row later := by
  obtain ⟨index, found⟩ := List.getElem?_of_mem stored
  obtain ⟨later, isLater, kept⟩ := grown index row found
  exact ⟨later, List.mem_of_getElem? isLater, kept⟩

end Rows

section Preorder

variable {State : Type u} {Event : Type v} {Error : Type v} {Result : Type w}
  {related : State → State → Prop}

/-- What relates each step to the state before it relates a run to its start. -/
theorem run_extends {step : State → Event → State} (reflexive : ∀ state, related state state)
    (transitive : ∀ first second third, related first second → related second third →
      related first third)
    (steps : ∀ state event, related state (step state event)) (state : State)
    (events : List Event) : related state (run step state events) := by
  induction events generalizing state with
  | nil => exact reflexive state
  | cons event rest inductionHypothesis =>
      exact transitive _ _ _ (steps state event) (inductionHypothesis (step state event))

/-- A statement that goes through extends the state. -/
def Extends (related : State → State → Prop) (statement : State → Except Error State) : Prop :=
  ∀ state after, statement state = .ok after → related state after

theorem execute_extends (reflexive : ∀ state, related state state)
    (transitive : ∀ first second third, related first second → related second third →
      related first third)
    {statements : List (State → Except Error State)}
    (extends_ : ∀ statement ∈ statements, Extends related statement) (state : State) :
    related state (execute statements state).2 := by
  induction statements generalizing state with
  | nil => exact reflexive state
  | cons statement rest inductionHypothesis =>
      obtain ⟨here, later⟩ := List.forall_mem_cons.mp extends_
      rw [execute]
      split
      next after done =>
        exact transitive _ _ _ (here state after done) (inductionHypothesis later after)
      next => exact reflexive state

/-- Every statement that a script can come to extends the state. -/
inductive Script.Extending (related : State → State → Prop) : Script State Error Result → Prop where
  | done (result : Result) : Extending related (.done result)
  | issue {statement : State → Except Error State} {next : State → Script State Error Result} :
      Extends related statement → (∀ state, Extending related (next state)) →
      Extending related (.issue statement next)

theorem Script.Extending.perform (reflexive : ∀ state, related state state)
    (transitive : ∀ first second third, related first second → related second third →
      related first third)
    {script : Script State Error Result} (extending : script.Extending related)
    (failure : Error) (fault : Option Nat) (state : State) :
    related state (script.perform failure fault state).2 := by
  induction extending generalizing fault state with
  | done result =>
      rw [Script.perform_done]
      exact reflexive state
  | @issue statement next extends_ _ inductionHypothesis =>
      cases fault with
      | none =>
          cases issued : statement state with
          | error error =>
              simp only [Script.perform, issued]
              exact reflexive state
          | ok after =>
              rw [Script.perform_issue_none next issued]
              exact transitive _ _ _ (extends_ state after issued)
                (inductionHypothesis after none after)
      | some fault =>
          cases fault with
          | zero => exact reflexive state
          | succ fault =>
              cases issued : statement state with
              | error error =>
                  simp only [Script.perform, issued]
                  exact reflexive state
              | ok after =>
                  rw [Script.perform_issue_succ next issued]
                  exact transitive _ _ _ (extends_ state after issued)
                    (inductionHypothesis after (some fault) after)

end Preorder

end Scryd.Foundation
