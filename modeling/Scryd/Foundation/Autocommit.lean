import Scryd.Foundation.Run

/-!
# Scripts without a transaction

A script issues statements one after the other.  What it issues next may depend
on what the database holds by then.  Every statement commits on its own: a
statement that fails leaves behind what the statements before it have done.
-/

namespace Scryd.Foundation

universe u v w

variable {State : Type u} {Error : Type v} {Result : Type w}

/-- A data-dependent sequence of statements.  A read is a statement that keeps the content
and hands it on. -/
inductive Script (State : Type u) (Error : Type v) (Result : Type w) where
  | done (result : Result)
  | issue (statement : State → Except Error State) (next : State → Script State Error Result)

namespace Script

/-- Perform a script.  `fault` is the number of statements that go through before one fails
for a reason of its own. -/
def perform (failure : Error) : Script State Error Result → Option Nat → State →
    Except Error Result × State
  | .done result, _, state => (.ok result, state)
  | .issue _ _, some 0, state => (.error failure, state)
  | .issue statement next, some (fault + 1), state =>
      match statement state with
      | .error error => (.error error, state)
      | .ok after => (next after).perform failure (some fault) after
  | .issue statement next, none, state =>
      match statement state with
      | .error error => (.error error, state)
      | .ok after => (next after).perform failure none after

section Perform

variable {failure : Error} {state : State} {fault : Nat}

@[simp] theorem perform_done (result : Result) (fault : Option Nat) :
    (done result : Script State Error Result).perform failure fault state =
      (.ok result, state) := by
  cases fault with
  | none => rfl
  | some fault => cases fault <;> rfl

@[simp] theorem perform_issue_zero (statement : State → Except Error State)
    (next : State → Script State Error Result) :
    (issue statement next).perform failure (some 0) state = (.error failure, state) := rfl

theorem perform_issue_succ {statement : State → Except Error State} {after : State}
    (next : State → Script State Error Result) (succeeds : statement state = .ok after) :
    (issue statement next).perform failure (some (fault + 1)) state =
      (next after).perform failure (some fault) after := by
  simp only [perform, succeeds]

theorem perform_issue_none {statement : State → Except Error State} {after : State}
    (next : State → Script State Error Result) (succeeds : statement state = .ok after) :
    (issue statement next).perform failure none state =
      (next after).perform failure none after := by
  simp only [perform, succeeds]

/-- A script that gets through despite a fault gets through as it would without one. -/
theorem perform_none_of_ok {script : Script State Error Result} {fault : Option Nat}
    {state after : State} {result : Result}
    (succeeded : script.perform failure fault state = (.ok result, after)) :
    script.perform failure none state = (.ok result, after) := by
  induction script generalizing fault state with
  | done =>
      rw [perform_done] at succeeded ⊢
      exact succeeded
  | issue statement next inductionHypothesis =>
      cases fault with
      | none => exact succeeded
      | some fault =>
          cases fault with
          | zero => cases succeeded
          | succ fault =>
              cases outcome : statement state with
              | error error => simp [perform, outcome] at succeeded
              | ok content =>
                  rw [perform_issue_succ next outcome] at succeeded
                  rw [perform_issue_none next outcome]
                  exact inductionHypothesis content succeeded

/-- Statements that do not fail on their own, one after the other. -/
def sequence : List (State → State) → Script State Error Unit
  | [] => .done ()
  | change :: rest => .issue (fun state => .ok (change state)) fun _ => sequence rest

/-- A fault stops a sequence after the statements before it, unless it comes too late. -/
theorem perform_sequence (failure : Error) (changes : List (State → State))
    (fault : Option Nat) (state : State) :
    (sequence changes).perform failure fault state =
      match fault.filter (· < changes.length) with
      | some reached =>
          (.error failure,
            (changes.take reached).foldl (fun current change => change current) state)
      | none => (.ok (), changes.foldl (fun current change => change current) state) := by
  induction changes generalizing fault state with
  | nil =>
      cases fault with
      | none => rfl
      | some fault => rw [sequence, perform_done]; rfl
  | cons change rest inductionHypothesis =>
      cases fault with
      | none => exact inductionHypothesis none (change state)
      | some fault =>
          cases fault with
          | zero => rfl
          | succ fault =>
              have later := inductionHypothesis (some fault) (change state)
              simp only [sequence, perform, later, Option.filter_some, List.length_cons,
                Nat.add_lt_add_iff_right, decide_eq_true_eq]
              by_cases early : fault < rest.length
              · simp only [if_pos early, List.take_succ_cons, List.foldl_cons]
              · simp only [if_neg early, List.foldl_cons]

end Perform

end Script

/-- An operation that fails leaves the content as it was. -/
def AllOrNothing (before : State) (outcome : Except Error Result × State) : Prop :=
  ∀ error, outcome.1 = .error error → outcome.2 = before

theorem allOrNothing_ok (before after : State) (result : Result) :
    AllOrNothing before ((.ok result, after) : Except Error Result × State) := by
  intro error failed
  cases failed

theorem allOrNothing_error_iff (before after : State) (error : Error) :
    AllOrNothing before ((.error error, after) : Except Error Result × State) ↔
      after = before := by
  constructor
  · intro allOrNothing
    exact allOrNothing error rfl
  · intro same other failed
    exact same

/-- Assignments of different columns that together change nothing change nothing alone. -/
theorem fixed_of_foldl_fixed {changes : List (State → State)}
    (idempotent : ∀ change ∈ changes, ∀ state, change (change state) = change state)
    (commute : changes.Pairwise fun first second => ∀ state,
      first (second state) = second (first state))
    {state : State} (fixed : changes.foldl (fun current change => change current) state = state) :
    ∀ change ∈ changes, change state = state := by
  induction changes with
  | nil => exact nofun
  | cons change rest inductionHypothesis =>
      obtain ⟨first, later⟩ := List.pairwise_cons.mp commute
      have through : ∀ (others : List (State → State)), (∀ other ∈ others, other ∈ rest) →
          ∀ state, others.foldl (fun current change => change current) (change state) =
            change (others.foldl (fun current change => change current) state) := by
        intro others
        induction others with
        | nil => exact fun _ _ => rfl
        | cons other tail tailHypothesis =>
            intro included state
            rw [List.foldl_cons, List.foldl_cons, ← first other (included other List.mem_cons_self)]
            exact tailHypothesis (fun later membership =>
              included later (List.mem_cons_of_mem other membership)) _
      rw [List.foldl_cons, through rest fun _ membership => membership] at fixed
      have here : change state = state := by
        calc change state
            = change (change (rest.foldl (fun current change => change current) state)) := by
              rw [fixed]
          _ = change (rest.foldl (fun current change => change current) state) :=
              idempotent change List.mem_cons_self _
          _ = state := fixed
      have others : rest.foldl (fun current change => change current) state = state := by
        rw [← through rest (fun _ membership => membership), here] at fixed
        exact fixed
      intro other membership
      rcases List.mem_cons.mp membership with rfl | inRest
      · exact here
      · exact inductionHypothesis (fun later membership =>
          idempotent later (List.mem_cons_of_mem change membership)) later others other inRest

end Scryd.Foundation
