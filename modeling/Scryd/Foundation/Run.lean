import Mathlib.Data.List.Forall2
import Mathlib.Logic.Function.Iterate

/-!
# Runs of a deterministic step function

The environment chooses the events, the step function answers them.  `Always`
states a property of every state visited, `Guarded` a condition that every
event of the run meets in the state in which it arrives.
-/

namespace Scryd.Foundation

universe u v

variable {State : Type u} {Event : Type v}

/-- The state reached by answering a list of events. -/
def run (step : State → Event → State) : State → List Event → State
  | state, [] => state
  | state, event :: rest => run step (step state event) rest

/-- Every state visited satisfies the property, the first one included. -/
def Always (step : State → Event → State) (property : State → Prop) :
    State → List Event → Prop
  | state, [] => property state
  | state, event :: rest => property state ∧ Always step property (step state event) rest

/-- Every event meets the guard in the state in which it arrives. -/
def Guarded (step : State → Event → State) (guard : State → Event → Prop) :
    State → List Event → Prop
  | _, [] => True
  | state, event :: rest => guard state event ∧ Guarded step guard (step state event) rest

variable {step : State → Event → State}

@[simp] theorem run_nil (state : State) : run step state [] = state := rfl

@[simp] theorem run_cons (state : State) (event : Event) (rest : List Event) :
    run step state (event :: rest) = run step (step state event) rest := rfl

theorem run_append (state : State) (first second : List Event) :
    run step state (first ++ second) = run step (run step state first) second := by
  induction first generalizing state with
  | nil => rfl
  | cons event rest inductionHypothesis => exact inductionHypothesis (step state event)

theorem guarded_append {guard : State → Event → Prop} (state : State)
    (first second : List Event) :
    Guarded step guard state (first ++ second) ↔
      Guarded step guard state first ∧ Guarded step guard (run step state first) second := by
  induction first generalizing state with
  | nil => exact (and_iff_right trivial).symm
  | cons event rest inductionHypothesis =>
      simp only [List.cons_append, Guarded, run_cons, inductionHypothesis, and_assoc]

theorem Always.head {property : State → Prop} {state : State} {events : List Event}
    (always : Always step property state events) : property state := by
  cases events with
  | nil => exact always
  | cons event rest => exact always.1

theorem Always.last {property : State → Prop} {state : State} {events : List Event}
    (always : Always step property state events) : property (run step state events) := by
  induction events generalizing state with
  | nil => exact always
  | cons event rest inductionHypothesis => exact inductionHypothesis always.2

theorem Always.imp {property weaker : State → Prop} {state : State} {events : List Event}
    (always : Always step property state events)
    (implies : ∀ state, property state → weaker state) :
    Always step weaker state events := by
  induction events generalizing state with
  | nil => exact implies _ always
  | cons event rest inductionHypothesis =>
      exact ⟨implies _ always.1, inductionHypothesis always.2⟩

theorem guarded_of_forall {allowed : Event → Prop} {events : List Event}
    (all : ∀ event ∈ events, allowed event) (state : State) :
    Guarded step (fun _ event => allowed event) state events := by
  induction events generalizing state with
  | nil => trivial
  | cons event rest inductionHypothesis =>
      exact ⟨all event List.mem_cons_self, inductionHypothesis
        (fun later membership => all later (List.mem_cons_of_mem event membership)) _⟩

theorem Guarded.imp {guard weaker : State → Event → Prop} {state : State} {events : List Event}
    (guarded : Guarded step guard state events)
    (implies : ∀ state event, guard state event → weaker state event) :
    Guarded step weaker state events := by
  induction events generalizing state with
  | nil => trivial
  | cons event rest inductionHypothesis =>
      exact ⟨implies state event guarded.1, inductionHypothesis guarded.2⟩

theorem Guarded.and {guard second : State → Event → Prop} {state : State} {events : List Event}
    (guarded : Guarded step guard state events) (also : Guarded step second state events) :
    Guarded step (fun state event => guard state event ∧ second state event) state events := by
  induction events generalizing state with
  | nil => trivial
  | cons event rest inductionHypothesis =>
      exact ⟨⟨guarded.1, also.1⟩, inductionHypothesis guarded.2 also.2⟩

theorem Guarded.imp_of_always {property : State → Prop} {guard weaker : State → Event → Prop}
    {state : State} {events : List Event}
    (guarded : Guarded step guard state events) (always : Always step property state events)
    (implies : ∀ state event, property state → guard state event → weaker state event) :
    Guarded step weaker state events := by
  induction events generalizing state with
  | nil => trivial
  | cons event rest inductionHypothesis =>
      exact ⟨implies state event always.1 guarded.1,
        inductionHypothesis guarded.2 always.2⟩

/-- The invariant rule: what guarded steps preserve holds throughout a guarded run. -/
theorem always_of_guarded {property : State → Prop} {guard : State → Event → Prop}
    (preserved : ∀ state event, property state → guard state event →
      property (step state event))
    {state : State} (initially : property state) {events : List Event}
    (guarded : Guarded step guard state events) : Always step property state events := by
  induction events generalizing state with
  | nil => exact initially
  | cons event rest inductionHypothesis =>
      exact ⟨initially, inductionHypothesis
        (preserved state event initially guarded.1) guarded.2⟩

/-- The unguarded instance of the invariant rule. -/
theorem run_preserves {property : State → Prop}
    (preserved : ∀ state event, property state → property (step state event))
    {state : State} (initially : property state) (events : List Event) :
    property (run step state events) := by
  induction events generalizing state with
  | nil => exact initially
  | cons event rest inductionHypothesis =>
      exact inductionHypothesis (preserved state event initially)

/-- The termination rule: a step that lowers a measure until it is done gets done. -/
theorem exists_iterate_done {advance : State → State} {property done : State → Prop}
    (measure : State → Nat)
    (preserved : ∀ state, property state → property (advance state))
    (lowers : ∀ state, property state → ¬ done state → measure (advance state) < measure state)
    {state : State} (initially : property state) :
    ∃ rounds, done (advance^[rounds] state) := by
  induction bound : measure state using Nat.strongRecOn generalizing state with
  | ind size inductionHypothesis =>
      by_cases finished : done state
      · exact ⟨0, finished⟩
      · have lower := lowers state initially finished
        rw [bound] at lower
        obtain ⟨rounds, later⟩ := inductionHypothesis _ lower (preserved state initially) rfl
        exact ⟨rounds + 1, later⟩

/-- A stronger property holds throughout where the weaker one does and each step extends it. -/
theorem Always.strengthen {property stronger : State → Prop}
    (extends_step : ∀ state event, stronger state → property (step state event) →
      stronger (step state event))
    {state : State} (initially : stronger state) {events : List Event}
    (always : Always step property state events) : Always step stronger state events := by
  induction events generalizing state with
  | nil => exact initially
  | cons event rest inductionHypothesis =>
      exact ⟨initially, inductionHypothesis
        (extends_step state event initially always.2.head) always.2⟩

/-- When a guard is exactly what one step needs, it is exactly what a run needs. -/
theorem always_iff_guarded {property : State → Prop} {guard : State → Event → Prop}
    (exactStep : ∀ state event, property state →
      (property (step state event) ↔ guard state event))
    {state : State} (initially : property state) (events : List Event) :
    Always step property state events ↔ Guarded step guard state events := by
  constructor
  · intro always
    induction events generalizing state with
    | nil => trivial
    | cons event rest inductionHypothesis =>
        have next := always.2.head
        exact ⟨(exactStep state event initially).mp next, inductionHypothesis next always.2⟩
  · exact always_of_guarded (fun state event holds => (exactStep state event holds).mpr)
      initially

section Simulation

variable {Abstract : Type u} {abstractStep : Abstract → Event → Abstract}
  {related : State → Abstract → Prop}

/-- The simulation rule: a guard on an abstract run carries a property of the concrete one. -/
theorem always_of_simulation {property : State → Prop} {guard : Abstract → Event → Prop}
    (simulates : ∀ state abstract event, related state abstract →
      related (step state event) (abstractStep abstract event))
    (sound : ∀ state abstract event, related state abstract → guard abstract event →
      property (step state event))
    {state : State} {abstract : Abstract} (start : related state abstract)
    (initially : property state) {events : List Event}
    (guarded : Guarded abstractStep guard abstract events) :
    Always step property state events := by
  induction events generalizing state abstract with
  | nil => exact initially
  | cons event rest inductionHypothesis =>
      exact ⟨initially, inductionHypothesis (simulates state abstract event start)
        (sound state abstract event start guarded.1) guarded.2⟩

/-- The converse direction of the simulation rule. -/
theorem guarded_of_simulation {property : State → Prop} {guard : Abstract → Event → Prop}
    (simulates : ∀ state abstract event, related state abstract →
      related (step state event) (abstractStep abstract event))
    (complete : ∀ state abstract event, related state abstract →
      property (step state event) → guard abstract event)
    {state : State} {abstract : Abstract} (start : related state abstract)
    {events : List Event} (always : Always step property state events) :
    Guarded abstractStep guard abstract events := by
  induction events generalizing state abstract with
  | nil => trivial
  | cons event rest inductionHypothesis =>
      exact ⟨complete state abstract event start always.2.head,
        inductionHypothesis (simulates state abstract event start) always.2⟩

end Simulation

/-- The two-run rule: related steps of related states lead to related states. -/
theorem run_related {twins : Event → Event → Prop} {related : State → State → Prop}
    (preserved : ∀ {state other event otherEvent}, related state other →
      twins event otherEvent → related (step state event) (step other otherEvent))
    {state other : State} (start : related state other) {events others : List Event}
    (alike : List.Forall₂ twins events others) :
    related (run step state events) (run step other others) := by
  induction alike generalizing state other with
  | nil => exact start
  | cons twin rest inductionHypothesis => exact inductionHypothesis (preserved start twin)

/-- Execute statements that commit one by one.  A failing statement ends the
script and has no effect itself; what was committed before it stays. -/
def execute {Error : Type v} : List (State → Except Error State) → State →
    Except Error Unit × State
  | [], state => (.ok (), state)
  | statement :: rest, state =>
      match statement state with
      | .ok next => execute rest next
      | .error error => (.error error, state)

theorem execute_append {Error : Type v} {first : List (State → Except Error State)}
    {state next : State} (executed : execute first state = (.ok (), next))
    (second : List (State → Except Error State)) :
    execute (first ++ second) state = execute second next := by
  induction first generalizing state with
  | nil =>
      cases executed
      rfl
  | cons statement rest inductionHypothesis =>
      simp only [List.cons_append, execute] at executed ⊢
      split at executed
      next after done => exact inductionHypothesis executed
      next error failed => cases executed

end Scryd.Foundation
