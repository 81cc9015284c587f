/-
This file develops machines whose steps can fail. A run takes the events in
order and stops at the first step that fails. A condition on the steps holds
along a run when every step of it is taken from a state that meets it. The
rules carry an invariant, or a relation to an abstract machine, from the steps
of such a run to the whole run.
-/

import Mathlib.Control.Basic
import Mathlib.Logic.Basic

namespace Library

variable {State Event Abstract : Type}

/-- The run of a machine over a list of events. -/
def run (step : State → Event → Option State) : State → List Event → Option State
  | state, [] => some state
  | state, event :: events => (step state event).bind fun next => run step next events

/-- Every step of the run is taken from a state that meets the condition. -/
def Along (step : State → Event → Option State) (meets : State → Event → Prop) :
    State → List Event → Prop
  | _, [] => True
  | state, event :: events => meets state event ∧
      match step state event with
      | some next => Along step meets next events
      | none => True

instance decidableAlong (step : State → Event → Option State) (meets : State → Event → Prop)
    [∀ state event, Decidable (meets state event)] :
    ∀ state events, Decidable (Along step meets state events)
  | _, [] => isTrue trivial
  | state, event :: events =>
      have : Decidable (match step state event with
          | some next => Along step meets next events
          | none => True) :=
        match step state event with
        | some next => decidableAlong step meets next events
        | none => isTrue trivial
      inferInstanceAs (Decidable (_ ∧ _))

variable {step : State → Event → Option State} {meets : State → Event → Prop}

/-- A run over events that are read in another way is a run over what is read. -/
theorem run_map {Source : Type} (read : Source → Event) (events : List Source) :
    ∀ state, run (fun state event => step state (read event)) state events =
      run step state (events.map read) := by
  induction events with
  | nil => exact fun _ => rfl
  | cons event events inductionHypothesis =>
    intro state
    rw [run, List.map_cons, run]
    exact congrArg _ (funext inductionHypothesis)

/-- Two steps go through when each does. -/
theorem isSome_bind_of {first : Option State} {rest : State → Option Event}
    (begins : first.isSome) (continues : ∀ state, first = some state → (rest state).isSome) :
    (first.bind rest).isSome := by
  obtain ⟨state, reached⟩ := Option.isSome_iff_exists.mp begins
  rw [reached, Option.bind_some]
  exact continues state reached

/-- A step behind a guard was taken with the guard holding. -/
theorem bind_guard_eq_some {condition : Prop} [Decidable condition] {rest : Unit → Option State}
    {next : State} (stepped : (guard condition : Option Unit).bind rest = some next) :
    condition ∧ rest () = some next := by
  by_cases holds : condition
  · rw [guard, if_pos holds] at stepped
    exact ⟨holds, stepped⟩
  · rw [guard, if_neg holds] at stepped
    cases stepped

theorem run_append (first second : List Event) : ∀ state, run step state (first ++ second) =
    (run step state first).bind fun next => run step next second := by
  induction first with
  | nil => exact fun _ => rfl
  | cons event first inductionHypothesis =>
    intro state
    rw [List.cons_append, run, run]
    cases step state event with
    | none => rfl
    | some next => exact inductionHypothesis next

/-- A run of runs is a run over all of their events. -/
theorem run_flatMap {Source : Type} (events : Source → List Event) (sources : List Source) :
    ∀ state, run (fun state source => run step state (events source)) state sources =
      run step state (sources.flatMap events) := by
  induction sources with
  | nil => exact fun _ => rfl
  | cons source sources inductionHypothesis =>
    intro state
    rw [run, List.flatMap_cons, run_append]
    exact congrArg _ (funext inductionHypothesis)

theorem along_of_forall (always : ∀ state event, meets state event) (events : List Event) :
    ∀ state, Along step meets state events := by
  induction events with
  | nil => exact fun _ => trivial
  | cons event events inductionHypothesis =>
    intro state
    refine ⟨always state event, ?_⟩
    cases step state event with
    | none => trivial
    | some next => exact inductionHypothesis next

/-- A relation that every step keeps holds at the end of a run. -/
theorem run_simulation (abstractStep : Abstract → Event → Abstract)
    (related : Abstract → State → Prop)
    (preserved : ∀ abstract state event next, related abstract state → meets state event →
      step state event = some next → related (abstractStep abstract event) next)
    (events : List Event) : ∀ abstract {state final}, related abstract state →
      Along step meets state events → run step state events = some final →
      related (events.foldl abstractStep abstract) final := by
  induction events with
  | nil =>
    intro abstract state final holds _ finished
    cases finished
    exact holds
  | cons event events inductionHypothesis =>
    intro abstract state final holds along finished
    obtain ⟨next, stepped, rest⟩ := Option.bind_eq_some_iff.mp finished
    obtain ⟨met, later⟩ := along
    rw [stepped] at later
    exact inductionHypothesis _ (preserved _ _ _ _ holds met stepped) later rest

/-- An invariant that every step keeps holds at the end of a run. -/
theorem run_invariant (invariant : State → Prop)
    (preserved : ∀ state event next, invariant state → meets state event →
      step state event = some next → invariant next)
    {events : List Event} {state final : State} (holds : invariant state)
    (along : Along step meets state events) (finished : run step state events = some final) :
    invariant final :=
  run_simulation (fun (_ : Unit) _ => ()) (fun _ => invariant) (fun _ => preserved) events ()
    holds along finished

/-- Two conditions that agree where an invariant holds hold along the same runs. -/
theorem along_congr {ordered first second : State → Event → Prop} (invariant : State → Prop)
    (preserved : ∀ state event next, invariant state → ordered state event →
      step state event = some next → invariant next)
    (agree : ∀ state event, invariant state → ordered state event →
      (first state event ↔ second state event))
    (events : List Event) : ∀ {state}, invariant state → Along step ordered state events →
      (Along step first state events ↔ Along step second state events) := by
  induction events with
  | nil => exact fun _ _ => Iff.rfl
  | cons event events inductionHypothesis =>
    intro state holds along
    obtain ⟨inOrder, later⟩ := along
    refine and_congr (agree state event holds inOrder) ?_
    cases stepped : step state event with
    | none => exact Iff.rfl
    | some next =>
      rw [stepped] at later
      exact inductionHypothesis (preserved state event next holds inOrder stepped) later

end Library
