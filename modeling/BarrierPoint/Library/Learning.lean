/-
This file compares a machine that learns on the way what its actions look up
with one that knows all of it from the start. Where what is known is never
revised, and an action is only taken once what it looks up is known, the two
take the same actions to the same state. Where no trigger comes before a lesson
that it depends on, all lessons can be taken in front.
-/

import BarrierPoint.Library.Machine

namespace Library

variable {Knowledge Lesson Trigger Action State : Type}

/-- What such a machine takes: a lesson that adds to its knowledge, or a trigger of actions. -/
inductive Input (Lesson Trigger : Type) where
  | learn (lesson : Lesson)
  | trigger (trigger : Trigger)
  deriving DecidableEq, Repr

/-- The lessons among what is taken, in order. -/
def lessons : List (Input Lesson Trigger) → List Lesson
  | [] => []
  | .learn lesson :: inputs => lesson :: lessons inputs
  | .trigger _ :: inputs => lessons inputs

/-- The triggers among what is taken, in order. -/
def triggers : List (Input Lesson Trigger) → List Trigger
  | [] => []
  | .learn _ :: inputs => triggers inputs
  | .trigger trigger :: inputs => trigger :: triggers inputs

/-- The lessons in front of the triggers. -/
def lessonsFirst (inputs : List (Input Lesson Trigger)) : List (Input Lesson Trigger) :=
  (lessons inputs).map .learn ++ (triggers inputs).map .trigger

/-- A machine that learns: which actions a trigger sets off, and what they do, depends on what is
known. -/
structure Learner (Knowledge Lesson Trigger Action State : Type) where
  learn : Knowledge → Lesson → Knowledge
  actions : Knowledge → Trigger → List Action
  act : Knowledge → State → Action → Option State

namespace Learner

variable (learner : Learner Knowledge Lesson Trigger Action State)

def step (state : Knowledge × State) : Input Lesson Trigger → Option (Knowledge × State)
  | .learn lesson => some (learner.learn state.1 lesson, state.2)
  | .trigger trigger =>
      (run (learner.act state.1) state.2 (learner.actions state.1 trigger)).map (state.1, ·)

/-- What is known after the lessons. -/
def informed (known : Knowledge) (inputs : List (Input Lesson Trigger)) : Knowledge :=
  (lessons inputs).foldl learner.learn known

/-- The actions that the triggers set off, each at what is known by then. -/
def taken : Knowledge → List (Input Lesson Trigger) → List Action
  | _, [] => []
  | known, .learn lesson :: inputs => taken (learner.learn known lesson) inputs
  | known, .trigger trigger :: inputs => learner.actions known trigger ++ taken known inputs

/-- No lesson that follows a trigger adds to its actions or takes from them. -/
def Settled : Knowledge → List (Input Lesson Trigger) → Prop
  | _, [] => True
  | known, .learn lesson :: inputs => Settled (learner.learn known lesson) inputs
  | known, .trigger trigger :: inputs =>
      learner.actions known trigger = learner.actions (learner.informed known inputs) trigger ∧
        Settled known inputs

variable {learner}

/-- Knowledge that meets a condition, and what it may grow to. -/
structure Grows (learner : Learner Knowledge Lesson Trigger Action State)
    (sound : Knowledge → Prop) (within : Knowledge → Knowledge → Prop) : Prop where
  refl : ∀ known, within known known
  trans : ∀ {known later final}, within known later → within later final → within known final
  sound_learn : ∀ {known} (lesson : Lesson), sound known → sound (learner.learn known lesson)
  within_learn : ∀ {known} (lesson : Lesson), sound known →
    within known (learner.learn known lesson)

variable {sound : Knowledge → Prop} {within : Knowledge → Knowledge → Prop}

theorem Grows.within_informed (grows : learner.Grows sound within)
    (inputs : List (Input Lesson Trigger)) :
    ∀ {known}, sound known → within known (learner.informed known inputs) := by
  induction inputs with
  | nil => exact fun _ => grows.refl _
  | cons input inputs inductionHypothesis =>
    intro known holds
    cases input with
    | learn lesson =>
      exact grows.trans (grows.within_learn lesson holds)
        (inductionHypothesis (grows.sound_learn lesson holds))
    | trigger _ => exact inductionHypothesis holds

/-- Every action is taken by a trigger at knowledge that meets the condition and is kept. -/
theorem Grows.exists_of_mem_taken (grows : learner.Grows sound within)
    (inputs : List (Input Lesson Trigger)) : ∀ {known}, sound known →
      ∀ action ∈ learner.taken known inputs, ∃ later trigger, sound later ∧
        within later (learner.informed known inputs) ∧ action ∈ learner.actions later trigger := by
  induction inputs with
  | nil => exact fun _ _ member => absurd member List.not_mem_nil
  | cons input inputs inductionHypothesis =>
    intro known holds action member
    cases input with
    | learn lesson => exact inductionHypothesis (grows.sound_learn lesson holds) action member
    | trigger trigger =>
      rcases List.mem_append.mp member with here | later
      · exact ⟨known, trigger, holds, grows.within_informed inputs holds, here⟩
      · exact inductionHypothesis holds action later

theorem run_act_congr {known later : Knowledge} (actions : List Action)
    (agrees : ∀ state, ∀ action ∈ actions,
      learner.act known state action = learner.act later state action) :
    ∀ state, run (learner.act known) state actions = run (learner.act later) state actions := by
  induction actions with
  | nil => exact fun _ => rfl
  | cons action actions inductionHypothesis =>
    intro state
    rw [run, run, agrees state action List.mem_cons_self]
    exact congrArg _ (funext (inductionHypothesis fun state action member =>
      agrees state action (List.mem_cons_of_mem _ member)))

/-- A machine that learns on the way runs as one that knows everything from the start, over the
actions it takes, when these do the same at all that is known later. -/
theorem Grows.run_eq (grows : learner.Grows sound within)
    (agrees : ∀ {known later}, sound known → within known later → ∀ trigger state,
      ∀ action ∈ learner.actions known trigger,
        learner.act known state action = learner.act later state action)
    (inputs : List (Input Lesson Trigger)) : ∀ {known} (state : State), sound known →
      run learner.step (known, state) inputs =
        (run (learner.act (learner.informed known inputs)) state (learner.taken known inputs)).map
          (learner.informed known inputs, ·) := by
  induction inputs with
  | nil => exact fun _ _ => rfl
  | cons input inputs inductionHypothesis =>
    intro known state holds
    cases input with
    | learn lesson => exact inductionHypothesis state (grows.sound_learn lesson holds)
    | trigger trigger =>
      have same := run_act_congr (learner.actions known trigger)
        (agrees holds (grows.within_informed inputs holds) trigger) state
      rw [taken, run_append]
      show (Option.map _ _).bind _ = _
      rw [same, Option.bind_map, Option.map_bind]
      exact congrArg _ (funext fun next => inductionHypothesis next holds)

theorem run_step_learn (state : State) (taught : List Lesson) : ∀ known : Knowledge,
    run learner.step (known, state) (taught.map .learn) =
      some (taught.foldl learner.learn known, state) := by
  induction taught with
  | nil => exact fun _ => rfl
  | cons lesson taught inductionHypothesis => exact fun known => inductionHypothesis _

theorem run_step_trigger (known : Knowledge) (pulled : List Trigger) : ∀ state : State,
    run learner.step (known, state) (pulled.map .trigger) =
      (run (learner.act known) state (pulled.flatMap (learner.actions known))).map (known, ·) := by
  induction pulled with
  | nil => exact fun _ => rfl
  | cons trigger pulled inductionHypothesis =>
    intro state
    rw [List.flatMap_cons, run_append, Option.map_bind]
    show (Option.map _ _).bind _ = _
    rw [Option.bind_map]
    exact congrArg _ (funext inductionHypothesis)

/-- Triggers that are settled set off what they would set off at the end. -/
theorem Settled.taken_eq {inputs : List (Input Lesson Trigger)} : ∀ {known : Knowledge},
    learner.Settled known inputs → learner.taken known inputs =
      (triggers inputs).flatMap (learner.actions (learner.informed known inputs)) := by
  induction inputs with
  | nil => exact fun _ => rfl
  | cons input inputs inductionHypothesis =>
    intro known settled
    cases input with
    | learn lesson => exact inductionHypothesis settled
    | trigger trigger =>
      obtain ⟨here, settled⟩ := settled
      rw [taken, triggers, List.flatMap_cons, inductionHypothesis settled, here]
      rfl

/-- Where the triggers are settled the lessons can be taken in front of them. -/
theorem Grows.run_lessonsFirst (grows : learner.Grows sound within)
    (agrees : ∀ {known later}, sound known → within known later → ∀ trigger state,
      ∀ action ∈ learner.actions known trigger,
        learner.act known state action = learner.act later state action)
    {inputs : List (Input Lesson Trigger)} {known : Knowledge} (state : State)
    (holds : sound known) (settled : learner.Settled known inputs) :
    run learner.step (known, state) (lessonsFirst inputs) =
      run learner.step (known, state) inputs := by
  rw [grows.run_eq agrees inputs state holds, settled.taken_eq, lessonsFirst, run_append,
    run_step_learn]
  exact run_step_trigger _ _ state

end Learner

end Library
