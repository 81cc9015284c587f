/-
This file compares two computations step by step: results that fail together
and are related otherwise, lists whose members are related in turn, and
machines whose steps keep their states related.
-/

import BarrierPoint.Library.Machine
import Mathlib.Data.List.Forall2
import Mathlib.Data.List.Sort
import Mathlib.Data.Option.Basic
import Mathlib.Order.Defs.Unbundled

namespace Library

variable {State Event First Second Third Fourth : Type} {alike : State → State → Prop}

/-! ### Results that are related -/

/-- Results that fail together and are related otherwise stay so under steps that respect it. -/
theorem rel_bind {related : First → Second → Prop} {after : Third → Fourth → Prop}
    {first : Option First} {second : Option Second} {firstRest : First → Option Third}
    {secondRest : Second → Option Fourth} (begins : Option.Rel related first second)
    (continues : ∀ one other, related one other →
      Option.Rel after (firstRest one) (secondRest other)) :
    Option.Rel after (first.bind firstRest) (second.bind secondRest) := by
  cases begins with
  | some holds => exact continues _ _ holds
  | none => exact .none

theorem rel_map {related : First → Second → Prop} {after : Third → Fourth → Prop}
    {first : Option First} {second : Option Second} {firstRest : First → Third}
    {secondRest : Second → Fourth} (begins : Option.Rel related first second)
    (continues : ∀ one other, related one other → after (firstRest one) (secondRest other)) :
    Option.Rel after (first.map firstRest) (second.map secondRest) := by
  cases begins with
  | some holds => exact .some (continues _ _ holds)
  | none => exact .none

theorem rel_or {related : First → Second → Prop} {first firstRest : Option First}
    {second secondRest : Option Second} (begins : Option.Rel related first second)
    (otherwise : Option.Rel related firstRest secondRest) :
    Option.Rel related (first.or firstRest) (second.or secondRest) := by
  cases begins with
  | some holds => exact .some holds
  | none => exact otherwise

/-- Two machines whose steps keep their states related run alike. -/
theorem run_related {related : First → Second → Prop} {firstStep : First → Event → Option First}
    {secondStep : Second → Event → Option Second}
    (respects : ∀ event {one other}, related one other →
      Option.Rel related (firstStep one event) (secondStep other event)) (events : List Event) :
    ∀ {one other}, related one other →
      Option.Rel related (run firstStep one events) (run secondStep other events) := by
  induction events with
  | nil => exact fun holds => .some holds
  | cons event events inductionHypothesis =>
    exact fun holds => rel_bind (respects event holds) fun _ _ => inductionHypothesis

theorem rel_refl (reflexive : ∀ state, alike state state) : ∀ result, Option.Rel alike result result
  | some state => .some (reflexive state)
  | none => .none

theorem rel_trans (transitive : ∀ {first second third}, alike first second → alike second third →
    alike first third) {first second third : Option State} (begins : Option.Rel alike first second)
    (continues : Option.Rel alike second third) : Option.Rel alike first third := by
  cases begins with
  | some holds =>
    cases continues with
    | some more => exact .some (transitive holds more)
  | none =>
    cases continues
    exact .none

/-! ### Lists whose members are related -/

section Lists

variable {related : First → Second → Prop} {first : List First} {second : List Second}

/-- What is read the same in members that are related is read the same in the lists. -/
theorem map_eq_of_forall₂ {Value : Type} {read : First → Value} {otherRead : Second → Value}
    (same : ∀ one other, related one other → read one = otherRead other)
    (members : List.Forall₂ related first second) : first.map read = second.map otherRead := by
  induction members with
  | nil => rfl
  | cons holds _ inductionHypothesis =>
    rw [List.map_cons, List.map_cons, same _ _ holds, inductionHypothesis]

/-- A fold that takes members that are related alike gives the same result. -/
theorem foldl_eq_of_forall₂ {Value : Type} {take : Value → First → Value}
    {otherTake : Value → Second → Value}
    (same : ∀ value one other, related one other → take value one = otherTake value other)
    (members : List.Forall₂ related first second) (value : Value) :
    first.foldl take value = second.foldl otherTake value := by
  induction members generalizing value with
  | nil => rfl
  | cons holds _ inductionHypothesis =>
    rw [List.foldl_cons, List.foldl_cons, same _ _ _ holds, inductionHypothesis]

/-- Numbering the members keeps them related. -/
theorem forall₂_mapIdx {after : Third → Fourth → Prop} {change : Nat → First → Third}
    {otherChange : Nat → Second → Fourth} (respects : ∀ index one other, related one other →
      after (change index one) (otherChange index other))
    (members : List.Forall₂ related first second) :
    List.Forall₂ after (first.mapIdx change) (second.mapIdx otherChange) := by
  induction members generalizing change otherChange with
  | nil => exact .nil
  | cons holds _ inductionHypothesis =>
    rw [List.mapIdx_cons, List.mapIdx_cons]
    exact .cons (respects 0 _ _ holds) (inductionHypothesis fun index => respects (index + 1))

variable {before : First → First → Prop} [DecidableRel before] {otherBefore : Second → Second → Prop}
  [DecidableRel otherBefore]

theorem forall₂_orderedInsert (respects : ∀ one other two another, related one other →
      related two another → (before one two ↔ otherBefore other another))
    {event : First} {otherEvent : Second} (inserted : related event otherEvent)
    (members : List.Forall₂ related first second) :
    List.Forall₂ related (first.orderedInsert before event)
      (second.orderedInsert otherBefore otherEvent) := by
  induction members with
  | nil => exact .cons inserted .nil
  | @cons one other first second holds rest inductionHypothesis =>
    rw [List.orderedInsert_cons, List.orderedInsert_cons]
    by_cases here : before event one
    · rw [if_pos here, if_pos ((respects _ _ _ _ inserted holds).mp here)]
      exact .cons inserted (.cons holds rest)
    · rw [if_neg here, if_neg fun there => here ((respects _ _ _ _ inserted holds).mpr there)]
      exact .cons holds inductionHypothesis

/-- Sorting by an order that agrees on members that are related keeps the lists related. -/
theorem forall₂_insertionSort (respects : ∀ one other two another, related one other →
      related two another → (before one two ↔ otherBefore other another))
    (members : List.Forall₂ related first second) :
    List.Forall₂ related (first.insertionSort before) (second.insertionSort otherBefore) := by
  induction members with
  | nil => exact .nil
  | cons holds _ inductionHypothesis =>
    exact forall₂_orderedInsert respects holds inductionHypothesis

end Lists

end Library
