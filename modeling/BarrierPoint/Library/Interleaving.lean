/-
This file compares runs of a machine over the same events in different orders.
Some pairs of events depend on each other; two orders agree when every such
pair comes in the same order in both. Orders that agree differ only by
exchanges of neighbouring events that do not depend on each other, and where
such an exchange leaves the state alike, whole runs end in states that are
alike.
-/

import BarrierPoint.Library.Related
import Mathlib.Data.List.Basic
import Mathlib.Order.Defs.Unbundled

namespace Library

variable {State Event : Type}

/-! ### Exchanges of neighbours -/

/-- Orders that differ by exchanges of neighbouring events that are free of each other. -/
inductive Exchanges (free : Event → Event → Prop) : List Event → List Event → Prop where
  | refl (events : List Event) : Exchanges free events events
  | swap (front : List Event) {first second : Event} (apart : free first second)
      (rest : List Event) :
      Exchanges free (front ++ first :: second :: rest) (front ++ second :: first :: rest)
  | trans {first second third : List Event} (begins : Exchanges free first second)
      (continues : Exchanges free second third) : Exchanges free first third

namespace Exchanges

variable {free : Event → Event → Prop}

theorem cons (event : Event) {first second : List Event} (exchanged : Exchanges free first second) :
    Exchanges free (event :: first) (event :: second) := by
  induction exchanged with
  | refl => exact .refl _
  | swap front apart rest => exact .swap (event :: front) apart rest
  | trans _ _ begins continues => exact begins.trans continues

/-- An event that is free of the events behind it can be moved behind them. -/
theorem moveBehind {event : Event} (rest : List Event) : ∀ {front : List Event},
    (∀ other ∈ front, free event other) →
      Exchanges free (event :: (front ++ rest)) (front ++ event :: rest)
  | [], _ => .refl _
  | other :: front, apart => by
      have behind := moveBehind rest fun event member => apart event (List.mem_cons_of_mem _ member)
      exact .trans (.swap [] (apart other List.mem_cons_self) (front ++ rest)) (behind.cons other)

/-- Runs over orders that differ by exchanges end alike, when a step respects what is alike and
exchanging two steps leaves the state alike. -/
theorem run_rel {step : State → Event → Option State} {alike : State → State → Prop}
    (equivalence : Equivalence alike)
    (respects : ∀ event {first second}, alike first second →
      Option.Rel alike (step first event) (step second event))
    (diamond : ∀ state {first second}, free first second →
      Option.Rel alike (run step state [first, second]) (run step state [second, first]))
    {first second : List Event} (exchanged : Exchanges free first second) :
    ∀ {state other}, alike state other →
      Option.Rel alike (run step state first) (run step other second) := by
  have runs := run_related respects
  have transitive := @rel_trans _ alike equivalence.trans
  induction exchanged with
  | refl events => exact runs events
  | @swap front one two apart rest =>
    intro state other holds
    have split : ∀ one two, front ++ one :: two :: rest = front ++ ([one, two] ++ rest) :=
      fun _ _ => rfl
    rw [split, split, run_append, run_append]
    refine rel_bind (runs front holds) fun reached otherReached holds => ?_
    rw [run_append, run_append]
    exact rel_bind (transitive (runs [one, two] holds) (diamond otherReached apart))
      fun _ _ => runs rest
  | trans _ _ begins continues =>
    exact fun holds => transitive (begins (equivalence.refl _)) (continues holds)

end Exchanges

/-! ### Orders that agree -/

section Agree

variable [DecidableEq Event] {depends : Event → Event → Prop}

/-- The occurrences of two events, in order. -/
def occurrences (events : List Event) (first second : Event) : List Event :=
  events.filter fun event => event = first ∨ event = second

/-- Every two events that depend on each other come in the same order in both lists. -/
def Agree (depends : Event → Event → Prop) (first second : List Event) : Prop :=
  ∀ one other, depends one other → occurrences first one other = occurrences second one other

theorem occurrences_cons (event : Event) (events : List Event) (first second : Event) :
    occurrences (event :: events) first second =
      if event = first ∨ event = second then event :: occurrences events first second
      else occurrences events first second := by
  simp only [occurrences, List.filter_cons, decide_eq_true_eq]

/-- Only the events that occur matter. -/
theorem agree_of_mem {first second : List Event} (reflexive : ∀ event, depends event event)
    (same : ∀ one ∈ first ++ second, ∀ other ∈ first ++ second, depends one other →
      occurrences first one other = occurrences second one other) :
    Agree depends first second := by
  have unseen : ∀ (events : List Event) {one : Event} (other : Event), one ∉ events →
      occurrences events one other = occurrences events other other := by
    intro events one other fresh
    refine List.filter_congr fun event member => ?_
    simp only [ne_of_mem_of_not_mem member fresh, false_or, or_self]
  have unseenPair : ∀ (events : List Event) {one : Event}, one ∉ events →
      occurrences events one one = [] :=
    fun events one fresh => List.filter_eq_nil_iff.mpr fun event member chosen => fresh
      ((of_decide_eq_true chosen).elim (· ▸ member) (· ▸ member))
  have turned : ∀ (events : List Event) one other,
      occurrences events one other = occurrences events other one :=
    fun events one other => List.filter_congr fun event _ => decide_eq_decide.mpr Or.comm
  have alone : ∀ one, occurrences first one one = occurrences second one one := by
    intro one
    by_cases member : one ∈ first ++ second
    · exact same one member one member (reflexive one)
    · rw [unseenPair first fun here => member (List.mem_append_left _ here),
        unseenPair second fun here => member (List.mem_append_right _ here)]
  intro one other depending
  by_cases member : one ∈ first ++ second
  · by_cases otherMember : other ∈ first ++ second
    · exact same one member other otherMember depending
    · rw [turned first, turned second,
        unseen first one fun here => otherMember (List.mem_append_left _ here),
        unseen second one fun here => otherMember (List.mem_append_right _ here)]
      exact alone one
  · rw [unseen first other fun here => member (List.mem_append_left _ here),
      unseen second other fun here => member (List.mem_append_right _ here)]
    exact alone other

/-- A list that agrees with one has its first event, and nothing in front of it depends on it. -/
theorem Agree.split {event : Event} {events second : List Event}
    (reflexive : ∀ event, depends event event) (agree : Agree depends (event :: events) second) :
    ∃ front rest, second = front ++ event :: rest ∧ event ∉ front ∧
      ∀ other ∈ front, ¬depends event other := by
  have listed : event ∈ occurrences second event event := by
    rw [← agree event event (reflexive event), occurrences_cons, if_pos (.inl rfl)]
    exact List.mem_cons_self
  obtain ⟨front, rest, secondEq, fresh⟩ :=
    List.eq_append_cons_of_mem (List.mem_of_mem_filter listed)
  refine ⟨front, rest, secondEq, fresh, fun other member depending => ?_⟩
  have same := agree event other depending
  rw [occurrences_cons, if_pos (.inl rfl), secondEq, occurrences, occurrences,
    List.filter_append] at same
  -- the first of the two that the second list has is not the one the first list begins with
  cases held : front.filter fun event' => event' = event ∨ event' = other with
  | nil =>
    have none := List.filter_eq_nil_iff.mp held other member
    exact none (decide_eq_true (.inr rfl))
  | cons head tail =>
    rw [held] at same
    obtain ⟨rfl, -⟩ := List.cons.inj same
    exact fresh (List.mem_of_mem_filter (held ▸ List.mem_cons_self))

/-- Lists that agree still agree without an event that nothing in front of it depends on. -/
theorem Agree.tail {event : Event} {events front rest : List Event} (fresh : event ∉ front)
    (free : ∀ other ∈ front, ¬depends event other)
    (symmetric : ∀ {one other}, depends one other → depends other one)
    (agree : Agree depends (event :: events) (front ++ event :: rest)) :
    Agree depends events (front ++ rest) := by
  intro one other depending
  have same := agree one other depending
  rw [occurrences_cons] at same
  by_cases occurs : event = one ∨ event = other
  · have empty : front.filter (fun event' => event' = one ∨ event' = other) = [] := by
      refine List.filter_eq_nil_iff.mpr fun candidate member chosen => ?_
      rcases occurs with rfl | rfl <;> rcases of_decide_eq_true chosen with rfl | rfl
      · exact fresh member
      · exact free _ member depending
      · exact free _ member (symmetric depending)
      · exact fresh member
    rw [if_pos occurs, occurrences, occurrences, List.filter_append, empty, List.nil_append,
      List.filter_cons_of_pos (by exact decide_eq_true occurs)] at same
    rw [occurrences, occurrences, List.filter_append, empty, List.nil_append]
    exact (List.cons.inj same).2
  · rw [if_neg occurs, occurrences, occurrences, List.filter_append,
      List.filter_cons_of_neg (by simpa using occurs)] at same
    rw [occurrences, occurrences, List.filter_append]
    exact same

/-- Lists that agree differ by exchanges of events that do not depend on each other. -/
theorem Agree.exchanges (reflexive : ∀ event, depends event event)
    (symmetric : ∀ {one other}, depends one other → depends other one) (first : List Event) :
    ∀ {second}, Agree depends first second →
      Exchanges (fun one other => ¬depends one other) first second := by
  induction first with
  | nil =>
    intro second agree
    cases second with
    | nil => exact .refl []
    | cons event second =>
      have same := agree event event (reflexive event)
      rw [occurrences_cons, if_pos (.inl rfl)] at same
      cases same
  | cons event first inductionHypothesis =>
    intro second agree
    obtain ⟨front, rest, rfl, fresh, free⟩ := agree.split reflexive
    exact ((inductionHypothesis (agree.tail fresh free symmetric)).cons event).trans
      (.moveBehind rest free)

end Agree

end Library
