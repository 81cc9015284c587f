/-
This file follows loops that work on one place of a state at a time, where the
work may raise an error: a round whose place is no other's meets what its place
held at the start, and what it leaves there stays. A loop over a list whose
rounds raise one error at most raises it as soon as one round does.
-/

import BarrierPoint.Library.PyList
import Mathlib.Logic.Function.Basic

namespace Library

variable {Entry Place Content : Type} [DecidableEq Place]

/-- One round of such a loop. -/
def workAt (place : Entry → Place) (work : Entry → Content → Except PyError Content)
    (state : Place → Content) (entry : Entry) : Except PyError (Place → Content) := do
  let content ← work entry (state (place entry))
  return Function.update state (place entry) content

variable {place : Entry → Place} {work : Entry → Content → Except PyError Content}

/-- A round whose place is no other's has worked on what its place held at the start, and the places
of no round hold what they held. -/
theorem foldlM_workAt {alone : Entry → Prop} (entries : List Entry) :
    entries.Pairwise (fun earlier later =>
      place earlier = place later → ¬alone earlier ∧ ¬alone later) →
    ∀ {state after : Place → Content}, entries.foldlM (workAt place work) state = .ok after →
      (∀ entry ∈ entries, alone entry →
        work entry (state (place entry)) = .ok (after (place entry))) ∧
      ∀ other ∉ entries.map place, after other = state other := by
  induction entries with
  | nil =>
    intro _ state after ran
    cases ran
    exact ⟨fun _ member => absurd member List.not_mem_nil, fun _ _ => rfl⟩
  | cons entry entries inductionHypothesis =>
    intro apart state after ran
    rw [List.pairwise_cons] at apart
    rw [List.foldlM_cons] at ran
    obtain ⟨next, worked, ran⟩ := exists_of_bind_eq_ok ran
    obtain ⟨content, done, same⟩ := exists_of_bind_eq_ok worked
    cases same
    obtain ⟨each, others⟩ := inductionHypothesis apart.2 ran
    refine ⟨List.forall_mem_cons.mpr ⟨fun isAlone => ?_, fun later member isAlone => ?_⟩,
      fun other absent => ?_⟩
    · have absent : place entry ∉ entries.map place := fun member => by
        obtain ⟨later, isLater, same⟩ := List.mem_map.mp member
        exact (apart.1 later isLater same.symm).1 isAlone
      rw [others _ absent, Function.update_self]
      exact done
    · have different : place later ≠ place entry := fun same =>
        (apart.1 later member same.symm).2 isAlone
      rw [← each later member isAlone, Function.update_of_ne different]
    · rw [List.map_cons, List.mem_cons, not_or] at absent
      rw [others other absent.2, Function.update_of_ne absent.1]

/-- A loop whose rounds raise nothing ends, with the work of every round at its place. -/
theorem exists_foldlM_update {step : (Place → Content) → Entry → Except PyError (Place → Content)}
    {work : Entry → Content → Content} (entries : List Entry)
    (each : ∀ entry ∈ entries, ∀ state, step state entry =
      .ok (Function.update state (place entry) (work entry (state (place entry)))))
    (distinct : (entries.map place).Nodup) (state : Place → Content) :
    ∃ after, entries.foldlM step state = .ok after ∧
      (∀ entry ∈ entries, after (place entry) = work entry (state (place entry))) ∧
      ∀ other ∉ entries.map place, after other = state other := by
  have runs : ∃ after, entries.foldlM step state = .ok after ∧
      entries.foldlM (workAt place fun entry content => .ok (work entry content)) state =
        .ok after := by
    clear distinct
    induction entries generalizing state with
    | nil => exact ⟨state, rfl, rfl⟩
    | cons entry entries inductionHypothesis =>
      rw [List.forall_mem_cons] at each
      obtain ⟨after, ran, worked⟩ := inductionHypothesis each.2
        (Function.update state (place entry) (work entry (state (place entry))))
      refine ⟨after, ?_, ?_⟩
      · rw [List.foldlM_cons, bind_of_eq_ok (each.1 state)]
        exact ran
      · rw [List.foldlM_cons]
        exact worked
  obtain ⟨after, ran, worked⟩ := runs
  have apart : entries.Pairwise fun earlier later =>
      place earlier = place later → ¬True ∧ ¬True :=
    (List.pairwise_map.mp distinct).imp fun different same => absurd same different
  obtain ⟨done, others⟩ := foldlM_workAt entries apart worked
  exact ⟨after, ran, fun entry member => (Except.ok.inj (done entry member trivial)).symm, others⟩

/-! ### Errors -/

/-- A loop ends when no round raises an error. -/
theorem exists_foldlM_of_ok {State : Type} {step : State → Entry → Except PyError State}
    (each : ∀ state entry, ∃ next, step state entry = .ok next) (entries : List Entry) :
    ∀ state, ∃ after, entries.foldlM step state = .ok after := by
  induction entries with
  | nil => exact fun state => ⟨state, rfl⟩
  | cons entry entries inductionHypothesis =>
    intro state
    obtain ⟨next, stepped⟩ := each state entry
    obtain ⟨after, ran⟩ := inductionHypothesis next
    refine ⟨after, ?_⟩
    rw [List.foldlM_cons, bind_of_eq_ok stepped]
    exact ran

theorem mapM_eq_error {Image : Type} {error : PyError} {compute : Entry → Except PyError Image}
    (entries : List Entry)
    (only : ∀ entry ∈ entries, (∃ image, compute entry = .ok image) ∨ compute entry = .error error)
    (raised : ∃ entry ∈ entries, compute entry = .error error) :
    entries.mapM compute = .error error := by
  induction entries with
  | nil =>
    obtain ⟨entry, member, -⟩ := raised
    cases member
  | cons entry entries inductionHypothesis =>
    rw [List.forall_mem_cons] at only
    rw [List.mapM_cons]
    rcases only.1 with ⟨image, computed⟩ | here
    · rw [bind_of_eq_ok computed]
      obtain ⟨later, member, there⟩ := raised
      rcases List.mem_cons.mp member with rfl | inside
      · rw [computed] at there
        cases there
      · rw [inductionHypothesis only.2 ⟨later, inside, there⟩]
        rfl
    · rw [here]
      rfl

end Library
