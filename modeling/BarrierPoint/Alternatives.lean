/-
This file says which alternatives the clustering step finds for a
representative. The candidates are the members of its cluster that do not come
after it and are hardly farther from the center. The earliest of them is one
alternative; the other is the closest, and the last of these when several are
equally close. So the closest alternative is the representative itself when no
member of its cluster is closer.
-/

import BarrierPoint.Clustering
import Mathlib.Tactic.IntervalCases

namespace BarrierPoint

open Library

namespace SPData

variable {data : SPData}

/-! ### Candidates -/

/-- The largest distance of a member of a cluster. -/
def IsFarthest (data : SPData) (id : Int) (farthest : ℚ) : Prop :=
  (∃ phase, data.labels[phase]? = some id ∧ data.distance phase = farthest) ∧
    ∀ phase, data.labels[phase]? = some id → data.distance phase ≤ farthest

/-- The candidates of a cluster: the members up to the representative that are within the bound. -/
def Candidate (data : SPData) (id : Int) (sp : Nat) (farthest : ℚ) (phase : Nat) : Prop :=
  data.labels[phase]? = some id ∧ phase ≤ sp ∧
    data.distance phase ≤ data.distance sp + 5 / 100 * farthest

/-- The two alternatives of a cluster, and what follows for them. -/
structure AlternativesOf (data : SPData) (id : Int) (sp : Nat) (farthest : ℚ) (ec ee : Nat) :
    Prop where
  earliest : data.Candidate id sp farthest ee ∧
    ∀ phase, data.Candidate id sp farthest phase → ee ≤ phase
  closest : data.Candidate id sp farthest ec ∧
    (∀ phase, data.Candidate id sp farthest phase → data.distance ec ≤ data.distance phase) ∧
    ∀ phase, data.Candidate id sp farthest phase → data.distance phase = data.distance ec →
      phase ≤ ec
  ordered : ee ≤ ec ∧ ec ≤ sp
  labelled : data.labels[ec]? = some id ∧ data.labels[ee]? = some id
  nearest : (∀ phase, data.labels[phase]? = some id → data.distance sp ≤ data.distance phase) →
    ec = sp

/-- The representative is a candidate: no distance is negative. -/
theorem candidate_representative (result : data.SimPointResult) {id : Int} {sp : Nat}
    {farthest : ℚ} (carries : data.labels[sp]? = some id) (isFarthest : data.IsFarthest id farthest) :
    data.Candidate id sp farthest sp := by
  have reach := (distance_nonneg result sp).trans (isFarthest.2 sp carries)
  exact ⟨carries, le_refl _, by linarith⟩

/-- What follows from the choice of the earliest and of the last of the closest. -/
theorem alternativesOf_of_choice (result : data.SimPointResult) {id : Int} {sp ec ee : Nat}
    {farthest : ℚ} (carries : data.labels[sp]? = some id) (isFarthest : data.IsFarthest id farthest)
    (earliest : data.Candidate id sp farthest ee ∧
      ∀ phase, data.Candidate id sp farthest phase → ee ≤ phase)
    (closest : data.Candidate id sp farthest ec ∧
      (∀ phase, data.Candidate id sp farthest phase → data.distance ec ≤ data.distance phase) ∧
      ∀ phase, data.Candidate id sp farthest phase → data.distance phase = data.distance ec →
        phase ≤ ec) : data.AlternativesOf id sp farthest ec ee where
  earliest := earliest
  closest := closest
  ordered := ⟨earliest.2 ec closest.1, closest.1.2.1⟩
  labelled := ⟨closest.1.1, earliest.1.1⟩
  nearest := by
    intro least
    have own := candidate_representative result carries isFarthest
    have equal := le_antisymm (least ec closest.1.1) (closest.2.1 sp own)
    exact le_antisymm closest.1.2.1 (closest.2.2 sp own equal)

/-! ### The list of candidates -/

/-- The candidates that the clustering step lists, in the order of the phases. -/
structure CandidateList (data : SPData) (id : Int) (sp : Nat) (farthest : ℚ)
    (candidates : List (Nat × ℚ)) : Prop where
  mem_iff : ∀ phase distance, (phase, distance) ∈ candidates ↔
    data.Candidate id sp farthest phase ∧ distance = data.distance phase
  sorted : candidates.Pairwise fun first second => first.1 < second.1

theorem closer_spec (result : data.SimPointResult) {id : Int} (member : id ∈ data.id) :
    ∃ farthest candidates, data.IsFarthest id farthest ∧
      data.closer (data.chosenMap data.representative) (data.representative id) = .ok candidates ∧
      data.CandidateList id (data.representative id) farthest candidates := by
  obtain ⟨farthest, isLargest, closer⟩ := closer_eq_filter result member
  have members := mem_clusterOf_representative result.isLabelled member
  obtain ⟨largest, same, bound⟩ := maximum_eq_ok (List.ne_nil_of_mem (mem_of_maximum isLargest))
  obtain rfl := Except.ok.inj (isLargest.symm.trans same)
  refine ⟨farthest, _, ⟨?_, fun phase held => ?_⟩, closer, fun phase distance => ?_, ?_⟩
  · obtain ⟨phase, inCluster, attained⟩ := List.mem_map.mp (mem_of_maximum isLargest)
    exact ⟨phase, (members phase).mp inCluster, attained⟩
  · exact bound _ (List.mem_map_of_mem ((members phase).mpr held))
  · rw [List.mem_filter, List.mem_map, Candidate, ← members phase]
    constructor
    · rintro ⟨⟨other, inCluster, same⟩, within⟩
      obtain ⟨rfl, rfl⟩ := Prod.mk.inj same
      obtain ⟨near, early⟩ := of_decide_eq_true within
      exact ⟨⟨inCluster, Int.ofNat_le.mp early, by linarith⟩, rfl⟩
    · rintro ⟨⟨inCluster, early, near⟩, rfl⟩
      exact ⟨⟨phase, inCluster, rfl⟩, decide_eq_true ⟨by linarith, Int.ofNat_le.mpr early⟩⟩
  · refine List.Pairwise.filter _ (List.pairwise_map.mpr ?_)
    exact pairwise_clusterOf _ _

/-- Of a sorted list, the first is the earliest and the last of the smallest is the closest. -/
theorem alternatives_spec (result : data.SimPointResult) {id : Int} (member : id ∈ data.id) :
    ∃ farthest candidates, ∃ ec ee : Nat, data.IsFarthest id farthest ∧
      data.closer (data.chosenMap data.representative) (data.representative id) = .ok candidates ∧
      candidates ≠ [] ∧ data.CandidateList id (data.representative id) farthest candidates ∧
      data.alternatives (data.chosenMap data.representative) (data.representative id) =
        .ok (ec, ee) ∧
      data.AlternativesOf id (data.representative id) farthest ec ee := by
  obtain ⟨farthest, candidates, isFarthest, closer, list⟩ := closer_spec result member
  have own := result.isLabelled.chooses_representative id member
  have filled : candidates ≠ [] := List.ne_nil_of_mem
    ((list.mem_iff _ _).mpr ⟨candidate_representative result own isFarthest, rfl⟩)
  obtain ⟨front, ⟨ec, least⟩, back, split, reduced, before, behind⟩ :=
    reduce_eq_ok_last (Prod.snd : Nat × ℚ → ℚ) (fun _ _ _ _ => Iff.rfl) filled
  obtain ⟨⟨ee, first⟩, rest, isFirst⟩ := List.exists_cons_of_ne_nil filled
  have sorted := list.sorted
  have ecListed : (ec, least) ∈ candidates := by
    rw [split]
    exact List.mem_append_right _ List.mem_cons_self
  have eeListed : (ee, first) ∈ candidates := by
    rw [isFirst]
    exact List.mem_cons_self
  obtain ⟨ecCandidate, rfl⟩ := (list.mem_iff _ _).mp ecListed
  obtain ⟨eeCandidate, rfl⟩ := (list.mem_iff _ _).mp eeListed
  refine ⟨farthest, candidates, ec, ee, isFarthest, closer, filled, list, ?_,
    alternativesOf_of_choice result own isFarthest ⟨eeCandidate, fun phase candidate => ?_⟩
      ⟨ecCandidate, fun phase candidate => ?_, fun phase candidate same => ?_⟩⟩
  · rw [alternatives, bind_of_eq_ok closer]
    refine (bind_of_eq_ok reduced _).trans ?_
    rw [isFirst]
    rfl
  · have listed := (list.mem_iff phase _).mpr ⟨candidate, rfl⟩
    rw [isFirst] at listed sorted
    rcases List.mem_cons.mp listed with here | later
    · exact (Prod.mk.inj here).1.ge
    · exact (List.rel_of_pairwise_cons sorted later).le
  · have listed := (list.mem_iff phase _).mpr ⟨candidate, rfl⟩
    rw [split] at listed
    rcases List.mem_append.mp listed with early | late
    · exact before _ early
    · rcases List.mem_cons.mp late with here | later
      · exact (Prod.mk.inj here).2.ge
      · exact (behind _ later).le
  · have listed := (list.mem_iff phase _).mpr ⟨candidate, rfl⟩
    rw [split] at listed sorted
    rcases List.mem_append.mp listed with early | late
    · exact ((List.pairwise_append.mp sorted).2.2 _ early _ List.mem_cons_self).le
    · rcases List.mem_cons.mp late with here | later
      · exact (Prod.mk.inj here).1.le
      · exact absurd same (behind _ later).ne'

/-- What the clustering step finds for a cluster, at its place in the lists. -/
def FindsAlternatives (data : SPData) (clustering : Clustering) (place : Nat) (id : Int) (sp : Nat) :
    Prop :=
  ∃ farthest candidates, ∃ ec ee : Nat, data.IsFarthest id farthest ∧
    data.closer clustering.simPointBBMap sp = .ok candidates ∧ candidates ≠ [] ∧
    data.CandidateList id sp farthest candidates ∧
    clustering.simpointsEC[place]? = some (ec : Int) ∧
    clustering.simpointsEE[place]? = some (ee : Int) ∧
    data.AlternativesOf id sp farthest ec ee

/-- The clustering step succeeds, and it finds the alternatives of every cluster. -/
theorem clusterBarrierPoints_findsAlternatives (result : data.SimPointResult) :
    ∃ clustering, data.clusterBarrierPoints = .ok clustering ∧
      ∀ (place : Nat) id (sp : Nat), data.id[place]? = some id →
        data.simpoints[place]? = some (sp : Int) →
        data.FindsAlternatives clustering place id sp := by
  have each : ∀ id, ∃ farthest candidates, ∃ ec ee : Nat, id ∈ data.id →
      data.IsFarthest id farthest ∧
      data.closer (data.chosenMap data.representative) (data.representative id) = .ok candidates ∧
      candidates ≠ [] ∧ data.CandidateList id (data.representative id) farthest candidates ∧
      data.alternatives (data.chosenMap data.representative) (data.representative id) =
        .ok (ec, ee) ∧ data.AlternativesOf id (data.representative id) farthest ec ee := by
    intro id
    by_cases member : id ∈ data.id
    · obtain ⟨farthest, candidates, ec, ee, found⟩ := alternatives_spec result member
      exact ⟨farthest, candidates, ec, ee, fun _ => found⟩
    · exact ⟨0, [], 0, 0, fun isId => absurd isId member⟩
  choose farthest candidates ec ee found using each
  refine ⟨data.clusteringOf ec ee, clusterBarrierPoints_of_alternatives result.isLabelled
    result.placed ?_ ?_ ?_, fun place id sp heldId heldSp => ?_⟩
  · exact fun id member => (found id member).2.2.2.2.2.labelled.1
  · exact fun id member => (found id member).2.2.2.2.2.labelled.2
  · exact fun id member => (found id member).2.2.2.2.1
  · have member := List.mem_of_getElem? heldId
    have isRepresentative : data.representative id = sp := by
      rw [result.isLabelled.simpoints_eq, List.getElem?_map, heldId] at heldSp
      exact Int.ofNat_inj.mp (Option.some_inj.mp heldSp)
    obtain ⟨isFarthest, closer, filled, list, -, alternatives⟩ := found id member
    rw [isRepresentative] at closer list alternatives
    refine ⟨farthest id, candidates id, ec id, ee id, isFarthest, closer, filled, list, ?_, ?_,
      alternatives⟩
    · show (data.id.map _)[place]? = _
      rw [List.getElem?_map, heldId]
      rfl
    · show (data.id.map _)[place]? = _
      rw [List.getElem?_map, heldId]
      rfl

/-- Two clusters. In the second the representative is the last of four phases; the first and the
third of them are as close as it. -/
def fivePhases : SPData where
  id := [0, 1]
  simpoints := [2, 5]
  labels := [1, 0, 0, 1, 1, 1]
  distances := [3, 2, 1, 40, 3, 3]

theorem simPointResult_fivePhases : fivePhases.SimPointResult where
  found := by decide
  numbered := by decide
  distinct := by decide
  labelled := by decide
  represented := rfl
  own := by
    intro place id sp heldId heldSp
    have inside : place < 2 := (List.getElem?_eq_some_iff.mp heldId).1
    interval_cases place <;> cases heldId <;> cases heldSp <;> exact ⟨by decide, rfl⟩
  measured := rfl
  nonneg := by decide +kernel

theorem clusterBarrierPoints_fivePhases : fivePhases.SimPointResult ∧
    ∃ clustering, fivePhases.clusterBarrierPoints = .ok clustering ∧
      ∀ (place : Nat) id (sp : Nat), fivePhases.id[place]? = some id →
        fivePhases.simpoints[place]? = some (sp : Int) →
        fivePhases.FindsAlternatives clustering place id sp :=
  ⟨simPointResult_fivePhases, clusterBarrierPoints_findsAlternatives simPointResult_fivePhases⟩

end SPData

end BarrierPoint
