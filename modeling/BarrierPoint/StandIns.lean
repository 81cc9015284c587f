/-
This file asks when the clustering and the selection raise nothing on labels
and representatives that fit together, whatever the ids and the distances are.
A negative id may have no place among the others, or take one of theirs. The
alternatives of a cluster are looked for among the members near the center. The
representative itself may be none of them, when distances are negative or not
numbers, and then the search fails; and a phase that stands for others and has
executed no instruction is divided by.
-/

import BarrierPoint.Library.Floats
import BarrierPoint.Reconstruction

namespace BarrierPoint

open Library

namespace SPData

variable {Distance : Type}

/-- The ids, the representatives and the labels fit together, with a cluster at least and a label for
each phase. -/
structure FitsTogether (data : SPData Distance) (phases : Nat) : Prop extends
    data.Labelled where
  found : data.id ≠ []
  covered : data.labels.length = phases
  measured : data.distances.length = data.labels.length

/-- The distances of the members of a cluster, in the order of the phases. -/
def distancesOf (data : SPData Distance) (id : Int) : List Distance :=
  (clusterOf data.labels id).filterMap fun phase => data.distances[phase]?

/-- A member of a cluster that does not come after the representative and is hardly farther from the
center, with its distance. -/
def Near [Add Distance] [HMul Distance ℚ Distance] [Max Distance] [LE Distance]
    (data : SPData Distance) (id : Int) (sp phase : Nat) (distance : Distance) : Prop :=
  data.labels[phase]? = some id ∧ data.distances[phase]? = some distance ∧ phase ≤ sp ∧
    ∃ own farthest, data.distances[sp]? = some own ∧
      maximum (data.distancesOf id) = .ok farthest ∧ distance ≤ own + farthest * (5 / 100 : ℚ)

/-- The phases that may stand in for a representative: the earliest of the near members of its
cluster, and the last of the closest of them. -/
structure StandIns (data : SPData PyFloat) (id : Int) (sp ec ee : Nat) : Prop where
  earliest : (∃ distance, data.Near id sp ee distance) ∧
    ∀ phase distance, data.Near id sp phase distance → ee ≤ phase
  closest : ∃ least, data.Near id sp ec least ∧ ∀ phase distance,
    data.Near id sp phase distance → ¬distance < least ∧ (ec < phase → least < distance)

/-- Every cluster has phases that may stand in for its representative, and these phases and the
representative have executed instructions. -/
def Runs (data : SPData PyFloat) (insPerPhase : List Int) : Prop :=
  ∀ id ∈ data.id, ∃ ec ee, data.StandIns id (data.representative id) ec ee ∧
    instructionsOf insPerPhase (data.representative id) ≠ 0 ∧
    instructionsOf insPerPhase ec ≠ 0 ∧ instructionsOf insPerPhase ee ≠ 0

theorem StandIns.unique {data : SPData PyFloat} {id : Int} {sp ec ee otherEC otherEE : Nat}
    (first : data.StandIns id sp ec ee) (second : data.StandIns id sp otherEC otherEE) :
    ec = otherEC ∧ ee = otherEE := by
  obtain ⟨⟨_, near⟩, early⟩ := first.earliest
  obtain ⟨⟨_, nearOther⟩, earlyOther⟩ := second.earliest
  obtain ⟨least, nearEC, close⟩ := first.closest
  obtain ⟨leastOther, nearOtherEC, closeOther⟩ := second.closest
  refine ⟨Nat.le_antisymm (not_lt.mp fun behind => ?_) (not_lt.mp fun behind => ?_),
    Nat.le_antisymm (early _ _ nearOther) (earlyOther _ _ near)⟩
  · exact (close _ _ nearOtherEC).1 ((closeOther _ _ nearEC).2 behind)
  · exact (closeOther _ _ nearEC).1 ((close _ _ nearOtherEC).2 behind)

/-! ### The candidates -/

section Search

variable [Add Distance] [HMul Distance ℚ Distance] [Max Distance] [LE Distance]
  [DecidableLE Distance] {data : SPData Distance} {phases : Nat}

end Search

/-! ### The alternatives -/

variable {data : SPData PyFloat} {phases : Nat} {insPerPhase : List Int}

end SPData

end BarrierPoint
