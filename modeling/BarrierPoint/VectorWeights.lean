/-
This file says what the combined vectors weigh. The client leaves the empty
buckets of the histograms out, so a phase without reuse has no weight to
divide, and for any other phase the divisor is not zero. The weights of the
reuse distances are a share of the instructions of the phase, in proportion to
the references that were counted; the weights of the basic blocks are the
counts of the client.
-/

import BarrierPoint.CombinedVectors

namespace BarrierPoint

open Library

namespace BarrierPointData

variable {barrierPoint : BarrierPointData}

/-- The references in the buckets that are not empty, thread by thread. -/
def histCounts (barrierPoint : BarrierPointData) (phase : Nat) : List Nat :=
  barrierPoint.forThreads phase fun _ region => region.lruHist.filter (· ≠ 0)

/-- The instructions of the basic blocks, thread by thread. -/
def blockCounts (barrierPoint : BarrierPointData) (phase : Nat) : List Nat :=
  barrierPoint.forThreads phase fun _ region => region.bbv.entries.map fun bb => bb.2.toNat

/-- Some thread has seen a line again in the phase. -/
def Reuses (barrierPoint : BarrierPointData) (phase : Nat) : Prop :=
  ∃ data ∈ barrierPoint.threads, ∃ region, data.regions.lookup phase = some region ∧
    ∃ ent ∈ region.lruHist, ent ≠ 0

/-- A combined vector weighs what the client has counted in a phase. -/
structure Weighs (barrierPoint : BarrierPointData) (phase : Nat) (line : BpvLine) : Prop where
  dimensions : line.reuse.map Prod.fst = (barrierPoint.ldvPairs phase).map fun pair => (pair.1 : Int)
  proportional : ∃ share : ℚ,
    line.reuse.map Prod.snd = (barrierPoint.histCounts phase).map fun count : Nat => share * count
  normalised : barrierPoint.Reuses phase →
    (line.reuse.map Prod.snd).sum = barrierPoint.instructions phase
  unchanged : line.blocks.map Prod.snd =
    (barrierPoint.blockCounts phase).map fun count : Nat => (count : Int)

theorem map_snd_ldvPairs (phase : Nat) :
    (barrierPoint.ldvPairs phase).map Prod.snd = barrierPoint.histCounts phase := by
  rw [ldvPairs, histCounts, map_forThreads]
  refine forThreads_congr fun data _ region _ => ?_
  rw [List.map_map]
  have kept := List.filter_map (f := (Prod.fst : Nat × Nat → Nat)) (p := fun ent => decide (ent ≠ 0))
    (l := region.lruHist.zipIdx)
  rw [List.zipIdx_map_fst] at kept
  exact kept.symm

theorem map_snd_bbvPairs (phase : Nat) :
    (barrierPoint.bbvPairs phase).map Prod.snd = barrierPoint.blockCounts phase := by
  rw [bbvPairs, blockCounts, map_forThreads]
  refine forThreads_congr fun data _ region _ => ?_
  rw [List.map_map]
  rfl

/-- The weights are counted on from the references of all threads. -/
theorem sum_asInts_ldvPairs (phase : Nat) :
    ((asInts (barrierPoint.ldvPairs phase)).map Prod.snd).sum =
      ((barrierPoint.histCounts phase).sum : Int) := by
  rw [← map_snd_ldvPairs, Nat.cast_list_sum, asInts, List.map_map, List.map_map]
  rfl

/-- A phase with reuse has references to divide by. -/
theorem sum_histCounts_ne_zero {phase : Nat} (reuses : barrierPoint.Reuses phase) :
    (barrierPoint.histCounts phase).sum ≠ 0 := by
  obtain ⟨data, thread, region, found, ent, counted, filled⟩ := reuses
  have member : ent ∈ barrierPoint.histCounts phase :=
    mem_forThreads.mpr ⟨data, thread, region, found,
      List.mem_filter.mpr ⟨counted, decide_eq_true filled⟩⟩
  exact fun zero => filled (List.sum_eq_zero_iff.mp zero ent member)

/-- The line of a phase weighs what was counted. -/
theorem weighs_bpvLine (bbMax : Int) {insPerPhase : List Int} {phase : Nat}
    (ins : insPerPhase.getD (phase - 1) 0 = (barrierPoint.instructions phase : Int)) :
    barrierPoint.Weighs phase (barrierPoint.bpvLine bbMax insPerPhase phase) := by
  have weights : (barrierPoint.bpvLine bbMax insPerPhase phase).reuse.map Prod.snd =
      (barrierPoint.histCounts phase).map fun count : Nat =>
        (barrierPoint.instructions phase : ℚ) / (barrierPoint.histCounts phase).sum * count := by
    rw [bpvLine, sum_asInts_ldvPairs, ins, ← map_snd_ldvPairs, asInts, List.map_map, List.map_map,
      List.map_map]
    refine List.map_congr_left fun pair _ => ?_
    show ((((pair.2 : Int) * (barrierPoint.instructions phase : Int) : Int) : ℚ) / _) =
      _ / _ * (pair.2 : ℚ)
    rw [Int.cast_mul, Int.cast_natCast, Int.cast_natCast, Int.cast_natCast, div_mul_eq_mul_div,
      mul_comm]
  refine ⟨?_, ⟨_, weights⟩, fun reuses => ?_, ?_⟩
  · rw [bpvLine, asInts, List.map_map, List.map_map]
    rfl
  · have nonzero : ((barrierPoint.histCounts phase).sum : ℚ) ≠ 0 :=
      Nat.cast_ne_zero.mpr (sum_histCounts_ne_zero reuses)
    rw [weights, List.sum_map_mul_left, ← Nat.cast_list_sum, div_mul_cancel₀ _ nonzero]
  · rw [bpvLine, ← map_snd_bbvPairs, List.map_map, asInts, List.map_map, List.map_map]
    rfl

/-- The files of a run with a thread are combined without a division by zero and without an index
out of range: one vector for each region but the first, in order, that weighs what the client has
counted in the region. -/
theorem combineBBVsandLDVs_weighs (team : barrierPoint.threads ≠ []) : ∃ combined,
    combineBBVsandLDVs (some barrierPoint.saveBbvCount) (some barrierPoint.saveBbvInstCount)
      (some barrierPoint.saveLdvBb) = .ok (some combined) ∧
    List.Forall₂ barrierPoint.Weighs (List.range' 1 (barrierPoint.synchCount - 1))
      combined.lines := by
  obtain ⟨bbMax, ran⟩ := combineBBVsandLDVs_eq team
  refine ⟨_, ran, ?_⟩
  rw [← phases, List.forall₂_map_right_iff, List.forall₂_same]
  intro phase known
  obtain ⟨index, held⟩ := List.getElem?_of_mem known
  obtain ⟨-, rfl⟩ := getElem?_phases.mp held
  refine weighs_bpvLine bbMax ?_
  rw [Nat.add_sub_cancel, List.getD_eq_getElem?_getD, List.getElem?_map, held]
  rfl

theorem combineBBVsandLDVs_weighs_twoThreads : ∃ combined,
    combineBBVsandLDVs (some twoThreads.saveBbvCount) (some twoThreads.saveBbvInstCount)
      (some twoThreads.saveLdvBb) = .ok (some combined) ∧
    List.Forall₂ twoThreads.Weighs (List.range' 1 (twoThreads.synchCount - 1)) combined.lines :=
  combineBBVsandLDVs_weighs (by decide)

end BarrierPointData

end BarrierPoint
