/-
This file shows that the clustering step renames the representatives as if all
clusters were renamed at once. Each renaming goes over the map the earlier ones
have left; that none of them renames a phase a second time rests on every
choice lying in its own cluster, as the search takes its candidates from the
phases of the representative. So the order of the clusters plays no role.
-/

import BarrierPoint.Alternatives

namespace BarrierPoint

open Library

namespace SPData

variable {data : SPData}

/-! ### The order of the clusters -/

/-- The result with its clusters listed anew, each an id with the phase that represents it. -/
def relisted (data : SPData) (clusters : List (Int × Int)) : SPData :=
  { data with id := clusters.map Prod.fst, simpoints := clusters.map Prod.snd }

theorem zip_relisted (clusters : List (Int × Int)) :
    (data.relisted clusters).id.zip (data.relisted clusters).simpoints = clusters := by
  show (clusters.map Prod.fst).zip (clusters.map Prod.snd) = clusters
  rw [List.zip_map', List.map_id']

theorem mem_zip_iff (result : data.Labelled) {id sp : Int} :
    (id, sp) ∈ data.id.zip data.simpoints ↔ id ∈ data.id ∧ sp = data.representative id := by
  rw [result.simpoints_eq, ← List.map_prod_left_eq_zip, List.mem_map]
  constructor
  · rintro ⟨other, member, same⟩
    obtain ⟨rfl, rfl⟩ := Prod.mk.inj same
    exact ⟨member, rfl⟩
  · rintro ⟨member, rfl⟩
    exact ⟨id, member, rfl⟩

variable {clusters : List (Int × Int)}

theorem perm_id_relisted (result : data.Labelled)
    (perm : clusters.Perm (data.id.zip data.simpoints)) :
    (data.relisted clusters).id.Perm data.id := by
  have names := perm.map Prod.fst
  rwa [List.map_fst_zip result.represented.ge] at names

theorem Labelled.relisted (result : data.Labelled)
    (perm : clusters.Perm (data.id.zip data.simpoints)) : (data.relisted clusters).Labelled where
  distinct := (perm_id_relisted result perm).nodup_iff.mpr result.distinct
  labelled := fun label member =>
    (perm_id_relisted result perm).mem_iff.mpr (result.labelled label member)
  represented := (List.length_map _).trans (List.length_map _).symm
  own := by
    intro place id sp heldId heldSp
    have listed : (id, sp) ∈ clusters := by
      rw [← @zip_relisted data clusters]
      exact List.mem_of_getElem? (List.getElem?_zip_eq_some.mpr ⟨heldId, heldSp⟩)
    obtain ⟨member, rfl⟩ := (mem_zip_iff result).mp (perm.mem_iff.mp listed)
    exact ⟨Int.natCast_nonneg _, result.chooses_representative id member⟩

theorem LabelledResult.relisted (result : data.LabelledResult)
    (perm : clusters.Perm (data.id.zip data.simpoints)) :
    (data.relisted clusters).LabelledResult where
  toLabelled := result.toLabelled.relisted perm
  numbered := fun id member =>
    result.numbered id ((perm_id_relisted result.toLabelled perm).mem_iff.mp member)

/-- A cluster keeps its representative in any order. -/
theorem representative_relisted (result : data.Labelled)
    (perm : clusters.Perm (data.id.zip data.simpoints)) {id : Int} (member : id ∈ data.id) :
    (data.relisted clusters).representative id = data.representative id := by
  have isId := (perm_id_relisted result perm).mem_iff.mpr member
  have listed := (mem_zip_iff (result.relisted perm)).mpr ⟨isId, rfl⟩
  rw [zip_relisted, perm.mem_iff, mem_zip_iff result] at listed
  exact Int.ofNat_inj.mp listed.2

theorem chosenMap_relisted (result : data.Labelled)
    (perm : clusters.Perm (data.id.zip data.simpoints)) :
    (data.relisted clusters).chosenMap (data.relisted clusters).representative =
      data.chosenMap data.representative :=
  List.map_congr_left fun label member =>
    congrArg _ (representative_relisted result perm (result.labelled label member))

/-- In any order of the clusters the step finds the same alternatives. -/
theorem clusterBarrierPoints_relisted (result : data.LabelledResult)
    (perm : clusters.Perm (data.id.zip data.simpoints)) (found : data.id ≠ [])
    {ec ee : Int → Nat} (choosesEC : data.Chooses ec) (choosesEE : data.Chooses ee)
    (each : ∀ id ∈ data.id, data.alternatives (data.chosenMap data.representative)
      (data.representative id) = .ok (ec id, ee id)) :
    (data.relisted clusters).clusterBarrierPoints =
      .ok ((data.relisted clusters).clusteringOf ec ee) := by
  have labelled := result.toLabelled
  have ids := perm_id_relisted labelled perm
  refine clusterBarrierPoints_of_alternatives (labelled.relisted perm)
    ((result.relisted perm).placed fun none => found (List.nil_perm.mp (none ▸ ids)))
    (fun id member => choosesEC id (ids.mem_iff.mp member))
    (fun id member => choosesEE id (ids.mem_iff.mp member)) fun id member => ?_
  rw [chosenMap_relisted labelled perm, representative_relisted labelled perm (ids.mem_iff.mp member)]
  exact each id (ids.mem_iff.mp member)

/-! ### Renaming at once -/

/-- The maps of the alternatives are the map of the representatives with all representatives
replaced at once: every phase carries what the search has found for the cluster of its label. The
order of the clusters does not show. -/
structure RenamedAtOnce (data : SPData) (clustering : Clustering) : Prop where
  substitutedEC : clustering.simPointBBMapEC = clustering.simPointBBMap.map
    (substitute (clustering.simpoints.zip clustering.simpointsEC))
  substitutedEE : clustering.simPointBBMapEE = clustering.simPointBBMap.map
    (substitute (clustering.simpoints.zip clustering.simpointsEE))
  phases : ∀ (phase : Nat) id, data.labels[phase]? = some id → ∃ (place : Nat) (sp ec ee : Int),
    data.id[place]? = some id ∧ data.simpoints[place]? = some sp ∧
    data.alternatives clustering.simPointBBMap sp = .ok (ec, ee) ∧
    clustering.simpointsEC[place]? = some ec ∧ clustering.simpointsEE[place]? = some ee ∧
    clustering.simPointBBMapEC[phase]? = some ec ∧ clustering.simPointBBMapEE[phase]? = some ee
  reordered : ∀ clusters : List (Int × Int), clusters.Perm (data.id.zip data.simpoints) →
    ∃ other, (data.relisted clusters).clusterBarrierPoints = .ok other ∧
      other.simPointBBMap = clustering.simPointBBMap ∧
      other.simPointBBMapEC = clustering.simPointBBMapEC ∧
      other.simPointBBMapEE = clustering.simPointBBMapEE

/-- The map of a choice is the map of the representatives with all of them replaced at once. -/
theorem chosenMap_eq_map_substitute (result : data.Labelled) (chosen : Int → Nat) :
    data.chosenMap chosen = (data.chosenMap data.representative).map
      (substitute ((data.chosenPhases data.representative).zip (data.chosenPhases chosen))) := by
  rw [chosenMap, chosenMap, List.map_map]
  refine List.map_congr_left fun label member => ?_
  have replaced := substitute_representative result chosen (result.labelled label member)
  rw [result.simpoints_eq] at replaced
  exact replaced.symm

/-- The clustering step renames at once, and on what SimPoint finds it succeeds. -/
theorem clusterBarrierPoints_renamedAtOnce (result : data.LabelledResult) :
    (∀ clustering, data.clusterBarrierPoints = .ok clustering → data.RenamedAtOnce clustering) ∧
      (data.SimPointResult → ∃ clustering, data.clusterBarrierPoints = .ok clustering) := by
  have labelled := result.toLabelled
  refine ⟨fun clustering ran => ?_, fun found => ?_⟩
  · obtain ⟨placed, ec, ee, choosesEC, choosesEE, each, rfl⟩ :=
      (clusterBarrierPoints_eq_ok_iff labelled).mp ran
    refine ⟨chosenMap_eq_map_substitute labelled ec, chosenMap_eq_map_substitute labelled ee,
      fun phase id held => ?_, fun clusters perm => ?_⟩
    · have member := result.labelled id (List.mem_of_getElem? held)
      have place := List.getElem?_idxOf member
      have chosenAt : ∀ chosen : Int → Nat,
          (data.chosenPhases chosen)[data.id.idxOf id]? = some (chosen id : Int) ∧
            (data.chosenMap chosen)[phase]? = some (chosen id : Int) := fun chosen =>
        ⟨List.getElem?_map.trans (congrArg (Option.map _) place),
          List.getElem?_map.trans (congrArg (Option.map _) held)⟩
      exact ⟨data.id.idxOf id, data.representative id, ec id, ee id, place,
        (result.simpoint_idxOf member).1, each id member, (chosenAt ec).1, (chosenAt ee).1,
        (chosenAt ec).2, (chosenAt ee).2⟩
    · exact ⟨_, clusterBarrierPoints_relisted result perm placed.ne_nil choosesEC choosesEE each,
        chosenMap_relisted labelled perm, rfl, rfl⟩
  · obtain ⟨ec, ee, -, -, ran⟩ := clusterBarrierPoints_eq found
    exact ⟨_, ran⟩

/-- In the second cluster of the example the earliest alternative is not the representative. -/
theorem renamedAtOnce_fivePhases : fivePhases.LabelledResult ∧ fivePhases.RenamedAtOnce {
    simpoints := [2, 5]
    simpointsEC := [2, 5]
    simpointsEE := [2, 0]
    simPointBBMap := [5, 2, 2, 5, 5, 5]
    simPointBBMapEC := [5, 2, 2, 5, 5, 5]
    simPointBBMapEE := [0, 2, 2, 0, 0, 0] } :=
  ⟨simPointResult_fivePhases.labelledResult, (clusterBarrierPoints_renamedAtOnce
    simPointResult_fivePhases.labelledResult).1 _ (by decide +kernel)⟩

end SPData

end BarrierPoint
