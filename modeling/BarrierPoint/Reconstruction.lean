/-
This file proves the law of the method: the selected phases, each weighted
with its multiplier, reconstruct the instructions of the whole run. It holds
for every choice of a member for each cluster, so for the representatives
SimPoint found and for both alternatives.
-/

import BarrierPoint.Clustering
import Mathlib.Tactic.FieldSimp
import Mathlib.Tactic.Ring

namespace BarrierPoint

open Library

/-! ### One selection -/

/-- The instructions of a phase. -/
def instructionsOf (insPerPhase : List Int) (phase : Int) : ℚ :=
  (insPerPhase.getD phase.toNat 0 : Int)

namespace Selection

/-- The instructions of the selected phases, weighted with their multipliers. -/
def weighted (selection : Selection) (insPerPhase : List Int) : ℚ :=
  ((selection.barrierPoints.zip selection.multipliers).map fun (sp, multiplier) =>
    multiplier * instructionsOf insPerPhase sp).sum

/-- The selected phases are distinct phases of the run and reconstruct its instructions. -/
structure Reconstructs (selection : Selection) (insPerPhase : List Int) : Prop where
  distinct : selection.barrierPoints.Nodup
  inside : ∀ sp ∈ selection.barrierPoints, 0 ≤ sp ∧ sp < insPerPhase.length
  multiplied : selection.multipliers.length = selection.barrierPoints.length
  total : selection.weighted insPerPhase = (insPerPhase.map fun count : Int => (count : ℚ)).sum

end Selection

variable {Distance : Type} {data : SPData Distance} {insPerPhase : List Int} {chosen : Int → Nat}

/-- The scaling factors of all phases, each under the phase that represents it. -/
def factorEntries (data : SPData Distance) (insPerPhase : List Int) (chosen : Int → Nat) :
    List (Nat × ℚ) :=
  data.labels.zipIdx.map fun (label, phase) => (chosen label,
    instructionsOf insPerPhase phase / instructionsOf insPerPhase (chosen label))

theorem getItem_instructions {phase : Nat} (inside : phase < insPerPhase.length) :
    ∃ count : Int, getItem insPerPhase phase = .ok count ∧
      (count : ℚ) = instructionsOf insPerPhase phase := by
  have held := List.getElem?_eq_getElem inside
  refine ⟨_, getItem_of_getElem? held, ?_⟩
  rw [instructionsOf, Int.toNat_natCast, List.getD_eq_getElem?_getD, held]
  rfl

theorem chosen_lt (result : data.Labelled) (chooses : data.Chooses chosen)
    (sameLength : insPerPhase.length = data.labels.length) {label : Int}
    (member : label ∈ data.labels) : chosen label < insPerPhase.length := by
  have held := chooses label (result.labelled label member)
  rw [sameLength]
  exact (List.getElem?_eq_some_iff.mp held).choose

/-- A phase counts the instructions of its representative, scaled by its factor. -/
theorem scalingFactors_eq (result : data.Labelled) (chooses : data.Chooses chosen)
    (sameLength : insPerPhase.length = data.labels.length)
    (runs : ∀ id ∈ data.id, instructionsOf insPerPhase (chosen id) ≠ 0) :
    Selection.scalingFactors insPerPhase (data.chosenMap chosen) =
      .ok ((factorEntries data insPerPhase chosen).map Prod.snd) := by
  rw [Selection.scalingFactors, SPData.chosenMap, List.zipIdx_map, List.mapM_map, factorEntries,
    List.map_map]
  refine mapM_eq_ok fun entry member => ?_
  obtain ⟨label, phase⟩ := entry
  have held := List.mk_mem_zipIdx_iff_getElem?.mp member
  have isLabel := List.mem_of_getElem? held
  obtain ⟨inside, -⟩ := List.getElem?_eq_some_iff.mp held
  obtain ⟨own, readOwn, ownEq⟩ := getItem_instructions (sameLength ▸ inside)
  obtain ⟨represented, readOther, otherEq⟩ :=
    getItem_instructions (chosen_lt result chooses sameLength isLabel)
  have nonzero := runs label (result.labelled label isLabel)
  rw [← otherEq] at nonzero
  show (getItem insPerPhase phase >>= _) = _
  rw [bind_of_eq_ok readOwn]
  show (getItem insPerPhase (chosen label) >>= _) = _
  rw [bind_of_eq_ok readOther, if_neg (by exact_mod_cast nonzero)]
  refine congrArg Except.ok ?_
  show 1 + ((own : ℚ) - represented) / represented =
    instructionsOf insPerPhase phase / instructionsOf insPerPhase (chosen label)
  rw [← ownEq, ← otherEq]
  field_simp
  ring

/-- The multiplier of a phase is the sum of the factors of the phases it represents. -/
theorem bpToScaling_eq (result : data.Labelled) (chooses : data.Chooses chosen)
    (sameLength : insPerPhase.length = data.labels.length) : ∃ scaling,
    Selection.bpToScaling (data.chosenMap chosen)
      ((factorEntries data insPerPhase chosen).map Prod.snd) = .ok scaling ∧
    ∀ phase < data.labels.length,
      scaling[phase]? = some (amountAt (factorEntries data insPerPhase chosen) phase) := by
  have keys : data.chosenMap chosen =
      (factorEntries data insPerPhase chosen).map fun entry => (entry.1 : Int) := by
    rw [SPData.chosenMap, factorEntries, List.map_map]
    refine List.ext_getElem? fun place => ?_
    rw [List.getElem?_map, List.getElem?_map, List.getElem?_zipIdx]
    cases data.labels[place]? <;> rfl
  obtain ⟨scaling, ran, -, each⟩ := foldlM_addAt (factorEntries data insPerPhase chosen)
    (List.replicate data.labels.length 0) fun entry member => by
      obtain ⟨⟨label, phase⟩, inLabels, rfl⟩ := List.mem_map.mp member
      have isLabel := List.mem_of_getElem? (List.mk_mem_zipIdx_iff_getElem?.mp inLabels)
      rw [List.length_replicate, ← sameLength]
      exact chosen_lt result chooses sameLength isLabel
  refine ⟨scaling, ?_, fun phase inside => ?_⟩
  · have sameSize : (data.chosenMap chosen).length = data.labels.length := List.length_map ..
    rw [Selection.bpToScaling, sameSize, keys, List.zip_map']
    exact ran
  · have start : (List.replicate data.labels.length (0 : ℚ))[phase]? = some 0 := by
      rw [List.getElem?_replicate, if_pos inside]
    rw [each phase 0 start, zero_add]

/-- In every cluster, the measure of a phase is proportional to its instructions. -/
def SPData.Proportional (data : SPData Distance) (insPerPhase : List Int) (measure : Nat → ℚ) : Prop :=
  ∃ ratio : Int → ℚ, ∀ (phase : Nat) label, data.labels[phase]? = some label →
    measure phase = ratio label * instructionsOf insPerPhase phase

/-- All the factors together scale the representatives to the whole run. -/
theorem sum_factorEntries (result : data.Labelled) (chooses : data.Chooses chosen)
    (runs : ∀ id ∈ data.id, instructionsOf insPerPhase (chosen id) ≠ 0) {measure : Nat → ℚ}
    (proportional : data.Proportional insPerPhase measure) :
    ((factorEntries data insPerPhase chosen).map fun entry => entry.2 * measure entry.1).sum =
      ((List.range data.labels.length).map measure).sum := by
  obtain ⟨ratio, scaled⟩ := proportional
  congr 1
  rw [factorEntries, List.map_map]
  refine List.ext_getElem? fun phase => ?_
  rw [List.getElem?_map, List.getElem?_map, List.getElem?_zipIdx]
  cases held : data.labels[phase]? with
  | none =>
    rw [List.getElem?_eq_none_iff] at held
    rw [List.getElem?_eq_none (by rwa [List.length_range])]
    rfl
  | some label =>
    obtain ⟨inside, -⟩ := List.getElem?_eq_some_iff.mp held
    have isId := result.labelled label (List.mem_of_getElem? held)
    rw [List.getElem?_range inside]
    refine congrArg some ?_
    show instructionsOf insPerPhase ((0 + phase : Nat) : Int) /
      instructionsOf insPerPhase (chosen label) * measure (chosen label) = measure phase
    rw [scaled (chosen label) label (chooses label isId), scaled phase label held, Nat.zero_add]
    have nonzero := runs label isId
    field_simp

/-- The selection of a choice. -/
def selectionOf (data : SPData Distance) (insPerPhase : List Int) (chosen : Int → Nat) : Selection where
  barrierPoints := (data.chosenPhases chosen).insertionSort (· ≤ ·)
  multipliers := ((data.chosenPhases chosen).insertionSort (· ≤ ·)).map fun sp =>
    amountAt (factorEntries data insPerPhase chosen) sp.toNat

theorem mem_selectionOf (insPerPhase : List Int) (chooses : data.Chooses chosen) {sp : Int}
    (member : sp ∈ (selectionOf data insPerPhase chosen).barrierPoints) :
    ∃ phase : Nat, sp = (phase : Int) ∧ phase < data.labels.length := by
  have sorted := (data.chosenPhases chosen).perm_insertionSort (· ≤ ·)
  obtain ⟨id, isId, rfl⟩ := List.mem_map.mp (sorted.mem_iff.mp member)
  exact ⟨chosen id, rfl, (List.getElem?_eq_some_iff.mp (chooses id isId)).choose⟩

theorem select_eq (chooses : data.Chooses chosen) {scaling : List ℚ}
    (scaled : ∀ phase < data.labels.length,
      scaling[phase]? = some (amountAt (factorEntries data insPerPhase chosen) phase)) :
    Selection.select (data.chosenPhases chosen) scaling =
      .ok (selectionOf data insPerPhase chosen) := by
  refine bind_of_eq_ok (mapM_eq_ok fun sp member => ?_) _
  obtain ⟨phase, rfl, inside⟩ := mem_selectionOf insPerPhase chooses member
  exact getItem_of_getElem? (scaled phase inside)

theorem nodup_chosen (result : data.Labelled) (chooses : data.Chooses chosen) :
    (data.id.map chosen).Nodup :=
  result.distinct.map_on fun _ isFirst _ isSecond same =>
    chooses.injective chooses isFirst isSecond same

/-- The selected phases, weighted with their multipliers, measure as much as all phases. -/
theorem sum_selectionOf (result : data.Labelled) (chooses : data.Chooses chosen)
    (runs : ∀ id ∈ data.id, instructionsOf insPerPhase (chosen id) ≠ 0) {measure : Nat → ℚ}
    (proportional : data.Proportional insPerPhase measure) :
    (((selectionOf data insPerPhase chosen).barrierPoints.zip
      (selectionOf data insPerPhase chosen).multipliers).map fun (sp, multiplier) =>
        multiplier * measure sp.toNat).sum =
      ((List.range data.labels.length).map measure).sum := by
  have sorted := (data.chosenPhases chosen).perm_insertionSort (· ≤ ·)
  have covers : ∀ entry ∈ factorEntries data insPerPhase chosen, entry.1 ∈ data.id.map chosen := by
    intro entry member
    obtain ⟨⟨label, phase⟩, inLabels, rfl⟩ := List.mem_map.mp member
    have isLabel := List.mem_of_getElem? (List.mk_mem_zipIdx_iff_getElem?.mp inLabels)
    exact List.mem_map_of_mem (result.labelled label isLabel)
  have gathered := sum_amountAt (factorEntries data insPerPhase chosen) (data.id.map chosen)
    (nodup_chosen result chooses) covers measure
  rw [sum_factorEntries result chooses runs proportional] at gathered
  rw [← gathered, selectionOf, ← List.map_prod_left_eq_zip, List.map_map, (sorted.map _).sum_eq,
    SPData.chosenPhases, List.map_map, List.map_map]
  rfl

/-- The selection of any choice reconstructs the run. -/
theorem selectionOf_reconstructs (result : data.Labelled) (chooses : data.Chooses chosen)
    (sameLength : insPerPhase.length = data.labels.length)
    (runs : ∀ id ∈ data.id, instructionsOf insPerPhase (chosen id) ≠ 0) :
    (selectionOf data insPerPhase chosen).Reconstructs insPerPhase := by
  have sorted := (data.chosenPhases chosen).perm_insertionSort (· ≤ ·)
  refine ⟨?_, fun sp member => ?_, List.length_map .., ?_⟩
  · refine sorted.nodup_iff.mpr ?_
    have casts := (nodup_chosen result chooses).map (f := fun phase : Nat => (phase : Int))
      fun _ _ => Int.ofNat_inj.mp
    rwa [List.map_map] at casts
  · obtain ⟨phase, rfl, inside⟩ := mem_selectionOf insPerPhase chooses member
    omega
  · have proportional : data.Proportional insPerPhase fun phase => instructionsOf insPerPhase phase :=
      ⟨fun _ => 1, fun _ _ _ => (one_mul _).symm⟩
    have sums := sum_selectionOf result chooses runs proportional
    have counts : (List.range data.labels.length).map (fun phase : Nat =>
        instructionsOf insPerPhase phase) = insPerPhase.map fun count : Int => (count : ℚ) := by
      rw [← sameLength]
      refine List.ext_getElem (by simp) fun phase inside _ => ?_
      rw [List.length_map, List.length_range] at inside
      obtain ⟨count, read, countEq⟩ := getItem_instructions inside
      rw [getItem_of_getElem? (List.getElem?_eq_getElem inside)] at read
      cases read
      simp [← countEq]
    rw [counts] at sums
    exact sums

/-! ### The three selections -/

/-- Every representative executed instructions. -/
def Clustering.RepresentativesRun (clustering : Clustering) (insPerPhase : List Int) : Prop :=
  ∀ sp ∈ clustering.simpoints ++ clustering.simpointsEC ++ clustering.simpointsEE,
    instructionsOf insPerPhase sp ≠ 0

/-- When the representatives of three choices executed instructions, the selection step makes the
selections of these choices. -/
theorem selectSignificantBarrierPoints_eq (result : data.Labelled)
    (sameLength : insPerPhase.length = data.labels.length) {ec ee : Int → Nat}
    (choosesEC : data.Chooses ec) (choosesEE : data.Chooses ee)
    (runs : ∀ id ∈ data.id, instructionsOf insPerPhase (data.representative id) ≠ 0)
    (runsEC : ∀ id ∈ data.id, instructionsOf insPerPhase (ec id) ≠ 0)
    (runsEE : ∀ id ∈ data.id, instructionsOf insPerPhase (ee id) ≠ 0) :
    (data.clusteringOf ec ee).selectSignificantBarrierPoints insPerPhase = .ok {
      main := selectionOf data insPerPhase data.representative
      ec := selectionOf data insPerPhase ec
      ee := selectionOf data insPerPhase ee } := by
  have chooses := result.chooses_representative
  obtain ⟨scaling, scaled, each⟩ := bpToScaling_eq result chooses sameLength
  obtain ⟨scalingEC, scaledEC, eachEC⟩ := bpToScaling_eq result choosesEC sameLength
  obtain ⟨scalingEE, scaledEE, eachEE⟩ := bpToScaling_eq result choosesEE sameLength
  rw [Clustering.selectSignificantBarrierPoints, SPData.clusteringOf,
    bind_of_eq_ok (scalingFactors_eq result chooses sameLength runs),
    bind_of_eq_ok (scalingFactors_eq result choosesEC sameLength runsEC),
    bind_of_eq_ok (scalingFactors_eq result choosesEE sameLength runsEE),
    bind_of_eq_ok scaled, bind_of_eq_ok scaledEC, bind_of_eq_ok scaledEE,
    bind_of_eq_ok (select_eq chooses each), bind_of_eq_ok (select_eq choosesEC eachEC),
    bind_of_eq_ok (select_eq choosesEE eachEE)]
  rfl

/-- Representatives that executed instructions did so in each of the three choices. -/
theorem representativesRun_iff {ec ee : Int → Nat} :
    (data.clusteringOf ec ee).RepresentativesRun insPerPhase ↔ ∀ id ∈ data.id,
      instructionsOf insPerPhase (data.representative id) ≠ 0 ∧
      instructionsOf insPerPhase (ec id) ≠ 0 ∧ instructionsOf insPerPhase (ee id) ≠ 0 := by
  simp only [Clustering.RepresentativesRun, SPData.clusteringOf, SPData.chosenPhases,
    List.mem_append, List.mem_map]
  constructor
  · exact fun run id member => ⟨run _ (.inl (.inl ⟨id, member, rfl⟩)),
      run _ (.inl (.inr ⟨id, member, rfl⟩)), run _ (.inr ⟨id, member, rfl⟩)⟩
  · rintro run sp ((⟨id, member, rfl⟩ | ⟨id, member, rfl⟩) | ⟨id, member, rfl⟩)
    · exact (run id member).1
    · exact (run id member).2.1
    · exact (run id member).2.2

/-- For every result of SimPoint the clustering step goes through, and when the representatives
executed instructions, so does the selection: the selected phases, the closest and the earliest
alternatives are distinct phases each and reconstruct the instructions of the run. -/
theorem selections_reconstruct (data : SPData) (insPerPhase : List Int)
    (result : data.SimPointResult) (sameLength : insPerPhase.length = data.labels.length) :
    ∃ clustering, data.clusterBarrierPoints = .ok clustering ∧
      (clustering.RepresentativesRun insPerPhase →
        ∃ selections, clustering.selectSignificantBarrierPoints insPerPhase = .ok selections ∧
          selections.main.Reconstructs insPerPhase ∧ selections.ec.Reconstructs insPerPhase ∧
          selections.ee.Reconstructs insPerPhase) := by
  obtain ⟨ec, ee, choosesEC, choosesEE, clustered⟩ := SPData.clusterBarrierPoints_eq result
  refine ⟨_, clustered, fun run => ?_⟩
  rw [representativesRun_iff] at run
  have runs := fun id member => (run id member).1
  have runsEC := fun id member => (run id member).2.1
  have runsEE := fun id member => (run id member).2.2
  have labelled := result.isLabelled
  exact ⟨_, selectSignificantBarrierPoints_eq labelled sameLength choosesEC choosesEE runs runsEC
      runsEE,
    selectionOf_reconstructs labelled labelled.chooses_representative sameLength runs,
    selectionOf_reconstructs labelled choosesEC sameLength runsEC,
    selectionOf_reconstructs labelled choosesEE sameLength runsEE⟩

/-- Four phases in two clusters, the first of which has an earlier alternative. -/
theorem selections_reconstruct_two : ∃ clustering selections, SPData.clusterBarrierPoints
      ⟨[0, 1], [2, 1], [0, 1, 0, 0], [1, 0, 1, 2]⟩ = .ok clustering ∧
    clustering.selectSignificantBarrierPoints [10, 20, 40, 50] = .ok selections ∧
    selections.main.Reconstructs [10, 20, 40, 50] ∧
    selections.ec.Reconstructs [10, 20, 40, 50] ∧
    selections.ee.Reconstructs [10, 20, 40, 50] := by
  have result : SPData.SimPointResult ⟨[0, 1], [2, 1], [0, 1, 0, 0], [1, 0, 1, 2]⟩ := by
    refine ⟨by decide, by decide, by decide, by decide, rfl, ?_, rfl, by decide⟩
    intro place id sp isId isPoint
    match place with
    | 0 => cases isId; cases isPoint; decide
    | 1 => cases isId; cases isPoint; decide
    | place + 2 => cases isId
  obtain ⟨clustering, clustered, reconstructs⟩ :=
    selections_reconstruct _ [10, 20, 40, 50] result rfl
  have computed : SPData.clusterBarrierPoints ⟨[0, 1], [2, 1], [0, 1, 0, 0], [1, 0, 1, 2]⟩ =
      .ok ⟨[2, 1], [2, 1], [0, 1], [2, 1, 2, 2], [2, 1, 2, 2], [0, 1, 0, 0]⟩ := by decide +kernel
  cases clustered.symm.trans computed
  obtain ⟨selections, selected, each⟩ := reconstructs (by
    unfold Clustering.RepresentativesRun
    decide)
  exact ⟨_, selections, clustered, selected, each⟩

end BarrierPoint
