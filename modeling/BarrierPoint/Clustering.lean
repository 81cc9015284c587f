/-
This file shows what the clustering step computes from a result of SimPoint:
every phase is represented by a member of its own cluster, also after one of
the alternatives has taken the place of the representatives. A representative
is told from the others by the label it carries, so replacing them one cluster
at a time never touches a replacement made before.
-/

import BarrierPoint.DrAnalysis
import Mathlib.Tactic.Linarith

namespace BarrierPoint

open Library

namespace SPData

/-- What SimPoint guarantees of its result: it finds a cluster, numbers the clusters from zero on,
puts every phase into one of them, and lets a member represent each. -/
structure SimPointResult (data : SPData) : Prop where
  found : data.id ≠ []
  numbered : ∀ id ∈ data.id, 0 ≤ id
  distinct : data.id.Nodup
  labelled : ∀ label ∈ data.labels, label ∈ data.id
  represented : data.simpoints.length = data.id.length
  own : ∀ (place : Nat) id sp, data.id[place]? = some id → data.simpoints[place]? = some sp →
    0 ≤ sp ∧ data.labels[sp.toNat]? = some id
  measured : data.distances.length = data.labels.length
  nonneg : ∀ distance ∈ data.distances, 0 ≤ distance

variable {Distance : Type}

/-- The clusters, phases and representatives of a result belong together, whatever the ids and the
distances are. -/
structure Labelled (data : SPData Distance) : Prop where
  distinct : data.id.Nodup
  labelled : ∀ label ∈ data.labels, label ∈ data.id
  represented : data.simpoints.length = data.id.length
  own : ∀ (place : Nat) id sp, data.id[place]? = some id → data.simpoints[place]? = some sp →
    0 ≤ sp ∧ data.labels[sp.toNat]? = some id

/-- They belong together, and the clusters are numbered. -/
structure LabelledResult (data : SPData Distance) : Prop extends data.Labelled where
  numbered : ∀ id ∈ data.id, 0 ≤ id

theorem SimPointResult.labelledResult {data : SPData} (result : data.SimPointResult) :
    data.LabelledResult where
  numbered := result.numbered
  distinct := result.distinct
  labelled := result.labelled
  represented := result.represented
  own := result.own

theorem SimPointResult.isLabelled {data : SPData} (result : data.SimPointResult) :
    data.Labelled := result.labelledResult.toLabelled

/-- The phase that represents the cluster of a label. -/
def representative (data : SPData Distance) (label : Int) : Nat :=
  (data.simpoints.getD (data.id.idxOf label) 0).toNat

/-- A choice of a phase for every cluster, each a member of its own cluster. -/
def Chooses (data : SPData Distance) (chosen : Int → Nat) : Prop :=
  ∀ id ∈ data.id, data.labels[chosen id]? = some id

theorem Chooses.injective {data : SPData Distance} {chosen other : Int → Nat}
    (first : data.Chooses chosen) (second : data.Chooses other) {label id : Int}
    (member : label ∈ data.id) (memberOther : id ∈ data.id) (same : chosen label = other id) : label = id := by
  have one := first label member
  rw [same, second id memberOther] at one
  exact (Option.some_inj.mp one).symm

section Labels

variable {data : SPData Distance}

namespace Labelled

/-- The place of an id among the ids holds the representative of its cluster. -/
theorem simpoint_idxOf (result : data.Labelled) {id : Int} (member : id ∈ data.id) :
    data.simpoints[data.id.idxOf id]? = some (data.representative id : Int) ∧
      data.labels[data.representative id]? = some id := by
  have inside := List.idxOf_lt_length_of_mem member
  have here : data.id[data.id.idxOf id]? = some id := List.getElem?_idxOf member
  obtain ⟨sp, held⟩ : ∃ sp, data.simpoints[data.id.idxOf id]? = some sp :=
    ⟨_, List.getElem?_eq_getElem (result.represented ▸ inside)⟩
  obtain ⟨nonneg, own⟩ := result.own _ id sp here held
  have same : data.representative id = sp.toNat := by
    rw [representative, List.getD_eq_getElem?_getD, held]
    rfl
  rw [same, Int.toNat_of_nonneg nonneg]
  exact ⟨held, own⟩

theorem chooses_representative (result : data.Labelled) :
    data.Chooses data.representative := fun _ member => (result.simpoint_idxOf member).2

theorem simpoints_eq (result : data.Labelled) :
    data.simpoints = data.id.map fun id => (data.representative id : Int) := by
  refine List.ext_getElem? fun place => ?_
  rw [List.getElem?_map]
  cases held : data.id[place]? with
  | none =>
    rw [List.getElem?_eq_none_iff, ← result.represented] at held
    exact List.getElem?_eq_none held
  | some id =>
    obtain ⟨inside, rfl⟩ := List.getElem?_eq_some_iff.mp held
    have read := (result.simpoint_idxOf (List.mem_of_getElem? held)).1
    rw [result.distinct.idxOf_getElem place inside] at read
    exact read

end Labelled

/-! ### The representative of every phase -/

/-- Every id has a place of its own in the list of the places, where a negative one counts from the
end. -/
def Placed (data : SPData Distance) : Prop :=
  ∃ last, maximum data.id = .ok last ∧ (∀ id ∈ data.id, InRange (last + 1).toNat id) ∧
    (data.id.map (position (last + 1).toNat)).Nodup

/-- Numbers from zero on are their own places. -/
theorem LabelledResult.placed (result : data.LabelledResult) (found : data.id ≠ []) :
    data.Placed := by
  obtain ⟨last, isLast, bound⟩ := maximum_eq_ok found
  refine ⟨last, isLast, fun id member => ?_, ?_⟩
  · have below := bound id member
    have nonneg := result.numbered id member
    rw [InRange]
    omega
  · have same : data.id.map (position (last + 1).toNat) = data.id :=
      (List.map_congr_left fun id member => if_neg (not_lt.mpr (result.numbered id member))).trans
        (List.map_id data.id)
    rw [same]
    exact result.distinct

theorem Placed.ne_nil (placed : data.Placed) : data.id ≠ [] := by
  obtain ⟨last, isLast, -⟩ := placed
  exact List.ne_nil_of_mem (mem_of_maximum isLast)

theorem SimPointResult.placed {data : SPData} (result : data.SimPointResult) : data.Placed :=
  result.labelledResult.placed result.found

/-- When the places are filled in, the place of an id holds that of the last id with the same one. -/
theorem id2index_spec {places : List (Option Nat)} (ran : data.id2index = .ok places) :
    ∃ last, maximum data.id = .ok last ∧ places.length = (last + 1).toNat ∧
      ∀ (place : Nat) id, data.id[place]? = some id → InRange places.length id ∧
        ∃ latest other, place ≤ latest ∧ data.id[latest]? = some other ∧
          position places.length other = position places.length id ∧
          getItem places id = .ok (some latest) := by
  obtain ⟨last, isLast, written⟩ := exists_of_bind_eq_ok ran
  obtain ⟨sameLength, each⟩ := foldlM_setItem some _ _ written
  refine ⟨last, isLast, sameLength.trans List.length_replicate, fun place id held => ?_⟩
  have atPlace : data.id.zipIdx[place]? = some (id, place) := by
    rw [List.getElem?_zipIdx, held, Nat.zero_add]
    rfl
  obtain ⟨inside, latest, ⟨other, number⟩, behind, heldOther, same, there⟩ := each _ _ atPlace
  rw [List.getElem?_zipIdx, Nat.zero_add] at heldOther
  obtain ⟨_, isOther, here⟩ := Option.map_eq_some_iff.mp heldOther
  cases here
  rw [← sameLength] at inside same there
  exact ⟨inside, latest, other, behind, isOther, same,
    getItem_of_position (position_nonneg inside) there⟩

theorem id2index_eq (placed : data.Placed) :
    ∃ places, data.id2index = .ok places ∧
      ∀ id ∈ data.id, getItem places id = .ok (some (data.id.idxOf id)) := by
  obtain ⟨last, isLast, inRange, distinct⟩ := placed
  obtain ⟨places, written⟩ := exists_foldlM_setItem some data.id.zipIdx
    (List.replicate (last + 1).toNat none) fun entry member => by
      rw [List.length_replicate]
      exact inRange entry.1 (List.fst_mem_of_mem_zipIdx member)
  have ran : data.id2index = .ok places := (bind_of_eq_ok isLast _).trans written
  obtain ⟨largest, isLargest, size, each⟩ := id2index_spec ran
  obtain rfl := Except.ok.inj (isLast.symm.trans isLargest)
  refine ⟨places, ran, fun id member => ?_⟩
  have here := List.getElem?_idxOf member
  obtain ⟨-, latest, other, -, there, same, read⟩ := each _ id here
  rw [size] at same
  have only : data.id.idxOf id = latest := by
    refine (List.getElem?_inj ?_ distinct).mp ?_
    · rw [List.length_map]
      exact List.idxOf_lt_length_of_mem member
    · rw [List.getElem?_map, List.getElem?_map, here, there]
      exact congrArg some same.symm
  rw [read, only]

/-- Every phase is represented by the representative of its cluster. -/
theorem simPointBBMap_eq (result : data.Labelled) (placed : data.Placed) :
    data.simPointBBMap =
      .ok (data.labels.map fun label => (data.representative label : Int)) := by
  obtain ⟨places, ran, each⟩ := id2index_eq placed
  rw [simPointBBMap, ran]
  refine mapM_eq_ok fun label member => ?_
  have isId := result.labelled label member
  rw [bind_of_eq_ok (each label isId)]
  exact getItem_of_getElem? (result.simpoint_idxOf isId).1

/-! ### The members of a cluster -/

theorem mem_clusterOf (map : List Int) (sp : Int) (phase : Nat) :
    phase ∈ clusterOf map sp ↔ map[phase]? = some sp := by
  unfold clusterOf
  rw [List.mem_map]
  constructor
  · rintro ⟨⟨representative, place⟩, member, rfl⟩
    obtain ⟨inMap, same⟩ := List.mem_filter.mp member
    rw [← of_decide_eq_true same]
    exact List.mk_mem_zipIdx_iff_getElem?.mp inMap
  · exact fun held => ⟨(sp, phase), List.mem_filter.mpr
      ⟨List.mk_mem_zipIdx_iff_getElem?.mpr held, decide_eq_true rfl⟩, rfl⟩

/-- The members of a cluster come in the order of the phases. -/
theorem pairwise_clusterOf (map : List Int) (sp : Int) : (clusterOf map sp).Pairwise (· < ·) := by
  refine List.Pairwise.sublist (List.filter_sublist.map _) ?_
  rw [List.zipIdx_map_snd]
  exact List.pairwise_lt_range'

/-- The phases a representative stands for are the members of its cluster. -/
theorem mem_clusterOf_representative (result : data.Labelled) {id : Int}
    (member : id ∈ data.id) (phase : Nat) :
    phase ∈ clusterOf (data.labels.map fun label => (data.representative label : Int))
      (data.representative id) ↔ data.labels[phase]? = some id := by
  rw [mem_clusterOf, List.getElem?_map, Option.map_eq_some_iff]
  constructor
  · rintro ⟨label, held, same⟩
    rw [held, result.chooses_representative.injective result.chooses_representative
      (result.labelled label (List.mem_of_getElem? held)) member (Int.ofNat_inj.mp same)]
  · exact fun held => ⟨id, held, rfl⟩

end Labels

/-! ### The alternatives -/

section Rationals

variable {data : SPData}

/-- The distance of a phase from the center of its cluster. -/
def distance (data : SPData) (phase : Nat) : ℚ := data.distances.getD phase 0

theorem getItem_distances (result : data.SimPointResult) {phase : Nat} {label : Int}
    (held : data.labels[phase]? = some label) :
    getItem data.distances phase = .ok (data.distance phase) := by
  obtain ⟨inside, -⟩ := List.getElem?_eq_some_iff.mp held
  have read := List.getElem?_eq_getElem (result.measured ▸ inside)
  rw [distance, List.getD_eq_getElem?_getD, read]
  exact getItem_of_getElem? read

/-- The candidates of a cluster are the members up to its representative that are within the bound,
in order. -/
theorem closer_eq_filter (result : data.SimPointResult) {id : Int} (member : id ∈ data.id) :
    ∃ farthest, maximum ((clusterOf (data.labels.map fun label => (data.representative label : Int))
        (data.representative id)).map data.distance) = .ok farthest ∧
      data.closer (data.labels.map fun label => (data.representative label : Int))
        (data.representative id) =
      .ok (((clusterOf (data.labels.map fun label => (data.representative label : Int))
        (data.representative id)).map fun phase => (phase, data.distance phase)).filter
          fun (phase, distance) =>
            distance ≤ data.distance (data.representative id) + farthest * (5 / 100) ∧
              (phase : Int) ≤ data.representative id) := by
  have members := mem_clusterOf_representative result.isLabelled member
  have own := result.isLabelled.chooses_representative id member
  have read : (clusterOf (data.labels.map fun label => (data.representative label : Int))
      (data.representative id)).mapM (fun phase : Nat => getItem data.distances phase) = .ok
      ((clusterOf (data.labels.map fun label => (data.representative label : Int))
        (data.representative id)).map data.distance) :=
    mapM_eq_ok fun phase inCluster => getItem_distances result ((members phase).mp inCluster)
  have filled : (clusterOf (data.labels.map fun label => (data.representative label : Int))
      (data.representative id)).map data.distance ≠ [] :=
    List.ne_nil_of_mem (List.mem_map_of_mem ((members _).mpr own))
  obtain ⟨farthest, isFarthest, -⟩ := maximum_eq_ok filled
  refine ⟨farthest, isFarthest, ?_⟩
  rw [closer, bind_of_eq_ok read, bind_of_eq_ok (getItem_distances result own),
    bind_of_eq_ok isFarthest, ← List.map_prod_left_eq_zip]
  rfl

theorem distance_nonneg (result : data.SimPointResult) (phase : Nat) : 0 ≤ data.distance phase := by
  rw [distance, List.getD_eq_getElem?_getD]
  cases held : data.distances[phase]? with
  | none => exact le_refl _
  | some distance => exact result.nonneg distance (List.mem_of_getElem? held)

/-- Every cluster has alternatives: its representative is a candidate. -/
theorem exists_alternatives (result : data.SimPointResult) {id : Int} (member : id ∈ data.id) :
    ∃ found, data.alternatives (data.labels.map fun label => (data.representative label : Int))
      (data.representative id) = .ok found := by
  obtain ⟨farthest, isFarthest, closer⟩ := closer_eq_filter result member
  have inCluster := (mem_clusterOf_representative result.isLabelled member _).mpr
    (result.isLabelled.chooses_representative id member)
  obtain ⟨largest, isLargest, bound⟩ :=
    maximum_eq_ok (List.ne_nil_of_mem (mem_of_maximum isFarthest))
  obtain rfl := Except.ok.inj (isFarthest.symm.trans isLargest)
  have reach := (distance_nonneg result (data.representative id)).trans
    (bound _ (List.mem_map_of_mem inCluster))
  have near : data.distance (data.representative id) ≤
      data.distance (data.representative id) + farthest * (5 / 100) := by linarith
  generalize listed : (List.filter _ _ : List (Nat × ℚ)) = candidates at closer
  have filled : candidates ≠ [] := by
    rw [← listed]
    exact List.ne_nil_of_mem (List.mem_filter.mpr
      ⟨List.mem_map_of_mem inCluster, decide_eq_true ⟨near, le_rfl⟩⟩)
  obtain ⟨front, closest, back, -, reduced, -, -⟩ :=
    reduce_eq_ok_last (Prod.snd : Nat × ℚ → ℚ) (fun _ _ _ _ => Iff.rfl) filled
  obtain ⟨earliest, rest, isFirst⟩ := List.exists_cons_of_ne_nil filled
  refine ⟨(closest.1, earliest.1), ?_⟩
  rw [alternatives, bind_of_eq_ok closer]
  refine (bind_of_eq_ok reduced _).trans ?_
  rw [isFirst]
  rfl

end Rationals

/-! ### The replacement of the representatives -/

section Replacements

variable {data : SPData Distance}

/-- The representatives of the clusters after a choice. -/
def chosenPhases (data : SPData Distance) (chosen : Int → Nat) : List Int :=
  data.id.map fun id => (chosen id : Int)

/-- The representative of every phase after a choice. -/
def chosenMap (data : SPData Distance) (chosen : Int → Nat) : List Int :=
  data.labels.map fun label => (chosen label : Int)

/-- The renamings of one cluster after the other are replacements in turn. -/
theorem replaceAll_eq_replaceInTurn (simpoints others map : List Int) :
    replaceAll simpoints others map = replaceInTurn (simpoints.zip others) map := by
  have renamed : ∀ (s1 s2 : Int) (map : List Int), (if s1 = s2 then map
      else map.map fun sp => if sp = s1 then s2 else sp) =
      map.map fun sp => if sp = s1 then s2 else sp := by
    intro s1 s2 map
    split
    · rename_i same
      have stays : ∀ sp ∈ map, (if sp = s1 then s2 else sp) = sp := by
        intro sp _
        split
        · rename_i here
          exact (here.trans same).symm
        · rfl
      rw [List.map_congr_left stays, List.map_id']
    · rfl
  simp only [replaceAll, replaceInTurn, renamed]

/-- No choice of a cluster is the representative of another: each lies in its own cluster. -/
theorem replacements_apart (result : data.Labelled) {chosen : Int → Nat}
    (chooses : data.Chooses chosen) :
    (data.simpoints.zip (data.chosenPhases chosen)).Pairwise fun earlier later =>
      earlier.2 ≠ later.1 := by
  rw [result.simpoints_eq, chosenPhases, List.zip_map', List.pairwise_map]
  refine result.distinct.imp_of_mem fun first second different same => different ?_
  exact chooses.injective result.chooses_representative first second (Int.ofNat_inj.mp same)

/-- All replacements at once make the choice of every cluster from its representative. -/
theorem substitute_representative (result : data.Labelled) (chosen : Int → Nat) {id : Int}
    (member : id ∈ data.id) :
    substitute (data.simpoints.zip (data.chosenPhases chosen)) (data.representative id) =
      chosen id := by
  rw [result.simpoints_eq, chosenPhases, List.zip_map']
  refine substitute_of_mem ?_ (List.mem_map.mpr ⟨id, member, rfl⟩)
  rw [List.map_map]
  refine result.distinct.map_on fun first isFirst second isSecond same => ?_
  exact result.chooses_representative.injective result.chooses_representative isFirst isSecond
    (Int.ofNat_inj.mp same)

/-- One cluster after the other takes its choice, and in the end every phase has that of its own
cluster. -/
theorem replaceAll_eq (result : data.Labelled) {chosen : Int → Nat}
    (chooses : data.Chooses chosen) :
    replaceAll data.simpoints (data.chosenPhases chosen) (data.chosenMap data.representative) =
      data.chosenMap chosen := by
  rw [replaceAll_eq_replaceInTurn, replaceInTurn_eq_map (replacements_apart result chooses),
    chosenMap, List.map_map]
  exact List.map_congr_left fun label member =>
    substitute_representative result chosen (result.labelled label member)

/-- The clustering with given choices of alternatives. -/
def clusteringOf (data : SPData Distance) (ec ee : Int → Nat) : Clustering where
  simpoints := data.chosenPhases data.representative
  simpointsEC := data.chosenPhases ec
  simpointsEE := data.chosenPhases ee
  simPointBBMap := data.chosenMap data.representative
  simPointBBMapEC := data.chosenMap ec
  simPointBBMapEE := data.chosenMap ee

variable [Add Distance] [HMul Distance ℚ Distance] [Max Distance] [LE Distance]
  [DecidableLE Distance]

/-- The candidates are phases of the representative. -/
theorem mem_clusterOf_of_closer {map : List Int} {sp : Int} {candidates : List (Nat × Distance)}
    (found : data.closer map sp = .ok candidates) :
    ∀ candidate ∈ candidates, candidate.1 ∈ clusterOf map sp := by
  obtain ⟨distanc, -, ran⟩ := exists_of_bind_eq_ok found
  obtain ⟨own, -, ran⟩ := exists_of_bind_eq_ok ran
  obtain ⟨farthest, -, ran⟩ := exists_of_bind_eq_ok ran
  cases ran
  intro candidate member
  exact (List.of_mem_zip (List.mem_filter.mp member).1).1

variable [LT Distance] [DecidableLT Distance]

/-- Whatever the distances are, alternatives that are found are phases of the representative. -/
theorem mem_clusterOf_of_alternatives {map : List Int} {sp : Int} {found : Int × Int}
    (ran : data.alternatives map sp = .ok found) : ∃ ec ee : Nat, found = (↑ec, ↑ee) ∧
      ec ∈ clusterOf map sp ∧ ee ∈ clusterOf map sp := by
  obtain ⟨candidates, listed, ran⟩ := exists_of_bind_eq_ok ran
  obtain ⟨closest, reduced, ran⟩ := exists_of_bind_eq_ok ran
  obtain ⟨earliest, first, ran⟩ := exists_of_bind_eq_ok ran
  cases ran
  have members := mem_clusterOf_of_closer listed
  have isCandidate : closest ∈ candidates := mem_of_reduce (fun x y => by split <;> simp) reduced
  exact ⟨closest.1, earliest.1, rfl, members _ isCandidate, members _ (mem_of_getItem first)⟩

/-- The clustering step takes the alternatives of every cluster. -/
theorem clusterBarrierPoints_of_alternatives (result : data.Labelled)
    (placed : data.Placed) {ec ee : Int → Nat} (choosesEC : data.Chooses ec)
    (choosesEE : data.Chooses ee)
    (each : ∀ id ∈ data.id, data.alternatives (data.chosenMap data.representative)
      (data.representative id) = .ok (ec id, ee id)) :
    data.clusterBarrierPoints = .ok (data.clusteringOf ec ee) := by
  have searched : data.simpoints.mapM (data.alternatives (data.chosenMap data.representative)) =
      .ok (data.id.map fun id => ((ec id : Int), (ee id : Int))) := by
    rw [result.simpoints_eq, List.mapM_map]
    exact mapM_eq_ok each
  have firsts : (data.id.map fun id => ((ec id : Int), (ee id : Int))).map Prod.fst =
      data.chosenPhases ec := List.map_map
  have seconds : (data.id.map fun id => ((ec id : Int), (ee id : Int))).map Prod.snd =
      data.chosenPhases ee := List.map_map
  rw [clusterBarrierPoints, bind_of_eq_ok (simPointBBMap_eq result placed)]
  refine (bind_of_eq_ok searched _).trans (congrArg Except.ok ?_)
  simp only [firsts, seconds, clusteringOf]
  have replacedEC := replaceAll_eq result choosesEC
  have replacedEE := replaceAll_eq result choosesEE
  congr
  exact result.simpoints_eq

/-- The alternatives that the step has found for every cluster are members of it. -/
theorem exists_choices (result : data.Labelled)
    (each : ∀ sp ∈ data.simpoints, ∃ found,
      data.alternatives (data.chosenMap data.representative) sp = .ok found) :
    ∃ ec ee : Int → Nat, data.Chooses ec ∧ data.Chooses ee ∧ ∀ id ∈ data.id,
      data.alternatives (data.chosenMap data.representative) (data.representative id) =
        .ok (ec id, ee id) := by
  have own : ∀ id, ∃ ec ee : Nat, id ∈ data.id → data.labels[ec]? = some id ∧
      data.labels[ee]? = some id ∧ data.alternatives (data.chosenMap data.representative)
        (data.representative id) = .ok (ec, ee) := by
    intro id
    by_cases member : id ∈ data.id
    · obtain ⟨found, ran⟩ := each _ (List.mem_of_getElem? (result.simpoint_idxOf member).1)
      obtain ⟨ec, ee, rfl, isEC, isEE⟩ := mem_clusterOf_of_alternatives ran
      have members := mem_clusterOf_representative result member
      exact ⟨ec, ee, fun _ => ⟨(members ec).mp isEC, (members ee).mp isEE, ran⟩⟩
    · exact ⟨0, 0, fun isId => absurd isId member⟩
  choose ec ee spec using own
  exact ⟨ec, ee, fun id member => (spec id member).1, fun id member => (spec id member).2.1,
    fun id member => (spec id member).2.2⟩

/-- When the clustering step succeeds, the ids have their places: an id whose place another one takes
is left without members, and the search finds nothing for it. -/
theorem placed_of_clusterBarrierPoints (result : data.Labelled) {clustering : Clustering}
    (ran : data.clusterBarrierPoints = .ok clustering) : data.Placed := by
  obtain ⟨map, mapped, searched⟩ := exists_of_bind_eq_ok ran
  obtain ⟨alternatives, found, -⟩ := exists_of_bind_eq_ok searched
  obtain ⟨places, placed, mapped⟩ := exists_of_bind_eq_ok mapped
  obtain ⟨last, isLast, size, each⟩ := id2index_spec placed
  refine ⟨last, isLast, fun id member => ?_, ?_⟩
  · obtain ⟨place, held⟩ := List.mem_iff_getElem?.mp member
    exact size ▸ (each place id held).1
  · rw [← size]
    refine List.nodup_iff_getElem?_ne_getElem?.mpr fun first second before inside same => ?_
    rw [List.length_map] at inside
    have isFirst := List.getElem?_eq_getElem (before.trans inside)
    have isSecond := List.getElem?_eq_getElem inside
    rw [List.getElem?_map, List.getElem?_map, isFirst, isSecond] at same
    obtain ⟨sp, represents⟩ : ∃ sp, data.simpoints[first]? = some sp :=
      ⟨_, List.getElem?_eq_getElem (result.represented ▸ before.trans inside)⟩
    obtain ⟨phase, member⟩ : ∃ phase, map[phase]? = some sp := by
      obtain ⟨_, ran⟩ := exists_of_mapM_eq_ok found _ (List.mem_of_getElem? represents)
      obtain ⟨phase, -, -, member, -⟩ := mem_clusterOf_of_alternatives ran
      exact ⟨phase, (mem_clusterOf _ _ _).mp member⟩
    obtain ⟨label, held, computed⟩ := getElem?_of_mapM_eq_ok mapped member
    obtain ⟨slot, read, chosen⟩ := exists_of_bind_eq_ok computed
    cases slot with
    | none => cases chosen
    | some place =>
      -- the place of the label holds the first of the two, and also one behind the second
      obtain ⟨own, isLabel⟩ := List.mem_iff_getElem?.mp (result.labelled label
        (List.mem_of_getElem? held))
      obtain ⟨-, latest, other, -, isOther, samePlace, there⟩ := each own label isLabel
      obtain rfl := Option.some_inj.mp (Except.ok.inj (read.symm.trans there))
      have ofPlace := (result.own place _ _ isOther (getItem_eq_ok_iff.mp chosen)).2
      have ofFirst := (result.own first _ _ isFirst represents).2
      obtain rfl := Option.some_inj.mp (ofPlace.symm.trans ofFirst)
      have here : first = place :=
        (List.getElem?_inj (before.trans inside) result.distinct).mp (isFirst.trans isOther.symm)
      obtain ⟨-, behind, _, later, -, -, readSecond⟩ := each second _ isSecond
      rw [getItem_congr ((Option.some_inj.mp same).symm.trans samePlace), read] at readSecond
      have twice := Option.some_inj.mp (Except.ok.inj readSecond)
      omega

/-- The clustering step succeeds exactly when the ids have their places and the search finds
alternatives for every cluster, and then these make up what it returns. -/
theorem clusterBarrierPoints_eq_ok_iff (result : data.Labelled) {clustering : Clustering} :
    data.clusterBarrierPoints = .ok clustering ↔ data.Placed ∧ ∃ ec ee : Int → Nat,
      data.Chooses ec ∧ data.Chooses ee ∧ (∀ id ∈ data.id,
        data.alternatives (data.chosenMap data.representative) (data.representative id) =
          .ok (ec id, ee id)) ∧ clustering = data.clusteringOf ec ee := by
  constructor
  · intro ran
    have placed := placed_of_clusterBarrierPoints result ran
    obtain ⟨map, mapped, searched⟩ := exists_of_bind_eq_ok ran
    obtain rfl := Except.ok.inj (mapped.symm.trans (simPointBBMap_eq result placed))
    obtain ⟨alternatives, each, -⟩ := exists_of_bind_eq_ok searched
    obtain ⟨ec, ee, choosesEC, choosesEE, spec⟩ :=
      exists_choices result (exists_of_mapM_eq_ok each)
    have same := clusterBarrierPoints_of_alternatives result placed choosesEC choosesEE spec
    exact ⟨placed, ec, ee, choosesEC, choosesEE, spec, Except.ok.inj (ran.symm.trans same)⟩
  · rintro ⟨placed, ec, ee, choosesEC, choosesEE, spec, rfl⟩
    exact clusterBarrierPoints_of_alternatives result placed choosesEC choosesEE spec

end Replacements

/-- The clustering step makes three choices, each of them of members. -/
theorem clusterBarrierPoints_eq {data : SPData} (result : data.SimPointResult) : ∃ ec ee : Int → Nat,
    data.Chooses ec ∧ data.Chooses ee ∧
      data.clusterBarrierPoints = .ok (data.clusteringOf ec ee) := by
  have each : ∀ sp ∈ data.simpoints, ∃ found,
      data.alternatives (data.chosenMap data.representative) sp = .ok found := by
    intro sp member
    rw [result.isLabelled.simpoints_eq] at member
    obtain ⟨id, isId, rfl⟩ := List.mem_map.mp member
    exact exists_alternatives result isId
  obtain ⟨ec, ee, choosesEC, choosesEE, spec⟩ := exists_choices result.isLabelled each
  exact ⟨ec, ee, choosesEC, choosesEE, clusterBarrierPoints_of_alternatives result.isLabelled
    result.placed choosesEC choosesEE spec⟩

end SPData

end BarrierPoint
