/-
This file models the last steps of the analysis script. The clusters SimPoint
found assign a representative to every phase; two alternative representatives
per cluster are searched among the earlier phases near its center; and each
selected phase is written with the sum of the scaling factors of the phases it
represents. Phases are numbered from zero here and from one in the files. All
arithmetic is exact. The clustering step only adds, scales and compares the
distances, so it is defined for any numbers with these operations; unless said
otherwise they are rational numbers.
-/

import BarrierPoint.Library.Numeral
import BarrierPoint.Library.Scatter
import Mathlib.Data.List.Sort
import Mathlib.Data.Rat.Cast.CharZero

namespace BarrierPoint

open Library

/-- `ins_per_phase`: the instructions of every phase, summed over the threads. The first line of the
file belongs to the phase before the first parallel region and is skipped. -/
def readInsPerPhase (file : List Text) : Except PyError (List Int) :=
  (file.drop 1).mapM fun line => do
    let counts ← (line.splitOn ',').mapM parseInt
    return counts.sum

/-- `SPData`: the cluster ids, the phase that represents each, and for every phase the id of its
cluster and its distance from the center. The weights are not read. -/
structure SPData (Distance : Type := ℚ) where
  id : List Int
  simpoints : List Int
  labels : List Int
  distances : List Distance
  deriving DecidableEq, Repr

/-- What `__ClusterBarrierPoints` computes: the representatives, and for every phase its
representative. -/
structure Clustering where
  simpoints : List Int
  simpointsEC : List Int
  simpointsEE : List Int
  simPointBBMap : List Int
  simPointBBMapEC : List Int
  simPointBBMapEE : List Int
  deriving DecidableEq, Repr

namespace SPData

variable {Distance : Type}

/-- `id2index`: the place of every cluster id. -/
def id2index (data : SPData Distance) : Except PyError (List (Option Nat)) := do
  let last ← maximum data.id
  data.id.zipIdx.foldlM (fun places (id, place) => setItem places id (some place))
    (List.replicate (last + 1).toNat none)

/-- `SimPointBBMap`: the representative of the cluster of every phase. Indexing by `None` is a type
error. -/
def simPointBBMap (data : SPData Distance) : Except PyError (List Int) := do
  let places ← data.id2index
  data.labels.mapM fun label => do
    match ← getItem places label with
    | some place => getItem data.simpoints place
    | none => .error .typeError

/-- The phases a representative stands for. -/
def clusterOf (map : List Int) (sp : Int) : List Nat :=
  (map.zipIdx.filter fun (representative, _) => representative = sp).map Prod.snd

section Distances

variable [Add Distance] [HMul Distance ℚ Distance] [Max Distance] [LE Distance]
  [DecidableLE Distance] [LT Distance] [DecidableLT Distance]

/-- The members of a cluster that do not come after its representative and are hardly farther from
the center, each with its distance. -/
def closer (data : SPData Distance) (map : List Int) (sp : Int) :
    Except PyError (List (Nat × Distance)) := do
  let cluster := clusterOf map sp
  let distanc ← cluster.mapM fun phase : Nat => getItem data.distances phase
  let own ← getItem data.distances sp
  let farthest ← maximum distanc
  let maxD : Distance := own + farthest * (5 / 100 : ℚ)
  return (cluster.zip distanc).filter fun (phase, distance) =>
    distance ≤ maxD ∧ (phase : Int) ≤ sp

/-- The closest and the earliest alternative to a representative. -/
def alternatives (data : SPData Distance) (map : List Int) (sp : Int) : Except PyError (Int × Int) := do
  let closer ← data.closer map sp
  let closest ← reduce (fun x y => if x.2 < y.2 then x else y) closer
  let earliest ← getItem closer 0
  return (closest.1, earliest.1)

/-- Replace every representative by its alternative, one cluster at a time. -/
def replaceAll (simpoints others : List Int) (map : List Int) : List Int :=
  (simpoints.zip others).foldl
    (fun map (s1, s2) => if s1 = s2 then map else map.map fun sp => if sp = s1 then s2 else sp) map

/-- `__ClusterBarrierPoints`. -/
def clusterBarrierPoints (data : SPData Distance) : Except PyError Clustering := do
  let map ← data.simPointBBMap
  let found ← data.simpoints.mapM (data.alternatives map)
  let simpointsEC := found.map Prod.fst
  let simpointsEE := found.map Prod.snd
  return {
    simpoints := data.simpoints
    simpointsEC
    simpointsEE
    simPointBBMap := map
    simPointBBMapEC := replaceAll data.simpoints simpointsEC map
    simPointBBMapEE := replaceAll data.simpoints simpointsEE map }

end Distances

end SPData

/-- `SelectedBarrierPoints` and `SelectedMultipliers`. -/
structure Selection where
  barrierPoints : List Int
  multipliers : List ℚ
  deriving DecidableEq, Repr

namespace Selection

/-- The instructions of every phase relative to those of its representative. -/
def scalingFactors (insPerPhase : List Int) (map : List Int) : Except PyError (List ℚ) :=
  map.zipIdx.mapM fun (sp, phase) => do
    let own ← getItem insPerPhase phase
    let represented ← getItem insPerPhase sp
    if represented = 0 then .error .zeroDivisionError
    else return 1 + ((own : ℚ) - represented) / represented

/-- `bp_to_scaling`: the sum of the scaling factors of the phases each phase represents. -/
def bpToScaling (map : List Int) (factors : List ℚ) : Except PyError (List ℚ) :=
  (map.zip factors).foldlM addAt (List.replicate map.length 0)

/-- The representatives in order, with their multipliers. -/
def select (simpoints : List Int) (scaling : List ℚ) : Except PyError Selection := do
  let barrierPoints := simpoints.insertionSort (· ≤ ·)
  let multipliers ← barrierPoints.mapM (getItem scaling)
  return { barrierPoints, multipliers }

/-- The lines of the file of selected barrier points. -/
def lines (selection : Selection) : List Text :=
  (selection.barrierPoints.zip selection.multipliers).map fun (sp, multiplier) =>
    signedDecimal (sp + 1) ++ ' ' :: fixedPoint 4 multiplier ++ ['\n']

end Selection

/-- What `__SelectSignificantBarrierPoints` selects and writes. -/
structure Selections where
  main : Selection
  ec : Selection
  ee : Selection
  deriving DecidableEq, Repr

/-- `__SelectSignificantBarrierPoints`. The factors of all three maps come first. -/
def Clustering.selectSignificantBarrierPoints (clustering : Clustering) (insPerPhase : List Int) :
    Except PyError Selections := do
  let factors ← Selection.scalingFactors insPerPhase clustering.simPointBBMap
  let factorsEC ← Selection.scalingFactors insPerPhase clustering.simPointBBMapEC
  let factorsEE ← Selection.scalingFactors insPerPhase clustering.simPointBBMapEE
  let scaling ← Selection.bpToScaling clustering.simPointBBMap factors
  let scalingEC ← Selection.bpToScaling clustering.simPointBBMapEC factorsEC
  let scalingEE ← Selection.bpToScaling clustering.simPointBBMapEE factorsEE
  let main ← Selection.select clustering.simpoints scaling
  let ec ← Selection.select clustering.simpointsEC scalingEC
  let ee ← Selection.select clustering.simpointsEE scalingEE
  return { main, ec, ee }

end BarrierPoint
