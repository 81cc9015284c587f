/-
This file models how the analysis script reads what the SimPoint process left:
the files of the weights, of the selected phases and of the labels, which fill a
dictionary key by key. Reading stops at a file that is missing or that does not
match the one before, and the keys of the files behind it stay unset.
-/

import BarrierPoint.DrAnalysis
import BarrierPoint.Library.Floats
import BarrierPoint.Library.Lines

namespace BarrierPoint

open Library

/-! ### The lines of the files -/

/-- `line.split()`. -/
def words (line : Text) : List Text := (line.splitOnP Library.isSpace).filter (· ≠ [])

/-- `first, second = line.split()`. -/
def twoWords (line : Text) : Except PyError (Text × Text) :=
  match words line with
  | [first, second] => return (first, second)
  | _ => .error .valueError

/-- A line of the weights: the id of a cluster behind its weight. -/
def weightEntry (line : Text) : Except PyError (Int × PyFloat) := do
  let (weight, num) ← twoWords line
  let num ← parseInt num
  let weight ← parseScientific weight
  return (num, weight)

/-- A line of the selected phases: a phase and the id of its cluster. -/
def simPointEntry (line : Text) : Except PyError (Int × Int) := do
  let (sp, num) ← twoWords line
  let num ← parseInt num
  let sp ← parseInt sp
  return (sp, num)

/-- A line of the labels: the id of the cluster of a phase and the distance from its center. -/
def labelEntry (line : Text) : Except PyError (Int × PyFloat) := do
  let (label, distance) ← twoWords line
  let label ← parseInt label
  let distance ← parseScientific distance
  return (label, distance)

/-! ### The analysis -/

/-- An outcome of the SimPoint process: its exit status and the files that are there then, as they
are read in text mode, where every line ends with the same character. -/
structure SimPointRun where
  returncode : Int
  weights : Option Text
  simpoints : Option Text
  labels : Option Text

/-- `SPData` while it is filled. A key that was not set is `none`; `distances` is the key `match`. -/
structure SPFields where
  id : Option (List Int)
  weights : Option (List PyFloat)
  simpoints : Option (List Int)
  labels : Option (List Int)
  distances : Option (List PyFloat)
  deriving DecidableEq, Repr

/-- `dict()`. -/
def SPFields.empty : SPFields where
  id := none
  weights := none
  simpoints := none
  labels := none
  distances := none

/-- Read the selected phases, whose ids have to be those of the weights. The result says whether they
are, and holds the phases before the first that is not. -/
def readSimPoints (id : List Int) : List Text → Nat → List Int → Except PyError (Bool × List Int)
  | [], _, simpoints => return (true, simpoints)
  | line :: lines, i, simpoints => do
    let (sp, num) ← twoWords line
    let num ← parseInt num
    let known ← getItem id i
    if num ≠ known then return (false, simpoints)
    else
      let sp ← parseInt sp
      readSimPoints id lines (i + 1) (simpoints ++ [sp])

/-- `AnalysisSimPoints`: whether all files were read, and the dictionary. -/
def analysisSimPoints (run : SimPointRun) : Except PyError (Bool × SPFields) :=
  match run.weights with
  | none => return (false, { SPFields.empty with id := some [], weights := some [] })
  | some weights => do
    let entries ← (fileLines weights).mapM weightEntry
    let id := entries.map Prod.fst
    let fields : SPFields :=
      { SPFields.empty with id := some id, weights := some (entries.map Prod.snd) }
    match run.simpoints with
    | none => return (false, { fields with simpoints := some [] })
    | some simpoints => do
      let (matched, simpoints) ← readSimPoints id (fileLines simpoints) 0 []
      let fields : SPFields := { fields with simpoints := some simpoints }
      if ¬matched then return (false, fields)
      else
        match run.labels with
        | none => return (false, { fields with labels := some [], distances := some [] })
        | some labels => do
          let entries ← (fileLines labels).mapM labelEntry
          return (true, { fields with
            labels := some (entries.map Prod.fst)
            distances := some (entries.map Prod.snd) })

/-- `RunSimPoints`: the files are not read when the process failed. -/
def runSimPoints (run : SimPointRun) : Except PyError (Bool × SPFields) :=
  if run.returncode ≠ 0 then return (false, SPFields.empty)
  else analysisSimPoints run

/-- The constructor of `SimPoints`, which only logs that `RunSimPoints` returned false, and
`getSimPointData`. -/
def getSimPointData (run : SimPointRun) : Except PyError SPFields := do
  let (_, fields) ← runSimPoints run
  return fields

/-! ### A result that was read -/

/-- A line is read when its id is the one at its place, and the reading goes on behind it. -/
theorem readSimPoints_cons_iff {id : List Int} {line : Text} {lines : List Text} {i : Nat}
    {before after : List Int} : readSimPoints id (line :: lines) i before = .ok (true, after) ↔
      ∃ entry, simPointEntry line = .ok entry ∧ id[i]? = some entry.2 ∧
        readSimPoints id lines (i + 1) (before ++ [entry.1]) = .ok (true, after) := by
  constructor
  · intro ran
    obtain ⟨⟨sp, num⟩, split, ran⟩ := exists_of_bind_eq_ok ran
    obtain ⟨cluster, readId, ran⟩ := exists_of_bind_eq_ok ran
    obtain ⟨known, held, ran⟩ := exists_of_bind_eq_ok ran
    by_cases other : cluster ≠ known
    · rw [if_pos other] at ran
      cases ran
    · rw [if_neg other] at ran
      obtain ⟨phase, readSp, ran⟩ := exists_of_bind_eq_ok ran
      refine ⟨(phase, cluster), (bind_of_eq_ok split _).trans
        ((bind_of_eq_ok readId _).trans (bind_of_eq_ok readSp _)), ?_, ran⟩
      rw [not_not.mp other]
      exact getItem_eq_ok_iff.mp held
  · rintro ⟨entry, read, held, ran⟩
    obtain ⟨⟨sp, num⟩, split, read⟩ := exists_of_bind_eq_ok read
    obtain ⟨cluster, readId, read⟩ := exists_of_bind_eq_ok read
    obtain ⟨phase, readSp, read⟩ := exists_of_bind_eq_ok read
    cases read
    refine (bind_of_eq_ok split _).trans ((bind_of_eq_ok readId _).trans
      ((bind_of_eq_ok (getItem_eq_ok_iff.mpr held) _).trans ?_))
    rw [if_neg (not_not.mpr rfl)]
    exact (bind_of_eq_ok readSp _).trans ran

/-- The selected phases are read to their end when every line is read and the ids are those of the
weights, place by place. -/
theorem readSimPoints_iff {id : List Int} (lines : List Text) :
    ∀ (i : Nat) (before after : List Int), readSimPoints id lines i before = .ok (true, after) ↔
      ∃ entries, lines.mapM simPointEntry = .ok entries ∧ after = before ++ entries.map Prod.fst ∧
        ∀ place num, (entries.map Prod.snd)[place]? = some num → id[i + place]? = some num := by
  induction lines with
  | nil =>
    intro i before after
    constructor
    · intro ran
      cases ran
      exact ⟨[], rfl, (List.append_nil before).symm, nofun⟩
    · rintro ⟨entries, ran, rfl, -⟩
      cases ran
      exact congrArg (fun all => Except.ok (true, all)) (List.append_nil before).symm
  | cons line lines inductionHypothesis =>
    intro i before after
    rw [readSimPoints_cons_iff]
    constructor
    · rintro ⟨entry, read, held, ran⟩
      obtain ⟨entries, rest, rfl, agree⟩ := (inductionHypothesis _ _ _).mp ran
      refine ⟨entry :: entries, ?_, ?_, fun place num atPlace => ?_⟩
      · rw [List.mapM_cons, read, rest]
        rfl
      · rw [List.append_assoc]
        rfl
      · cases place with
        | zero =>
          cases atPlace
          exact held
        | succ place =>
          rw [← agree place num atPlace, Nat.add_right_comm, Nat.add_assoc]
    · rintro ⟨entries, ran, rfl, agree⟩
      rw [List.mapM_cons] at ran
      obtain ⟨entry, read, ran⟩ := exists_of_bind_eq_ok ran
      obtain ⟨others, rest, ran⟩ := exists_of_bind_eq_ok ran
      cases ran
      refine ⟨entry, read, agree 0 entry.2 rfl, (inductionHypothesis _ _ _).mpr
        ⟨others, rest, ?_, fun place num atPlace => ?_⟩⟩
      · rw [List.append_assoc]
        rfl
      · rw [← agree (place + 1) num atPlace, Nat.add_right_comm, Nat.add_assoc]

end BarrierPoint
