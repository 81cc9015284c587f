/-
This file asks which selected phases the estimate of a metric adds up. The
estimate skips a number that is larger than the count of the recorded phases
and indexes with all others. The number that equals the count is let through
and raises an error, and a negative number is read from the end of the list.
-/

import BarrierPoint.CheckFile
import BarrierPoint.Estimate

namespace BarrierPoint

open Library

/-! ### The statistics of a metric are there -/

/-- No column is held without the list of an iteration. -/
def FilledColumns (held : List ThreadStats) : Prop :=
  ∀ thread ∈ held, ∀ name table, thread.lookup name = some table → table ≠ []

theorem filledColumns_growThreads {held : List ThreadStats} (filled : FilledColumns held)
    (tid : Int) : FilledColumns (growThreads held tid) := by
  rw [growThreads]
  split
  · intro thread member name table found
    rcases List.mem_append.mp member with old | new
    · exact filled thread old name table found
    · obtain rfl := List.mem_singleton.mp new
      cases found
  · exact filled

/-- A value goes into the list of an iteration that is there. -/
theorem filledColumns_addValue {stat : List Text} {key : RowKey} {held after : List ThreadStats}
    {entry : Text × Nat} (filled : FilledColumns held)
    (ran : addValue stat key held entry = .ok after) : FilledColumns after := by
  obtain ⟨value, i⟩ := entry
  obtain ⟨thread, readThread, ran⟩ := exists_of_bind_eq_ok ran
  obtain ⟨name, -, ran⟩ := exists_of_bind_eq_ok ran
  obtain ⟨row, readRow, ran⟩ := exists_of_bind_eq_ok ran
  obtain ⟨number, -, ran⟩ := exists_of_bind_eq_ok ran
  simp only at ran
  split at ran
  · cases ran
  obtain ⟨values, storedRow, storedThread⟩ := exists_of_bind_eq_ok ran
  have someRow : values ≠ [] := by
    have there := List.length_pos_of_mem (mem_of_getItem readRow)
    rw [← (mem_of_setItem storedRow).1] at there
    exact List.ne_nil_of_length_pos there
  intro other member otherName table found
  rcases (mem_of_setItem storedThread).2 other member with rfl | old
  · by_cases same : otherName = name
    · subst same
      rw [AList.lookup_insert] at found
      obtain rfl := Option.some_inj.mp found
      exact someRow
    · rw [AList.lookup_insert_ne same] at found
      exact filled thread (mem_of_getItem readThread) otherName table found
  · exact filled other old otherName table found

theorem filledColumns_readCheckFile {file : Text} {held : List ThreadStats} {last : Option RowKey}
    (read : readCheckFile file = .ok (held, last)) : FilledColumns held := by
  rw [readCheckFile] at read
  split at read
  · cases read
  · refine foldlM_keeps (fun state => FilledColumns state.1) ?_
      (fun thread member => absurd member List.not_mem_nil) read
    intro line _ state after filled ran
    obtain ⟨key, -, ran⟩ := exists_of_bind_eq_ok ran
    obtain ⟨stats, added, ran⟩ := exists_of_bind_eq_ok ran
    cases ran
    exact foldlM_keeps FilledColumns (fun entry _ before next kept stored =>
      filledColumns_addValue kept stored) (filledColumns_growThreads filled key.tid) added

theorem filledColumns_readCheckFiles {fbaseline gbarriers : Text} {read : CheckStats}
    (ran : readCheckFiles (some fbaseline) (some gbarriers) = .ok (some read)) :
    FilledColumns read.statsBp := by
  obtain ⟨⟨statsT, last⟩, -, ran⟩ := exists_of_bind_eq_ok ran
  cases last with
  | none => cases ran
  | some last =>
    obtain ⟨thread, -, ran⟩ := exists_of_bind_eq_ok ran
    obtain ⟨⟨statsBp, lastBp⟩, readBp, ran⟩ := exists_of_bind_eq_ok ran
    cases ran
    exact filledColumns_readCheckFile readBp

/-! ### What the selected phases add -/

namespace ErrorEstimate

/-- What `row[bp]` reads, for a number that stands for a position. -/
def itemAt (row : List ℚ) (bp : Int) : ℚ := row.getD (position row.length bp).toNat 0

/-- What the selected phases with certain numbers contribute to the estimate of an iteration. -/
def contributions (estimate : ErrorEstimate) (counts : Int → Bool) (row : List ℚ) : ℚ :=
  ((estimate.bps.zip estimate.bpsMult).map fun pair =>
    if counts pair.1 then pair.2 * itemAt row pair.1 else 0).sum

/-- The estimates of the iterations, before `EstMetric` takes their mean. -/
def estValues (estimate : ErrorEstimate) : Except PyError (List ℚ) :=
  estimate.bps.zipIdx.foldlM estimate.addBarrierPoint (List.replicate estimate.iterations 0)

/-- The count of the phases recorded in the first iteration, which is what the guard looks at. -/
def phases (estimate : ErrorEstimate) : Nat := (estimate.statsBp.getD 0 []).length

/-- The iterations that are estimated. -/
def rows (estimate : ErrorEstimate) : List (List ℚ) := estimate.statsBp.take estimate.iterations

/-- The estimate adds exactly the selected phases that are recorded, and raises no error. -/
def EstimatesRecorded (estimate : ErrorEstimate) : Prop :=
  ∃ values, estimate.estValues = .ok values ∧ estimate.estMetric = .ok (mean values) ∧
    ∀ itr < estimate.iterations, ∀ row ∈ estimate.statsBp[itr]?, values[itr]? =
      some (estimate.contributions (fun bp => 0 ≤ bp ∧ bp < row.length) row)

/-- Every number that is at most the count of the phases stands for a position in every iteration,
and what the negative ones add is what the numbers behind the first iteration's phases would have
added. -/
structure GuardsIndices (estimate : ErrorEstimate) : Prop where
  inside : ∀ bp ∈ estimate.bps, bp ≤ estimate.phases →
    ∀ row ∈ estimate.rows, InRange row.length bp
  even : ∀ row ∈ estimate.rows, estimate.contributions (fun bp => bp < 0) row =
    estimate.contributions (fun bp => estimate.phases < bp ∧ bp < row.length) row

theorem contributions_add {estimate : ErrorEstimate} {counts first second : Int → Bool}
    {row : List ℚ} (splits : ∀ bp ∈ estimate.bps, (counts bp = (first bp || second bp)) ∧
      (first bp && second bp) = false) :
    estimate.contributions counts row =
      estimate.contributions first row + estimate.contributions second row := by
  rw [contributions, contributions, contributions, ← List.sum_map_add]
  refine congrArg List.sum (List.map_congr_left fun pair member => ?_)
  obtain ⟨joined, apart⟩ := splits pair.1 (List.of_mem_zip member).1
  rw [joined]
  cases isFirst : first pair.1 <;> cases isSecond : second pair.1 <;> simp_all

theorem zip_map_take {Row Value : Type} (value : Row → Value) (table : List Row) :
    ∀ count : Nat, ((table.take count).map value).zip table =
      (table.take count).map fun row => (value row, row) := by
  induction table with
  | nil => exact fun count => by rw [List.take_nil, List.map_nil, List.map_nil, List.zip_nil_right]
  | cons row table inductionHypothesis =>
    intro count
    cases count with
    | zero => rfl
    | succ count =>
      rw [List.take_succ_cons, List.map_cons, List.map_cons, List.zip_cons_cons,
        inductionHypothesis]

theorem zip_replicate (table : List (List ℚ)) (count : Nat) :
    (List.replicate count (0 : ℚ)).zip table = (table.take count).map fun row => (0, row) := by
  induction table generalizing count with
  | nil => rw [List.take_nil, List.map_nil, List.zip_nil_right]
  | cons row table inductionHypothesis =>
    cases count with
    | zero => rfl
    | succ count =>
      rw [List.replicate_succ, List.take_succ_cons, List.map_cons, List.zip_cons_cons,
        inductionHypothesis]

section OneBarrierPoint

variable {estimate : ErrorEstimate} {values : List ℚ} {sum : List ℚ → ℚ} {bp : Int} {i : Nat}

theorem getItem_first (filled : estimate.statsBp ≠ []) : ∃ first,
    getItem estimate.statsBp 0 = .ok first ∧ first.length = estimate.phases := by
  obtain ⟨first, rest, isFirst⟩ := List.exists_cons_of_ne_nil filled
  refine ⟨first, @getItem_of_getElem? _ _ 0 _ (by rw [isFirst]; rfl), ?_⟩
  rw [phases, isFirst]
  rfl

theorem addBarrierPoint_of_lt (filled : estimate.statsBp ≠ []) (beyond : estimate.phases < bp) :
    estimate.addBarrierPoint values (bp, i) = .ok values := by
  obtain ⟨first, readFirst, length⟩ := getItem_first filled
  refine (bind_of_eq_ok readFirst _).trans ?_
  rw [if_pos (by omega)]
  rfl

/-- A number that the guard lets through is looked up in every iteration. -/
theorem addBarrierPoint_of_le (filled : estimate.statsBp ≠ []) (guarded : bp ≤ estimate.phases)
    (sums : values.zip estimate.statsBp = estimate.rows.map fun row => (sum row, row)) :
    estimate.addBarrierPoint values (bp, i) = estimate.rows.mapM fun row => do
      let multiplier ← getItem estimate.bpsMult i
      let recorded ← getItem row bp
      return sum row + multiplier * recorded := by
  obtain ⟨first, readFirst, length⟩ := getItem_first filled
  refine (bind_of_eq_ok readFirst _).trans ?_
  rw [if_neg (by omega), sums]
  exact List.mapM_map ..

theorem addBarrierPoint_of_inRange (filled : estimate.statsBp ≠ [])
    (guarded : bp ≤ estimate.phases)
    (sums : values.zip estimate.statsBp = estimate.rows.map fun row => (sum row, row))
    {multiplier : ℚ} (held : estimate.bpsMult[i]? = some multiplier)
    (inside : ∀ row ∈ estimate.rows, InRange row.length bp) :
    estimate.addBarrierPoint values (bp, i) =
      .ok (estimate.rows.map fun row => sum row + multiplier * itemAt row bp) := by
  rw [addBarrierPoint_of_le filled guarded sums]
  refine mapM_eq_ok fun row member => ?_
  exact (bind_of_eq_ok (getItem_of_getElem? held) _).trans
    (bind_of_eq_ok (getItem_of_inRange (inside row member) 0) _)

theorem inRange_of_addBarrierPoint (filled : estimate.statsBp ≠ [])
    (guarded : bp ≤ estimate.phases)
    (sums : values.zip estimate.statsBp = estimate.rows.map fun row => (sum row, row))
    {after : List ℚ} (ran : estimate.addBarrierPoint values (bp, i) = .ok after) :
    ∀ row ∈ estimate.rows, InRange row.length bp := by
  intro row member
  rw [addBarrierPoint_of_le filled guarded sums] at ran
  obtain ⟨value, computed⟩ := exists_of_mapM_eq_ok ran row member
  obtain ⟨multiplier, -, computed⟩ := exists_of_bind_eq_ok computed
  obtain ⟨recorded, read, -⟩ := exists_of_bind_eq_ok computed
  exact inRange_of_getItem read

end OneBarrierPoint

section AllBarrierPoints

variable {estimate : ErrorEstimate}

/-- What the numbers that the guard lets through add to the estimate of an iteration. -/
def guardedSum (estimate : ErrorEstimate) (pairs : List (Int × ℚ)) (row : List ℚ) : ℚ :=
  (pairs.map fun pair =>
    if pair.1 ≤ (estimate.phases : Int) then pair.2 * itemAt row pair.1 else 0).sum

/-- The loop raises nothing when all these numbers stand for positions. -/
theorem foldlM_of_inRange (filled : estimate.statsBp ≠ []) (pairs : List (Int × ℚ)) :
    ∀ (before : List ℚ) (values : List ℚ) (sum : List ℚ → ℚ),
      estimate.bpsMult = before ++ pairs.map Prod.snd →
      values.zip estimate.statsBp = estimate.rows.map (fun row => (sum row, row)) →
      (∀ bp ∈ pairs.map Prod.fst, bp ≤ estimate.phases →
        ∀ row ∈ estimate.rows, InRange row.length bp) →
      ∃ after, ((pairs.map Prod.fst).zipIdx before.length).foldlM estimate.addBarrierPoint values =
          .ok after ∧ after.zip estimate.statsBp =
            estimate.rows.map fun row => (sum row + estimate.guardedSum pairs row, row) := by
  induction pairs with
  | nil =>
    intro before values sum _ sums _
    refine ⟨values, rfl, ?_⟩
    simp only [guardedSum, List.map_nil, List.sum_nil, add_zero]
    exact sums
  | cons pair pairs inductionHypothesis =>
    intro before values sum multipliers sums inside
    rw [List.map_cons, List.forall_mem_cons] at inside
    have held : estimate.bpsMult[before.length]? = some pair.2 := by
      rw [multipliers, List.getElem?_append_right (le_refl _), Nat.sub_self]
      rfl
    have rest := inductionHypothesis (before ++ [pair.2])
    rw [List.length_append] at rest
    have multipliersRest : estimate.bpsMult = before ++ [pair.2] ++ pairs.map Prod.snd := by
      rw [multipliers, List.append_assoc]
      rfl
    rw [List.map_cons, List.zipIdx_cons, List.foldlM_cons]
    by_cases guarded : pair.1 ≤ (estimate.phases : Int)
    · rw [bind_of_eq_ok (addBarrierPoint_of_inRange filled guarded sums held (inside.1 guarded))]
      obtain ⟨after, ran, sumsAfter⟩ := rest _ _ multipliersRest (zip_map_take _ _ _) inside.2
      refine ⟨after, ran, sumsAfter.trans ?_⟩
      simp only [guardedSum, List.map_cons, List.sum_cons, if_pos guarded, add_assoc]
    · rw [bind_of_eq_ok (addBarrierPoint_of_lt filled (not_le.mp guarded))]
      obtain ⟨after, ran, sumsAfter⟩ := rest values sum multipliersRest sums inside.2
      refine ⟨after, ran, sumsAfter.trans ?_⟩
      simp only [guardedSum, List.map_cons, List.sum_cons, if_neg guarded, zero_add]

/-- The loop raises an error at the first of these numbers that does not. -/
theorem inRange_of_foldlM (filled : estimate.statsBp ≠ []) (pairs : List (Int × ℚ)) :
    ∀ (before : List ℚ) (values after : List ℚ) (sum : List ℚ → ℚ),
      estimate.bpsMult = before ++ pairs.map Prod.snd →
      values.zip estimate.statsBp = estimate.rows.map (fun row => (sum row, row)) →
      ((pairs.map Prod.fst).zipIdx before.length).foldlM estimate.addBarrierPoint values =
        .ok after →
      ∀ bp ∈ pairs.map Prod.fst, bp ≤ estimate.phases →
        ∀ row ∈ estimate.rows, InRange row.length bp := by
  induction pairs with
  | nil => exact fun _ _ _ _ _ _ _ bp member => absurd member List.not_mem_nil
  | cons pair pairs inductionHypothesis =>
    intro before values after sum multipliers sums ran
    have held : estimate.bpsMult[before.length]? = some pair.2 := by
      rw [multipliers, List.getElem?_append_right (le_refl _), Nat.sub_self]
      rfl
    have rest := inductionHypothesis (before ++ [pair.2])
    rw [List.length_append] at rest
    have multipliersRest : estimate.bpsMult = before ++ [pair.2] ++ pairs.map Prod.snd := by
      rw [multipliers, List.append_assoc]
      rfl
    rw [List.map_cons, List.zipIdx_cons, List.foldlM_cons] at ran
    rw [List.map_cons, List.forall_mem_cons]
    by_cases guarded : pair.1 ≤ (estimate.phases : Int)
    · obtain ⟨next, first, ran⟩ := exists_of_bind_eq_ok ran
      have inside := inRange_of_addBarrierPoint filled guarded sums first
      rw [addBarrierPoint_of_inRange filled guarded sums held inside] at first
      cases first
      exact ⟨fun _ => inside, rest _ after _ multipliersRest (zip_map_take _ _ _) ran⟩
    · rw [bind_of_eq_ok (addBarrierPoint_of_lt filled (not_le.mp guarded))] at ran
      exact ⟨fun other => absurd other guarded, rest values after sum multipliersRest sums ran⟩

/-- The numbers that the guard lets through are the recorded ones, the negative ones, and those
behind the phases of an iteration; of the recorded ones it leaves out those behind the phases of
the first iteration. -/
theorem guardedSum_eq_iff {row : List ℚ} (member : row ∈ estimate.rows)
    (inside : ∀ bp ∈ estimate.bps, bp ≤ estimate.phases →
      ∀ row ∈ estimate.rows, InRange row.length bp) :
    estimate.guardedSum (estimate.bps.zip estimate.bpsMult) row =
        estimate.contributions (fun bp => 0 ≤ bp ∧ bp < row.length) row ↔
      estimate.contributions (fun bp => bp < 0) row =
        estimate.contributions (fun bp => estimate.phases < bp ∧ bp < row.length) row := by
  have guarded : estimate.guardedSum (estimate.bps.zip estimate.bpsMult) row =
      estimate.contributions (fun bp => bp ≤ estimate.phases) row := by
    refine congrArg List.sum (List.map_congr_left fun pair _ => ?_)
    simp only [decide_eq_true_eq]
  have letThrough : estimate.contributions (fun bp => bp ≤ estimate.phases) row =
      estimate.contributions (fun bp => bp < 0) row +
        estimate.contributions (fun bp => 0 ≤ bp ∧ bp ≤ estimate.phases) row := by
    refine contributions_add fun bp _ => ?_
    rw [← Bool.decide_or, ← Bool.decide_and]
    exact ⟨decide_eq_decide.mpr (by omega), decide_eq_false (by omega)⟩
  have recorded : estimate.contributions (fun bp => 0 ≤ bp ∧ bp < row.length) row =
      estimate.contributions (fun bp => estimate.phases < bp ∧ bp < row.length) row +
        estimate.contributions (fun bp => 0 ≤ bp ∧ bp ≤ estimate.phases) row := by
    refine contributions_add fun bp known => ?_
    have inRow : bp ≤ estimate.phases → bp < row.length := fun atMost =>
      (inside bp known atMost row member).2
    rw [← Bool.decide_or, ← Bool.decide_and]
    exact ⟨decide_eq_decide.mpr (by omega), decide_eq_false (by omega)⟩
  rw [guarded, letThrough, recorded, add_left_inj]

theorem getElem?_of_zip {values : List ℚ} {sum : List ℚ → ℚ}
    (sums : values.zip estimate.statsBp = estimate.rows.map fun row => (sum row, row)) {itr : Nat}
    (below : itr < estimate.iterations) {row : List ℚ} (held : estimate.statsBp[itr]? = some row) :
    values[itr]? = some (sum row) := by
  have pair : (values.zip estimate.statsBp)[itr]? = some (sum row, row) := by
    rw [sums, List.getElem?_map, rows, List.getElem?_take_of_lt below, held]
    rfl
  exact (List.getElem?_zip_eq_some.mp pair).1

theorem estimatesRecorded_iff (filled : estimate.statsBp ≠ [])
    (aligned : estimate.bps.length = estimate.bpsMult.length) :
    estimate.EstimatesRecorded ↔ estimate.GuardsIndices := by
  have numbers : (estimate.bps.zip estimate.bpsMult).map Prod.fst = estimate.bps :=
    List.map_fst_zip aligned.le
  have multipliers : estimate.bpsMult =
      [] ++ (estimate.bps.zip estimate.bpsMult).map Prod.snd :=
    (List.map_snd_zip aligned.ge).symm
  have start := zip_replicate estimate.statsBp estimate.iterations
  have loop := foldlM_of_inRange filled _ [] _ (fun _ => 0) multipliers start
  rw [numbers] at loop
  simp only [zero_add] at loop
  constructor
  · rintro ⟨values, ran, -, each⟩
    have inside := inRange_of_foldlM filled _ [] _ values (fun _ => 0) multipliers start
      (by rw [numbers]; exact ran)
    rw [numbers] at inside
    obtain ⟨after, ranAgain, sums⟩ := loop inside
    obtain rfl := Except.ok.inj (ran.symm.trans ranAgain)
    refine ⟨inside, fun row member => (guardedSum_eq_iff member inside).mp ?_⟩
    obtain ⟨itr, taken⟩ := List.getElem?_of_mem member
    rw [rows, List.getElem?_take] at taken
    split at taken
    · rename_i below
      exact Option.some_inj.mp ((getElem?_of_zip sums below taken).symm.trans
        (each itr below row taken))
    · cases taken
  · rintro ⟨inside, even⟩
    obtain ⟨values, ran, sums⟩ := loop inside
    refine ⟨values, ran, bind_of_eq_ok ran _, fun itr below row held => ?_⟩
    have member : row ∈ estimate.rows := by
      refine List.mem_of_getElem? (i := itr) ?_
      rw [rows, List.getElem?_take_of_lt below]
      exact held
    rw [getElem?_of_zip sums below held, (guardedSum_eq_iff member inside).mpr (even row member)]

/-- When all iterations recorded the same phases and no number is negative, only the number that
equals the count of the phases goes wrong. -/
theorem guardsIndices_iff (uniform : ∀ row ∈ estimate.rows, row.length = estimate.phases)
    (someRow : estimate.rows ≠ []) (nonneg : ∀ bp ∈ estimate.bps, 0 ≤ bp) :
    estimate.GuardsIndices ↔ ∀ bp ∈ estimate.bps, bp ≠ estimate.phases := by
  constructor
  · rintro guards bp known rfl
    obtain ⟨row, member⟩ := List.exists_mem_of_ne_nil _ someRow
    have inRow := (guards.inside _ known (le_refl _) row member).2
    rw [uniform row member] at inRow
    exact absurd inRow (lt_irrefl _)
  · intro differs
    refine ⟨fun bp known atMost row member => ?_, fun row member => ?_⟩
    · have other := differs bp known
      have positive := nonneg bp known
      rw [InRange, uniform row member]
      omega
    · have nothing : ∀ counts : Int → Bool, (∀ bp ∈ estimate.bps, counts bp = false) →
          estimate.contributions counts row = 0 := by
        intro counts none
        refine List.sum_eq_zero fun value added => ?_
        obtain ⟨pair, paired, rfl⟩ := List.mem_map.mp added
        rw [none pair.1 (List.of_mem_zip paired).1]
        rfl
      rw [nothing _ fun bp known => decide_eq_false (not_lt.mpr (nonneg bp known)),
        nothing _ fun bp _ => decide_eq_false (by rw [uniform row member]; omega)]

end AllBarrierPoints

end ErrorEstimate

/-! ### The files that are read -/

/-- The estimate of a metric of a thread, from the selected phases and the check files read. -/
def CheckStats.estimate (read : CheckStats) (selected : List (Int × ℚ)) (tid : Nat) (name : Text) :
    ErrorEstimate where
  bps := selected.map Prod.fst
  bpsMult := selected.map Prod.snd
  statsT := series read.statsT tid name
  statsBp := series read.statsBp tid name
  iterations := read.iterations

/-- Whatever numbers and multipliers and whatever check files were read, for every thread and
metric: the estimate adds exactly the recorded phases and raises nothing exactly when the guard
lets no number through that is not one of them. -/
theorem estimatesRecorded_iff_guardsIndices (selected : List (Int × ℚ))
    {fbaseline gbarriers : Text} {read : CheckStats}
    (readStats : readCheckFiles (some fbaseline) (some gbarriers) = .ok (some read))
    {tid : Nat} {thread : ThreadStats} (heldThread : read.statsBp[tid]? = some thread)
    {name : Text} {table : List (List ℚ)} (heldMetric : thread.lookup name = some table) :
    (read.estimate selected tid name).EstimatesRecorded ↔
      (read.estimate selected tid name).GuardsIndices := by
  have filled := filledColumns_readCheckFiles readStats thread (List.mem_of_getElem? heldThread)
    name table heldMetric
  have columns : series read.statsBp tid name = table := by
    rw [series, heldThread, Option.getD_some, heldMetric, Option.getD_some]
  refine ErrorEstimate.estimatesRecorded_iff ?_ ?_
  · show series read.statsBp tid name ≠ []
    rw [columns]
    exact filled
  · show (selected.map Prod.fst).length = (selected.map Prod.snd).length
    rw [List.length_map, List.length_map]

/-- A check file of one thread and one iteration, in which two phases are recorded. -/
def twoPhasesFile : Text :=
  "Benchmark,Thread,Iteration,Barrier,Cycles\napp,0,0,0,5\napp,0,0,1,7\n".toList

theorem readCheckFiles_twoPhases : ∃ read thread,
    readCheckFiles (some twoPhasesFile) (some twoPhasesFile) = .ok (some read) ∧
    read.statsBp[0]? = some thread ∧ thread.lookup "Cycles".toList = some [[5, 7]] ∧
    read.iterations = 1 := by
  have computed : ((readCheckFiles (some twoPhasesFile) (some twoPhasesFile)).toOption.join.bind
      fun read => read.statsBp[0]?.bind fun thread => (thread.lookup "Cycles".toList).map
        fun table => (table, read.iterations)) = some ([[5, 7]], 1) := by decide +kernel
  obtain ⟨read, ran, computed⟩ := Option.bind_eq_some_iff.mp computed
  obtain ⟨thread, heldThread, computed⟩ := Option.bind_eq_some_iff.mp computed
  obtain ⟨table, heldMetric, same⟩ := Option.map_eq_some_iff.mp computed
  obtain ⟨rfl, iterations⟩ := Prod.mk.inj same
  refine ⟨read, thread, ?_, heldThread, heldMetric, iterations⟩
  cases files : readCheckFiles (some twoPhasesFile) (some twoPhasesFile) with
  | error raised =>
    rw [files] at ran
    cases ran
  | ok result =>
    rw [files] at ran
    exact congrArg Except.ok ran

theorem estimatesRecorded_iff_guardsIndices_two : ∃ read,
    readCheckFiles (some twoPhasesFile) (some twoPhasesFile) = .ok (some read) ∧
    ((read.estimate [(1, 3)] 0 "Cycles".toList).EstimatesRecorded ↔
      (read.estimate [(1, 3)] 0 "Cycles".toList).GuardsIndices) := by
  obtain ⟨read, thread, ran, heldThread, heldMetric, -⟩ := readCheckFiles_twoPhases
  exact ⟨read, ran, estimatesRecorded_iff_guardsIndices [(1, 3)] ran heldThread heldMetric⟩

/-- Two phases are recorded, with the numbers zero and one. The number two is looked up. -/
theorem not_estimatesRecorded_two : ∃ selected read,
    ErrorEstimate.readBarrierPoints ["2 1.0000\n".toList] = .ok selected ∧
    readCheckFiles (some twoPhasesFile) (some twoPhasesFile) = .ok (some read) ∧
    ¬ (read.estimate selected 0 "Cycles".toList).EstimatesRecorded := by
  obtain ⟨read, thread, ran, heldThread, heldMetric, iterations⟩ := readCheckFiles_twoPhases
  refine ⟨[(2, 1)], read, by decide +kernel, ran, ?_⟩
  have columns : (read.estimate [(2, 1)] 0 "Cycles".toList).statsBp = [[5, 7]] := by
    show series read.statsBp 0 "Cycles".toList = _
    rw [series, heldThread, Option.getD_some, heldMetric, Option.getD_some]
  have rows : (read.estimate [(2, 1)] 0 "Cycles".toList).rows = [[5, 7]] := by
    rw [ErrorEstimate.rows, columns]
    show List.take read.iterations _ = _
    rw [iterations]
    rfl
  have phases : (read.estimate [(2, 1)] 0 "Cycles".toList).phases = 2 := by
    rw [ErrorEstimate.phases, columns]
    rfl
  rw [ErrorEstimate.estimatesRecorded_iff (by rw [columns]; decide) rfl]
  intro guards
  have inRow := guards.inside 2 List.mem_cons_self (by rw [phases]; rfl) [5, 7]
    (by rw [rows]; exact List.mem_cons_self)
  exact absurd inRow.2 (by decide)

end BarrierPoint
