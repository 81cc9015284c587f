/-
This file models the script that compares the whole run with its estimate from
the selected phases, and follows the selected phases through the file that
passes them from the analysis to it. The statistics are those of one thread and
one metric, a list over the phases for each iteration; standard deviations are
left out. The analysis skips the phase before the first parallel region, so the
phases it numbers from one are the recorded ones behind the first, and the
estimate is that of the whole run without its first phase, up to the rounding of
the multipliers.
-/

import BarrierPoint.Reconstruction

namespace BarrierPoint

open Library

/-! ### The script -/

/-- What `errorEstimate` keeps of one set of selected phases, `BPs` and `BPs_mult`, and of one
metric of one thread, `STATSt` and `STATSbp`. -/
structure ErrorEstimate where
  bps : List Int
  bpsMult : List ℚ
  statsT : List (List ℚ)
  statsBp : List (List ℚ)
  iterations : Nat
  deriving DecidableEq, Repr

namespace ErrorEstimate

/-- The lines of a file of selected phases, each a number and a multiplier. -/
def readBarrierPoints (file : List Text) : Except PyError (List (Int × ℚ)) :=
  file.mapM fun line => do
    let fields := line.splitOn ' '
    let first ← getItem fields 0
    let bp ← parseInt first
    let second ← getItem fields 1
    let multiplier ← parseFloat (strip second)
    return (bp, multiplier)

/-- The constructor, once the files are read. -/
def new (selected : List (Int × ℚ)) (statsT statsBp : List (List ℚ)) : ErrorEstimate where
  bps := selected.map Prod.fst
  bpsMult := selected.map Prod.snd
  statsT
  statsBp
  iterations := statsT.length

/-- `np.mean`, which is not a number for no values. -/
def mean (values : List ℚ) : Option ℚ :=
  if values = [] then none else some (values.sum / values.length)

/-- `Metric`, the mean of the whole run over the iterations. -/
def metric (estimate : ErrorEstimate) (bid : Int) : Except PyError (Option ℚ) := do
  let values ← estimate.statsT.mapM fun row => getItem row bid
  return mean values

/-- Add what one selected phase contributes to the estimate of every iteration. A number behind the
recorded phases contributes nothing. -/
def addBarrierPoint (estimate : ErrorEstimate) (values : List ℚ) : Int × Nat → Except PyError (List ℚ)
  | (bp, i) => do
    let first ← getItem estimate.statsBp 0
    if bp > first.length then return values
    (values.zip estimate.statsBp).mapM fun (value, row) => do
      let multiplier ← getItem estimate.bpsMult i
      let recorded ← getItem row bp
      return value + multiplier * recorded

/-- `EstMetric`, the mean of the estimates over the iterations. -/
def estMetric (estimate : ErrorEstimate) : Except PyError (Option ℚ) := do
  let values ← estimate.bps.zipIdx.foldlM estimate.addBarrierPoint
    (List.replicate estimate.iterations 0)
  return mean values

end ErrorEstimate

/-! ### The file of the selected phases -/

theorem parse_line (sp : Int) (multiplier : ℚ) :
    (do
      let fields := (signedDecimal (sp + 1) ++ ' ' :: fixedPoint 4 multiplier ++ ['\n']).splitOn ' '
      let first ← getItem fields 0
      let bp ← parseInt first
      let second ← getItem fields 1
      let multiplier ← parseFloat (strip second)
      return (bp, multiplier) : Except PyError (Int × ℚ)) =
    .ok (sp + 1, rounded 4 multiplier) := by
  have solid : ' ' ∉ signedDecimal (sp + 1) := by
    intro member
    have blank := not_isSpace_signedDecimal _ _ member
    exact absurd blank (by decide)
  have solidBehind : ' ' ∉ fixedPoint 4 multiplier ++ ['\n'] := by
    intro member
    rcases List.mem_append.mp member with inside | newline
    · exact absurd (not_isSpace_fixedPoint _ _ _ inside) (by decide)
    · exact absurd (List.mem_singleton.mp newline) (by decide)
  have fields : (signedDecimal (sp + 1) ++ ' ' :: fixedPoint 4 multiplier ++ ['\n']).splitOn ' ' =
      [signedDecimal (sp + 1), fixedPoint 4 multiplier ++ ['\n']] := by
    rw [List.append_assoc, List.cons_append, List.splitOn_append_cons_self_of_not_mem solid,
      List.splitOn_eq_singleton solidBehind]
  have stripped := strip_newline (not_isSpace_fixedPoint 4 multiplier) (fixedPoint_ne_nil 4 multiplier)
  rw [fields]
  show (getItem [signedDecimal (sp + 1), fixedPoint 4 multiplier ++ ['\n']] (0 : Nat) >>= _) = _
  rw [bind_of_eq_ok (getItem_of_getElem? rfl), bind_of_eq_ok (parseInt_signedDecimal _)]
  show (getItem [signedDecimal (sp + 1), fixedPoint 4 multiplier ++ ['\n']] (1 : Nat) >>= _) = _
  rw [bind_of_eq_ok (getItem_of_getElem? rfl), stripped,
    bind_of_eq_ok (parseFloat_fixedPoint (by decide) _)]
  rfl

/-- A file of selected phases is read with the numbers shifted by one and the multipliers rounded. -/
theorem readBarrierPoints_lines (selection : Selection) :
    ErrorEstimate.readBarrierPoints selection.lines =
      .ok ((selection.barrierPoints.zip selection.multipliers).map fun (sp, multiplier) =>
        (sp + 1, rounded 4 multiplier)) := by
  rw [ErrorEstimate.readBarrierPoints, Selection.lines, List.mapM_map]
  exact mapM_eq_ok fun pair _ => parse_line pair.1 pair.2

/-! ### The estimate -/

namespace ErrorEstimate

variable {phases : Nat}

/-- One selected phase adds its recorded value, multiplied, to the estimate of every iteration. -/
theorem addBarrierPoint_eq (estimate : ErrorEstimate) (filled : estimate.statsBp ≠ [])
    (recorded : ∀ row ∈ estimate.statsBp, row.length = phases + 1) {bp i : Nat} {multiplier : ℚ}
    (held : estimate.bpsMult[i]? = some multiplier) (inside : bp ≤ phases) (values : List ℚ → ℚ) :
    estimate.addBarrierPoint (estimate.statsBp.map values) (bp, i) =
      .ok (estimate.statsBp.map fun row => values row + multiplier * row.getD bp 0) := by
  obtain ⟨first, rest, isFirst⟩ := List.exists_cons_of_ne_nil filled
  have length := recorded first (isFirst ▸ List.mem_cons_self)
  have readFirst : getItem estimate.statsBp (0 : Nat) = .ok first :=
    getItem_of_getElem? (by rw [isFirst]; rfl)
  rw [addBarrierPoint]
  refine (bind_of_eq_ok readFirst _).trans ?_
  rw [if_neg (by omega), ← List.map_prod_right_eq_zip]
  refine (List.mapM_map ..).trans (mapM_eq_ok fun row member => ?_)
  have short : bp < row.length := by
    rw [recorded row member]
    omega
  have read := List.getElem?_eq_getElem short
  have value : row[bp] = row.getD bp 0 := by
    rw [List.getD_eq_getElem?_getD, read]
    rfl
  show (getItem estimate.bpsMult (i : Int) >>= _) = _
  rw [bind_of_eq_ok (getItem_of_getElem? held), bind_of_eq_ok (getItem_of_getElem? read), value]
  rfl

/-- The loop over the selected phases adds up what they contribute. -/
theorem foldlM_addBarrierPoint (estimate : ErrorEstimate) (filled : estimate.statsBp ≠ [])
    (recorded : ∀ row ∈ estimate.statsBp, row.length = phases + 1) (pairs : List (Nat × ℚ)) :
    ∀ (before : List ℚ) (values : List ℚ → ℚ),
      estimate.bpsMult = before ++ pairs.map Prod.snd → (∀ pair ∈ pairs, pair.1 ≤ phases) →
      ((pairs.map fun pair => (pair.1 : Int)).zipIdx before.length).foldlM estimate.addBarrierPoint
          (estimate.statsBp.map values) =
        .ok (estimate.statsBp.map fun row =>
          values row + (pairs.map fun pair => pair.2 * row.getD pair.1 0).sum) := by
  induction pairs with
  | nil =>
    intro before values _ _
    simp only [List.map_nil, List.sum_nil, add_zero]
    rfl
  | cons pair pairs inductionHypothesis =>
    intro before values multipliers inside
    rw [List.forall_mem_cons] at inside
    have held : estimate.bpsMult[before.length]? = some pair.2 := by
      rw [multipliers, List.getElem?_append_right (le_refl _), Nat.sub_self]
      rfl
    have next := inductionHypothesis (before ++ [pair.2])
      (fun row => values row + pair.2 * row.getD pair.1 0)
      (by rw [multipliers, List.append_assoc]; rfl) inside.2
    rw [List.length_append] at next
    rw [List.map_cons, List.zipIdx_cons, List.foldlM_cons,
      bind_of_eq_ok (addBarrierPoint_eq estimate filled recorded held inside.1 values)]
    refine next.trans ?_
    simp only [List.map_cons, List.sum_cons, add_assoc]

theorem mean_eq {values : List ℚ} (filled : values ≠ []) :
    mean values = some (values.sum / values.length) := if_neg filled

/-- Selected phases as the estimate reads them. -/
def asRead (pairs : List (Nat × ℚ)) : List (Int × ℚ) :=
  pairs.map fun pair => ((pair.1 : Int), pair.2)

/-- The estimate is the mean of the sums of what the selected phases recorded, multiplied. -/
theorem estMetric_eq (pairs : List (Nat × ℚ)) (statsT statsBp : List (List ℚ))
    (filled : statsBp ≠ []) (sameLength : statsT.length = statsBp.length)
    (recorded : ∀ row ∈ statsBp, row.length = phases + 1)
    (inside : ∀ pair ∈ pairs, pair.1 ≤ phases) :
    (new (asRead pairs) statsT statsBp).estMetric = .ok (some
      ((statsBp.map fun row => (pairs.map fun pair => pair.2 * row.getD pair.1 0).sum).sum /
        statsBp.length)) := by
  have numbers : (asRead pairs).map Prod.fst = pairs.map fun pair => (pair.1 : Int) := List.map_map
  have multipliers : (asRead pairs).map Prod.snd = pairs.map Prod.snd := List.map_map
  have start : List.replicate statsT.length (0 : ℚ) = statsBp.map fun _ => 0 := by
    rw [List.map_const', sameLength]
  have ran := foldlM_addBarrierPoint (new (asRead pairs) statsT statsBp) filled recorded pairs []
    (fun _ => 0) multipliers inside
  have some : statsBp.map (fun row => (pairs.map fun pair => pair.2 * row.getD pair.1 0).sum) ≠
      [] := fun empty => filled (List.map_eq_nil_iff.mp empty)
  rw [estMetric]
  show (List.foldlM _ (List.replicate statsT.length 0) ((asRead pairs).map Prod.fst).zipIdx >>= _) = _
  rw [start, numbers]
  refine (bind_of_eq_ok ran _).trans (congrArg Except.ok ?_)
  simp only [zero_add]
  refine (mean_eq some).trans ?_
  rw [List.length_map]

/-- The metric of the whole run is the mean of what it recorded in every iteration. -/
theorem metric_eq (selected : List (Int × ℚ)) (statsT statsBp : List (List ℚ))
    (filled : statsBp ≠ [])
    (whole : statsT.map (fun row => row[0]?) = statsBp.map fun row => some row.sum) :
    (new selected statsT statsBp).metric 0 =
      .ok (some ((statsBp.map List.sum).sum / statsBp.length)) := by
  have read : statsT.mapM (fun row => getItem row (0 : Nat)) = .ok (statsBp.map List.sum) := by
    have values : statsBp.map List.sum = statsT.map fun row => row.getD 0 0 := by
      have unwrapped := congrArg (List.map fun value : Option ℚ => value.getD 0) whole
      rw [List.map_map, List.map_map] at unwrapped
      rw [show statsT.map (fun row => row.getD 0 0) =
        statsT.map ((fun value : Option ℚ => value.getD 0) ∘ fun row => row[0]?) from
        List.map_congr_left fun row _ => List.getD_eq_getElem?_getD, unwrapped]
      rfl
    rw [values]
    refine mapM_eq_ok fun row member => ?_
    have held : row[0]? ∈ statsBp.map fun row => some row.sum := by
      rw [← whole]
      exact List.mem_map_of_mem member
    obtain ⟨other, -, equal⟩ := List.mem_map.mp held
    rw [List.getD_eq_getElem?_getD, ← equal]
    exact getItem_of_getElem? equal.symm
  have some : statsBp.map List.sum ≠ [] := fun empty => filled (List.map_eq_nil_iff.mp empty)
  rw [metric]
  refine (bind_of_eq_ok read _).trans (congrArg Except.ok ?_)
  rw [mean_eq some, List.length_map]

end ErrorEstimate

theorem abs_sum_sub_le {Entry : Type} (entries : List Entry) {first second bound : Entry → ℚ}
    (near : ∀ entry ∈ entries, |first entry - second entry| ≤ bound entry) :
    |(entries.map first).sum - (entries.map second).sum| ≤ (entries.map bound).sum := by
  induction entries with
  | nil => simp
  | cons entry entries inductionHypothesis =>
    rw [List.forall_mem_cons] at near
    have rest := inductionHypothesis near.2
    rw [List.map_cons, List.map_cons, List.map_cons, List.sum_cons, List.sum_cons, List.sum_cons,
      add_sub_add_comm]
    exact (abs_add_le _ _).trans (add_le_add near.1 rest)

/-- The selected phases under the numbers the files give them, with the multipliers they are read
with. -/
def writtenPairs (selection : Selection) : List (Nat × ℚ) :=
  (selection.barrierPoints.zip selection.multipliers).map fun (sp, multiplier) =>
    (sp.toNat + 1, rounded 4 multiplier)

/-! ### The estimate of the whole run -/

/-- The mean over the iterations of a value of what was recorded. -/
def meanOver (statsBp : List (List ℚ)) (value : List ℚ → ℚ) : ℚ :=
  (statsBp.map value).sum / statsBp.length

/-- What the estimate is checked on: every iteration recorded all phases, the first phase and those
that were clustered; the whole run recorded their sum; and in every cluster the metric is
proportional to the instructions. -/
structure Recorded (data : SPData) (insPerPhase : List Int) (statsT statsBp : List (List ℚ)) :
    Prop where
  filled : statsBp ≠ []
  recorded : ∀ row ∈ statsBp, row.length = data.labels.length + 1
  whole : statsT.map (fun row => row[0]?) = statsBp.map fun row => some row.sum
  proportional : ∀ row ∈ statsBp,
    data.Proportional insPerPhase fun phase => row.getD (phase + 1) 0

theorem sum_range_getD {row : List ℚ} {phases : Nat} (length : row.length = phases + 1) :
    ((List.range phases).map fun phase => row.getD (phase + 1) 0).sum = row.sum - row.getD 0 0 := by
  obtain ⟨first, rest, rfl⟩ : ∃ first rest, row = first :: rest :=
    List.exists_cons_of_length_eq_add_one length
  have same : (List.range phases).map (fun phase => (first :: rest).getD (phase + 1) 0) = rest := by
    rw [List.length_cons, Nat.add_right_cancel_iff] at length
    subst length
    refine List.ext_getElem (by simp) fun phase inside other => ?_
    simp [List.getD_eq_getElem?_getD, other]
  rw [same, List.sum_cons]
  show rest.sum = first + rest.sum - first
  ring

variable {data : SPData} {insPerPhase : List Int} {chosen : Int → Nat}

/-- In one iteration, the rounding of the multipliers is all that separates the estimate from the
phases behind the first. -/
theorem abs_estimate_sub_le (result : data.SimPointResult) (chooses : data.Chooses chosen)
    (runs : ∀ id ∈ data.id, instructionsOf insPerPhase (chosen id) ≠ 0) {row : List ℚ}
    (length : row.length = data.labels.length + 1)
    (proportional : data.Proportional insPerPhase fun phase => row.getD (phase + 1) 0) :
    |((writtenPairs (selectionOf data insPerPhase chosen)).map fun pair =>
        pair.2 * row.getD pair.1 0).sum - (row.sum - row.getD 0 0)| ≤
      1 / 20000 * ((selectionOf data insPerPhase chosen).barrierPoints.map fun sp =>
        |row.getD (sp.toNat + 1) 0|).sum := by
  have exact := sum_selectionOf result.isLabelled chooses runs proportional
  rw [sum_range_getD length] at exact
  have near : ∀ entry ∈ (selectionOf data insPerPhase chosen).barrierPoints.zip
      (selectionOf data insPerPhase chosen).multipliers,
      |rounded 4 entry.2 * row.getD (entry.1.toNat + 1) 0 -
        entry.2 * row.getD (entry.1.toNat + 1) 0| ≤
      1 / 20000 * |row.getD (entry.1.toNat + 1) 0| := by
    intro entry _
    have rounding := abs_rounded_sub_le 4 entry.2
    rw [← sub_mul, abs_mul]
    refine mul_le_mul_of_nonneg_right (rounding.trans ?_) (abs_nonneg _)
    norm_num
  have bound := abs_sum_sub_le _ near
  have selected : ((selectionOf data insPerPhase chosen).barrierPoints.map fun sp =>
      |row.getD (sp.toNat + 1) 0|) = ((selectionOf data insPerPhase chosen).barrierPoints.zip
        (selectionOf data insPerPhase chosen).multipliers).map fun entry =>
          |row.getD (entry.1.toNat + 1) 0| := by
    have firsts : ((selectionOf data insPerPhase chosen).barrierPoints.zip
        (selectionOf data insPerPhase chosen).multipliers).map Prod.fst =
        (selectionOf data insPerPhase chosen).barrierPoints :=
      List.map_fst_zip (List.length_map ..).ge
    conv_lhs => rw [← firsts]
    exact List.map_map
  rw [← exact, writtenPairs, List.map_map, selected, ← List.sum_map_mul_left]
  exact bound

/-- For every result of SimPoint, the selected phases are written and read back, and when the
representatives executed instructions, the mean of the estimate is the mean of the whole run without
its first phase, up to the rounding of the written multipliers. -/
theorem estMetric_near (data : SPData) (inscount : List Text) (insPerPhase : List Int)
    (result : data.SimPointResult) (phases : inscount.length = data.labels.length + 1)
    (read : readInsPerPhase inscount = .ok insPerPhase) :
    ∃ clustering, data.clusterBarrierPoints = .ok clustering ∧
      (clustering.RepresentativesRun insPerPhase → ∃ selections selected,
        clustering.selectSignificantBarrierPoints insPerPhase = .ok selections ∧
        ErrorEstimate.readBarrierPoints selections.main.lines = .ok selected ∧
        ∀ statsT statsBp, Recorded data insPerPhase statsT statsBp → ∃ whole estimated,
          (ErrorEstimate.new selected statsT statsBp).metric 0 = .ok (some whole) ∧
          (ErrorEstimate.new selected statsT statsBp).estMetric = .ok (some estimated) ∧
          |estimated - (whole - meanOver statsBp fun row => row.getD 0 0)| ≤
            1 / 20000 * meanOver statsBp fun row =>
              (selections.main.barrierPoints.map fun sp => |row.getD (sp.toNat + 1) 0|).sum) := by
  obtain ⟨ec, ee, choosesEC, choosesEE, clustered⟩ := SPData.clusterBarrierPoints_eq result
  refine ⟨_, clustered, fun run => ?_⟩
  rw [representativesRun_iff] at run
  have sameLength : insPerPhase.length = data.labels.length := by
    rw [length_of_mapM_eq_ok read, List.length_drop, phases, Nat.add_sub_cancel]
  have chooses := result.isLabelled.chooses_representative
  have runs := fun id member => (run id member).1
  have selected := selectSignificantBarrierPoints_eq result.isLabelled sameLength choosesEC choosesEE runs
    (fun id member => (run id member).2.1) (fun id member => (run id member).2.2)
  have written : ErrorEstimate.readBarrierPoints
      (selectionOf data insPerPhase data.representative).lines =
      .ok (ErrorEstimate.asRead
        (writtenPairs (selectionOf data insPerPhase data.representative))) := by
    rw [readBarrierPoints_lines, writtenPairs, ErrorEstimate.asRead, List.map_map]
    refine congrArg Except.ok (List.map_congr_left fun entry member => ?_)
    obtain ⟨phase, isPhase, -⟩ := mem_selectionOf insPerPhase chooses (List.of_mem_zip member).1
    show (entry.1 + 1, rounded 4 entry.2) = (((entry.1.toNat + 1 : Nat) : Int), rounded 4 entry.2)
    rw [isPhase]
    rfl
  refine ⟨_, _, selected, written, fun statsT statsBp recorded => ?_⟩
  have inside : ∀ pair ∈ writtenPairs (selectionOf data insPerPhase data.representative),
      pair.1 ≤ data.labels.length := by
    intro pair member
    obtain ⟨entry, inSelection, rfl⟩ := List.mem_map.mp member
    obtain ⟨phase, isPhase, within⟩ :=
      mem_selectionOf insPerPhase chooses (List.of_mem_zip inSelection).1
    show entry.1.toNat + 1 ≤ data.labels.length
    rw [isPhase]
    exact within
  have iterations : statsT.length = statsBp.length := by
    have lengths := congrArg List.length recorded.whole
    rwa [List.length_map, List.length_map] at lengths
  refine ⟨_, _, ErrorEstimate.metric_eq _ _ _ recorded.filled recorded.whole,
    ErrorEstimate.estMetric_eq _ _ _ recorded.filled iterations recorded.recorded inside, ?_⟩
  have positive : (0 : ℚ) < statsBp.length :=
    Nat.cast_pos.mpr (List.length_pos_iff.mpr recorded.filled)
  have sums := abs_sum_sub_le statsBp fun row member => abs_estimate_sub_le result chooses runs
    (recorded.recorded row member) (recorded.proportional row member)
  have differences : (statsBp.map fun row => row.sum - row.getD 0 0).sum =
      (statsBp.map List.sum).sum - (statsBp.map fun row => row.getD 0 0).sum := by
    rw [eq_sub_iff_add_eq, ← List.sum_map_add]
    simp only [sub_add_cancel]
  rw [differences, List.sum_map_mul_left] at sums
  unfold meanOver
  rw [← sub_div, ← sub_div, abs_div, abs_of_pos positive, ← mul_div_assoc]
  exact div_le_div_of_nonneg_right sums positive.le

/-- Three phases in two clusters behind a first phase, with a metric equal to the instructions. -/
theorem estMetric_near_three : ∃ clustering selections selected whole estimated,
    SPData.clusterBarrierPoints ⟨[0, 1], [0, 1], [0, 1, 0], [0, 0, 1]⟩ = .ok clustering ∧
    clustering.selectSignificantBarrierPoints [10, 20, 30] = .ok selections ∧
    ErrorEstimate.readBarrierPoints selections.main.lines = .ok selected ∧
    (ErrorEstimate.new selected [[65]] [[5, 10, 20, 30]]).metric 0 = .ok (some whole) ∧
    (ErrorEstimate.new selected [[65]] [[5, 10, 20, 30]]).estMetric = .ok (some estimated) ∧
    |estimated - (whole - meanOver [[5, 10, 20, 30]] fun row => row.getD 0 0)| ≤
      1 / 20000 * meanOver [[5, 10, 20, 30]] fun row =>
        (selections.main.barrierPoints.map fun sp => |row.getD (sp.toNat + 1) 0|).sum := by
  have result : SPData.SimPointResult ⟨[0, 1], [0, 1], [0, 1, 0], [0, 0, 1]⟩ := by
    refine ⟨by decide, by decide, by decide, by decide, rfl, ?_, rfl, by decide⟩
    intro place id sp isId isPoint
    match place with
    | 0 => cases isId; cases isPoint; decide
    | 1 => cases isId; cases isPoint; decide
    | place + 2 => cases isId
  obtain ⟨clustering, clustered, estimates⟩ := estMetric_near
    ⟨[0, 1], [0, 1], [0, 1, 0], [0, 0, 1]⟩
    ["7,1\n".toList, "4,6\n".toList, "12,8\n".toList, "15,15\n".toList] [10, 20, 30] result rfl
    (by decide +kernel)
  have computed : SPData.clusterBarrierPoints ⟨[0, 1], [0, 1], [0, 1, 0], [0, 0, 1]⟩ =
      .ok ⟨[0, 1], [0, 1], [0, 1], [0, 1, 0], [0, 1, 0], [0, 1, 0]⟩ := by decide +kernel
  cases clustered.symm.trans computed
  obtain ⟨selections, selected, isSelected, isRead, near⟩ := estimates (by
    unfold Clustering.RepresentativesRun
    decide)
  have recorded : Recorded ⟨[0, 1], [0, 1], [0, 1, 0], [0, 0, 1]⟩ [10, 20, 30] [[65]]
      [[5, 10, 20, 30]] := by
    refine ⟨by decide, by decide, by decide +kernel, fun row member => ⟨fun _ => 1, ?_⟩⟩
    obtain rfl := List.mem_singleton.mp member
    intro phase label held
    match phase with
    | 0 | 1 | 2 => simp [instructionsOf]
    | phase + 3 => cases held
  obtain ⟨whole, estimated, isWhole, isEstimated, bound⟩ := near _ _ recorded
  exact ⟨_, selections, selected, whole, estimated, clustered, isSelected, isRead, isWhole,
    isEstimated, bound⟩

/-- A first phase that recorded anything is missing from the estimate. -/
theorem estMetric_far :
    SPData.SimPointResult ⟨[0], [0], [0], [0]⟩ ∧
    readInsPerPhase ["3\n".toList, "10\n".toList] = .ok [10] ∧
    Recorded ⟨[0], [0], [0], [0]⟩ [10] [[15]] [[5, 10]] ∧
    ∃ clustering selections selected,
      SPData.clusterBarrierPoints ⟨[0], [0], [0], [0]⟩ = .ok clustering ∧
      clustering.selectSignificantBarrierPoints [10] = .ok selections ∧
      ErrorEstimate.readBarrierPoints selections.main.lines = .ok selected ∧
      (ErrorEstimate.new selected [[15]] [[5, 10]]).metric 0 = .ok (some 15) ∧
      (ErrorEstimate.new selected [[15]] [[5, 10]]).estMetric = .ok (some 10) ∧
      ¬ |(10 : ℚ) - 15| ≤ 1 / 20000 * meanOver [[5, 10]] fun row =>
        (selections.main.barrierPoints.map fun sp => |row.getD (sp.toNat + 1) 0|).sum := by
  refine ⟨⟨by decide, by decide, by decide, by decide, rfl, ?_, rfl, by decide⟩, by decide +kernel,
    ⟨by decide, by decide, by decide +kernel, fun row member => ⟨fun _ => 1, ?_⟩⟩,
    ⟨[0], [0], [0], [0], [0], [0]⟩, ⟨⟨[0], [1]⟩, ⟨[0], [1]⟩, ⟨[0], [1]⟩⟩, [(1, 1)],
    by decide +kernel, by decide +kernel, by decide +kernel, by decide +kernel, by decide +kernel,
    by decide +kernel⟩
  · intro place id sp isId isPoint
    match place with
    | 0 => cases isId; cases isPoint; decide
    | place + 1 => cases isId
  · obtain rfl := List.mem_singleton.mp member
    intro phase label held
    match phase with
    | 0 => simp [instructionsOf]
    | phase + 1 => cases held

end BarrierPoint
