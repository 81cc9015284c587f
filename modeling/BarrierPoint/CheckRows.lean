/-
This file compares the rows of the check file with the files of counters. The
parser appends the samples of all files and rounds to one list, so the sample
at an index is that of the iteration of the index only for a counter sampled
in a single round. The instruction count is sampled in every round: its rows
take the samples of the first files, one round after the other.
-/

import BarrierPoint.PapiParser

namespace BarrierPoint

open Library StatsPerfCounters

/-! ### The values of an iteration -/

/-- The values an iteration records for a counter of a thread at a barrier, one for each round that
samples it. -/
def recordedValues (platform : Platform) (runs : List PapiRun) (stat : Text) (tid bid : Nat) :
    List Nat :=
  ((papiRounds platform).zip runs).flatMap fun (round, run) =>
    if stat ∈ roundStats round then [run.value stat tid bid] else []

/-- The number of rounds that sample a counter. -/
def samplings (platform : Platform) (stat : Text) : Nat :=
  (papiRounds platform).countP fun round => stat ∈ roundStats round

theorem length_recordedValues {platform : Platform} {runs : List PapiRun}
    (rounds : runs.length = (papiRounds platform).length) (stat : Text) (tid bid : Nat) :
    (recordedValues platform runs stat tid bid).length = samplings platform stat := by
  unfold recordedValues samplings
  generalize papiRounds platform = sampled at rounds
  induction sampled generalizing runs with
  | nil => rfl
  | cons round sampled inductionHypothesis =>
    cases runs with
    | nil => cases rounds
    | cons run runs =>
      rw [List.zip_cons_cons, List.flatMap_cons, List.length_append, List.countP_cons,
        inductionHypothesis (Nat.succ_inj.mp rounds), Nat.add_comm]
      by_cases member : stat ∈ roundStats round <;> simp [member]

/-- A counter that every round samples has one value from each run. -/
theorem recordedValues_of_all {platform : Platform} {runs : List PapiRun}
    (rounds : runs.length = (papiRounds platform).length) {stat : Text}
    (all : ∀ round ∈ papiRounds platform, stat ∈ roundStats round) (tid bid : Nat) :
    recordedValues platform runs stat tid bid = runs.map fun run => run.value stat tid bid := by
  unfold recordedValues
  generalize papiRounds platform = sampled at rounds all
  induction sampled generalizing runs with
  | nil =>
    obtain rfl := List.length_eq_zero_iff.mp rounds
    rfl
  | cons round sampled inductionHypothesis =>
    cases runs with
    | nil => cases rounds
    | cons run runs =>
      rw [List.forall_mem_cons] at all
      rw [List.zip_cons_cons, List.flatMap_cons, List.map_cons,
        inductionHypothesis (Nat.succ_inj.mp rounds) all.2]
      show (if stat ∈ roundStats round then [run.value stat tid bid] else []) ++ _ = _
      rw [if_pos all.1]
      rfl

/-! ### Reading the files -/

/-- Samples that the parser takes for those of the runs of an iteration. -/
structure ReadAs (platform : Platform) (nthreads barriers : Nat) (runs : List PapiRun)
    (samples : List Sample) : Prop where
  known : ∀ sample ∈ samples,
    Sample.IsCounter sample.stat ∧ sample.tid < nthreads ∧ sample.bid < barriers
  inTurn : ∀ start, InTurn start samples
  values : ∀ stat, ∀ tid < nthreads, ∀ bid < barriers,
    valuesOf samples stat tid bid = recordedValues platform runs stat tid bid

/-- The files hold what the parser takes for the runs of the batch script, in every iteration one for
each round. -/
structure Readable (experiment : Experiment) (files : Text → Option (List Text)) (barriers : Nat)
    (iterations : List (List PapiRun)) : Prop where
  supported : experiment.runningOn ≠ .unknown
  counted : iterations.length = experiment.iterations
  rounds : ∀ runs ∈ iterations, runs.length = (papiRounds experiment.runningOn).length
  held : ∀ (iteration : Nat) runs, iterations[iteration]? = some runs → ∃ samples,
    files (experiment.outputFile iteration) = some (samples.map Sample.line) ∧
      ReadAs experiment.runningOn experiment.nthreads barriers runs samples

/-- What the runs of an iteration write, one for each round, with the lines of a run in some order. -/
def WrittenBy (platform : Platform) (barriers : Nat) (runs : List PapiRun)
    (parts : List (List Sample)) : Prop :=
  List.Forall₂ (fun entry samples => entry.2.Interleaves barriers (roundStats entry.1) samples)
    ((papiRounds platform).zip runs) parts

theorem WrittenBy.exists_of_mem {platform : Platform} {barriers : Nat} {runs : List PapiRun}
    {parts : List (List Sample)} (writtenBy : WrittenBy platform barriers runs parts)
    {samples : List Sample} (member : samples ∈ parts) : ∃ round ∈ papiRounds platform, ∃ run ∈ runs,
      run.Interleaves barriers (roundStats round) samples := by
  obtain ⟨index, early, rfl⟩ := List.getElem_of_mem member
  have inside : index < ((papiRounds platform).zip runs).length := writtenBy.length_eq ▸ early
  have pair := List.of_mem_zip (List.getElem_mem inside)
  exact ⟨_, pair.1, _, pair.2, writtenBy.get inside early⟩

/-- The values that are read from the samples of an iteration are those that it records. -/
theorem valuesOf_parts {barriers tid bid : Nat} (inside : bid < barriers) (stat : Text)
    {written : List (Text × PapiRun)} {parts : List (List Sample)}
    (each : List.Forall₂ (fun entry samples =>
      entry.2.Interleaves barriers (roundStats entry.1) samples) written parts)
    (known : ∀ entry ∈ written, (roundStats entry.1).Nodup ∧ tid ∈ entry.2.order) :
    valuesOf parts.flatten stat tid bid = written.flatMap fun entry =>
      if stat ∈ roundStats entry.1 then [entry.2.value stat tid bid] else [] := by
  induction each with
  | nil => rfl
  | cons one _ inductionHypothesis =>
    rw [List.forall_mem_cons] at known
    rw [List.flatten_cons, valuesOf_append, List.flatMap_cons, inductionHypothesis known.2,
      PapiRun.Interleaves.valuesOf_eq one known.1.1 known.1.2 inside]

/-- The parser takes the lines of the runs for what they are, in whatever order those of different
threads have come. -/
theorem WrittenBy.readAs {platform : Platform} {nthreads barriers : Nat} {runs : List PapiRun}
    {parts : List (List Sample)} (writtenBy : WrittenBy platform barriers runs parts)
    (threads : ∀ run ∈ runs, ∀ tid, tid ∈ run.order ↔ tid < nthreads) :
    ReadAs platform nthreads barriers runs parts.flatten where
  known sample member := by
    obtain ⟨samples, part, inside⟩ := List.mem_flatten.mp member
    obtain ⟨round, sampled, run, ran, interleaves⟩ := writtenBy.exists_of_mem part
    obtain ⟨known, counted, reached⟩ := interleaves.mem inside
    exact ⟨(papiRounds_spec sampled).2.2 _ counted, (threads run ran _).mp known, reached⟩
  inTurn start := by
    have inTurn : InTurn start (parts.flatMap id) := inTurn_flatMap parts (fun samples part => by
      obtain ⟨round, sampled, run, ran, interleaves⟩ := writtenBy.exists_of_mem part
      exact interleaves.inTurn (List.ne_nil_of_mem (papiRounds_spec sampled).2.1)) start
    rwa [List.flatMap_id] at inTurn
  values stat tid known bid inside := by
    refine valuesOf_parts inside stat writtenBy fun entry member => ?_
    have pair := List.of_mem_zip (show (entry.1, entry.2) ∈ _ from member)
    exact ⟨(papiRounds_spec pair.1).1, (threads _ pair.2 _).mpr known⟩

/-- Threads that write one after the other. -/
theorem writtenBy_samples (platform : Platform) {runs : List PapiRun}
    (distinct : ∀ run ∈ runs, run.order.Nodup) (barriers : Nat) :
    WrittenBy platform barriers runs (((papiRounds platform).zip runs).map fun entry =>
      entry.2.samples barriers (roundStats entry.1)) := by
  refine List.forall₂_map_right_iff.mpr (List.forall₂_same.mpr fun entry member => ?_)
  have pair := List.of_mem_zip (show (entry.1, entry.2) ∈ _ from member)
  exact entry.2.interleaves_samples (distinct _ pair.2) barriers (roundStats entry.1)

namespace Experiment

variable {experiment : Experiment}

/-- The parser cuts from the name of the batch script what the names of the files start with. -/
theorem filePrefix_eq (experiment : Experiment) : experiment.filePrefix = experiment.baseName := by
  have named : experiment.shfileN.take (experiment.shfileN.length - 3) =
      experiment.baseName ++ decimal experiment.iterations := by
    rw [shfileN]
    refine List.take_left' ?_
    have longer : (experiment.baseName ++ decimal experiment.iterations ++ ".sh".toList).length =
      (experiment.baseName ++ decimal experiment.iterations).length + 3 := List.length_append
    rw [longer, Nat.add_sub_cancel]
  rw [filePrefix, named, List.length_append, Nat.add_sub_cancel]
  exact List.take_left

end Experiment

/-- Runs that write one thread after the other write what can be read. -/
theorem Written.readable {experiment : Experiment} {files : Text → Option (List Text)}
    {barriers : Nat} {iterations : List (List PapiRun)}
    (written : Written experiment files barriers iterations) :
    Readable experiment files barriers iterations where
  supported := written.supported
  counted := written.counted
  rounds := written.rounds
  held iteration runs here := by
    have order := written.threads runs (List.mem_of_getElem? here)
    have readAs := (writtenBy_samples experiment.runningOn
      (fun run member => (order run member).nodup_iff.mpr List.nodup_range) barriers).readAs
      fun run member tid => (order run member).mem_iff.trans List.mem_range
    exact ⟨_, written.held iteration runs here, readAs⟩

theorem papiRounds_length_pos {platform : Platform} (supported : platform ≠ .unknown) :
    0 < (papiRounds platform).length := by
  cases platform with
  | x86_64 | aarch64 => decide
  | unknown => exact absurd rfl supported

/-- Every run counts the instructions. -/
theorem recordedValues_totIns {platform : Platform} {runs : List PapiRun}
    (rounds : runs.length = (papiRounds platform).length) (tid bid : Nat) :
    recordedValues platform runs totIns tid bid = runs.map fun run => run.value totIns tid bid :=
  recordedValues_of_all rounds (fun _ member => (papiRounds_spec member).2.1) tid bid

/-- The values that are read from the samples of all iterations. -/
theorem valuesOf_flatten {platform : Platform} {nthreads barriers tid bid : Nat}
    (known : tid < nthreads) (inside : bid < barriers) (stat : Text)
    {iterations : List (List PapiRun)} {written : List (List Sample)}
    (readAs : List.Forall₂ (ReadAs platform nthreads barriers) iterations written) :
    valuesOf written.flatten stat tid bid =
      iterations.flatMap fun runs => recordedValues platform runs stat tid bid := by
  induction readAs with
  | nil => rfl
  | cons one _ inductionHypothesis =>
    rw [List.flatten_cons, valuesOf_append, List.flatMap_cons, inductionHypothesis,
      one.values stat tid known bid inside]

namespace Readable

variable {experiment : Experiment} {files : Text → Option (List Text)} {barriers : Nat}
  {iterations : List (List PapiRun)}

/-- The samples of all files, file by file. -/
theorem exists_samples (readable : Readable experiment files barriers iterations) :
    ∃ written : List (List Sample),
      List.Forall₂ (ReadAs experiment.runningOn experiment.nthreads barriers) iterations written ∧
      ∀ (iteration : Nat) samples, written[iteration]? = some samples →
        files (experiment.outputFile iteration) = some (samples.map Sample.line) := by
  have each : ∀ iteration, ∃ samples, ∀ runs, iterations[iteration]? = some runs →
      files (experiment.outputFile iteration) = some (samples.map Sample.line) ∧
        ReadAs experiment.runningOn experiment.nthreads barriers runs samples := by
    intro iteration
    cases here : iterations[iteration]? with
    | none => exact ⟨[], fun _ held => nomatch held⟩
    | some runs =>
      obtain ⟨samples, held⟩ := readable.held iteration runs here
      exact ⟨samples, fun _ same => Option.some_inj.mp same ▸ held⟩
  choose samples spec using each
  refine ⟨iterations.mapIdx fun iteration _ => samples iteration, ?_, fun iteration here held => ?_⟩
  · refine List.forall₂_iff_get.mpr ⟨List.length_mapIdx.symm, fun iteration early _ => ?_⟩
    rw [List.get_eq_getElem, List.get_eq_getElem, List.getElem_mapIdx]
    exact (spec iteration _ (List.getElem?_eq_getElem early)).2
  · rw [List.getElem?_mapIdx, Option.map_eq_some_iff] at held
    obtain ⟨runs, there, rfl⟩ := held
    exact (spec iteration runs there).1

/-- The constructor reads all files: every barrier, and of every counter what the iterations record,
one after the other. -/
theorem new_spec (readable : Readable experiment files barriers iterations) :
    ∃ samples counters,
      new files experiment.filePrefix experiment.iterations experiment.nthreads = .ok counters ∧
      Parsed experiment.nthreads samples (barriersAfter 0 samples) counters ∧
      (0 < experiment.nthreads → 0 < iterations.length → barriersAfter 0 samples = barriers) ∧
      ∀ stat, ∀ tid < experiment.nthreads, ∀ bid < barriers, valuesOf samples stat tid bid =
        iterations.flatMap fun runs => recordedValues experiment.runningOn runs stat tid bid := by
  obtain ⟨written, readAs, held⟩ := readable.exists_samples
  have each : ∀ samples ∈ written, ∃ runs,
      ReadAs experiment.runningOn experiment.nthreads barriers runs samples := by
    intro samples member
    obtain ⟨index, early, rfl⟩ := List.getElem_of_mem member
    exact ⟨_, readAs.get (readAs.length_eq.symm ▸ early) early⟩
  have all : ∀ sample ∈ written.flatten, Sample.IsCounter sample.stat ∧
      sample.tid < experiment.nthreads ∧ sample.bid < barriers := by
    intro sample inside
    obtain ⟨samples, member, inside⟩ := List.mem_flatten.mp inside
    obtain ⟨runs, holds⟩ := each samples member
    exact holds.known sample inside
  have inTurn : InTurn 0 (written.flatMap id) := inTurn_flatMap written (fun samples member => by
    obtain ⟨runs, holds⟩ := each samples member
    exact holds.inTurn) 0
  rw [List.flatMap_id] at inTurn
  have values : ∀ stat, ∀ tid < experiment.nthreads, ∀ bid < barriers,
      valuesOf written.flatten stat tid bid =
        iterations.flatMap fun runs => recordedValues experiment.runningOn runs stat tid bid :=
    fun stat tid known bid inside => valuesOf_flatten known inside stat readAs
  obtain ⟨counters, ran, parsed⟩ := (parsed_new experiment.nthreads).addSamples _ inTurn
    fun sample inside => (all sample inside).2.1
  refine ⟨written.flatten, counters, Eq.trans ?_ ran, parsed, fun threads filled => ?_, values⟩
  · rw [← readable.counted, readAs.length_eq]
    refine new_eq files _ _ _ (fun iteration samples here => ?_) fun samples member sample inside =>
      (all sample (List.mem_flatten.mpr ⟨samples, member, inside⟩)).1
    rw [experiment.filePrefix_eq]
    exact held iteration samples here
  · refine Nat.le_antisymm ((barriersAfter_le_iff _ _ _).mpr
      ⟨Nat.zero_le _, fun sample inside => (all sample inside).2.2⟩) ?_
    cases barriers with
    | zero => exact Nat.zero_le _
    | succ last =>
      obtain ⟨runs, rest, rfl⟩ := List.exists_cons_of_length_pos filled
      have rounds := readable.rounds runs List.mem_cons_self
      obtain ⟨run, others, rfl⟩ := List.exists_cons_of_length_pos
        (rounds.symm ▸ papiRounds_length_pos readable.supported)
      have read := values totIns 0 threads last (Nat.lt_succ_self last)
      rw [List.flatMap_cons, recordedValues_totIns rounds, List.map_cons, List.cons_append] at read
      have first : run.value totIns 0 last ∈ valuesOf written.flatten totIns 0 last :=
        read ▸ List.mem_cons_self
      obtain ⟨sample, member, -⟩ := List.mem_map.mp first
      obtain ⟨wrote, same⟩ := List.mem_filter.mp member
      have below := ((barriersAfter_le_iff _ 0 _).mp (le_refl _)).2 sample wrote
      exact (of_decide_eq_true same).2.2 ▸ below

end Readable

/-! ### The rows -/

/-- The counters of the columns behind the first four. -/
def columnCounters : List Text := [
  "TOT_CYC".toList, totIns, "L1_DCA".toList, "L1_DCM".toList, "L1_ICA".toList, "L1_ICM".toList,
  "L2_DCA".toList, "L2_DCM".toList]

/-- The counters a platform lacks. -/
def lacks : Platform → Text → Prop
  | .aarch64, stat => stat = "L2_DCA".toList
  | _, stat => stat = "L1_DCA".toList ∨ stat = "L1_ICA".toList

instance (platform : Platform) (stat : Text) : Decidable (lacks platform stat) :=
  match platform with
  | .aarch64 => inferInstanceAs (Decidable (stat = "L2_DCA".toList))
  | .x86_64 => inferInstanceAs (Decidable (stat = "L1_DCA".toList ∨ stat = "L1_ICA".toList))
  | .unknown => inferInstanceAs (Decidable (stat = "L1_DCA".toList ∨ stat = "L1_ICA".toList))

/-- Every column but that of the instructions is of a counter sampled in one round. -/
theorem samplings_eq_one {platform : Platform} (supported : platform ≠ .unknown) {stat : Text}
    (column : stat ∈ columnCounters) (has : ¬lacks platform stat) (other : stat ≠ totIns) :
    samplings platform stat = 1 := by
  revert stat
  cases platform with
  | x86_64 => decide +kernel
  | aarch64 => decide +kernel
  | unknown => exact (supported rfl).elim

namespace StatsPerfCounters

variable {nthreads : Nat} {samples : List Sample} {barriers : Nat} {counters : StatsPerfCounters}
  {tid bid iteration : Nat}

/-- A value read for a counter, a thread and a barrier is found in its place. -/
theorem Parsed.found (parsed : Parsed nthreads samples barriers counters) (known : tid < nthreads)
    (inside : bid < barriers) {stat : Text} {value : Nat}
    (recorded : (valuesOf samples stat tid bid)[iteration]? = some value) :
    ∃ row thread sample, counters.stats[bid]? = some row ∧ row[tid]? = some thread ∧
      ((thread.lookup stat).getD [])[iteration]? = some sample ∧ sample.2 = value := by
  have held := List.getElem?_eq_getElem (parsed.length.symm ▸ inside)
  have width := parsed.threads _ (List.getElem_mem (parsed.length.symm ▸ inside))
  have heldThread := List.getElem?_eq_getElem (width.symm ▸ known)
  have values := parsed.values _ _ _ _ held heldThread stat
  rw [← values, List.getElem?_map, Option.map_eq_some_iff] at recorded
  obtain ⟨sample, read, same⟩ := recorded
  exact ⟨_, _, sample, held, heldThread, read, same⟩

theorem Parsed.total_eq (parsed : Parsed nthreads samples barriers counters)
    (known : tid < nthreads) (inside : bid < barriers) {stat : Text} {value : Nat}
    (recorded : (valuesOf samples stat tid bid)[iteration]? = some value) :
    counters.total stat tid iteration bid = .ok value := by
  obtain ⟨row, thread, sample, held, heldThread, read, rfl⟩ := parsed.found known inside recorded
  rw [total, if_neg (Int.not_lt.mpr (Int.natCast_nonneg bid)),
    bind_of_eq_ok (getItem_of_getElem? held), readSample,
    bind_of_eq_ok (getItem_of_getElem? heldThread), bind_of_eq_ok (getItem_of_getElem? read)]
  rfl

/-- An iteration that was sampled is read for the misses of the second level as for the others. -/
theorem Parsed.getTotalL2DataMisses_eq (parsed : Parsed nthreads samples barriers counters)
    (known : tid < nthreads) (inside : bid < barriers) {value : Nat}
    (recorded : (valuesOf samples "L2_DCM".toList tid bid)[iteration]? = some value) :
    counters.getTotalL2DataMisses tid iteration bid = .ok (some value) := by
  obtain ⟨row, thread, sample, held, heldThread, read, rfl⟩ := parsed.found known inside recorded
  have sampled := (List.getElem?_eq_some_iff.mp read).1
  rw [getTotalL2DataMisses, if_neg (Int.not_lt.mpr (Int.natCast_nonneg bid)),
    bind_of_eq_ok (getItem_of_getElem? held), bind_of_eq_ok (getItem_of_getElem? heldThread)]
  simp only [if_neg (Nat.not_le.mpr sampled)]
  rw [bind_of_eq_ok (getItem_of_getElem? read)]
  rfl

end StatsPerfCounters

/-- The cell of a counter that the platform has. -/
def cellOf (platform : Platform) (value : Text → Nat) (stat : Text) : Cell :=
  if lacks platform stat then none else some (value stat)

theorem Experiment.checkRow_eq (experiment : Experiment) {samples : List Sample} {barriers : Nat}
    {counters : StatsPerfCounters}
    (parsed : Parsed experiment.nthreads samples barriers counters) {tid bid iteration : Nat}
    (known : tid < experiment.nthreads) (inside : bid < barriers) {value : Text → Nat}
    (recorded : ∀ stat ∈ columnCounters, ¬lacks experiment.runningOn stat →
      (valuesOf samples stat tid bid)[iteration]? = some (value stat)) :
    experiment.checkRow counters tid iteration bid = .ok {
      thread := tid
      iteration
      barrier := bid
      cells := columnCounters.map (cellOf experiment.runningOn value) } := by
  obtain ⟨miniApp, nthreads, perBarrier, count, toolOutPath, outSuffix, platform⟩ := experiment
  have sampled : ∀ stat ∈ columnCounters, ¬lacks platform stat →
      (do return some (← counters.total stat tid iteration bid)) =
        (.ok (cellOf platform value stat) : Except PyError Cell) := by
    intro stat column has
    rw [cellOf, if_neg has, bind_of_eq_ok (parsed.total_eq known inside (recorded stat column has))]
    rfl
  have always : ∀ stat ∈ ["TOT_CYC".toList, totIns, "L1_DCM".toList, "L1_ICM".toList,
      "L2_DCM".toList], stat ∈ columnCounters ∧ ¬lacks platform stat := by
    cases platform <;> decide
  have written : ∀ stat ∈ ["TOT_CYC".toList, totIns, "L1_DCM".toList, "L1_ICM".toList,
      "L2_DCM".toList], (do return some (← counters.total stat tid iteration bid)) =
        (.ok (cellOf platform value stat) : Except PyError Cell) :=
    fun stat member => sampled stat (always stat member).1 (always stat member).2
  have l1DAccesses : getTotalL1DataAccesses platform counters tid iteration bid =
      .ok (cellOf platform value "L1_DCA".toList) := by
    cases platform with
    | aarch64 => exact sampled _ (by decide) (by decide)
    | x86_64 => rfl
    | unknown => rfl
  have l1IAccesses : getTotalL1InstAccesses platform counters tid iteration bid =
      .ok (cellOf platform value "L1_ICA".toList) := by
    cases platform with
    | aarch64 => exact sampled _ (by decide) (by decide)
    | x86_64 => rfl
    | unknown => rfl
  have l2DAccesses : getTotalL2DataAccesses platform counters tid iteration bid =
      .ok (cellOf platform value "L2_DCA".toList) := by
    cases platform with
    | aarch64 => rfl
    | x86_64 => exact sampled _ (by decide) (by decide)
    | unknown => exact sampled _ (by decide) (by decide)
  have l2DMisses : counters.getTotalL2DataMisses tid iteration bid =
      .ok (cellOf platform value "L2_DCM".toList) := by
    have has := always "L2_DCM".toList (by decide)
    rw [cellOf, if_neg has.2]
    exact parsed.getTotalL2DataMisses_eq known inside (recorded _ has.1 has.2)
  rw [checkRow, bind_of_eq_ok (show counters.getTotalCycles tid iteration bid = _ from
      written _ (by decide)),
    bind_of_eq_ok (show counters.getTotalInstructions tid iteration bid = _ from
      written _ (by decide)), bind_of_eq_ok l1DAccesses,
    bind_of_eq_ok (show counters.getTotalL1DataMisses tid iteration bid = _ from
      written _ (by decide)), bind_of_eq_ok l1IAccesses,
    bind_of_eq_ok (show counters.getTotalL1InstMisses tid iteration bid = _ from
      written _ (by decide)), bind_of_eq_ok l2DAccesses, bind_of_eq_ok l2DMisses]
  rfl

/-! ### Rows and files -/

/-- The file of an iteration holds a line with this value of a counter for a thread and a
barrier. -/
def RecordedIn (experiment : Experiment) (files : Text → Option (List Text)) (iteration : Nat)
    (stat : Text) (tid bid value : Nat) : Prop :=
  ∃ lines, files (experiment.outputFile iteration) = some lines ∧
    ∃ line ∈ lines, ∃ pid, Sample.parse line = some ⟨stat, tid, pid, bid, value⟩

/-- Every cell of a row is recorded in the file of its iteration, other than those of the counters
that the platform lacks. -/
def RowRecorded (experiment : Experiment) (files : Text → Option (List Text)) (row : CheckRow) :
    Prop :=
  List.Forall₂ (fun stat cell => match cell with
    | none => lacks experiment.runningOn stat
    | some value => RecordedIn experiment files row.iteration stat row.thread row.barrier value)
    columnCounters row.cells

/-- For every iteration, the instruction count of the run that stands at its index, when the runs
of all iterations are counted one after the other, is also that of a run of the iteration. -/
def InstructionsCoincide (platform : Platform) (nthreads barriers : Nat)
    (iterations : List (List PapiRun)) : Prop :=
  ∀ tid < nthreads, ∀ bid < barriers, ∀ (iteration : Nat) runs source run,
    iterations[iteration]? = some runs →
    iterations[iteration / (papiRounds platform).length]? = some source →
    source[iteration % (papiRounds platform).length]? = some run →
    ∃ own ∈ runs, own.value totIns tid bid = run.value totIns tid bid

/-- The value of the cell of a counter. -/
def cellValue (platform : Platform) (iterations : List (List PapiRun)) (tid bid iteration : Nat)
    (stat : Text) : Nat :=
  ((iterations.flatMap fun runs => recordedValues platform runs stat tid bid)[iteration]?).getD 0

namespace Readable

variable {experiment : Experiment} {files : Text → Option (List Text)} {barriers : Nat}
  {iterations : List (List PapiRun)} {tid bid : Nat}

/-- The file of an iteration holds the values the iteration records. -/
theorem recorded_iff (readable : Readable experiment files barriers iterations) {iteration : Nat}
    {runs : List PapiRun} (here : iterations[iteration]? = some runs)
    (known : tid < experiment.nthreads) (inside : bid < barriers) (stat : Text) (value : Nat) :
    RecordedIn experiment files iteration stat tid bid value ↔
      value ∈ recordedValues experiment.runningOn runs stat tid bid := by
  obtain ⟨samples, held, readAs⟩ := readable.held iteration runs here
  rw [← readAs.values stat tid known bid inside, valuesOf, List.mem_map, RecordedIn]
  constructor
  · rintro ⟨lines, opened, line, printed, pid, parsed⟩
    obtain rfl := Option.some_inj.mp (held.symm.trans opened)
    obtain ⟨sample, wrote, rfl⟩ := List.mem_map.mp printed
    rw [Sample.parse_line (readAs.known sample wrote).1, Option.some_inj] at parsed
    subst parsed
    exact ⟨_, List.mem_filter.mpr ⟨wrote, decide_eq_true ⟨rfl, rfl, rfl⟩⟩, rfl⟩
  · rintro ⟨sample, member, rfl⟩
    obtain ⟨wrote, same⟩ := List.mem_filter.mp member
    obtain ⟨rfl, rfl, rfl⟩ := of_decide_eq_true same
    exact ⟨_, held, sample.line, List.mem_map_of_mem wrote, sample.pid,
      Sample.parse_line (readAs.known sample wrote).1⟩

/-- The values of a counter of one round are read in the order of the files. -/
theorem cellValue_mem (readable : Readable experiment files barriers iterations) {iteration : Nat}
    {runs : List PapiRun} (here : iterations[iteration]? = some runs) {stat : Text}
    (once : samplings experiment.runningOn stat = 1) :
    (iterations.flatMap fun runs => recordedValues experiment.runningOn runs stat tid bid)[iteration]? =
        some (cellValue experiment.runningOn iterations tid bid iteration stat) ∧
      cellValue experiment.runningOn iterations tid bid iteration stat ∈
        recordedValues experiment.runningOn runs stat tid bid := by
  have sizes : ∀ runs ∈ iterations,
      (recordedValues experiment.runningOn runs stat tid bid).length = 1 := fun runs member =>
    (length_recordedValues (readable.rounds runs member) stat tid bid).trans once
  have size := sizes runs (List.mem_of_getElem? here)
  obtain ⟨value, single⟩ := List.length_eq_one_iff.mp size
  have read : (iterations.flatMap fun runs =>
      recordedValues experiment.runningOn runs stat tid bid)[iteration]? = some value := by
    rw [getElem?_flatMap_const Nat.one_pos sizes, Nat.div_one, Nat.mod_one, here, Option.bind_some,
      single]
    rfl
  rw [cellValue, read, single]
  exact ⟨rfl, List.mem_singleton_self value⟩

/-- The instruction counts are read one run after the other. -/
theorem cellValue_totIns (readable : Readable experiment files barriers iterations) (tid bid : Nat)
    {iteration : Nat} (inside : iteration < iterations.length) : ∃ source run,
    iterations[iteration / (papiRounds experiment.runningOn).length]? = some source ∧
      source[iteration % (papiRounds experiment.runningOn).length]? = some run ∧
      (iterations.flatMap fun runs =>
        recordedValues experiment.runningOn runs totIns tid bid)[iteration]? =
          some (cellValue experiment.runningOn iterations tid bid iteration totIns) ∧
      cellValue experiment.runningOn iterations tid bid iteration totIns =
        run.value totIns tid bid := by
  have sampled : 0 < (papiRounds experiment.runningOn).length :=
    papiRounds_length_pos readable.supported
  have values : ∀ runs ∈ iterations, recordedValues experiment.runningOn runs totIns tid bid =
      runs.map fun run => run.value totIns tid bid := fun runs member =>
    recordedValues_totIns (readable.rounds runs member) tid bid
  have sizes : ∀ runs ∈ iterations, (runs.map fun run => run.value totIns tid bid).length =
      (papiRounds experiment.runningOn).length := fun runs member =>
    List.length_map _ |>.trans (readable.rounds runs member)
  have reached : iteration / (papiRounds experiment.runningOn).length < iterations.length :=
    (Nat.div_le_self _ _).trans_lt inside
  have source := List.getElem?_eq_getElem reached
  have placed : iteration % (papiRounds experiment.runningOn).length <
      (iterations[iteration / (papiRounds experiment.runningOn).length]).length :=
    (readable.rounds _ (List.getElem_mem reached)).symm ▸ Nat.mod_lt _ sampled
  have run := List.getElem?_eq_getElem placed
  have read : (iterations.flatMap fun runs =>
      recordedValues experiment.runningOn runs totIns tid bid)[iteration]? =
        some ((iterations[iteration / (papiRounds experiment.runningOn).length][iteration %
          (papiRounds experiment.runningOn).length]).value totIns tid bid) := by
    rw [List.flatMap_congr values, getElem?_flatMap_const sampled sizes, source, Option.bind_some,
      List.getElem?_map, run]
    rfl
  refine ⟨_, _, source, run, ?_⟩
  rw [cellValue, read]
  exact ⟨rfl, rfl⟩

/-- The value of each cell is recorded at the index of its iteration. -/
theorem cellValue_eq (readable : Readable experiment files barriers iterations) {iteration : Nat}
    (inside : iteration < iterations.length) {stat : Text} (column : stat ∈ columnCounters)
    (has : ¬lacks experiment.runningOn stat) :
    (iterations.flatMap fun runs =>
      recordedValues experiment.runningOn runs stat tid bid)[iteration]? =
        some (cellValue experiment.runningOn iterations tid bid iteration stat) := by
  by_cases same : stat = totIns
  · obtain ⟨_, _, -, -, read, -⟩ := readable.cellValue_totIns tid bid inside
    exact same ▸ read
  · exact (readable.cellValue_mem (List.getElem?_eq_getElem inside)
      (samplings_eq_one readable.supported column has same)).1

end Readable

/-- The row of a thread, an iteration and a barrier. -/
def rowOf (platform : Platform) (iterations : List (List PapiRun)) (tid iteration bid : Nat) :
    CheckRow := {
  thread := tid
  iteration
  barrier := bid
  cells := columnCounters.map (cellOf platform (cellValue platform iterations tid bid iteration)) }

namespace Readable

variable {experiment : Experiment} {files : Text → Option (List Text)} {barriers : Nat}
  {iterations : List (List PapiRun)} {tid bid : Nat}

/-- A row is recorded in the file of its iteration iff its instruction count is. -/
theorem rowRecorded_iff (readable : Readable experiment files barriers iterations) {iteration : Nat}
    {runs : List PapiRun} (here : iterations[iteration]? = some runs)
    (known : tid < experiment.nthreads) (inside : bid < barriers) :
    RowRecorded experiment files (rowOf experiment.runningOn iterations tid iteration bid) ↔
      ∃ own ∈ runs, own.value totIns tid bid =
        cellValue experiment.runningOn iterations tid bid iteration totIns := by
  have member := List.mem_of_getElem? here
  have instructions : RecordedIn experiment files iteration totIns tid bid
      (cellValue experiment.runningOn iterations tid bid iteration totIns) ↔
        ∃ own ∈ runs, own.value totIns tid bid =
          cellValue experiment.runningOn iterations tid bid iteration totIns := by
    rw [readable.recorded_iff here known inside, recordedValues_totIns (readable.rounds runs member),
      List.mem_map]
  have has : ¬lacks experiment.runningOn totIns := by
    cases experiment.runningOn <;> decide
  rw [RowRecorded, rowOf, List.forall₂_map_right_iff, List.forall₂_same]
  constructor
  · intro recorded
    have cell := recorded totIns (by decide)
    rw [cellOf, if_neg has] at cell
    exact instructions.mp cell
  · intro own stat column
    by_cases lacking : lacks experiment.runningOn stat
    · rw [cellOf, if_pos lacking]
      exact lacking
    · rw [cellOf, if_neg lacking]
      by_cases same : stat = totIns
      · rw [same]
        exact instructions.mpr own
      · have once := samplings_eq_one readable.supported column lacking same
        exact (readable.recorded_iff here known inside stat _).mpr (readable.cellValue_mem here once).2

/-- The check file has a row for every thread, iteration and barrier. -/
theorem checkRows_eq (readable : Readable experiment files barriers iterations) :
    ∃ rows, experiment.checkRows files = .ok rows ∧ ∀ row, row ∈ rows ↔
      ∃ tid < experiment.nthreads, ∃ iteration < iterations.length, ∃ bid < barriers,
        rowOf experiment.runningOn iterations tid iteration bid = row := by
  obtain ⟨samples, counters, made, parsed, number, values⟩ := readable.new_spec
  have reached : ∀ {tid iteration : Nat}, tid < experiment.nthreads → iteration < iterations.length →
      counters.getNumberBarriers = barriers := fun known counted =>
    parsed.length.trans (number (Nat.zero_lt_of_lt known) (Nat.zero_lt_of_lt counted))
  have row : ∀ tid < experiment.nthreads, ∀ iteration < iterations.length,
      ∀ bid < counters.getNumberBarriers, experiment.checkRow counters tid iteration bid =
        .ok (rowOf experiment.runningOn iterations tid iteration bid) := by
    intro tid known iteration counted bid below
    have inside := reached known counted ▸ below
    refine experiment.checkRow_eq parsed known (parsed.length ▸ below) fun stat column has => ?_
    rw [values stat tid known bid inside]
    exact readable.cellValue_eq counted column has
  refine ⟨_, (bind_of_eq_ok made _).trans (bind_of_eq_ok (mapM_eq_ok fun tid known =>
    mapM_eq_ok fun iteration counted => mapM_eq_ok fun bid below => row tid
      (List.mem_range.mp known) iteration (readable.counted ▸ List.mem_range.mp counted) bid
        (List.mem_range.mp below)) _), fun row => ?_⟩
  simp only [List.mem_flatten, List.mem_map, List.mem_range]
  constructor
  · rintro ⟨_, ⟨_, ⟨tid, known, rfl⟩, member⟩, inside⟩
    obtain ⟨iteration, counted, rfl⟩ := List.mem_map.mp member
    obtain ⟨bid, below, rfl⟩ := List.mem_map.mp inside
    have counted := readable.counted ▸ List.mem_range.mp counted
    exact ⟨tid, known, iteration, counted, bid,
      reached known counted ▸ List.mem_range.mp below, rfl⟩
  · rintro ⟨tid, known, iteration, counted, bid, inside, rfl⟩
    refine ⟨_, ⟨_, ⟨tid, known, rfl⟩, List.mem_map_of_mem
      (List.mem_range.mpr (readable.counted ▸ counted))⟩, List.mem_map_of_mem ?_⟩
    exact List.mem_range.mpr ((reached known counted).symm ▸ inside)

end Readable

/-- Every row of the check file is recorded in the file of its iteration iff the instruction counts
of the runs it takes for the rows of an iteration coincide with some of that iteration. -/
theorem checkRows_recorded_iff {experiment : Experiment} {files : Text → Option (List Text)}
    {barriers : Nat} {iterations : List (List PapiRun)}
    (written : Written experiment files barriers iterations) :
    ∃ rows, experiment.checkRows files = .ok rows ∧
      ((∀ row ∈ rows, RowRecorded experiment files row) ↔
        InstructionsCoincide experiment.runningOn experiment.nthreads barriers iterations) := by
  have readable := written.readable
  obtain ⟨rows, ran, member⟩ := readable.checkRows_eq
  refine ⟨rows, ran, fun recorded => ?_, fun coincide row found => ?_⟩
  · intro tid known bid inside iteration runs source run here held placed
    have counted := (List.getElem?_eq_some_iff.mp here).1
    have row := recorded _ ((member _).mpr ⟨tid, known, iteration, counted, bid, inside, rfl⟩)
    obtain ⟨own, ran, same⟩ := (readable.rowRecorded_iff here known inside).mp row
    obtain ⟨source', run', held', placed', -, read⟩ := readable.cellValue_totIns tid bid counted
    obtain rfl := Option.some_inj.mp (held.symm.trans held')
    obtain rfl := Option.some_inj.mp (placed.symm.trans placed')
    exact ⟨own, ran, same.trans read⟩
  · obtain ⟨tid, known, iteration, counted, bid, inside, rfl⟩ := (member row).mp found
    have here := List.getElem?_eq_getElem counted
    obtain ⟨source, run, held, placed, -, read⟩ := readable.cellValue_totIns tid bid counted
    rw [readable.rowRecorded_iff here known inside, read]
    exact coincide tid known bid inside iteration _ source run here held placed

/-- Two iterations of an application with one thread and one barrier. -/
def twoIterations : Experiment where
  miniApp := "app".toList
  nthreads := 1
  barriers := true
  iterations := 2
  toolOutPath := "out".toList
  outSuffix := []
  runningOn := .aarch64

/-- A run that records one value for all its counters. -/
def steadyRun (pid value : Nat) : PapiRun := ⟨pid, [0], fun _ _ _ => value⟩

/-- The runs of the two iterations, with different values in all of them. -/
def twoIterationRuns : List (List PapiRun) :=
  [[steadyRun 100 10, steadyRun 101 11], [steadyRun 102 20, steadyRun 103 21]]

/-- The files of the two iterations. -/
def twoIterationFiles (name : Text) : Option (List Text) :=
  (twoIterationRuns.zipIdx.find? fun (_, iteration) => twoIterations.outputFile iteration = name).map
    fun (runs, _) => (iterationSamples twoIterations.runningOn 1 runs).map Sample.line

theorem twoIterations_written :
    Written twoIterations twoIterationFiles 1 twoIterationRuns where
  supported := by decide
  counted := rfl
  rounds := by decide
  threads := by decide
  held := by
    intro iteration runs here
    match iteration with
    | 0 =>
      cases here
      rfl
    | 1 =>
      cases here
      rfl
    | _ + 2 => cases here

theorem checkRows_recorded_iff_two : ∃ rows, twoIterations.checkRows twoIterationFiles = .ok rows ∧
    ((∀ row ∈ rows, RowRecorded twoIterations twoIterationFiles row) ↔
      InstructionsCoincide .aarch64 1 1 twoIterationRuns) :=
  checkRows_recorded_iff twoIterations_written

/-- The instruction count of the second row is that of the second run of the first iteration. -/
theorem checkRows_mixes_iterations :
    Written twoIterations twoIterationFiles 1 twoIterationRuns ∧
      twoIterations.checkRows twoIterationFiles = .ok [
        ⟨0, 0, 0, [some 10, some 10, some 10, some 10, some 11, some 11, none, some 11]⟩,
        ⟨0, 1, 0, [some 20, some 11, some 20, some 20, some 21, some 21, none, some 21]⟩] ∧
      ¬RowRecorded twoIterations twoIterationFiles
        ⟨0, 1, 0, [some 20, some 11, some 20, some 20, some 21, some 21, none, some 21]⟩ := by
  refine ⟨twoIterations_written, by decide +kernel, fun recorded => ?_⟩
  have here : twoIterationRuns[1]? = some [steadyRun 102 20, steadyRun 103 21] := rfl
  have first : 0 < twoIterations.nthreads ∧ 0 < 1 := by decide
  have row := (twoIterations_written.readable.rowRecorded_iff here first.1 first.2).mp recorded
  revert row
  decide

end BarrierPoint
