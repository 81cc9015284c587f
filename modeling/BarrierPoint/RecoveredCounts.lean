/-
This file follows what the threads of an application count through the whole
tool: from the library that prints it, through the script that gathers the
files of counters and the parser, to the check files that the estimate of the
errors reads. Every statistic that is read is what one run has counted in one
phase of one thread. For all counters but one this is the run of the iteration
that the statistic is for.
-/

import BarrierPoint.CountedRuns
import BarrierPoint.ExperimentRuns
import BarrierPoint.RecoveredStats

namespace BarrierPoint

open Library StatsPerfCounters

/-! ### What the files hold -/

/-- The lines that are printed are read back. -/
theorem Sample.fileLines_line {samples : List Sample}
    (named : ∀ sample ∈ samples, IsCounter sample.stat) :
    fileLines (samples.flatMap line) = samples.map line := by
  rw [List.flatMap_def, fileLines_flatten]
  intro text member
  obtain ⟨sample, inside, rfl⟩ := List.mem_map.mp member
  exact isLine_line (named sample inside)

/-- Texts are appended one after the other. -/
theorem foldl_takeReport (texts : List Text) : ∀ held,
    (texts.map some).foldl takeReport (some held) = some (held ++ texts.flatten) := by
  induction texts with
  | nil => simp
  | cons text texts inductionHypothesis =>
    intro held
    rw [List.map_cons, List.foldl_cons, takeReport, Option.getD_some, inductionHypothesis,
      List.flatten_cons, List.append_assoc]

theorem foldl_takeReport_none {texts : List Text} (filled : texts ≠ []) :
    (texts.map some).foldl takeReport none = some texts.flatten := by
  obtain ⟨text, texts, rfl⟩ := List.exists_cons_of_ne_nil filled
  exact foldl_takeReport texts text

theorem papiRounds_ne_nil {platform : Platform} (supported : platform ≠ .unknown) :
    papiRounds platform ≠ [] := by
  cases platform with
  | x86_64 | aarch64 => exact List.cons_ne_nil _ _
  | unknown => exact absurd rfl supported

namespace Machine

variable {Mark : Type} {machine : Machine Mark} {batch : Batch}
  {environment : Text → Option Text} {bench : Option Text} {runs barriers : Nat}

/-- The runs of a batch, by their iterations. -/
def batchRuns (machine : Machine Mark) (batch : Batch) (environment : Text → Option Text)
    (bench : Option Text) (runs : Nat) : List (List PapiRun) :=
  (List.range batch.iterations).map (machine.iterationRuns batch environment bench runs)

theorem getElem?_batchRuns {iteration : Nat} (early : iteration < batch.iterations) :
    (machine.batchRuns batch environment bench runs)[iteration]? =
      some (machine.iterationRuns batch environment bench runs iteration) := by
  rw [batchRuns, List.getElem?_map, List.getElem?_range early]
  rfl

/-- What the counters gather in an iteration is read back line by line. -/
theorem Measures.fileLines_gathered
    (measures : machine.Measures batch environment bench runs barriers)
    (supported : batch.runningOn ≠ .unknown) {iteration : Nat}
    (early : iteration < batch.iterations) : ∃ parts,
    WrittenBy batch.runningOn barriers (machine.iterationRuns batch environment bench runs iteration)
      parts ∧
    ((batch.iterationReports machine.report environment runs bench iteration).foldl
      takeReport none).map fileLines = some (parts.flatten.map Sample.line) := by
  obtain ⟨parts, writtenBy, reports⟩ := measures.iterationReports_eq early
  have named : ∀ sample ∈ parts.flatten, Sample.IsCounter sample.stat := by
    intro sample member
    obtain ⟨samples, part, inside⟩ := List.mem_flatten.mp member
    obtain ⟨round, sampled, run, -, interleaves⟩ := writtenBy.exists_of_mem part
    exact (papiRounds_spec sampled).2.2 _ (interleaves.mem inside).2.1
  have filled : parts ≠ [] := by
    rintro rfl
    have none := writtenBy.length_eq
    rw [zip_iterationRuns, List.length_mapIdx] at none
    exact papiRounds_ne_nil supported (List.length_eq_zero_iff.mp none)
  have texts := @foldl_takeReport_none (parts.map fun samples => samples.flatMap Sample.line)
    (by simpa using filled)
  rw [List.map_map] at texts
  refine ⟨parts, writtenBy, ?_⟩
  rw [reports, ← Sample.fileLines_line named, ← @List.flatMap_id _ parts, List.flatMap_assoc,
    List.flatMap_def]
  exact congrArg (Option.map fileLines) texts

/-- The files that a batch leaves can be read. -/
theorem Measures.readable (measures : machine.Measures batch environment bench runs barriers)
    (supported : batch.runningOn ≠ .unknown) (threads : 0 < batch.nthreads) {files : Files}
    (gathered : ∀ iteration < batch.iterations, files (batch.outputFile iteration) =
      (batch.iterationReports machine.report environment runs bench iteration).foldl
        takeReport none) :
    Readable batch.toExperiment (fileRows files) barriers
      (machine.batchRuns batch environment bench runs) where
  supported := supported
  counted := by rw [batchRuns, List.length_map, List.length_range]
  rounds runs member := by
    obtain ⟨iteration, -, rfl⟩ := List.mem_map.mp member
    exact List.length_mapIdx
  held iteration runs held := by
    have early : iteration < batch.iterations := by
      have inside := (List.getElem?_eq_some_iff.mp held).1
      rwa [batchRuns, List.length_map, List.length_range] at inside
    obtain rfl := Option.some_inj.mp ((getElem?_batchRuns early).symm.trans held)
    obtain ⟨parts, writtenBy, lines⟩ := measures.fileLines_gathered supported early
    refine ⟨parts.flatten, ?_, writtenBy.readAs fun run inside tid => ?_⟩
    · rw [fileRows, gathered iteration early, lines]
    · obtain ⟨index, placed, rfl⟩ := List.mem_mapIdx.mp inside
      have pool := machine.pool _ _ threads
        (@Batch.runEnvironment_ompNumThreads batch environment iteration
          (papiRounds batch.runningOn)[index])
      show tid ∈ List.range _ ↔ _
      rw [pool, List.mem_range]

end Machine

/-! ### What the check file holds -/

/-- A row that is written lists what the getters of its columns return. -/
theorem Experiment.columns_of_checkRow {experiment : Experiment} {stats : StatsPerfCounters}
    {tid itr bid : Nat} {row : CheckRow} (wrote : experiment.checkRow stats tid itr bid = .ok row) :
    (experiment.columns stats).map (fun column => column.2 tid itr bid) = row.cells.map .ok := by
  obtain ⟨_, cycles, wrote⟩ := exists_of_bind_eq_ok wrote
  obtain ⟨_, instructions, wrote⟩ := exists_of_bind_eq_ok wrote
  obtain ⟨_, l1DAccesses, wrote⟩ := exists_of_bind_eq_ok wrote
  obtain ⟨_, l1DMisses, wrote⟩ := exists_of_bind_eq_ok wrote
  obtain ⟨_, l1IAccesses, wrote⟩ := exists_of_bind_eq_ok wrote
  obtain ⟨_, l1IMisses, wrote⟩ := exists_of_bind_eq_ok wrote
  obtain ⟨_, l2DAccesses, wrote⟩ := exists_of_bind_eq_ok wrote
  obtain ⟨_, l2DMisses, wrote⟩ := exists_of_bind_eq_ok wrote
  cases wrote
  simp only [columns, List.map_cons, List.map_nil, cycles, instructions, l1DAccesses, l1DMisses,
    l1IAccesses, l1IMisses, l2DAccesses, l2DMisses]

namespace Readable

variable {experiment : Experiment} {files : Text → Option (List Text)} {barriers : Nat}
  {iterations : List (List PapiRun)}

/-- Files that can be read are parsed, and every getter returns the value of its cell. -/
theorem checkable (readable : Readable experiment files barriers iterations)
    (plainName : PlainField experiment.miniApp) (threads : 0 < experiment.nthreads)
    (filled : 0 < experiment.iterations) (phases : 0 < barriers) : ∃ stats,
      new files experiment.filePrefix experiment.iterations experiment.nthreads = .ok stats ∧
      experiment.Checkable stats ∧ stats.getNumberBarriers = barriers ∧
      ∀ tid < experiment.nthreads, ∀ itr < experiment.iterations, ∀ bid < barriers,
        (experiment.columns stats).map (fun column => column.2 tid itr bid) =
          columnCounters.map fun stat => .ok (cellOf experiment.runningOn
            (cellValue experiment.runningOn iterations tid bid itr) stat) := by
  obtain ⟨samples, stats, made, parsed, counted, values⟩ := readable.new_spec
  have number : stats.getNumberBarriers = barriers :=
    parsed.length.trans (counted threads (readable.counted.symm ▸ filled))
  have columns : ∀ tid < experiment.nthreads, ∀ itr < experiment.iterations, ∀ bid < barriers,
      (experiment.columns stats).map (fun column => column.2 tid itr bid) =
        columnCounters.map fun stat => .ok (cellOf experiment.runningOn
          (cellValue experiment.runningOn iterations tid bid itr) stat) := by
    intro tid thread itr iteration bid barrier
    have inside : bid < barriersAfter 0 samples := parsed.length.symm.trans number ▸ barrier
    have recorded : ∀ stat ∈ columnCounters, ¬lacks experiment.runningOn stat →
        (valuesOf samples stat tid bid)[itr]? =
          some (cellValue experiment.runningOn iterations tid bid itr stat) := by
      intro stat column has
      rw [values stat tid thread bid barrier]
      exact readable.cellValue_eq (readable.counted.symm ▸ iteration) column has
    rw [Experiment.columns_of_checkRow (experiment.checkRow_eq parsed thread inside recorded),
      List.map_map]
    rfl
  refine ⟨stats, made, ⟨plainName, threads, filled, number.symm ▸ phases, ?_⟩, number, columns⟩
  intro tid thread itr iteration bid barrier column member
  have value := List.mem_map_of_mem (f := fun column => column.2 tid itr bid) member
  rw [columns tid thread itr iteration bid (number ▸ barrier)] at value
  obtain ⟨stat, -, same⟩ := List.mem_map.mp value
  exact ⟨_, same.symm⟩

/-- The check file is read back, and every statistic is the value of its cell. -/
theorem readCheckFile_eq (readable : Readable experiment files barriers iterations)
    (plainName : PlainField experiment.miniApp) (threads : 0 < experiment.nthreads)
    (filled : 0 < experiment.iterations) (phases : 0 < barriers) : ∃ stats file held,
      new files experiment.filePrefix experiment.iterations experiment.nthreads = .ok stats ∧
      experiment.Checkable stats ∧ experiment.checkFile stats = .ok file ∧
      readCheckFile file = .ok (held, some ⟨experiment.miniApp, (experiment.nthreads - 1 : Nat),
        (experiment.iterations - 1 : Nat), (barriers - 1 : Nat)⟩) ∧
      held.length = experiment.nthreads ∧
      ∀ tid < experiment.nthreads, ∀ itr < experiment.iterations, ∀ bid < barriers,
        ∀ column ∈ statHeader.zip columnCounters, statistic held tid column.1 itr bid =
          some (cellNumber (cellOf experiment.runningOn
            (cellValue experiment.runningOn iterations tid bid itr) column.2)) := by
  obtain ⟨stats, made, checkable, number, columns⟩ :=
    readable.checkable plainName threads filled phases
  obtain ⟨file, held, wrote, ran, length, each⟩ := checkable.readCheckFile_checkFile
  rw [number] at ran
  refine ⟨stats, file, held, made, checkable, wrote, ran, length, ?_⟩
  rintro tid thread itr iteration bid barrier ⟨name, stat⟩ member
  obtain ⟨index, placed⟩ := List.getElem?_of_mem member
  obtain ⟨named, counter⟩ := List.getElem?_zip_eq_some.mp placed
  have headed : ((experiment.columns stats).map Prod.fst)[index]? = some name := named
  rw [List.getElem?_map, Option.map_eq_some_iff] at headed
  obtain ⟨column, here, rfl⟩ := headed
  obtain ⟨value, returned, found⟩ := checkable.recovered each tid thread itr iteration bid
    (number.symm ▸ barrier) column (List.mem_of_getElem? here)
  have cell := congrArg (·[index]?) (columns tid thread itr iteration bid barrier)
  simp only [List.getElem?_map, here, counter, Option.map_some, returned] at cell
  cases cell
  exact found

end Readable

/-! ### One experiment -/

/-- An experiment whose script ends well and whose files can be parsed comes to its end. -/
theorem Batch.runExperiment_eq {batch : Batch} {host : Host} {report : Report}
    {averages : Averages} {written : Files} {stats : StatsPerfCounters} {check average : Text}
    {makes : Text → Bool} (plain : batch.Plain) (real : batch.dryRun = false)
    (made : makes batch.toolOutPath = true)
    (created : batch.createExperimentBatch host.files = some written) {final : Shell}
    (ran : runScript (perfcntrs report) ⟨written, host.environment, fun _ => [], host.runs, 0⟩
      (batch.script (Batch.getBenchPath host.files batch.benchpath batch.miniApp)) = final)
    (ended : final.status = 0)
    (parsed : new (fileRows final.files) batch.filePrefix batch.iterations batch.nthreads = .ok stats)
    (checked : batch.checkFile stats = .ok check)
    (averaged : averages batch.toExperiment stats = .ok average) :
    batch.runExperiment makes report averages host = some { host with
      files := (final.files.write batch.checkFileN check).write batch.csvFileN average
      runs := final.runs } := by
  obtain ⟨text, held, read⟩ := Batch.readScript_created plain created
  simp [Batch.runExperiment, Batch.placed, made, Batch.runExperimentBatch, Batch.callScript, real,
    created, held, read, ran, ended, parsed, checked, averaged, Except.toOption]

/-- The script runs the application once for each round in each iteration. -/
theorem Batch.runs_runScript (batch : Batch) (report : Report) (bench : Option Text) (shell : Shell) :
    (runScript (perfcntrs report) shell (batch.script bench)).runs =
      shell.runs + batch.iterations * (papiRounds batch.runningOn).length := by
  obtain ⟨removed, removals, gathered⟩ := Batch.run_script batch report bench shell
  have runs : removed.runs = shell.runs := removals.runs
  rw [gathered.runs, runs]

/-! ### Where a statistic comes from -/

namespace Machine

variable {Mark : Type} {machine : Machine Mark} {batch : Batch}
  {environment : Text → Option Text} {bench : Option Text} {runs barriers : Nat}

/-- The iteration and the round of the run that a statistic of an iteration comes from. Every round
counts the instructions, and those of all runs stand in one list. -/
def source (platform : Platform) (stat : Text) (itr : Nat) : Nat × Nat :=
  if stat = totIns then (itr / (papiRounds platform).length, itr % (papiRounds platform).length)
  else (itr, (papiRounds platform).findIdx fun round => (roundStats round).contains stat)

/-- What a thread has counted in a phase, in the run that the statistic comes from. -/
def measured (machine : Machine Mark) (batch : Batch) (environment : Text → Option Text)
    (bench : Option Text) (runs : Nat) (stat : Text) (tid itr bid : Nat) : Nat :=
  let (iteration, index) := source batch.runningOn stat itr
  (machine.papiRun batch environment bench runs iteration index
    ((papiRounds batch.runningOn)[index]?.getD [])).value stat tid bid

theorem mem_recordedValues {iteration index : Nat} {round stat : Text}
    (held : (papiRounds batch.runningOn)[index]? = some round) (counted : stat ∈ roundStats round)
    (tid bid : Nat) :
    (machine.papiRun batch environment bench runs iteration index round).value stat tid bid ∈
      recordedValues batch.runningOn (machine.iterationRuns batch environment bench runs iteration)
        stat tid bid := by
  rw [recordedValues, zip_iterationRuns]
  refine List.mem_flatMap.mpr
    ⟨(round, machine.papiRun batch environment bench runs iteration index round), ?_, ?_⟩
  · exact List.mem_of_getElem? (by rw [List.getElem?_mapIdx, held]; rfl)
  · simp [counted]

/-- The value of a cell is what was measured in the run that it comes from. -/
theorem cellValue_eq {files : Text → Option (List Text)}
    (readable : Readable batch.toExperiment files barriers
      (machine.batchRuns batch environment bench runs))
    {tid itr bid : Nat} (iteration : itr < batch.iterations) {stat : Text}
    (column : stat ∈ columnCounters) (has : ¬lacks batch.runningOn stat) :
    cellValue batch.runningOn (machine.batchRuns batch environment bench runs) tid bid itr stat =
      machine.measured batch environment bench runs stat tid itr bid := by
  have counted : itr < (machine.batchRuns batch environment bench runs).length :=
    readable.counted.symm ▸ iteration
  unfold measured source
  by_cases same : stat = totIns
  · subst same
    obtain ⟨source, run, here, placed, -, value⟩ := readable.cellValue_totIns tid bid counted
    have early : itr / (papiRounds batch.runningOn).length < batch.iterations :=
      (Nat.div_le_self _ _).trans_lt iteration
    obtain rfl := Option.some_inj.mp ((getElem?_batchRuns early).symm.trans here)
    rw [iterationRuns, List.getElem?_mapIdx, Option.map_eq_some_iff] at placed
    obtain ⟨round, held, rfl⟩ := placed
    rw [if_pos rfl]
    dsimp only
    rw [held]
    exact value
  · have once := samplings_eq_one readable.supported column has same
    have sampled : ∃ round ∈ papiRounds batch.runningOn, stat ∈ roundStats round := by
      have positive : 0 < samplings batch.runningOn stat := once.symm ▸ Nat.one_pos
      simpa using List.countP_pos_iff.mp positive
    have found : (papiRounds batch.runningOn).findIdx (fun round => (roundStats round).contains stat) <
        (papiRounds batch.runningOn).length := by
      rw [List.findIdx_lt_length]
      simpa using sampled
    have inRound : stat ∈ roundStats ((papiRounds batch.runningOn)[(papiRounds
        batch.runningOn).findIdx fun round => (roundStats round).contains stat]) := by
      simpa using List.findIdx_getElem (w := found)
    have held := List.getElem?_eq_getElem found
    have here : (machine.batchRuns batch environment bench runs)[itr]? =
      some (machine.iterationRuns batch environment bench runs itr) := getElem?_batchRuns iteration
    have value : cellValue _ _ tid bid itr stat ∈ _ := (readable.cellValue_mem here once).2
    have size := (length_recordedValues (readable.rounds _ (List.mem_of_getElem? here)) stat tid
      bid).trans once
    obtain ⟨only, single⟩ := List.length_eq_one_iff.mp size
    have other : _ ∈ recordedValues batch.runningOn
      (machine.iterationRuns batch environment bench runs itr) stat tid bid :=
        mem_recordedValues held inRound tid bid
    rw [single, List.mem_singleton] at value other
    rw [if_neg same]
    dsimp only
    rw [held]
    exact value.trans other.symm

/-- A check file from which every statistic is read as it was measured. -/
def Recovers (machine : Machine Mark) (batch : Batch) (environment : Text → Option Text)
    (bench : Option Text) (runs barriers : Nat) (file : Text) : Prop :=
  ∃ held, readCheckFile file = .ok (held, some ⟨batch.miniApp, (batch.nthreads - 1 : Nat),
      (batch.iterations - 1 : Nat), (barriers - 1 : Nat)⟩) ∧
    held.length = batch.nthreads ∧
    ∀ tid < batch.nthreads, ∀ itr < batch.iterations, ∀ bid < barriers,
      ∀ column ∈ statHeader.zip columnCounters, statistic held tid column.1 itr bid =
        some (if lacks batch.runningOn column.2 then 0
          else (machine.measured batch environment bench runs column.2 tid itr bid : ℚ))

/-- Every run has a phase. -/
theorem Measures.phases_pos (measures : machine.Measures batch environment bench runs barriers)
    (supported : batch.runningOn ≠ .unknown) (filled : 0 < batch.iterations) : 0 < barriers := by
  obtain ⟨round, rounds, held⟩ := List.exists_cons_of_ne_nil (papiRounds_ne_nil supported)
  have even := measures.even 0 filled 0 round (by rw [held]; rfl)
  rw [← even.alike 0 (Gomp.initial_mem _), AppRun.length_readings]
  exact Nat.succ_pos _

/-- An experiment whose runs can be measured comes to its end, and from the check file that it leaves
every statistic is read as it was measured. -/
theorem Measures.runExperiment {host : Host} {averages : Averages} {makes : Text → Bool}
    (measures : machine.Measures batch host.environment
      (Batch.getBenchPath host.files batch.benchpath batch.miniApp) host.runs barriers)
    (plain : batch.Plain) (real : batch.dryRun = false) (made : makes batch.toolOutPath = true)
    (plainName : PlainField batch.miniApp)
    (supported : batch.runningOn ≠ .unknown) (threads : 0 < batch.nthreads)
    (filled : 0 < batch.iterations)
    (average : ∀ stats, batch.Checkable stats → ∃ text, averages batch.toExperiment stats = .ok text) :
    ∃ after file, batch.runExperiment makes machine.report averages host = some after ∧
      after.runs = host.runs + batch.iterations * (papiRounds batch.runningOn).length ∧
      after.files batch.checkFileN = some file ∧
      machine.Recovers batch host.environment
        (Batch.getBenchPath host.files batch.benchpath batch.miniApp) host.runs barriers file := by
  obtain ⟨files, created⟩ : ∃ files, batch.createExperimentBatch host.files = some files :=
    ⟨_, if_neg supported⟩
  let shell : Shell := ⟨files, host.environment, fun _ => [], host.runs, 0⟩
  obtain ⟨gathered, -⟩ := Batch.runScript_files batch machine.report
    (Batch.getBenchPath host.files batch.benchpath batch.miniApp) shell
  obtain ⟨stats, file, held, parsed, checkable, wrote, read, length, each⟩ :=
    (measures.readable supported threads gathered).readCheckFile_eq plainName threads filled
      (measures.phases_pos supported filled)
  obtain ⟨average, averaged⟩ := average stats checkable
  refine ⟨_, file, Batch.runExperiment_eq plain real made created rfl
    (Batch.status_runScript batch machine.report _ shell measures.endsWell) parsed wrote averaged,
    Batch.runs_runScript batch machine.report _ shell, ?_, held, read, length, ?_⟩
  · exact (Batch.write_of_ne Experiment.checkFileN_ne_csvFileN).trans (if_pos rfl)
  · intro tid thread itr iteration bid barrier column member
    rw [each tid thread itr iteration bid barrier column member, cellOf]
    split
    · rfl
    · rename_i has
      rw [cellValue_eq (measures.readable supported threads gathered) iteration
        (List.of_mem_zip member).2 has]
      rfl

end Machine

/-! ### The whole tool -/

namespace PerfcntrsConfig

variable {Mark : Type} {config : PerfcntrsConfig} {machine : Machine Mark}
  {environment : Text → Option Text} {phases : ExperimentKey → Nat} {makes : Text → Bool}
  {averages : Averages}

/-- The program of an application. -/
def program (config : PerfcntrsConfig) (app : Text) : Text := config.benchpath ++ '/' :: app

/-- The experiments can be measured: on a supported platform, with at least one thread and one
iteration, and with programs that have the same phases for all threads, whenever they run. -/
structure Measurable (config : PerfcntrsConfig) (machine : Machine Mark)
    (environment : Text → Option Text) (phases : ExperimentKey → Nat) : Prop where
  supported : config.runningOn ≠ .unknown
  filled : 0 < config.iterations
  threads : ∀ nthreads ∈ config.threads, 0 < nthreads
  named : ∀ entry ∈ config.application, PlainField entry.1
  apart : ∀ key ∈ config.keys, config.benchpath ≠ config.toolOutPath key.1
  measures : ∀ key ∈ config.keys, ∃ params, getBenchParams key.2 key.1.nthreads = some params ∧
    ∀ runs, machine.Measures (config.batch key.1 params) environment
      (some (config.program key.1.app)) runs (phases key.1)

/-- The programs of the experiments are there. -/
def Present (config : PerfcntrsConfig) (files : Files) : Prop :=
  ∀ entry ∈ config.application, (files (config.program entry.1)).isSome = true

/-- How many runs an experiment takes. -/
def runsEach (config : PerfcntrsConfig) : Nat :=
  config.iterations * (papiRounds config.runningOn).length

/-- What an experiment leaves for the estimate of the errors, when it begins behind some runs. -/
def Recovered (config : PerfcntrsConfig) (machine : Machine Mark)
    (environment : Text → Option Text) (phases : ExperimentKey → Nat) (runs : Nat)
    (key : ExperimentKey × Text) (files : Files) : Prop :=
  ∃ params file, getBenchParams key.2 key.1.nthreads = some params ∧
    files (config.batch key.1 params).checkFileN = some file ∧
    machine.Recovers (config.batch key.1 params) environment (some (config.program key.1.app)) runs
      (phases key.1) file

/-- No experiment changes a program. -/
theorem not_owns_program (plain : config.Plain) {key : ExperimentKey × Text}
    (listed : key ∈ config.keys) (apart : config.benchpath ≠ config.toolOutPath key.1) {app : Text}
    (solid : '/' ∉ app) : ¬(config.experiment key.1).Owns (config.program app) := by
  intro owns
  obtain ⟨member, -, suffix⟩ := mem_keys.mp listed
  obtain ⟨file, fileSolid, same⟩ :=
    owns_toolOutPath (plain.application _ member).1.2 (plain.suffix _ suffix).2 owns
  exact apart (eq_of_append_cons solid fileSolid same).1

/-- A turn of the loop goes through and leaves what was measured. -/
theorem turn_recovers (plain : config.Plain) (executes : config.Executes makes)
    (measurable : config.Measurable machine environment phases)
    (average : ∀ experiment stats, experiment.Checkable stats →
      ∃ text, averages experiment stats = .ok text)
    {host : Host} (same : host.environment = environment) (present : config.Present host.files)
    {key : ExperimentKey × Text} (listed : key ∈ config.keys) :
    ∃ after, turn makes machine.report averages config host key = some after ∧
      after.environment = environment ∧ after.runs = host.runs + config.runsEach ∧
      config.Present after.files ∧
      config.Recovered machine environment phases host.runs key after.files := by
  obtain ⟨params, formatted, measures⟩ := measurable.measures key listed
  obtain ⟨member, threaded, -⟩ := mem_keys.mp listed
  have bench : Batch.getBenchPath host.files config.benchpath key.1.app =
      some (config.program key.1.app) := if_pos (present _ member)
  have measured := measures host.runs
  rw [← same, ← bench] at measured
  obtain ⟨after, file, ran, runs, held, recovers⟩ := measured.runExperiment
    (plain.batch listed formatted) executes.real (executes.made key listed) (measurable.named _ member)
    measurable.supported (measurable.threads _ threaded) measurable.filled
    (average (config.batch key.1 params).toExperiment)
  have turned : turn makes machine.report averages config host key = some after := by
    rw [turn, formatted]
    exact ran
  obtain ⟨-, -, kept, -, others⟩ := turn_spec plain executes listed turned
  refine ⟨after, turned, kept.trans same, runs, fun entry inside => ?_, params, file, formatted, held,
    ?_⟩
  · rw [others _ (not_owns_program plain listed (measurable.apart key listed)
      (plain.application _ inside).1.2)]
    exact present entry inside
  · rw [← same]
    exact bench ▸ recovers

/-- What an experiment leaves stays while its results do. -/
theorem Recovered.of_kept {runs : Nat} {key : ExperimentKey × Text} {files later : Files}
    (recovered : config.Recovered machine environment phases runs key files)
    (kept : ∀ name, (config.experiment key.1).Result name → later name = files name) :
    config.Recovered machine environment phases runs key later := by
  obtain ⟨params, file, formatted, held, recovers⟩ := recovered
  exact ⟨params, file, formatted, (kept _ (.inl rfl)).trans held, recovers⟩

/-- The turns go through, one after the other, and what each leaves is there at the end. -/
theorem turns_recover (plain : config.Plain) (executes : config.Executes makes)
    (measurable : config.Measurable machine environment phases)
    (average : ∀ experiment stats, experiment.Checkable stats →
      ∃ text, averages experiment stats = .ok text)
    (keys : List (ExperimentKey × Text)) (listed : ∀ key ∈ keys, key ∈ config.keys)
    (spares : keys.Pairwise fun first second => config.Spares first.1 second.1) :
    ∀ {host : Host}, host.environment = environment → config.Present host.files →
      ∃ after, keys.foldlM (turn makes machine.report averages config) host = some after ∧
        ∀ (index : Nat) key, keys[index]? = some key → config.Recovered machine environment phases
          (host.runs + index * config.runsEach) key after.files := by
  induction keys with
  | nil => exact fun _ _ => ⟨_, rfl, fun _ _ held => nomatch held⟩
  | cons first keys inductionHypothesis =>
    intro host same present
    rw [List.forall_mem_cons] at listed
    rw [List.pairwise_cons] at spares
    obtain ⟨next, turned, environment, runs, there, recovered⟩ :=
      turn_recovers plain executes measurable average same present listed.1
    obtain ⟨after, ran, rest⟩ := inductionHypothesis listed.2 spares.2 environment there
    refine ⟨after, ?_, fun index key held => ?_⟩
    · rw [List.foldlM_cons, turned]
      exact ran
    · cases index with
      | zero =>
        obtain rfl := Option.some_inj.mp held
        rw [Nat.zero_mul, Nat.add_zero]
        exact recovered.of_kept fun name result =>
          turns_kept plain executes name keys listed.2
            (fun key member => spares.1 key member name result) ran
      | succ index =>
        have later := rest index key held
        rwa [runs, Nat.add_assoc, Nat.add_comm config.runsEach, ← Nat.succ_mul] at later

/-- When the runs of the applications can be measured, the whole tool comes to its end, and from
every check file that it has left each statistic is read as one run has counted it: of a thread, in
a phase of that thread, in the run of the round that samples the counter, in the iteration of the
statistic; but the instructions of the iterations are those of the first runs of the batch. -/
theorem main_recovers (plain : config.Plain) (executes : config.Executes makes)
    (apps : (config.application.map Prod.fst).Nodup)
    (threads : config.threads.Nodup) (suffixes : config.suffix.Nodup) {host : Host}
    (measurable : config.Measurable machine host.environment phases)
    (present : config.Present host.files)
    (average : ∀ experiment stats, experiment.Checkable stats →
      ∃ text, averages experiment stats = .ok text) :
    ∃ after, config.main makes machine.report averages host = some after ∧
      ∀ (index : Nat) key, config.keys[index]? = some key → config.Recovered machine host.environment
        phases (host.runs + index * config.runsEach) key after.files :=
  turns_recover plain executes measurable average config.keys (fun _ => id)
    (pairwise_spares plain apps threads suffixes) rfl present

end PerfcntrsConfig

/-- A pool as large as the variable says. A region in a region is run by the thread that starts it. -/
def poolOf (environment : Text → Option Text) : Gomp where
  team caller := if caller = .initial then
      List.range (max 1 (((environment "OMP_NUM_THREADS".toList).bind fun text =>
        (parseNat text).toOption).getD 1))
    else [caller.thread]
  first := by
    intro caller
    split
    · rename_i initial
      rw [initial, List.head?_range, if_neg (by omega)]
      rfl
    · rfl
  distinct := by
    intro caller
    split
    · exact List.nodup_range
    · exact List.nodup_singleton _

/-- The steps of a thread that prints alone. -/
def printAlone (texts : List Text) : List OutputStep :=
  .enter 0 :: (List.replicate (textAt texts 0).length (.print 0) ++ [.leave 0, .close 0])

namespace OutputState

variable {size : Nat} {texts : List Text}

theorem run_print (rest : Text) : ∀ {state : OutputState} {buffer : Text},
    state.streams 0 = .printing rest buffer → ∃ next left,
      run (step size texts) state (List.replicate rest.length (.print 0)) = some next ∧
        next.streams 0 = .printing [] left := by
  induction rest with
  | nil => exact fun held => ⟨_, _, rfl, held⟩
  | cons c rest inductionHypothesis =>
    intro state buffer held
    by_cases full : (buffer ++ [c]).length = size
    · obtain ⟨next, left, ran, there⟩ := @inductionHypothesis
        ((state.append 0 (buffer ++ [c])).withStream 0 (.printing rest [])) [] rfl
      refine ⟨next, left, ?_, there⟩
      rw [List.length_cons, List.replicate_succ, run, step, held]
      dsimp only
      rw [if_pos full]
      exact ran
    · obtain ⟨next, left, ran, there⟩ := @inductionHypothesis
        (state.withStream 0 (.printing rest (buffer ++ [c]))) (buffer ++ [c]) rfl
      refine ⟨next, left, ?_, there⟩
      rw [List.length_cons, List.replicate_succ, run, step, held]
      dsimp only
      rw [if_neg full]
      exact ran

/-- A thread that prints alone comes to its end. -/
theorem exists_run_printAlone (size : Nat) (text : Text) : ∃ final,
    run (step size [text]) start (printAlone [text]) = some final ∧ final.Finished [text] := by
  obtain ⟨next, left, ran, printed⟩ := @run_print size [text] text
    ((start.withStream 0 (.printing text [])).withCritical (some 0)) [] rfl
  let last := (next.withStream 0 (.printed left)).withCritical none
  refine ⟨(last.append 0 left).withStream 0 .closed, ?_, fun tid early => ?_⟩
  · have entered : step size [text] start (.enter 0) =
        some ((start.withStream 0 (.printing text [])).withCritical (some 0)) := rfl
    have left' : step size [text] next (.leave 0) =
        some ((next.withStream 0 (.printed left)).withCritical none) := by
      rw [step, printed]
    rw [printAlone, run, entered, Option.bind_some, run_append]
    show (run _ _ (List.replicate text.length _)).bind _ = _
    rw [ran, Option.bind_some, run, left']
    rfl
  · obtain rfl : tid = 0 := Nat.lt_one_iff.mp early
    rfl

end OutputState

/-- A run of one thread delivers what it prints. -/
theorem AppRun.delivers_of_single {Mark : Type} {gomp : Gomp} {mode : Environment}
    {app : AppRun Mark} (single : (gomp.team .initial).length = 1) (filled : 0 < app.bufferSize)
    (alone : app.printing = printAlone) (barriers : Nat) (stats : List Text) :
    app.Delivers gomp mode barriers stats := by
  have texts : (app.papiRun gomp mode).texts barriers stats =
      [((app.papiRun gomp mode).threadSamples barriers stats 0).flatMap Sample.line] := by
    rw [PapiRun.texts, AppRun.papiRun, single]
    rfl
  generalize ((app.papiRun gomp mode).threadSamples barriers stats 0).flatMap Sample.line = text at texts
  refine ⟨filled, ?_, ?_⟩
  · rw [texts]
    intro tid other first second different known otherKnown
    have inside := (List.getElem?_eq_some_iff.mp known).1
    have otherInside := (List.getElem?_eq_some_iff.mp otherKnown).1
    rw [List.length_singleton, Nat.lt_one_iff] at inside otherInside
    exact absurd (inside.trans otherInside.symm) different
  · rw [texts, alone]
    exact OutputState.exists_run_printAlone app.bufferSize text

/-- The events of all rounds. -/
def allEvents : List Text :=
  ([Platform.x86_64, .aarch64].flatMap papiRounds).flatMap (·.splitOn ',')

/-- A machine with eight counters, on which a run starts one region in its region of interest and
every thread counts as many events as the run has predecessors, and one more in each phase. -/
def steadyMachine : Machine Nat where
  gomp := poolOf
  papi := {
    numCounters := 8
    eventNameToCode := fun name => some (allEvents.idxOf name)
    eventCodeToName := fun code => allEvents[code.toNat]? }
  app runs _ _ := {
    pid := runs
    before := []
    opening := 0
    inside := [.parallel .initial 1]
    closing := 2
    outside := fun _ member => absurd member List.not_mem_nil
    within := fun call member => by
      rw [List.mem_singleton.mp member]
      trivial
    count := fun _ _ values => runs + ((values.map Reading.ended).getD 0)
    bufferSize := 4096
    printing := printAlone }
  pool environment nthreads some held := by
    rw [poolOf]
    dsimp only
    rw [if_pos rfl, held, Option.bind_some, parseNat_decimal, List.length_range]
    exact Nat.max_eq_right some

/-- The benchmark is there, and nothing else. -/
def benchmarkHost : Host where
  files := fun name => if name = "./benchmarks/matrixmul".toList then some [] else none
  environment := fun _ => none
  runs := 0

theorem counts_steadyMachine {platform : Platform} : ∀ round ∈ papiRounds platform,
    steadyMachine.papi.Counts ((roundStats round).map ("PAPI_".toList ++ ·)) := by
  intro round member
  refine ⟨?_, ?_⟩
  · revert round
    cases platform <;> decide +kernel
  · have each : ∀ name ∈ (roundStats round).map ("PAPI_".toList ++ ·),
        allEvents[allEvents.idxOf name]? = some name := by
      revert round
      cases platform <;> decide +kernel
    exact fun name inside => ⟨_, rfl, each name inside⟩

/-- A run of one thread has one phase, or two where the counters are stored for each region. -/
theorem measures_steadyMachine {batch : Batch} (single : batch.nthreads = 1)
    (environment : Text → Option Text) (bench : Option Text) (runs : Nat) :
    steadyMachine.Measures batch environment bench runs (if batch.barriers then 2 else 1) where
  counts := counts_steadyMachine
  even iteration _ index round _ := by
    refine ⟨by split <;> decide, fun thread member => ?_⟩
    rw [AppRun.length_readings, AppRun.phaseCalls, Batch.mode]
    cases batch.barriers with
    | false => rfl
    | true =>
      have ended : PerfCntrs.recordedMark (poolOf _) thread (.parallel .initial 1) = some 1 :=
        if_pos member
      rw [if_pos (by exact one_ne_zero)]
      show (PerfCntrs.marksOf _ thread [.parallel .initial 1]).length + 1 = _
      rw [PerfCntrs.marksOf, List.filterMap_cons]
      dsimp only [steadyMachine]
      rw [ended]
      rfl
  delivers iteration _ index round _ := by
    have pool := steadyMachine.pool _ batch.nthreads (single ▸ Nat.one_pos)
      (@Batch.runEnvironment_ompNumThreads batch environment iteration round)
    exact AppRun.delivers_of_single (pool.trans single) (show 0 < 4096 by decide) rfl _ _

namespace PerfcntrsConfig

theorem measurable_oneThread : oneThread.Measurable steadyMachine (fun _ => none)
    fun key => if key.barriers then 2 else 1 where
  supported := by decide
  filled := by decide
  threads := by decide
  named := by decide
  apart := by decide
  measures key listed := by
    have formatted : ∀ key ∈ oneThread.keys, (getBenchParams key.2 key.1.nthreads).isSome = true := by
      decide +kernel
    obtain ⟨params, some⟩ := Option.isSome_iff_exists.mp (formatted key listed)
    have single : ∀ key ∈ oneThread.keys, key.1.nthreads = 1 := by decide +kernel
    exact ⟨params, some, fun runs => measures_steadyMachine (single key listed) _ _ runs⟩

/-- The second experiment begins behind two runs. In its second round, in the second phase, three and
two events are counted. -/
theorem main_recovers_oneThread : ∃ after file held last,
    oneThread.main allMade steadyMachine.report (fun _ _ => .ok []) benchmarkHost = some after ∧
      after.files (oneThread.experiment ⟨"matrixmul".toList, 1, "x".toList, true⟩).checkFileN =
        some file ∧
      readCheckFile file = .ok (held, last) ∧
      statistic held 0 "L2DMisses".toList 0 1 = some 5 := by
  obtain ⟨after, ran, recovered⟩ := @main_recovers _ _ _ _ _ (fun _ _ => .ok []) plain_oneThread
    executes_oneThread (by decide) (by decide) (by decide) benchmarkHost measurable_oneThread
    (fun entry member => by rw [List.mem_singleton.mp member]; rfl) fun _ _ _ => ⟨[], rfl⟩
  obtain ⟨params, file, formatted, found, held, read, -, each⟩ := recovered 1 _ rfl
  obtain rfl : params = "64 1".toList :=
    Option.some_inj.mp (formatted.symm.trans (by decide +kernel))
  refine ⟨after, file, held, _, ran, found, read, ?_⟩
  rw [each 0 (by decide) 0 (by decide) 1 (by decide) ("L2DMisses".toList, "L2_DCM".toList)
    (by decide +kernel)]
  decide +kernel

end PerfcntrsConfig

end BarrierPoint
