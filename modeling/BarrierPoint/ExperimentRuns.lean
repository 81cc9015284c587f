/-
This file follows the tool that gathers the performance counters through all
of its experiments: for every application, number of threads and suffix it
writes and runs a batch script, first for the whole application and then for
its parallel regions, and computes the tables from the files of counters. An
experiment changes only files under its own name, so what it has left stays:
at the end every check file agrees with the files of counters beside it, and
these hold what one batch of runs has gathered. A dry run makes tables of the
files that are there, and experiments without a directory of their own share
the working directory; both are set aside for the results.
-/

import BarrierPoint.BatchScript
import BarrierPoint.CheckFile
import BarrierPoint.CheckRows

namespace BarrierPoint

open Library

/-! ### One experiment -/

namespace Experiment

/-- The name of the table with a row for each iteration. -/
def checkFileN (experiment : Experiment) : Text :=
  experiment.shfileN.take (experiment.shfileN.length - 3) ++ ".check.csv".toList

/-- The name of the table of averages. -/
def csvFileN (experiment : Experiment) : Text :=
  experiment.shfileN.take (experiment.shfileN.length - 3) ++ ".csv".toList

end Experiment

/-- Where the tool runs: the files, the environment it was started in, and how many programs were
started so far. -/
structure Host where
  files : Files
  environment : Text → Option Text
  runs : Nat

/-- The text of the table of averages: floating-point numbers, left open here. -/
abbrev Averages := Experiment → StatsPerfCounters → Except PyError Text

/-- The files as the parser reads them. -/
def fileRows (files : Files) : Text → Option (List Text) :=
  fun name => (files name).map fileLines

namespace Batch

/-- Run the script, unless it is a dry run. A script that fails ends the tool. -/
def callScript (report : Report) (batch : Batch) (text : Text) (host : Host) : Option Host :=
  if batch.dryRun then some host else do
    let script ← readScript text
    let final := runScript (perfcntrs report)
      ⟨host.files, host.environment, fun _ => [], host.runs, 0⟩ script
    guard (final.status = 0)
    return { host with files := final.files, runs := final.runs }

/-- `RunExperimentBatch`: run the script, parse what it has gathered and write the two tables. -/
def runExperimentBatch (report : Report) (averages : Averages) (batch : Batch) (host : Host) :
    Option Host := do
  let text ← host.files batch.shfileN
  let host ← batch.callScript report text host
  let stats ← (StatsPerfCounters.new (fileRows host.files) batch.filePrefix batch.iterations
    batch.nthreads).toOption
  let check ← (batch.checkFile stats).toOption
  let average ← (averages batch.toExperiment stats).toOption
  return { host with
    files := (host.files.write batch.checkFileN check).write batch.csvFileN average }

/-- Results go to the working directory when the directory of the experiment is not there and cannot
be made. -/
def placed (makes : Text → Bool) (batch : Batch) : Batch :=
  if makes batch.toolOutPath then batch else { batch with toolOutPath := ['.'] }

/-- An experiment of the tool: `CreateExperimentBatch`, then `RunExperimentBatch`. -/
def runExperiment (makes : Text → Bool) (report : Report) (averages : Averages) (batch : Batch)
    (host : Host) : Option Host := do
  let batch := batch.placed makes
  let files ← batch.createExperimentBatch host.files
  batch.runExperimentBatch report averages { host with files }

end Batch

/-! ### The whole tool -/

/-- `str.format` with one argument. Replacement fields other than the empty one are left out. -/
def formatFields (argument : Text) : Bool → Text → Option Text
  | _, [] => some []
  | used, '\x7b' :: '\x7b' :: text => (formatFields argument used text).map ('\x7b' :: ·)
  | used, '\x7d' :: '\x7d' :: text => (formatFields argument used text).map ('\x7d' :: ·)
  | false, '\x7b' :: '\x7d' :: text => (formatFields argument true text).map (argument ++ ·)
  | used, c :: text =>
      if c = '\x7b' ∨ c = '\x7d' then none else (formatFields argument used text).map (c :: ·)

/-- The configuration of the tool. -/
structure PerfcntrsConfig where
  rootdir : Text
  benchpath : Text
  libspath : Text
  outpath : Text
  debug : Bool
  dryRun : Bool
  application : List (Text × Text)
  threads : List Nat
  suffix : List Text
  iterations : Nat
  runningOn : Platform

/-- What tells one experiment from another: the application, the number of threads, the suffix, and
whether its parallel regions are measured. -/
structure ExperimentKey where
  app : Text
  nthreads : Nat
  suffix : Text
  barriers : Bool
  deriving DecidableEq

namespace PerfcntrsConfig

/-- `GetBenchParams`. -/
def getBenchParams (appParams : Text) (nthreads : Nat) : Option Text :=
  if appParams.tails.any (['\x7b', '\x7d'].isPrefixOf ·) then
    formatFields (decimal nthreads) false appParams
  else some appParams

/-- The directory of an experiment. -/
def toolOutPath (config : PerfcntrsConfig) (key : ExperimentKey) : Text :=
  let app := config.outpath ++ "/bperf.".toList ++ key.suffix ++ '/' :: key.app
  (if key.suffix ≠ [] then app ++ '-' :: key.suffix else app) ++ '.' :: decimal key.nthreads ++ ['t']

/-- The constructor of `Experiment`. -/
def batch (config : PerfcntrsConfig) (key : ExperimentKey) (appParams : Text) : Batch where
  miniApp := key.app
  nthreads := key.nthreads
  barriers := key.barriers
  iterations := config.iterations
  toolOutPath := config.toolOutPath key
  outSuffix := key.suffix
  runningOn := config.runningOn
  debug := config.debug
  dryRun := config.dryRun
  bpdir := config.rootdir
  libpath := config.libspath
  benchpath := config.benchpath
  appParams := appParams

/-- `product(app_dict, nthreads, suffix, barrier_mode)`, with the parameters of the application. -/
def keys (config : PerfcntrsConfig) : List (ExperimentKey × Text) :=
  config.application.flatMap fun (app, params) => config.threads.flatMap fun nthreads =>
    config.suffix.flatMap fun suffix => [false, true].map fun barriers =>
      (⟨app, nthreads, suffix, barriers⟩, params)

/-- One turn of the loop of `main`. -/
def turn (makes : Text → Bool) (report : Report) (averages : Averages) (config : PerfcntrsConfig)
    (host : Host) (key : ExperimentKey × Text) : Option Host := do
  let params ← getBenchParams key.2 key.1.nthreads
  (config.batch key.1 params).runExperiment makes report averages host

/-- The loop of `main`. The first experiment that fails ends the tool. -/
def main (makes : Text → Bool) (report : Report) (averages : Averages) (config : PerfcntrsConfig)
    (host : Host) : Option Host :=
  config.keys.foldlM (turn makes report averages config) host

/-- The experiments are run, each in a directory of its own: it is no dry run, and every directory is
there or can be made. -/
structure Executes (config : PerfcntrsConfig) (makes : Text → Bool) : Prop where
  real : config.dryRun = false
  made : ∀ key ∈ config.keys, makes (config.toolOutPath key.1) = true

end PerfcntrsConfig

/-! ### What an experiment changes -/

namespace Experiment

variable {experiment : Experiment}

/-- The names that begin with the name of an experiment. -/
def Owns (experiment : Experiment) (name : Text) : Prop :=
  ∃ rest, '/' ∉ rest ∧ name = experiment.runName ++ '.' :: rest

theorem shfileN_stem (experiment : Experiment) :
    experiment.shfileN.take (experiment.shfileN.length - 3) =
      experiment.baseName ++ decimal experiment.iterations := by
  have length : ".sh".toList.length = 3 := rfl
  rw [shfileN, List.length_append, length, Nat.add_sub_cancel]
  exact List.take_left

/-- A name of the kind of the files of repetitions. -/
theorem owns_rep (number : Nat) {ending : Text} (solid : '/' ∉ ending) :
    experiment.Owns (experiment.baseName ++ decimal number ++ ending) := by
  refine ⟨"rep".toList ++ (decimal number ++ ending), ?_, ?_⟩
  · have digits : '/' ∉ decimal number := notMem_decimal (by decide) number
    rw [List.mem_append, List.mem_append, not_or, not_or]
    exact ⟨by decide, digits, solid⟩
  · rw [baseName_eq, List.append_assoc, List.append_assoc]
    rfl

theorem owns_outputFile (iteration : Nat) : experiment.Owns (experiment.outputFile iteration) :=
  owns_rep iteration (by decide)

theorem owns_shfileN : experiment.Owns experiment.shfileN := owns_rep _ (by decide)

theorem checkFileN_eq (experiment : Experiment) : experiment.checkFileN =
    experiment.baseName ++ decimal experiment.iterations ++ ".check.csv".toList := by
  rw [checkFileN, shfileN_stem]

theorem owns_checkFileN : experiment.Owns experiment.checkFileN := by
  rw [checkFileN_eq]
  exact owns_rep _ (by decide)

theorem csvFileN_eq (experiment : Experiment) : experiment.csvFileN =
    experiment.baseName ++ decimal experiment.iterations ++ ".csv".toList := by
  rw [csvFileN, shfileN_stem]

/-- The files of counters are no tables, and the tables differ. -/
theorem outputFile_ne (iteration : Nat) : experiment.outputFile iteration ≠ experiment.checkFileN ∧
    experiment.outputFile iteration ≠ experiment.csvFileN := by
  rw [checkFileN_eq, csvFileN_eq, outputFile]
  have ends : ∀ {first second ending rest : Text}, ending.getLast? ≠ rest.getLast? → rest ≠ [] →
      ending ≠ [] → first ++ ending ≠ second ++ rest := by
    intro first second ending rest apart filled some same
    have last := congrArg List.getLast? same
    rw [List.getLast?_append_of_ne_nil _ some, List.getLast?_append_of_ne_nil _ filled] at last
    exact apart last
  exact ⟨ends (by decide) (by decide) (by decide), ends (by decide) (by decide) (by decide)⟩

theorem checkFileN_ne_csvFileN : experiment.checkFileN ≠ experiment.csvFileN := by
  rw [checkFileN_eq, csvFileN_eq]
  exact fun same => absurd (List.append_cancel_left same) (by decide)

theorem owns_csvFileN : experiment.Owns experiment.csvFileN := by
  rw [csvFileN_eq]
  exact owns_rep _ (by decide)

/-- The files that an experiment writes. -/
def writes (experiment : Experiment) : List Text :=
  [experiment.checkFileN, experiment.csvFileN, experiment.shfileN] ++
    (List.range experiment.iterations).map experiment.outputFile

/-- The files an experiment leaves its results in. -/
def Result (experiment : Experiment) (name : Text) : Prop :=
  name = experiment.checkFileN ∨ ∃ iteration, name = experiment.outputFile iteration

theorem Result.exists_rep {name : Text} (result : experiment.Result name) :
    ∃ number ending, '/' ∉ ending ∧ name = experiment.baseName ++ decimal number ++ ending := by
  rcases result with rfl | ⟨iteration, rfl⟩
  · exact ⟨experiment.iterations, ".check.csv".toList, by decide, checkFileN_eq experiment⟩
  · exact ⟨iteration, ".papi".toList, by decide, rfl⟩

end Experiment

namespace Batch

variable {batch : Batch} {makes : Text → Bool} {report : Report} {averages : Averages}
  {host after : Host}

theorem write_of_ne {files : Files} {name content other : Text} (apart : other ≠ name) :
    files.write name content other = files other := if_neg apart

/-- What an experiment leaves behind: files of counters that hold what one batch of runs has
gathered, and a check file that agrees with them. -/
structure Leaves (batch : Batch) (report : Report) (environment : Text → Option Text)
    (files : Files) : Prop where
  gathered : ∃ runs bench, ∀ iteration < batch.iterations, files (batch.outputFile iteration) =
    (batch.iterationReports report environment runs bench iteration).foldl takeReport none
  checked : ∃ stats check, StatsPerfCounters.new (fileRows files) batch.filePrefix batch.iterations
      batch.nthreads = .ok stats ∧ batch.checkFile stats = .ok check ∧
    files batch.checkFileN = some check

/-- The parser reads the files of the iterations only. -/
theorem new_congr {first second : Text → Option (List Text)} {filePrefix : Text}
    (iterations nthreads : Nat) (same : ∀ iteration < iterations,
      first (filePrefix ++ decimal iteration ++ ".papi".toList) =
        second (filePrefix ++ decimal iteration ++ ".papi".toList)) :
    StatsPerfCounters.new first filePrefix iterations nthreads =
      StatsPerfCounters.new second filePrefix iterations nthreads := by
  induction iterations with
  | zero => rfl
  | succ count inductionHypothesis =>
    have before := inductionHypothesis fun iteration early => same iteration (by omega)
    unfold StatsPerfCounters.new at before ⊢
    rw [List.range_succ, List.foldlM_append, List.foldlM_append, before]
    simp only [List.foldlM_cons, List.foldlM_nil, same count (Nat.lt_succ_self count)]

/-- What an experiment has left stays while its results do. -/
theorem Leaves.of_kept {environment : Text → Option Text} {files later : Files}
    (leaves : batch.Leaves report environment files)
    (kept : ∀ name, batch.Result name → later name = files name) :
    batch.Leaves report environment later := by
  obtain ⟨⟨runs, bench, gathered⟩, stats, check, parsed, written, held⟩ := leaves
  refine ⟨⟨runs, bench, fun iteration early => ?_⟩, stats, check, ?_, written, ?_⟩
  · rw [kept _ (.inr ⟨iteration, rfl⟩), gathered iteration early]
  · rw [← parsed]
    refine new_congr _ _ fun iteration _ => congrArg (Option.map fileLines) (kept _ ?_)
    rw [Experiment.filePrefix_eq]
    exact .inr ⟨iteration, rfl⟩
  · rw [kept _ (.inl rfl), held]

theorem eq_ok {Value : Type} {result : Except PyError Value} {value : Value}
    (some : result.toOption = .some value) : result = .ok value := by
  cases result with
  | ok held => exact congrArg Except.ok (Option.some_inj.mp some)
  | error _ => cases some

/-- An experiment that comes to its end has run its script, and its tables were computed from the files
behind the script. -/
theorem exists_of_runExperiment (plain : batch.Plain) (real : batch.dryRun = false)
    (made : makes batch.toolOutPath = true)
    (ran : batch.runExperiment makes report averages host = some after) :
    ∃ text final stats check average,
      (∀ iteration < batch.iterations, final (batch.outputFile iteration) =
        (batch.iterationReports report host.environment host.runs
          (getBenchPath host.files batch.benchpath batch.miniApp) iteration).foldl takeReport none) ∧
      (∀ name, (∀ iteration < batch.iterations, name ≠ batch.outputFile iteration) →
        ((∃ middle, '/' ∉ middle ∧ name = batch.runName ++ '.' :: (middle ++ ".csv".toList)) →
          final name = none) ∧
        ((∀ middle, '/' ∉ middle → name ≠ batch.runName ++ '.' :: (middle ++ ".csv".toList)) →
          final name = host.files.write batch.shfileN text name)) ∧
      StatsPerfCounters.new (fileRows final) batch.filePrefix batch.iterations batch.nthreads =
        .ok stats ∧
      batch.checkFile stats = .ok check ∧
      after = { host with
        files := (final.write batch.checkFileN check).write batch.csvFileN average
        runs := after.runs } := by
  rw [runExperiment, placed, if_pos made] at ran
  obtain ⟨written, created, ran⟩ := Option.bind_eq_some_iff.mp ran
  obtain ⟨text, held, ran⟩ := Option.bind_eq_some_iff.mp ran
  rw [callScript, real, if_neg Bool.false_ne_true] at ran
  obtain ⟨next, called, ran⟩ := Option.bind_eq_some_iff.mp ran
  obtain ⟨script, read, called⟩ := Option.bind_eq_some_iff.mp called
  obtain ⟨plainText, plainHeld, plainRead⟩ := readScript_created plain created
  obtain rfl : plainText = text := Option.some_inj.mp (plainHeld.symm.trans held)
  obtain rfl := Option.some_inj.mp (plainRead.symm.trans read)
  obtain ⟨gathered, others⟩ := runScript_files batch report
    (getBenchPath host.files batch.benchpath batch.miniApp)
    ⟨written, host.environment, fun _ => [], host.runs, 0⟩
  generalize runScript (perfcntrs report) ⟨written, host.environment, fun _ => [], host.runs, 0⟩
    (batch.script (getBenchPath host.files batch.benchpath batch.miniApp)) = final at *
  obtain ⟨_, -, called⟩ := Option.bind_eq_some_iff.mp called
  cases called
  obtain ⟨stats, parsed, ran⟩ := Option.bind_eq_some_iff.mp ran
  obtain ⟨check, checked, ran⟩ := Option.bind_eq_some_iff.mp ran
  obtain ⟨average, -, ran⟩ := Option.bind_eq_some_iff.mp ran
  cases ran
  unfold createExperimentBatch at created
  split at created
  · cases created
  · cases created
    exact ⟨_, final.files, stats, check, average, gathered, others, eq_ok parsed, eq_ok checked, rfl⟩

/-- An experiment leaves its results and changes no file of another name. -/
theorem runExperiment_spec (plain : batch.Plain) (real : batch.dryRun = false)
    (made : makes batch.toolOutPath = true)
    (ran : batch.runExperiment makes report averages host = some after) :
    after.environment = host.environment ∧ batch.Leaves report host.environment after.files ∧
      ∀ name, ¬batch.Owns name → after.files name = host.files name := by
  obtain ⟨text, final, stats, check, average, gathered, others, parsed, checked, ends⟩ :=
    exists_of_runExperiment plain real made ran
  rw [ends]
  have kept : ∀ name, name ≠ batch.checkFileN → name ≠ batch.csvFileN →
      ((final.write batch.checkFileN check).write batch.csvFileN average) name = final name :=
    fun name noCheck noCsv => (write_of_ne noCsv).trans (write_of_ne noCheck)
  refine ⟨rfl, ⟨⟨host.runs, getBenchPath host.files batch.benchpath batch.miniApp,
    fun iteration early => ?_⟩, stats, check, ?_, checked, ?_⟩,
    fun name other => ?_⟩
  · obtain ⟨noCheck, noCsv⟩ := @Experiment.outputFile_ne batch.toExperiment iteration
    exact (kept _ noCheck noCsv).trans (gathered iteration early)
  · rw [← parsed, Experiment.filePrefix_eq]
    refine new_congr _ _ fun iteration _ => congrArg (Option.map fileLines) ?_
    obtain ⟨noCheck, noCsv⟩ := @Experiment.outputFile_ne batch.toExperiment iteration
    exact kept _ noCheck noCsv
  · exact (write_of_ne Experiment.checkFileN_ne_csvFileN).trans (if_pos rfl)
  · have apart : ∀ {owned}, batch.Owns owned → name ≠ owned := fun owns same => other (same ▸ owns)
    refine (kept name (apart Experiment.owns_checkFileN) (apart Experiment.owns_csvFileN)).trans ?_
    have untouched := (others name fun iteration _ => apart (Experiment.owns_outputFile iteration)).2
      fun middle solid => apart ⟨middle ++ ".csv".toList, by
        rw [List.mem_append, not_or]
        exact ⟨solid, by decide⟩, rfl⟩
    exact untouched.trans (write_of_ne (apart Experiment.owns_shfileN))

/-- The files that are there behind an experiment: those that it writes, and of those that were there
before, none of its tables. -/
theorem runExperiment_present (plain : batch.Plain) (real : batch.dryRun = false)
    (made : makes batch.toolOutPath = true)
    (ran : batch.runExperiment makes report averages host = some after) {name : Text}
    (present : (after.files name).isSome = true) :
    name ∈ batch.writes ∨ (host.files name).isSome = true ∧ ∀ middle, '/' ∉ middle →
      name ≠ batch.runName ++ '.' :: (middle ++ ".csv".toList) := by
  obtain ⟨text, final, stats, check, average, -, others, -, -, ends⟩ :=
    exists_of_runExperiment plain real made ran
  by_cases own : name ∈ batch.writes
  · exact .inl own
  simp only [Experiment.writes, List.mem_append, List.mem_cons, List.not_mem_nil, or_false,
    List.mem_map, List.mem_range, not_or, not_exists, not_and] at own
  obtain ⟨⟨noCheck, noCsv, noScript⟩, noOutput⟩ := own
  obtain ⟨removed, kept⟩ := others name fun iteration early same => noOutput iteration early same.symm
  have held : after.files name = final name := by
    rw [ends]
    exact (write_of_ne noCsv).trans (write_of_ne noCheck)
  rw [held] at present
  have noTable : ∀ middle, '/' ∉ middle →
      name ≠ batch.runName ++ '.' :: (middle ++ ".csv".toList) := by
    intro middle solid table
    rw [removed ⟨middle, solid, table⟩] at present
    cases present
  rw [kept noTable, write_of_ne noScript] at present
  exact .inr ⟨present, noTable⟩

end Batch

/-! ### Experiments do not disturb each other -/

namespace PerfcntrsConfig

variable {config : PerfcntrsConfig}

/-- The directory of an experiment tells the application, the number of threads and the suffix. -/
theorem toolOutPath_inj {first second : ExperimentKey} (firstApp : '/' ∉ first.app)
    (secondApp : '/' ∉ second.app) (firstSuffix : '/' ∉ first.suffix)
    (secondSuffix : '/' ∉ second.suffix)
    (same : config.toolOutPath first = config.toolOutPath second) :
    first.app = second.app ∧ first.nthreads = second.nthreads ∧ first.suffix = second.suffix := by
  have name : ∀ key : ExperimentKey, config.toolOutPath key = config.outpath ++ "/bperf.".toList ++
      key.suffix ++ '/' :: ((if key.suffix ≠ [] then key.app ++ '-' :: key.suffix else key.app) ++
        '.' :: (decimal key.nthreads ++ ['t'])) := by
    intro key
    unfold toolOutPath
    split <;> simp only [List.append_assoc, List.cons_append]
  have solid : ∀ key : ExperimentKey, '/' ∉ key.app → '/' ∉ key.suffix →
      '/' ∉ (if key.suffix ≠ [] then key.app ++ '-' :: key.suffix else key.app) ++
        '.' :: (decimal key.nthreads ++ ['t']) := by
    intro key app suffix
    have digits : '/' ∉ decimal key.nthreads := notMem_decimal (by decide) _
    split <;> simp [app, suffix, digits]
  rw [name first, name second] at same
  obtain ⟨directories, files⟩ := eq_of_append_cons (solid first firstApp firstSuffix)
    (solid second secondApp secondSuffix) same
  have suffixes : first.suffix = second.suffix := List.append_cancel_left directories
  have numberSolid : ∀ number, '.' ∉ decimal number ++ ['t'] := by
    intro number
    have digits : '.' ∉ decimal number := notMem_decimal (by decide) _
    simp [digits]
  obtain ⟨apps, numbers⟩ := eq_of_append_cons (numberSolid _) (numberSolid _) files
  refine ⟨?_, decimal_inj.mp (List.append_cancel_right numbers), suffixes⟩
  rw [suffixes] at apps
  split at apps
  · exact List.append_cancel_right apps
  · exact apps

/-- The names of a configuration are plain, those of applications and suffixes without a slash, and
the parameters stand on one line. -/
structure Plain (config : PerfcntrsConfig) : Prop where
  paths : PlainName config.rootdir ∧ PlainName config.benchpath ∧ PlainName config.libspath ∧
    PlainName config.outpath
  application : ∀ app ∈ config.application, (PlainName app.1 ∧ '/' ∉ app.1) ∧ '\n' ∉ app.2
  suffix : ∀ suffix ∈ config.suffix, PlainName suffix ∧ '/' ∉ suffix

theorem newline_notMem_formatFields {argument : Text} (solid : '\n' ∉ argument) (used : Bool)
    (text : Text) : ∀ {formatted : Text}, '\n' ∉ text →
      formatFields argument used text = some formatted → '\n' ∉ formatted := by
  have keeps : ∀ {before : Text} {rest : Option Text} {formatted : Text}, '\n' ∉ before →
      (∀ {formatted}, rest = some formatted → '\n' ∉ formatted) →
      rest.map (before ++ ·) = some formatted → '\n' ∉ formatted := by
    intro before rest formatted first later whole
    obtain ⟨behind, found, rfl⟩ := Option.map_eq_some_iff.mp whole
    rw [List.mem_append, not_or]
    exact ⟨first, later found⟩
  induction used, text using formatFields.induct with
  | case1 used =>
    intro formatted _ whole
    cases whole
    exact List.not_mem_nil
  | case2 used text inductionHypothesis =>
    intro formatted plain whole
    rw [List.mem_cons, List.mem_cons, not_or, not_or] at plain
    exact @keeps ['\x7b'] _ _ (by decide) (inductionHypothesis plain.2.2) whole
  | case3 used text inductionHypothesis =>
    intro formatted plain whole
    rw [List.mem_cons, List.mem_cons, not_or, not_or] at plain
    exact @keeps ['\x7d'] _ _ (by decide) (inductionHypothesis plain.2.2) whole
  | case4 text inductionHypothesis =>
    intro formatted plain whole
    rw [List.mem_cons, List.mem_cons, not_or, not_or] at plain
    exact keeps solid (inductionHypothesis plain.2.2) whole
  | case5 used c text open' close field brace =>
    intro formatted plain whole
    rw [formatFields, if_pos brace] at whole
    · cases whole
    · exact open'
    · exact close
    · exact field
  | case6 used c text open' close field brace inductionHypothesis =>
    intro formatted plain whole
    rw [List.mem_cons, not_or] at plain
    rw [formatFields, if_neg brace] at whole
    · exact @keeps [c] _ _ (by simpa using plain.1) (inductionHypothesis plain.2) whole
    · exact open'
    · exact close
    · exact field

theorem getBenchParams_solid {appParams params : Text} {nthreads : Nat} (solid : '\n' ∉ appParams)
    (formatted : getBenchParams appParams nthreads = some params) : '\n' ∉ params := by
  unfold getBenchParams at formatted
  split at formatted
  · exact newline_notMem_formatFields (notMem_decimal (by decide) _) _ _ solid formatted
  · exact Option.some_inj.mp formatted ▸ solid

theorem mem_keys {key : ExperimentKey × Text} : key ∈ config.keys ↔
    (key.1.app, key.2) ∈ config.application ∧ key.1.nthreads ∈ config.threads ∧
      key.1.suffix ∈ config.suffix := by
  obtain ⟨⟨app, nthreads, suffix, barriers⟩, params⟩ := key
  simp only [keys, List.mem_flatMap, List.mem_map, Prod.exists, Prod.mk.injEq,
    ExperimentKey.mk.injEq]
  constructor
  · rintro ⟨_, _, listed, _, threads, _, suffixes, _, -, ⟨rfl, rfl, rfl, -⟩, rfl⟩
    exact ⟨listed, threads, suffixes⟩
  · rintro ⟨listed, threads, suffixes⟩
    exact ⟨app, params, listed, nthreads, threads, suffix, suffixes, barriers,
      by cases barriers <;> decide, ⟨rfl, rfl, rfl, rfl⟩, rfl⟩

theorem Plain.toolOutPath (plain : config.Plain) {key : ExperimentKey} (app : PlainName key.app)
    (suffix : PlainName key.suffix) : PlainName (config.toolOutPath key) := by
  have begins : PlainName (config.outpath ++ "/bperf.".toList ++ key.suffix ++ '/' :: key.app) :=
    ((plain.paths.2.2.2.append (by decide)).append suffix).append (.cons (by decide) app)
  unfold PerfcntrsConfig.toolOutPath
  refine .append (.append ?_ (.cons (by decide) (plainName_decimal _))) (by decide)
  split
  · exact begins.append (.cons (by decide) suffix)
  · exact begins

/-- The experiments of a configuration with plain names have plain names. -/
theorem Plain.batch (plain : config.Plain) {key : ExperimentKey × Text} (listed : key ∈ config.keys)
    {params : Text} (formatted : getBenchParams key.2 key.1.nthreads = some params) :
    (config.batch key.1 params).Plain := by
  obtain ⟨app, -, suffix⟩ := mem_keys.mp listed
  obtain ⟨⟨named, -⟩, solid⟩ := plain.application _ app
  obtain ⟨suffixed, -⟩ := plain.suffix _ suffix
  exact ⟨named, plain.toolOutPath named suffixed, suffixed, plain.paths.1, plain.paths.2.2.1,
    plain.paths.2.1, getBenchParams_solid solid formatted⟩

/-- The experiment of a key. -/
def experiment (config : PerfcntrsConfig) (key : ExperimentKey) : Experiment :=
  (config.batch key []).toExperiment

/-- The results of the first experiment have no names of the second. -/
def Spares (config : PerfcntrsConfig) (first second : ExperimentKey) : Prop :=
  ∀ name, (config.experiment first).Result name → ¬(config.experiment second).Owns name

/-- Names begin with the directory of their experiment. -/
theorem owns_toolOutPath {key : ExperimentKey} (app : '/' ∉ key.app) (suffix : '/' ∉ key.suffix)
    {name : Text} (owns : (config.experiment key).Owns name) :
    ∃ file, '/' ∉ file ∧ name = config.toolOutPath key ++ '/' :: file := by
  obtain ⟨rest, solid, rfl⟩ := owns
  have digits : '/' ∉ decimal key.nthreads := notMem_decimal (by decide) _
  unfold Experiment.runName experiment PerfcntrsConfig.batch
  dsimp only
  refine ⟨((if key.suffix ≠ [] then key.app ++ '-' :: key.suffix else key.app) ++
    '.' :: decimal key.nthreads ++ ['t'] ++ if key.barriers then ".BP".toList else []) ++ '.' :: rest,
    ?_, ?_⟩
  · split <;> split <;> simp [app, suffix, digits, solid]
  · split <;> split <;> simp

/-- No name in the directory of an experiment is one of another directory. -/
theorem not_owns_of_directory {first second : ExperimentKey} (firstApp : '/' ∉ first.app)
    (secondApp : '/' ∉ second.app) (firstSuffix : '/' ∉ first.suffix)
    (secondSuffix : '/' ∉ second.suffix)
    (apart : ¬(first.app = second.app ∧ first.nthreads = second.nthreads ∧
      first.suffix = second.suffix)) {file : Text} (solid : '/' ∉ file) :
    ¬(config.experiment second).Owns (config.toolOutPath first ++ '/' :: file) := by
  intro owns
  obtain ⟨other, otherSolid, there⟩ := owns_toolOutPath secondApp secondSuffix owns
  exact apart (toolOutPath_inj firstApp secondApp firstSuffix secondSuffix
    (eq_of_append_cons solid otherSolid there).1)

theorem spares_of_directory {first second : ExperimentKey} (firstApp : '/' ∉ first.app)
    (secondApp : '/' ∉ second.app) (firstSuffix : '/' ∉ first.suffix)
    (secondSuffix : '/' ∉ second.suffix)
    (apart : ¬(first.app = second.app ∧ first.nthreads = second.nthreads ∧
      first.suffix = second.suffix)) : config.Spares first second := by
  intro name result
  obtain ⟨number, ending, ends, named⟩ := result.exists_rep
  obtain ⟨file, solid, here⟩ := owns_toolOutPath firstApp firstSuffix
    (named ▸ Experiment.owns_rep number ends)
  rw [here]
  exact not_owns_of_directory firstApp secondApp firstSuffix secondSuffix apart solid

/-- The measurement of the parallel regions spares that of the whole application. -/
theorem spares_modes (app : Text) (nthreads : Nat) (suffix : Text) :
    config.Spares ⟨app, nthreads, suffix, false⟩ ⟨app, nthreads, suffix, true⟩ := by
  rintro name result ⟨rest, -, owned⟩
  obtain ⟨number, ending, -, named⟩ := result.exists_rep
  have region : (config.experiment ⟨app, nthreads, suffix, true⟩).runName =
      (config.experiment ⟨app, nthreads, suffix, false⟩).runName ++ ".BP".toList := rfl
  rw [region, named, Experiment.baseName_eq, List.append_assoc, List.append_assoc,
    List.append_assoc] at owned
  have ends := List.append_cancel_left owned
  have letters := congrArg (fun text : Text => text[1]?) ends
  exact absurd letters (by simp)

/-- The other way round it would not: the script of the whole application removes the table of its
parallel regions. -/
theorem regions_removed (app : Text) (nthreads : Nat) (suffix : Text) : ∃ middle, '/' ∉ middle ∧
    (config.experiment ⟨app, nthreads, suffix, true⟩).checkFileN =
      (config.experiment ⟨app, nthreads, suffix, false⟩).runName ++
        '.' :: (middle ++ ".csv".toList) := by
  have region : (config.experiment ⟨app, nthreads, suffix, true⟩).runName =
      (config.experiment ⟨app, nthreads, suffix, false⟩).runName ++ ".BP".toList := rfl
  have digits : '/' ∉ decimal config.iterations := notMem_decimal (by decide) _
  refine ⟨"BP.rep".toList ++ decimal config.iterations ++ ".check".toList, by simp [digits], ?_⟩
  rw [Experiment.checkFileN_eq, Experiment.baseName_eq, region]
  show _ ++ decimal config.iterations ++ _ = _
  simp only [List.append_assoc]
  rfl

/-- Every experiment spares what those before it have left, when no application, number of threads
or suffix is listed twice. -/
theorem pairwise_spares (plain : config.Plain) (apps : (config.application.map Prod.fst).Nodup)
    (threads : config.threads.Nodup) (suffixes : config.suffix.Nodup) :
    config.keys.Pairwise fun first second => config.Spares first.1 second.1 := by
  have directories : ∀ {first second : ExperimentKey × Text}, first ∈ config.keys →
      second ∈ config.keys → ¬(first.1.app = second.1.app ∧ first.1.nthreads = second.1.nthreads ∧
        first.1.suffix = second.1.suffix) → config.Spares first.1 second.1 := by
    intro first second listed otherListed apart
    obtain ⟨app, -, suffix⟩ := mem_keys.mp listed
    obtain ⟨otherApp, -, otherSuffix⟩ := mem_keys.mp otherListed
    exact spares_of_directory (plain.application _ app).1.2 (plain.application _ otherApp).1.2
      (plain.suffix _ suffix).2 (plain.suffix _ otherSuffix).2 apart
  have inKeys : ∀ {app params nthreads suffix} {key : ExperimentKey × Text},
      (app, params) ∈ config.application → nthreads ∈ config.threads → suffix ∈ config.suffix →
        key ∈ [false, true].map (fun barriers =>
          ((⟨app, nthreads, suffix, barriers⟩, params) : ExperimentKey × Text)) →
        key ∈ config.keys ∧ key.1.app = app ∧ key.1.nthreads = nthreads ∧ key.1.suffix = suffix := by
    intro app params nthreads suffix key listed threaded suffixed member
    obtain ⟨barriers, -, rfl⟩ := List.mem_map.mp member
    exact ⟨mem_keys.mpr ⟨listed, threaded, suffixed⟩, rfl, rfl, rfl⟩
  unfold keys
  rw [List.pairwise_flatMap]
  constructor
  · rintro ⟨app, params⟩ listed
    rw [List.pairwise_flatMap]
    constructor
    · intro nthreads threaded
      rw [List.pairwise_flatMap]
      constructor
      · exact fun suffix _ => List.pairwise_pair.mpr (spares_modes app nthreads suffix)
      · refine suffixes.imp_of_mem fun one other apart key here otherKey there => ?_
        obtain ⟨member, -, -, suffixEq⟩ := inKeys listed threaded one here
        obtain ⟨otherMember, -, -, otherEq⟩ := inKeys listed threaded other there
        exact directories member otherMember fun same =>
          apart (suffixEq.symm.trans (same.2.2.trans otherEq))
    · refine threads.imp_of_mem fun one other apart key here otherKey there => ?_
      obtain ⟨suffix, suffixed, here⟩ := List.mem_flatMap.mp here
      obtain ⟨otherSuffix, otherSuffixed, there⟩ := List.mem_flatMap.mp there
      obtain ⟨member, -, threadsEq, -⟩ := inKeys listed one suffixed here
      obtain ⟨otherMember, -, otherEq, -⟩ := inKeys listed other otherSuffixed there
      exact directories member otherMember fun same =>
        apart (threadsEq.symm.trans (same.2.1.trans otherEq))
  · refine (List.pairwise_map.mp apps).imp_of_mem fun one other apart key here otherKey there => ?_
    obtain ⟨nthreads, threaded, here⟩ := List.mem_flatMap.mp here
    obtain ⟨suffix, suffixed, here⟩ := List.mem_flatMap.mp here
    obtain ⟨otherThreads, otherThreaded, there⟩ := List.mem_flatMap.mp there
    obtain ⟨otherSuffix, otherSuffixed, there⟩ := List.mem_flatMap.mp there
    obtain ⟨member, appEq, -, -⟩ := inKeys one threaded suffixed here
    obtain ⟨otherMember, otherEq, -, -⟩ := inKeys other otherThreaded otherSuffixed there
    exact directories member otherMember fun same => apart (appEq.symm.trans (same.1.trans otherEq))

variable {makes : Text → Bool} {report : Report} {averages : Averages}

/-- A turn leaves the results of its experiment and changes no file of another name. -/
theorem turn_spec {host after : Host} (plain : config.Plain) (executes : config.Executes makes)
    {key : ExperimentKey × Text} (listed : key ∈ config.keys)
    (ran : turn makes report averages config host key = some after) :
    ∃ params, getBenchParams key.2 key.1.nthreads = some params ∧
      after.environment = host.environment ∧
      (config.batch key.1 params).Leaves report host.environment after.files ∧
      ∀ name, ¬(config.experiment key.1).Owns name → after.files name = host.files name := by
  obtain ⟨params, formatted, ran⟩ := Option.bind_eq_some_iff.mp ran
  obtain ⟨environment, leaves, kept⟩ := Batch.runExperiment_spec (plain.batch listed formatted)
    executes.real (executes.made key listed) ran
  exact ⟨params, formatted, environment, leaves, kept⟩

/-- Turns keep what they spare. -/
theorem turns_kept (plain : config.Plain) (executes : config.Executes makes) (name : Text)
    (keys : List (ExperimentKey × Text)) (listed : ∀ key ∈ keys, key ∈ config.keys)
    (spared : ∀ key ∈ keys, ¬(config.experiment key.1).Owns name) : ∀ {host after : Host},
    keys.foldlM (turn makes report averages config) host = some after →
      after.files name = host.files name := by
  induction keys with
  | nil =>
    intro host after ran
    cases ran
    rfl
  | cons key keys inductionHypothesis =>
    intro host after ran
    rw [List.forall_mem_cons] at listed spared
    rw [List.foldlM_cons] at ran
    obtain ⟨next, turned, rest⟩ := Option.bind_eq_some_iff.mp ran
    obtain ⟨-, -, -, -, kept⟩ := turn_spec plain executes listed.1 turned
    exact (inductionHypothesis listed.2 spared.2 rest).trans (kept name spared.1)

/-- What every turn leaves is there at the end. -/
theorem turns_leave (plain : config.Plain) (executes : config.Executes makes)
    (keys : List (ExperimentKey × Text)) (listed : ∀ key ∈ keys, key ∈ config.keys)
    (spares : keys.Pairwise fun first second => config.Spares first.1 second.1) :
    ∀ {host after : Host}, keys.foldlM (turn makes report averages config) host = some after →
      ∀ key ∈ keys, ∃ params, getBenchParams key.2 key.1.nthreads = some params ∧
        (config.batch key.1 params).Leaves report host.environment after.files := by
  induction keys with
  | nil => exact fun _ _ member => absurd member List.not_mem_nil
  | cons first keys inductionHypothesis =>
    intro host after ran
    rw [List.forall_mem_cons] at listed
    rw [List.pairwise_cons] at spares
    rw [List.foldlM_cons] at ran
    obtain ⟨next, turned, rest⟩ := Option.bind_eq_some_iff.mp ran
    obtain ⟨params, formatted, environment, leaves, -⟩ := turn_spec plain executes listed.1 turned
    rw [List.forall_mem_cons]
    constructor
    · refine ⟨params, formatted, leaves.of_kept fun name result => ?_⟩
      exact turns_kept plain executes name keys listed.2
        (fun key member => spares.1 key member name result) rest
    · rw [← environment]
      exact inductionHypothesis listed.2 spares.2 rest

/-- A run of the whole tool that comes to its end leaves consistent results for every experiment,
when it is no dry run and each has a directory of its own: the files of counters hold, round by
round, what one batch of runs has gathered, and the check file holds the rows computed from them.
Nothing that a later experiment removes or writes touches them: the measurement of the whole
application, which removes the tables of its parallel regions, comes first. -/
theorem main_leaves {host after : Host} (plain : config.Plain) (executes : config.Executes makes)
    (apps : (config.application.map Prod.fst).Nodup)
    (threads : config.threads.Nodup) (suffixes : config.suffix.Nodup)
    (ran : config.main makes report averages host = some after) {app params : Text} {nthreads : Nat}
    {suffix : Text} (barriers : Bool) (listed : (app, params) ∈ config.application)
    (threaded : nthreads ∈ config.threads) (suffixed : suffix ∈ config.suffix) :
    ∃ formatted, getBenchParams params nthreads = some formatted ∧
      (config.batch ⟨app, nthreads, suffix, barriers⟩ formatted).Leaves report host.environment
        after.files :=
  turns_leave plain executes config.keys (fun _ => id) (pairwise_spares plain apps threads suffixes)
    ran (⟨app, nthreads, suffix, barriers⟩, params) (mem_keys.mpr ⟨listed, threaded, suffixed⟩)

/-- One application on one thread, with and without its parallel regions. -/
def oneThread : PerfcntrsConfig where
  rootdir := ['.']
  benchpath := "./benchmarks".toList
  libspath := "barrierpoint-libs".toList
  outpath := "tmp".toList
  debug := false
  dryRun := false
  application := [("matrixmul".toList, "64 \x7b\x7d".toList)]
  threads := [1]
  suffix := ["x".toList]
  iterations := 1
  runningOn := .aarch64

theorem plain_oneThread : oneThread.Plain :=
  ⟨by decide, by decide, by decide⟩

/-- All directories can be made. -/
def allMade : Text → Bool := fun _ => true

theorem executes_oneThread : oneThread.Executes allMade := ⟨rfl, fun _ _ => rfl⟩

/-- A run of one phase on one thread: every counter of the round has gathered the same. -/
def steadyReport : Report := fun _ environment _ =>
  (some ((((environment Batch.eventsVariable).getD []).splitOn ',').flatMap fun event =>
    event ++ "[0][7][0]=5\n".toList), 0)

theorem isSome_main_oneThread : (oneThread.main allMade steadyReport (fun _ _ => .ok [])
    ⟨fun _ => none, fun _ => none, 0⟩).isSome = true := by
  decide +kernel

theorem main_leaves_oneThread : ∃ after, oneThread.main allMade steadyReport (fun _ _ => .ok [])
    ⟨fun _ => none, fun _ => none, 0⟩ = some after ∧
      ∃ formatted, getBenchParams "64 \x7b\x7d".toList 1 = some formatted ∧
        (oneThread.batch ⟨"matrixmul".toList, 1, "x".toList, false⟩ formatted).Leaves steadyReport
          (fun _ => none) after.files := by
  obtain ⟨after, ran⟩ := Option.isSome_iff_exists.mp isSome_main_oneThread
  exact ⟨after, ran, main_leaves plain_oneThread executes_oneThread (by decide) (by decide)
    (by decide) ran false List.mem_cons_self List.mem_cons_self List.mem_cons_self⟩

end PerfcntrsConfig

end BarrierPoint
