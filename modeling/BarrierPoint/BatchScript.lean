/-
This file models the batch script that `CreateExperimentBatch` writes: it
exports the settings of the counters, removes what earlier batches left, and in
every iteration runs the application once for each round of counters. The
counters append to the file of their iteration. Whatever files there were, the
script leaves in the file of each iteration what its own runs appended, in the
order of the rounds, and removes the tables that were computed from other
counters.
-/

import BarrierPoint.Library.Shell
import BarrierPoint.RunBenchmarks

namespace BarrierPoint

open Library

/-- An experiment with what only its batch script and the run of it need. -/
structure Batch extends Experiment where
  debug : Bool
  dryRun : Bool
  bpdir : Text
  libpath : Text
  benchpath : Text
  appParams : Text

/-- The part that the names of all files of an experiment share, in front of their kind. -/
def Experiment.runName (experiment : Experiment) : Text :=
  let app := experiment.toolOutPath ++ '/' :: experiment.miniApp
  let suffixed := if experiment.outSuffix ≠ [] then app ++ '-' :: experiment.outSuffix else app
  let threads := suffixed ++ '.' :: decimal experiment.nthreads ++ ['t']
  if experiment.barriers then threads ++ ".BP".toList else threads

theorem Experiment.baseName_eq (experiment : Experiment) :
    experiment.baseName = experiment.runName ++ ".rep".toList := rfl

namespace Batch

/-- The variable that names the file the counters append to. -/
def outputVariable : Text := "BP_PERFCNTRS_OUTPUT_FILE".toList

/-- The variable that names the counters of a round. -/
def eventsVariable : Text := "BP_PERFCNTRS_EVENTS".toList

def preloadVariable : Text := "LD_PRELOAD".toList

/-- A switch of the counters. -/
def switch (on : Bool) : Word := plainWord (if on then ['1'] else ['0'])

/-- The file of an iteration, as the script writes its name. -/
def papiWord (batch : Batch) : Word :=
  plainWord batch.baseName ++ .value ['i'] :: plainWord ".papi".toList

/-- The tables of earlier batches. -/
def csvPattern (batch : Batch) : Word :=
  plainWord (batch.runName ++ ['.']) ++ .star :: plainWord ".csv".toList

def library (batch : Batch) : Text :=
  batch.bpdir ++ '/' :: batch.libpath ++ "/libbp_perfcntrs.so".toList

/-- `GetBenchPath`: the program, when there is one. -/
def getBenchPath (files : Files) (benchpath miniApp : Text) : Option Text :=
  if (files (benchpath ++ '/' :: miniApp)).isSome then some (benchpath ++ '/' :: miniApp) else none

/-- The command that runs the application. A program that was not found is written as `None`. -/
def command (batch : Batch) (bench : Option Text) : Text :=
  bench.getD "None".toList ++ ' ' :: batch.appParams

/-- The lines that run the application for one round of counters. -/
def roundLines (batch : Batch) (bench : Option Text) (round : Text) : List Line :=
  [.assign eventsVariable true (plainWord round),
    .assign preloadVariable true (plainWord batch.library),
    .execute (batch.command bench), .blank]

/-- The settings that all runs share. -/
def header (batch : Batch) : List Line :=
  [.comment "!/bin/sh".toList, .blank,
    .comment (' ' :: batch.miniApp ++ " - ".toList ++ decimal batch.nthreads ++ " threads - ".toList ++
      decimal batch.iterations ++ " iteration(s)".toList), .blank,
    .comment " Exports".toList,
    .assign "BP_PERFCNTRS".toList false (plainWord ['1']),
    .assign "BP_PERFCNTRS_VERBOSE".toList false (switch batch.debug),
    .assign "BP_PERFCNTRS_OMPPARALLEL".toList false (switch batch.barriers),
    .assign "BP_PERFCNTRS_SAMPLING".toList false (switch !batch.barriers),
    .assign "OMP_NUM_THREADS".toList false (plainWord (decimal batch.nthreads)),
    .assign "GOMP_CPU_AFFINITY".toList true
      (plainWord ("0-".toList ++ signedDecimal ((batch.nthreads : Int) - 1))), .blank,
    .comment " Remove old files".toList,
    .remove batch.csvPattern]

/-- What an iteration of the script does. -/
def iterationLines (batch : Batch) (bench : Option Text) : List Line :=
  .assign outputVariable true batch.papiWord :: .blank ::
    (papiRounds batch.runningOn).flatMap (batch.roundLines bench)

/-- The batch script. -/
def script (batch : Batch) (bench : Option Text) : List Statement :=
  batch.header.map .single ++
    [.loop ['i'] ((batch.iterations : Int) - 1) [.remove batch.papiWord], .single .blank,
      .loop ['i'] ((batch.iterations : Int) - 1) (batch.iterationLines bench), .single .blank]

/-- `CreateExperimentBatch`, where the output path exists or can be made: write the script. -/
def createExperimentBatch (batch : Batch) (files : Files) : Option Files :=
  if batch.runningOn = .unknown then none
  else some (files.write batch.shfileN
    (scriptText (batch.script (getBenchPath files batch.benchpath batch.miniApp))))

end Batch

/-! ### What the application does -/

/-- What a run of the application hands to the counters, if it stops them at all, and its exit
status. It depends on how many programs ran before, the environment and the command. -/
abbrev Report := Nat → (Text → Option Text) → Text → Option Text × Nat

/-- A run of the application with the counters preloaded: what they gathered is appended to their
output file. The application changes no other files here. -/
def perfcntrs (report : Report) : Program := fun runs environment command files =>
  let (gathered, status) := report runs environment command
  let name := (environment Batch.outputVariable).getD "/tmp/perfcntrs_events.out".toList
  (match gathered with
    | some text => files.write name ((files name).getD [] ++ text)
    | none => files, status)

/-- What a file holds after a run that may have appended to it. -/
def takeReport (held gathered : Option Text) : Option Text :=
  match gathered with
  | some text => some (held.getD [] ++ text)
  | none => held

/-! ### The environment of a run -/

/-- Exports on top of an environment, the last ones first. -/
def overlay (environment : Text → Option Text) (exports : List (Text × Text)) : Text → Option Text :=
  exports.foldl (fun environment entry name =>
    if name = entry.1 then some entry.2 else environment name) environment

theorem overlay_of_notMem {environment : Text → Option Text} {exports : List (Text × Text)}
    {name : Text} (free : name ∉ exports.map Prod.fst) :
    overlay environment exports name = environment name := by
  induction exports generalizing environment with
  | nil => rfl
  | cons entry exports inductionHypothesis =>
    rw [List.map_cons, List.mem_cons, not_or] at free
    exact (inductionHypothesis free.2).trans (if_neg free.1)

theorem overlay_self (environment : Text → Option Text) (name value : Text) :
    overlay environment [(name, value)] name = some value := by
  rw [overlay, List.foldl_cons, List.foldl_nil, if_pos rfl]

/-- What is under exports of the same names does not matter. -/
theorem overlay_congr {first second : Text → Option Text} {exports : List (Text × Text)}
    (same : ∀ name ∉ exports.map Prod.fst, first name = second name) :
    overlay first exports = overlay second exports := by
  induction exports generalizing first second with
  | nil => exact funext fun name => same name List.not_mem_nil
  | cons entry exports inductionHypothesis =>
    refine inductionHypothesis fun name free => ?_
    by_cases here : name = entry.1
    · exact (if_pos here).trans (if_pos here).symm
    · refine (if_neg here).trans ((same name ?_).trans (if_neg here).symm)
      rw [List.map_cons, List.mem_cons, not_or]
      exact ⟨here, free⟩

namespace Batch

variable (batch : Batch) (report : Report)

/-- The environment behind the header of the script. -/
def settings (environment : Text → Option Text) : Text → Option Text :=
  overlay environment [
    ("BP_PERFCNTRS".toList, ['1']),
    ("BP_PERFCNTRS_VERBOSE".toList, if batch.debug then ['1'] else ['0']),
    ("BP_PERFCNTRS_OMPPARALLEL".toList, if batch.barriers then ['1'] else ['0']),
    ("BP_PERFCNTRS_SAMPLING".toList, if !batch.barriers then ['1'] else ['0']),
    ("OMP_NUM_THREADS".toList, decimal batch.nthreads),
    ("GOMP_CPU_AFFINITY".toList, "0-".toList ++ signedDecimal ((batch.nthreads : Int) - 1))]

/-- The environment of the run for one round in one iteration. -/
def runEnvironment (environment : Text → Option Text) (iteration : Nat) (round : Text) :
    Text → Option Text :=
  overlay (overlay (batch.settings environment) [(outputVariable, batch.outputFile iteration)])
    [(eventsVariable, round), (preloadVariable, batch.library)]

/-- What the runs of one iteration hand to the counters, in the order of the rounds. -/
def iterationReports (environment : Text → Option Text) (runs : Nat) (bench : Option Text)
    (iteration : Nat) : List (Option Text) :=
  (papiRounds batch.runningOn).mapIdx fun index round =>
    (report (runs + iteration * (papiRounds batch.runningOn).length + index)
      (batch.runEnvironment environment iteration round) (batch.command bench)).1

/-! ### The script, line by line -/

variable {batch report}

/-- The name of the file of an iteration is written with the number of the iteration. -/
theorem expand_papiWord {values : Text → Text} {iteration : Nat}
    (counted : values ['i'] = decimal iteration) :
    expand values batch.papiWord = (batch.outputFile iteration).map some := by
  rw [papiWord, expand_append, expand_plainWord, expand, expand_plainWord, counted,
    Experiment.outputFile, List.map_append, List.map_append, List.append_assoc]

theorem wordText_papiWord {values : Text → Text} {iteration : Nat}
    (counted : values ['i'] = decimal iteration) :
    wordText values batch.papiWord = batch.outputFile iteration := by
  rw [wordText, expand_papiWord counted, List.map_map]
  exact List.map_id _

/-- The header sets the environment and removes the tables of earlier batches. -/
theorem run_header (program : Program) (shell : Shell) :
    runLines program shell batch.header =
      { shell with
        files := shell.files.remove (expand shell.values batch.csvPattern)
        environment := batch.settings shell.environment
        status := 0 } := by
  rw [header, runLines]
  simp only [List.foldl_cons, List.foldl_nil, Line.run, Shell.assign, wordText_plainWord, switch]
  rfl

/-- The names that are exported anew in front of a run. -/
def perRun : List Text := [outputVariable, eventsVariable, preloadVariable]

theorem perRun_nodup : perRun.Nodup := by decide

/-- The shell in front of the rounds of an iteration: the output file is set, and all else is as the
header left it. -/
structure Ready (batch : Batch) (environment : Text → Option Text) (file : Text) (shell : Shell) :
    Prop where
  output : shell.environment outputVariable = some file
  settings : ∀ name ∉ perRun, shell.environment name = batch.settings environment name

variable {environment : Text → Option Text} {iteration : Nat} {shell : Shell}

/-- The exports of a round complete the environment of its run. -/
theorem Ready.environment_eq (ready : batch.Ready environment (batch.outputFile iteration) shell)
    (round : Text) :
    overlay shell.environment [(eventsVariable, round), (preloadVariable, batch.library)] =
      batch.runEnvironment environment iteration round := by
  refine overlay_congr fun name free => ?_
  by_cases output : name = outputVariable
  · rw [output, ready.output, overlay_self]
  · rw [ready.settings name (List.not_mem_cons_of_ne_of_not_mem output free),
      overlay_of_notMem (by simpa using output)]

/-- The environment of a run is ready for the next round. -/
theorem runEnvironment_output (round : Text) :
    batch.runEnvironment environment iteration round outputVariable =
      some (batch.outputFile iteration) := by
  have distinct := perRun_nodup
  rw [perRun, List.nodup_cons] at distinct
  rw [runEnvironment, overlay_of_notMem distinct.1, overlay_self]

theorem ready_runEnvironment (round : Text) (files : Files) (values : Text → Text)
    (runs status : Nat) : batch.Ready environment (batch.outputFile iteration)
      ⟨files, batch.runEnvironment environment iteration round, values, runs, status⟩ where
  output := @runEnvironment_output batch environment iteration round
  settings name free := by
    rw [perRun, List.mem_cons, not_or] at free
    show batch.runEnvironment environment iteration round name = _
    rw [Batch.runEnvironment, overlay_of_notMem free.2, overlay_of_notMem (by simpa using free.1)]

/-- What runs of an iteration make of a shell: as many programs ran, and what they gathered was
appended to the output file. -/
structure Gathers (batch : Batch) (environment : Text → Option Text) (iteration : Nat)
    (gathered : List (Option Text)) (shell after : Shell) : Prop where
  ready : batch.Ready environment (batch.outputFile iteration) after
  runs : after.runs = shell.runs + gathered.length
  kept : ∀ name ≠ batch.outputFile iteration, after.files name = shell.files name
  appended : after.files (batch.outputFile iteration) =
    gathered.foldl takeReport (shell.files (batch.outputFile iteration))

/-- The lines of one round run the application in the environment of the round, and what its
counters gathered is appended to the output file. -/
theorem run_roundLines (report : Report)
    (ready : batch.Ready environment (batch.outputFile iteration) shell)
    (bench : Option Text) (round : Text) :
    batch.Gathers environment iteration [(report shell.runs
        (batch.runEnvironment environment iteration round) (batch.command bench)).1] shell
      (runLines (perfcntrs report) shell (batch.roundLines bench round)) := by
  have ran : runLines (perfcntrs report) shell (batch.roundLines bench round) =
      Shell.execute (perfcntrs report) { shell with
        environment := overlay shell.environment [(eventsVariable, round),
          (preloadVariable, batch.library)]
        status := 0 } (batch.command bench) := by
    rw [roundLines, runLines]
    simp only [List.foldl_cons, List.foldl_nil, Line.run, Shell.assign, wordText_plainWord]
    rfl
  rw [ran, ready.environment_eq round, Shell.execute, perfcntrs]
  dsimp only
  rw [runEnvironment_output, Option.getD_some]
  generalize report shell.runs (batch.runEnvironment environment iteration round)
    (batch.command bench) = outcome
  refine ⟨ready_runEnvironment round _ _ _ _, rfl, fun name other => ?_, ?_⟩
  · cases outcome.1 with
    | none => rfl
    | some text => exact if_neg other
  · rw [List.foldl_cons, List.foldl_nil]
    cases outcome.1 with
    | none => rfl
    | some text => exact if_pos rfl

theorem Gathers.trans {first second : List (Option Text)} {next after : Shell}
    (begins : batch.Gathers environment iteration first shell next)
    (continues : batch.Gathers environment iteration second next after) :
    batch.Gathers environment iteration (first ++ second) shell after where
  ready := continues.ready
  runs := by rw [continues.runs, begins.runs, List.length_append, Nat.add_assoc]
  kept name other := (continues.kept name other).trans (begins.kept name other)
  appended := by rw [continues.appended, begins.appended, List.foldl_append]

/-- The lines of the rounds of an iteration append what their runs gather, in order. -/
theorem run_rounds (report : Report) (bench : Option Text) (rounds : List Text) : ∀ {shell : Shell},
    batch.Ready environment (batch.outputFile iteration) shell →
      batch.Gathers environment iteration (rounds.mapIdx fun index round =>
          (report (shell.runs + index) (batch.runEnvironment environment iteration round)
            (batch.command bench)).1) shell
        (runLines (perfcntrs report) shell (rounds.flatMap (batch.roundLines bench))) := by
  induction rounds with
  | nil => exact fun ready => ⟨ready, rfl, fun _ _ => rfl, rfl⟩
  | cons round rounds inductionHypothesis =>
    intro shell ready
    have begins := run_roundLines report ready bench round
    have rest := begins.trans (inductionHypothesis begins.ready)
    rw [List.flatMap_cons, runLines_append, List.mapIdx_cons]
    rw [begins.runs, List.length_singleton] at rest
    simpa only [Nat.add_assoc, Nat.add_comm 1, List.singleton_append, Nat.add_zero] using rest

/-! ### The whole script -/

theorem outputFile_inj {first second : Nat} :
    batch.outputFile first = batch.outputFile second ↔ first = second := by
  refine ⟨fun same => ?_, congrArg _⟩
  rw [Experiment.outputFile, Experiment.outputFile] at same
  have numerals := List.append_cancel_left (List.append_cancel_right same)
  exact decimal_inj.mp numerals

/-- What the first loop leaves when it has come to an iteration. -/
structure Removed (batch : Batch) (shell : Shell) (iterations : Nat) (after : Shell) : Prop where
  environment : after.environment = shell.environment
  runs : after.runs = shell.runs
  removed : ∀ iteration < iterations, after.files (batch.outputFile iteration) = none
  kept : ∀ name, (∀ iteration < iterations, name ≠ batch.outputFile iteration) →
    after.files name = shell.files name

/-- The first loop removes the files of the iterations. -/
theorem run_removals (program : Program) (shell : Shell) :
    batch.Removed shell batch.iterations ((Statement.loop ['i'] ((batch.iterations : Int) - 1)
      [.remove batch.papiWord]).run program shell) := by
  have rounds := @run_loop program ['i'] ((batch.iterations : Int) - 1) [.remove batch.papiWord]
    shell (batch.Removed shell) ⟨rfl, rfl, fun _ early => absurd early (Nat.not_lt_zero _),
      fun _ _ => rfl⟩ fun iteration _ after holds => ?_
  · rwa [show ((batch.iterations : Int) - 1 + 1).toNat = batch.iterations by omega] at rounds
  · have files : (runLines program (after.bind ['i'] (decimal iteration))
        [.remove batch.papiWord]).files = fun name => if name = batch.outputFile iteration then none
          else after.files name := by
      rw [← Files.remove_text, ← expand_papiWord (Shell.bind_values after ['i'] _)]
      rfl
    refine ⟨holds.environment, holds.runs, fun earlier early => ?_, fun name other => ?_⟩
    · rw [files]
      rcases Nat.lt_succ_iff_lt_or_eq.mp early with before | rfl
      · dsimp only
        rw [holds.removed earlier before, ite_self]
      · exact if_pos rfl
    · rw [files]
      exact (if_neg (other iteration (Nat.lt_succ_self _))).trans
        (holds.kept name fun earlier early => other earlier (Nat.lt_succ_of_lt early))

/-- What the second loop leaves when it has come to an iteration. -/
structure Gathered (batch : Batch) (report : Report) (environment : Text → Option Text)
    (bench : Option Text) (shell : Shell) (iterations : Nat) (after : Shell) : Prop where
  settings : ∀ name ∉ perRun, after.environment name = batch.settings environment name
  runs : after.runs = shell.runs + iterations * (papiRounds batch.runningOn).length
  gathered : ∀ iteration < iterations, after.files (batch.outputFile iteration) =
    (batch.iterationReports report environment shell.runs bench iteration).foldl takeReport
      (shell.files (batch.outputFile iteration))
  kept : ∀ name, (∀ iteration < iterations, name ≠ batch.outputFile iteration) →
    after.files name = shell.files name

/-- An iteration exports its output file in front of its rounds. -/
theorem runLines_iterationLines (program : Program) (bench : Option Text) (shell : Shell)
    (iteration : Nat) : runLines program (shell.bind ['i'] (decimal iteration))
      (batch.iterationLines bench) = runLines program ((shell.bind ['i'] (decimal iteration)).assign
        outputVariable (batch.outputFile iteration))
        ((papiRounds batch.runningOn).flatMap (batch.roundLines bench)) := by
  rw [← wordText_papiWord (Shell.bind_values shell ['i'] _)]
  rfl

/-- Behind that export the rounds of the iteration may run. -/
theorem ready_assign
    (settings : ∀ name ∉ perRun, shell.environment name = batch.settings environment name)
    (iteration : Nat) : batch.Ready environment (batch.outputFile iteration)
      ((shell.bind ['i'] (decimal iteration)).assign outputVariable (batch.outputFile iteration)) :=
  ⟨Shell.assign_self .., fun name free => (Shell.assign_of_ne _ _
    (List.ne_of_not_mem_cons free)).trans (settings name free)⟩

/-- An iteration appends to its file what its runs gather. -/
theorem Gathered.next {bench : Option Text} {iterations : Nat} {after : Shell}
    (holds : batch.Gathered report environment bench shell iterations after) :
    batch.Gathered report environment bench shell (iterations + 1)
      (runLines (perfcntrs report) (after.bind ['i'] (decimal iterations))
        (batch.iterationLines bench)) := by
  have gathers := run_rounds report bench (papiRounds batch.runningOn)
    (ready_assign holds.settings iterations)
  rw [← runLines_iterationLines] at gathers
  refine ⟨gathers.ready.settings, ?_, fun earlier early => ?_, fun name other => ?_⟩
  · rw [gathers.runs, List.length_mapIdx, Nat.succ_mul, ← Nat.add_assoc]
    exact congrArg (· + _) holds.runs
  · rcases Nat.lt_succ_iff_lt_or_eq.mp early with before | rfl
    · exact (gathers.kept _ fun same => before.ne (outputFile_inj.mp same)).trans
        (holds.gathered earlier before)
    · have began : after.files (batch.outputFile earlier) =
          shell.files (batch.outputFile earlier) :=
        holds.kept _ fun other less same => less.ne' (outputFile_inj.mp same)
      rw [gathers.appended, ← began, iterationReports, ← holds.runs]
      rfl
  · exact (gathers.kept name (other iterations (Nat.lt_succ_self _))).trans
      (holds.kept name fun earlier early => other earlier (Nat.lt_succ_of_lt early))

/-- Before the first iteration. -/
theorem gathered_zero (bench : Option Text)
    (settings : ∀ name ∉ perRun, shell.environment name = batch.settings environment name) :
    batch.Gathered report environment bench shell 0 { shell with status := 0 } :=
  ⟨settings, by rw [Nat.zero_mul, Nat.add_zero], fun _ early => absurd early (Nat.not_lt_zero _),
    fun _ _ => rfl⟩

/-- The second loop appends to the file of each iteration what its runs gather. -/
theorem run_iterations (report : Report) (bench : Option Text)
    (settings : ∀ name ∉ perRun, shell.environment name = batch.settings environment name) :
    batch.Gathered report environment bench shell batch.iterations
      ((Statement.loop ['i'] ((batch.iterations : Int) - 1) (batch.iterationLines bench)).run
        (perfcntrs report) shell) := by
  have rounds := @run_loop (perfcntrs report) ['i'] ((batch.iterations : Int) - 1)
    (batch.iterationLines bench) shell (batch.Gathered report environment bench shell)
    (gathered_zero bench settings) fun iteration _ after holds => holds.next
  rwa [show ((batch.iterations : Int) - 1 + 1).toNat = batch.iterations by omega] at rounds

/-- The script runs its two loops behind its header. -/
theorem run_script (batch : Batch) (report : Report) (bench : Option Text) (shell : Shell) :
    ∃ removed, batch.Removed { shell with
        files := shell.files.remove (expand shell.values batch.csvPattern)
        environment := batch.settings shell.environment
        status := 0 } batch.iterations removed ∧
      batch.Gathered report shell.environment bench removed batch.iterations
        (runScript (perfcntrs report) shell (batch.script bench)) := by
  have removals := @run_removals batch (perfcntrs report) (runLines (perfcntrs report)
    shell batch.header)
  rw [run_header] at removals
  refine ⟨_, removals, ?_⟩
  have gathered := run_iterations report bench fun name _ =>
    congrFun removals.environment name
  rw [script, runScript_singles, run_header]
  exact gathered

/-! ### The status of the script -/

/-- A round ends with the status of its run. -/
theorem status_roundLines (report : Report)
    (ready : batch.Ready environment (batch.outputFile iteration) shell)
    (bench : Option Text) (round : Text) :
    (runLines (perfcntrs report) shell (batch.roundLines bench round)).status =
      (report shell.runs (batch.runEnvironment environment iteration round)
        (batch.command bench)).2 := by
  rw [← ready.environment_eq round, roundLines, runLines]
  simp only [List.foldl_cons, List.foldl_nil, Line.run, Shell.assign, wordText_plainWord]
  rfl

/-- Rounds whose runs end well end well. -/
theorem status_rounds (report : Report) (bench : Option Text) (rounds : List Text) :
    ∀ {shell : Shell}, batch.Ready environment (batch.outputFile iteration) shell →
      shell.status = 0 → (∀ (index : Nat) round, rounds[index]? = some round →
        (report (shell.runs + index) (batch.runEnvironment environment iteration round)
          (batch.command bench)).2 = 0) →
      (runLines (perfcntrs report) shell (rounds.flatMap (batch.roundLines bench))).status = 0 := by
  induction rounds with
  | nil => exact fun _ ended _ => ended
  | cons round rounds inductionHypothesis =>
    intro shell ready _ each
    have begins := run_roundLines report ready bench round
    rw [List.flatMap_cons, runLines_append]
    refine inductionHypothesis begins.ready ?_ fun index later held => ?_
    · rw [status_roundLines report ready]
      exact each 0 round rfl
    · rw [begins.runs, List.length_singleton, Nat.add_assoc, Nat.add_comm 1]
      exact each (index + 1) later held

/-- Every run of the batch ends well. -/
def EndsWell (batch : Batch) (report : Report) (environment : Text → Option Text)
    (bench : Option Text) (runs : Nat) : Prop :=
  ∀ iteration < batch.iterations, ∀ (index : Nat) round,
    (papiRounds batch.runningOn)[index]? = some round →
      (report (runs + iteration * (papiRounds batch.runningOn).length + index)
        (batch.runEnvironment environment iteration round) (batch.command bench)).2 = 0

theorem status_iterations (report : Report) (bench : Option Text)
    (settings : ∀ name ∉ perRun, shell.environment name = batch.settings environment name)
    (well : batch.EndsWell report environment bench shell.runs) :
    ((Statement.loop ['i'] ((batch.iterations : Int) - 1) (batch.iterationLines bench)).run
      (perfcntrs report) shell).status = 0 := by
  have count : ((batch.iterations : Int) - 1 + 1).toNat = batch.iterations := by omega
  have rounds := @run_loop (perfcntrs report) ['i'] ((batch.iterations : Int) - 1)
    (batch.iterationLines bench) shell
    (fun iteration after => batch.Gathered report environment bench shell iteration after ∧
      after.status = 0) ⟨gathered_zero bench settings, rfl⟩ fun iteration inside after holds => ?_
  · exact rounds.2
  · refine ⟨holds.1.next, ?_⟩
    rw [runLines_iterationLines]
    refine status_rounds report bench _ (ready_assign holds.1.settings iteration) rfl
      fun index round held => ?_
    show (report (after.runs + index) _ _).2 = 0
    rw [holds.1.runs]
    exact well iteration (count ▸ inside) index round held

/-- A script whose runs end well ends well. -/
theorem status_runScript (batch : Batch) (report : Report) (bench : Option Text) (shell : Shell)
    (well : batch.EndsWell report shell.environment bench shell.runs) :
    (runScript (perfcntrs report) shell (batch.script bench)).status = 0 := by
  have removals := @run_removals batch (perfcntrs report) (runLines (perfcntrs report)
    shell batch.header)
  rw [run_header] at removals
  have ended := status_iterations report bench
    (fun name _ => congrFun removals.environment name) (by rw [removals.runs]; exact well)
  rw [script, runScript_singles, run_header]
  exact ended

/-! ### The files behind the script -/

/-- The tables of an experiment are those its pattern matches. -/
theorem globMatches_csvPattern (values : Text → Text) (name : Text) :
    globMatches (expand values batch.csvPattern) name = true ↔
      ∃ middle, '/' ∉ middle ∧ name = batch.runName ++ '.' :: (middle ++ ".csv".toList) := by
  have pattern : expand values batch.csvPattern =
      (batch.runName ++ ['.']).map some ++ none :: ".csv".toList.map some := by
    rw [csvPattern, expand_append, expand_plainWord, expand, expand_plainWord]
  rw [pattern, globMatches_star]
  simp only [List.append_assoc, List.singleton_append]

/-- The script, whatever files there were and whatever its runs gather: the file of each iteration
holds what the runs of the iteration appended to it, in the order of the rounds and in the
environment of the experiment; of the other files, the tables of the experiment are removed and
those of other names are untouched. -/
theorem runScript_files (batch : Batch) (report : Report) (bench : Option Text) (shell : Shell) :
    let final := runScript (perfcntrs report) shell (batch.script bench)
    (∀ iteration < batch.iterations, final.files (batch.outputFile iteration) =
      (batch.iterationReports report shell.environment shell.runs bench iteration).foldl takeReport
        none) ∧
    ∀ name, (∀ iteration < batch.iterations, name ≠ batch.outputFile iteration) →
      ((∃ middle, '/' ∉ middle ∧ name = batch.runName ++ '.' :: (middle ++ ".csv".toList)) →
        final.files name = none) ∧
      ((∀ middle, '/' ∉ middle → name ≠ batch.runName ++ '.' :: (middle ++ ".csv".toList)) →
        final.files name = shell.files name) := by
  intro final
  obtain ⟨removed, removals, gathered⟩ := run_script batch report bench shell
  refine ⟨fun iteration early => ?_, fun name other => ⟨fun table => ?_, fun noTable => ?_⟩⟩
  · have runs : removed.runs = shell.runs := removals.runs
    rw [gathered.gathered iteration early, removals.removed iteration early, runs]
  · rw [gathered.kept name other, removals.kept name other]
    exact if_pos ((globMatches_csvPattern shell.values name).mpr table)
  · rw [gathered.kept name other, removals.kept name other]
    refine if_neg fun holds => ?_
    obtain ⟨middle, outside, same⟩ := (globMatches_csvPattern shell.values name).mp holds
    exact noTable middle outside same

/-! ### The text of the script -/

end Batch

/-- The characters that a shell reads as they are. -/
def isPlain (c : Char) : Bool := c.isAlphanum || c ∈ ['_', '-', '.', ',', '/', '+']

/-- A name that a shell reads as it is. -/
def PlainName (name : Text) : Prop := ∀ c ∈ name, isPlain c = true

instance (name : Text) : Decidable (PlainName name) :=
  inferInstanceAs (Decidable (∀ c ∈ name, isPlain c = true))

theorem PlainName.append {first second : Text} (begins : PlainName first)
    (continues : PlainName second) : PlainName (first ++ second) :=
  List.forall_mem_append.mpr ⟨begins, continues⟩

theorem PlainName.cons {c : Char} {name : Text} (begins : isPlain c = true)
    (continues : PlainName name) : PlainName (c :: name) :=
  List.forall_mem_cons.mpr ⟨begins, continues⟩

theorem plainName_decimal (number : Nat) : PlainName (decimal number) := fun c member => by
  have digit := isDigit_of_mem_decimal member
  simp [isPlain, Char.isAlphanum, digit]

theorem PlainName.notMem {name : Text} (plain : PlainName name) {c : Char}
    (special : isPlain c = false) : c ∉ name := fun member =>
  absurd (plain c member) (by rw [special]; exact Bool.false_ne_true)

/-- A plain name is a plain word. -/
theorem PlainName.plainWord {name : Text} (plain : PlainName name) :
    ∀ piece ∈ Library.plainWord name, piece.Plain := by
  intro piece member
  obtain ⟨c, among, rfl⟩ := List.mem_map.mp member
  have apart : ∀ {d : Char}, isPlain d = false → c ≠ d := fun special same =>
    plain.notMem special (same ▸ among)
  exact ⟨apart (by decide), apart (by decide), apart (by decide), apart (by decide)⟩

namespace Batch

/-- The names of an experiment are plain, and its parameters stand on one line. -/
structure Plain (batch : Batch) : Prop where
  miniApp : PlainName batch.miniApp
  toolOutPath : PlainName batch.toolOutPath
  outSuffix : PlainName batch.outSuffix
  bpdir : PlainName batch.bpdir
  libpath : PlainName batch.libpath
  benchpath : PlainName batch.benchpath
  appParams : '\n' ∉ batch.appParams

variable {batch : Batch}

theorem Plain.runName (plain : batch.Plain) : PlainName batch.runName := by
  have app : PlainName (batch.toolOutPath ++ '/' :: batch.miniApp) :=
    plain.toolOutPath.append (.cons (by decide) plain.miniApp)
  have threads : PlainName ((if batch.outSuffix ≠ [] then
      batch.toolOutPath ++ '/' :: batch.miniApp ++ '-' :: batch.outSuffix
      else batch.toolOutPath ++ '/' :: batch.miniApp) ++ '.' :: decimal batch.nthreads ++ ['t']) := by
    refine .append (.append ?_ (.cons (by decide) (plainName_decimal _))) (by decide)
    split
    · exact app.append (.cons (by decide) plain.outSuffix)
    · exact app
  unfold Experiment.runName
  dsimp only
  split
  · exact threads.append (by decide)
  · exact threads

theorem Plain.baseName (plain : batch.Plain) : PlainName batch.baseName :=
  plain.runName.append (by decide)

theorem Plain.papiWord (plain : batch.Plain) : ∀ piece ∈ batch.papiWord, piece.Plain := by
  refine List.forall_mem_append.mpr ⟨plain.baseName.plainWord, List.forall_mem_cons.mpr ⟨?_, ?_⟩⟩
  · exact ⟨by decide, by decide⟩
  · exact PlainName.plainWord (by decide)

theorem Plain.csvPattern (plain : batch.Plain) : ∀ piece ∈ batch.csvPattern, piece.Plain := by
  refine List.forall_mem_append.mpr ⟨?_, List.forall_mem_cons.mpr ⟨trivial, ?_⟩⟩
  · exact (plain.runName.append (by decide)).plainWord
  · exact PlainName.plainWord (by decide)

/-- Exports of plain words are plain lines. -/
theorem plain_assign {name value : Text} (named : '=' ∉ name ∧ '\n' ∉ name)
    (plain : PlainName value) (quoted : Bool) :
    Line.Plain (.assign name quoted (plainWord value)) := ⟨named, plain.plainWord⟩

theorem plain_comment {text : Text} (solid : '\n' ∉ text) : Line.Plain (.comment text) := solid

theorem Plain.header (plain : batch.Plain) : ∀ line ∈ batch.header, line.Plain := by
  have digits : ∀ number, '\n' ∉ decimal number :=
    fun number => (plainName_decimal number).notMem (by decide)
  have title : '\n' ∉ ' ' :: batch.miniApp ++ " - ".toList ++ decimal batch.nthreads ++
      " threads - ".toList ++ decimal batch.iterations ++ " iteration(s)".toList := by
    have app : '\n' ∉ batch.miniApp := plain.miniApp.notMem (by decide)
    simp [app, digits]
  have switched : ∀ on : Bool, PlainName (if on then ['1'] else ['0']) := by decide
  have cores : PlainName ("0-".toList ++ signedDecimal ((batch.nthreads : Int) - 1)) := by
    refine .append (by decide) ?_
    unfold signedDecimal
    split
    · exact .cons (by decide) (plainName_decimal _)
    · exact plainName_decimal _
  unfold Batch.header switch
  simp only [List.forall_mem_cons]
  exact ⟨plain_comment (by decide), trivial, plain_comment title, trivial,
    plain_comment (by decide), plain_assign (by decide) (by decide) _,
    plain_assign (by decide) (switched _) _, plain_assign (by decide) (switched _) _,
    plain_assign (by decide) (switched _) _, plain_assign (by decide) (plainName_decimal _) _,
    plain_assign (by decide) cores _, trivial, plain_comment (by decide), plain.csvPattern,
    fun _ member => absurd member List.not_mem_nil⟩

theorem plainName_papiRounds {platform : Platform} {round : Text}
    (member : round ∈ papiRounds platform) : PlainName round := by
  revert round
  cases platform <;> decide +kernel

/-- The command is read as a command: its first word is no keyword. -/
theorem Plain.command (plain : batch.Plain) (files : Files) :
    Line.Plain (.execute (batch.command (getBenchPath files batch.benchpath batch.miniApp))) := by
  have path : PlainName (batch.benchpath ++ '/' :: batch.miniApp) :=
    plain.benchpath.append (.cons (by decide) plain.miniApp)
  have reads : ∀ word : Text, PlainName word → word ≠ [] → word ∉ keywords →
      Line.Plain (.execute (word ++ ' ' :: batch.appParams)) := by
    intro word plainWord filled free
    refine ⟨?_, List.append_ne_nil_of_left_ne_nil filled _, fun c head => ?_, ?_⟩
    · have params := plain.appParams
      simp [plainWord.notMem (c := '\n') (by decide), params]
    · obtain ⟨first, rest, rfl⟩ := List.exists_cons_of_ne_nil filled
      obtain rfl := Option.some_inj.mp head
      have begins := plainWord first List.mem_cons_self
      constructor <;> rintro rfl <;> exact absurd begins (by decide)
    · rwa [firstWord_append (plainWord.notMem (by decide))]
  unfold Batch.command getBenchPath
  split
  · refine reads _ path (by simp) fun member => ?_
    have slashes : ∀ word ∈ keywords, '/' ∉ word := by decide +kernel
    exact slashes _ member (by simp)
  · exact reads "None".toList (by decide) (by decide) (by decide +kernel)

/-- The script of an experiment with plain names is plain. -/
theorem Plain.script (plain : batch.Plain) (files : Files) :
    ∀ statement ∈ batch.script (getBenchPath files batch.benchpath batch.miniApp),
      statement.Plain := by
  have index : ' ' ∉ ['i'] ∧ '\n' ∉ ['i'] := by decide
  have library : PlainName batch.library :=
    (plain.bpdir.append (.cons (by decide) plain.libpath)).append (by decide)
  have rounds : ∀ line ∈ batch.iterationLines (getBenchPath files batch.benchpath batch.miniApp),
      line.Plain := by
    unfold iterationLines
    rw [List.forall_mem_cons, List.forall_mem_cons]
    refine ⟨⟨by decide, plain.papiWord⟩, trivial, fun line member => ?_⟩
    obtain ⟨round, among, here⟩ := List.mem_flatMap.mp member
    have lines : ∀ line ∈ batch.roundLines (getBenchPath files batch.benchpath batch.miniApp) round,
        line.Plain := by
      unfold roundLines
      simp only [List.forall_mem_cons]
      exact ⟨plain_assign (by decide) (plainName_papiRounds among) _,
        plain_assign (by decide) library _, plain.command files, trivial,
        fun _ member => absurd member List.not_mem_nil⟩
    exact lines line here
  unfold Batch.script
  refine List.forall_mem_append.mpr ⟨fun statement member => ?_, ?_⟩
  · obtain ⟨line, among, rfl⟩ := List.mem_map.mp member
    exact plain.header line among
  · simp only [List.forall_mem_cons]
    refine ⟨⟨index, ?_⟩, trivial, ⟨index, rounds⟩, trivial, fun _ member =>
      absurd member List.not_mem_nil⟩
    rw [List.forall_mem_singleton]
    exact plain.papiWord

/-- What `CreateExperimentBatch` writes for plain names is the text of the script. -/
theorem readScript_created (plain : batch.Plain) {files written : Files}
    (created : batch.createExperimentBatch files = some written) :
    ∃ text, written batch.shfileN = some text ∧
      readScript text = some (batch.script (getBenchPath files batch.benchpath batch.miniApp)) := by
  unfold createExperimentBatch at created
  split at created
  · cases created
  · cases created
    exact ⟨_, if_pos rfl, readScript_scriptText (plain.script files)⟩

/-- The script that `CreateExperimentBatch` writes can be read, and running it leaves in the file of
each iteration exactly what its own runs gathered, one for each round of counters of the platform, in
the order of the rounds and each in the environment of its round, whatever the file held before. The
tables of the experiment are removed, and with those of a whole application also the tables of its
parallel regions, whose names its pattern fits; no other file changes. The parameters of the
application have nothing in them that the shell expands, and the application writes no files of its
own. -/
theorem createExperimentBatch_files (plain : batch.Plain) {files written : Files}
    (created : batch.createExperimentBatch files = some written) (report : Report)
    (environment : Text → Option Text) (runs : Nat) :
    ∃ text script, written batch.shfileN = some text ∧ readScript text = some script ∧
      let final := runScript (perfcntrs report) ⟨written, environment, fun _ => [], runs, 0⟩ script
      (∀ iteration < batch.iterations, final.files (batch.outputFile iteration) =
        (batch.iterationReports report environment runs
          (getBenchPath files batch.benchpath batch.miniApp) iteration).foldl takeReport none) ∧
      ∀ name, (∀ iteration < batch.iterations, name ≠ batch.outputFile iteration) →
        ((∃ middle, '/' ∉ middle ∧ name = batch.runName ++ '.' :: (middle ++ ".csv".toList)) →
          final.files name = none) ∧
        ((∀ middle, '/' ∉ middle → name ≠ batch.runName ++ '.' :: (middle ++ ".csv".toList)) →
          final.files name = written name) := by
  obtain ⟨text, held, read⟩ := readScript_created plain created
  exact ⟨text, _, held, read, runScript_files batch report _ _⟩

/-- An experiment with two threads and three iterations. -/
def matrixmul : Batch where
  miniApp := "matrixmul".toList
  nthreads := 2
  barriers := true
  iterations := 3
  toolOutPath := "tmp/matrixmul.2t".toList
  outSuffix := []
  runningOn := .aarch64
  debug := false
  dryRun := false
  bpdir := ['.']
  libpath := "barrierpoint-libs".toList
  benchpath := "./benchmarks".toList
  appParams := "64".toList

theorem plain_matrixmul : matrixmul.Plain :=
  ⟨by decide, by decide, by decide, by decide, by decide, by decide, by decide⟩

/-- Runs whose counters gather one line each: the number of the run. -/
def numberedRuns : Report := fun runs _ _ => (some (decimal runs ++ ['\n']), 0)

/-- An older run has left a file of counters. -/
def leftover : Files := fun name => if name = matrixmul.outputFile 0 then some ['0'] else none

theorem createExperimentBatch_files_matrixmul : ∃ written,
    matrixmul.createExperimentBatch leftover = some written ∧
      ∃ text script, written matrixmul.shfileN = some text ∧ readScript text = some script ∧
        (runScript (perfcntrs numberedRuns) ⟨written, fun _ => none, fun _ => [], 0, 0⟩ script).files
          (matrixmul.outputFile 0) = some "0\n1\n".toList := by
  have created : matrixmul.createExperimentBatch leftover = some _ := rfl
  obtain ⟨text, script, held, read, gathered, -⟩ :=
    createExperimentBatch_files plain_matrixmul created numberedRuns (fun _ => none) 0
  have lines : (matrixmul.iterationReports numberedRuns (fun _ => none) 0
      (getBenchPath leftover matrixmul.benchpath matrixmul.miniApp) 0).foldl takeReport none =
        some "0\n1\n".toList := by decide +kernel
  exact ⟨_, created, text, script, held, read, (gathered 0 (by decide)).trans lines⟩

end Batch

end BarrierPoint
