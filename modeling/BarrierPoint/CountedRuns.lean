/-
This file follows one run of the application under the preloaded library, from
the environment that it is started in to the text that it appends to its output
file. The variables select the mode and name the events, PAPI has a code for
each event, and at the end of the region of interest every thread prints its
phases. What is printed for a run is what its threads have counted, whether the
phases are those of the parallel regions or there is one for the whole region of
interest. The lines of different threads come in any order that keeps those of
each thread in theirs, as long as the buffers of the output streams keep the
lines whole.
-/

import BarrierPoint.BatchScript
import BarrierPoint.CheckRows
import BarrierPoint.OutputStreams
import BarrierPoint.PrintedPhases

namespace BarrierPoint

open Library

/-! ### The environment -/

/-- `isspace`. -/
def isSpace (c : Char) : Bool := c ∈ [' ', '\t', '\n', '\x0b', '\x0c', '\r']

/-- The value of a digit of a numeral, also of one in a base beyond ten. -/
def digitValue (c : Char) : Nat :=
  if c.isDigit then c.toNat - '0'.toNat
  else if c.isAlpha then c.toLower.toNat - 'a'.toNat + 10
  else 36

/-- The digits of a numeral in a base, up to the first character that is none. -/
def readDigits (base : Nat) (text : Text) : Nat :=
  (text.takeWhile (digitValue · < base)).foldl (fun number c => number * base + digitValue c) 0

/-- A numeral whose beginning tells its base. -/
def readNumeral : Text → Nat
  | '0' :: c :: text => if c = 'x' ∨ c = 'X' then readDigits 16 text else readDigits 8 (c :: text)
  | text => readDigits 10 text

/-- `strtol` with base 0. -/
def strtol (text : Text) : Int :=
  match text.dropWhile isSpace with
  | '-' :: text => max (-2 ^ 63) (-readNumeral text)
  | '+' :: text => min (2 ^ 63 - 1) (readNumeral text)
  | text => min (2 ^ 63 - 1) (readNumeral text)

/-- `env2int`. -/
def env2int (environment : Text → Option Text) (name : Text) : Int :=
  match environment name with
  | some value => (strtol value).bmod (2 ^ 32)
  | none => 0

/-- The mode that the variables select. -/
def Environment.ofVariables (environment : Text → Option Text) : Environment where
  bpPerfcntrs := env2int environment "BP_PERFCNTRS".toList
  bpPerfcntrsOmpparallel := env2int environment "BP_PERFCNTRS_OMPPARALLEL".toList

/-- `strtok` with a comma. -/
def commaTokens (text : Text) : List Text := (text.splitOn ',').filter (· ≠ [])

/-- The events that the variables name. -/
def eventNames (environment : Text → Option Text) : List Text :=
  commaTokens ((environment Batch.eventsVariable).getD "PAPI_TOT_INS,PAPI_TOT_CYC".toList)

/-! ### The events -/

/-- `PAPI`: how many counters there are, and the codes and names of the events. -/
structure Papi where
  numCounters : Int
  eventNameToCode : Text → Option Int
  eventCodeToName : Int → Option Text

/-- `MAX_CNTRS`. -/
def maxCntrs : Nat := 6

namespace Papi

/-- `BP_AVAILABLE_CNTRS`. -/
def available (papi : Papi) : Int := min papi.numCounters maxCntrs

/-- `event_codes`: too many events, or one that PAPI does not know, end the application. -/
def eventCodes (papi : Papi) (names : List Text) : Option (List Int) :=
  names.foldlM (fun codes name => do
    guard ((codes.length : Int) ≠ papi.available)
    return codes ++ [← papi.eventNameToCode name]) []

/-- PAPI can count some events together, and a code stands for the event that it was looked up
for. -/
structure Counts (papi : Papi) (names : List Text) : Prop where
  room : (names.length : Int) ≤ papi.available
  named : ∀ name ∈ names, ∃ code, papi.eventNameToCode name = some code ∧
    papi.eventCodeToName code = some name

variable {papi : Papi}

/-- The codes of the events are looked up one after the other. -/
theorem foldlM_eventCodes {names : List Text}
    (named : ∀ name ∈ names, ∃ code, papi.eventNameToCode name = some code ∧
      papi.eventCodeToName code = some name) : ∀ {codes : List Int},
    ((codes.length + names.length : Nat) : Int) ≤ papi.available → ∃ more,
      names.foldlM (fun codes name => do
        guard ((codes.length : Int) ≠ papi.available)
        return codes ++ [← papi.eventNameToCode name]) codes = some (codes ++ more) ∧
      more.mapM papi.eventCodeToName = some names := by
  induction names with
  | nil => exact fun _ => ⟨[], by simp, rfl⟩
  | cons name names inductionHypothesis =>
    intro codes room
    rw [List.forall_mem_cons] at named
    obtain ⟨⟨code, looked, same⟩, named⟩ := named
    rw [List.length_cons] at room
    obtain ⟨more, ran, back⟩ := @inductionHypothesis named (codes ++ [code]) (by
      rw [List.length_append, List.length_singleton]
      omega)
    refine ⟨code :: more, ?_, by simp [same, back]⟩
    have apart : (codes.length : Int) ≠ papi.available := by omega
    rw [List.foldlM_cons]
    simpa [apart, looked] using ran

theorem Counts.eventCodes {names : List Text} (counts : papi.Counts names) :
    ∃ codes, papi.eventCodes names = some codes ∧
      codes.mapM papi.eventCodeToName = some names := by
  obtain ⟨more, ran, back⟩ := @foldlM_eventCodes papi names counts.named []
    (by simpa using counts.room)
  exact ⟨more, ran, back⟩

end Papi

/-! ### A run of the application -/

variable {Mark : Type}

/-- A run of an application with one region of interest: its calls into the OpenMP runtime, what its
threads count of each event between two calls, the size of the buffers of their output streams, and
the order in which they print the texts that they have to print. -/
structure AppRun (Mark : Type) where
  pid : Nat
  before : List (OmpCall Mark)
  opening : Mark
  inside : List (OmpCall Mark)
  closing : Mark
  outside : ∀ call ∈ before, PerfCntrs.LeavesRoi call
  within : ∀ call ∈ inside, PerfCntrs.LeavesRoi call
  count : Text → Nat → Option (Reading Mark) → Nat
  bufferSize : Nat
  printing : List Text → List OutputStep

namespace AppRun

def calls (app : AppRun Mark) : List (OmpCall Mark) :=
  PerfCntrs.untilEnd app.before app.inside app.opening ++ PerfCntrs.ending app.closing

/-- The lines of a phase, one for each event. -/
def phaseText (app : AppRun Mark) (names : List Text) (line : PhaseLine Mark) : Text :=
  names.flatMap fun name => name ++
    '[' :: decimal line.tid ++ ']' ::
    '[' :: decimal app.pid ++ ']' ::
    '[' :: decimal line.bid ++ ']' ::
    '=' :: decimal (app.count name line.tid line.values) ++ ['\n']

/-- The texts of the threads of a team. -/
def threadTexts (app : AppRun Mark) (names : List Text) (team : Nat)
    (lines : List (PhaseLine Mark)) : List Text :=
  (List.range team).map fun tid =>
    (lines.filter fun line => line.tid = tid).flatMap (app.phaseText names)

/-- What reaches the output file when the threads print their texts. -/
def print (app : AppRun Mark) (texts : List Text) : Option Text :=
  (run (OutputState.step app.bufferSize texts) OutputState.start (app.printing texts)).map
    fun final => final.file.map Prod.snd

/-- What the library appends to the output file, if anything, and the status that the run ends
with: its own, or that of an exit of the library. -/
def report (gomp : Gomp) (papi : Papi) (app : AppRun Mark) (environment : Text → Option Text) :
    Option Text × Nat :=
  let mode := Environment.ofVariables environment
  match if mode.bpPerfcntrs ≠ 0 then papi.eventCodes (eventNames environment) else some [] with
  | none => (none, 1)
  | some codes =>
      match run (PerfCntrs.step gomp mode 2) PerfCntrs.new app.calls,
        codes.mapM papi.eventCodeToName with
      | some final, some names =>
          if final.dumps = 0 then (none, 0)
          else match app.print (app.threadTexts names (gomp.team .initial).length final.outfile) with
            | some text => (some text, 0)
            | none => (none, 2)
      | _, _ => (none, 2)

/-- The calls that end phases: those in the region of interest, in the mode that stores the counters
for each region. -/
def phaseCalls (mode : Environment) (app : AppRun Mark) : List (OmpCall Mark) :=
  if mode.bpPerfcntrsOmpparallel ≠ 0 then app.inside else []

/-- The readings of a thread, one for each of its phases. -/
def readings (gomp : Gomp) (mode : Environment) (app : AppRun Mark) (thread : Nat) :
    List (Reading Mark) :=
  phases (some app.opening)
    (PerfCntrs.marksOf gomp thread (app.phaseCalls mode) ++ [app.closing])

/-- The reading of a thread of the pool in one of its phases. -/
def reading (gomp : Gomp) (mode : Environment) (app : AppRun Mark) (tid bid : Nat) :
    Option (Reading Mark) :=
  (gomp.team .initial)[tid]?.bind fun thread => (app.readings gomp mode thread)[bid]?

/-- What a run prints: what each thread of the pool has counted in each of its phases. -/
def papiRun (gomp : Gomp) (mode : Environment) (app : AppRun Mark) : PapiRun where
  pid := app.pid
  order := List.range (gomp.team .initial).length
  value stat tid bid := app.count ("PAPI_".toList ++ stat) tid (app.reading gomp mode tid bid)

/-- Every thread of the pool has the same number of phases, and they fit into the array. -/
structure Even (gomp : Gomp) (mode : Environment) (barriers : Nat) (app : AppRun Mark) : Prop where
  fits : barriers ≤ maxParallelPhases + 1
  alike : ∀ thread ∈ gomp.team .initial, (app.readings gomp mode thread).length = barriers

end AppRun

/-- The texts that the threads of a run have to print. -/
def PapiRun.texts (run : PapiRun) (barriers : Nat) (stats : List Text) : List Text :=
  run.order.map fun tid => (run.threadSamples barriers stats tid).flatMap Sample.line

/-- The threads of a run print to the end, and no buffer tears a line of theirs. -/
structure AppRun.Delivers (gomp : Gomp) (mode : Environment) (barriers : Nat) (stats : List Text)
    (app : AppRun Mark) : Prop where
  filled : 0 < app.bufferSize
  keeps : KeepsLines app.bufferSize ((app.papiRun gomp mode).texts barriers stats)
  finishes : ∃ final,
    run (OutputState.step app.bufferSize ((app.papiRun gomp mode).texts barriers stats))
      OutputState.start (app.printing ((app.papiRun gomp mode).texts barriers stats)) = some final ∧
    final.Finished ((app.papiRun gomp mode).texts barriers stats)

/-! ### What is printed -/

namespace PerfCntrs

variable {gomp : Gomp} {environment : Environment} {depth : Nat}

/-- In the mode for the whole region of interest no phase ends in it. -/
theorem Opened.run_whole (enabled : environment.bpPerfcntrs ≠ 0)
    (whole : environment.bpPerfcntrsOmpparallel = 0) (inside : List (OmpCall Mark)) :
    ∀ {state : PerfCntrs Mark}, state.Opened environment → state.roiBp = some 1 →
      (∀ call ∈ inside, LeavesRoi call) →
      ∃ next, Library.run (step gomp environment (depth + 2)) state inside = some next ∧
        next.Opened environment ∧ next.outfile = state.outfile ∧
        next.threads = state.threads := by
  induction inside with
  | nil => exact fun holds _ _ => ⟨_, rfl, holds, rfl, rfl⟩
  | cons call inside inductionHypothesis =>
    intro state holds roi leaves
    rw [List.forall_mem_cons] at leaves
    have one : ∃ next, step gomp environment (depth + 2) state call = some next ∧
        Records gomp environment call state next := by
      cases call with
      | setenv => exact leaves.1.elim
      | parallel => exact holds.parallel enabled
      | barrier => exact holds.barrier enabled (by rw [readRoi, roi]; rfl)
    obtain ⟨next, stepped, spec⟩ := one
    obtain ⟨final, ran, opened, file, threads⟩ :=
      inductionHypothesis spec.opened (spec.roiBp_eq.trans roi) leaves.2
    refine ⟨final, ?_, opened, file.trans spec.outfile_eq, threads.trans (funext fun thread => ?_)⟩
    · rw [Library.run, stepped]
      exact ran
    · rw [spec.threads_eq, if_neg (not_not.mpr whole)]

/-- Up to the end of the region of interest, in the mode for the whole of it. -/
theorem run_untilEnd_whole {before inside : List (OmpCall Mark)} (opening : Mark)
    (enabled : environment.bpPerfcntrs ≠ 0) (whole : environment.bpPerfcntrsOmpparallel = 0)
    (outside : ∀ call ∈ before, LeavesRoi call) (within : ∀ call ∈ inside, LeavesRoi call) :
    ∃ state, Library.run (step gomp environment (depth + 2)) new (untilEnd before inside opening) =
      some state ∧ Recorded gomp environment opening [] state := by
  have first : Unopened { (new : PerfCntrs Mark) with roiBp := some 1 } := ⟨rfl, rfl, rfl, rfl, rfl⟩
  have opens : gompBarrier gomp environment .initial opening (depth + 2)
      { (new : PerfCntrs Mark) with roiBp := some 1 } = _ := first.opens rfl rfl enabled
  obtain ⟨state, ran, opened, file, threads⟩ := Opened.run_whole enabled whole inside
    (opened_opening environment (gomp.team .initial) opening first.measuring_eq) rfl within
  have started : ∀ thread ∈ gomp.team .initial,
      state.threads thread = (ThreadCounters.new.create).start opening := fun thread member =>
    (congrFun threads thread).trans (if_pos member)
  refine ⟨state, ?_, opened, fun thread member => ?_, fun thread member => ?_, fun thread => ?_, file⟩
  · rw [untilEnd, run_append, Unopened.run before outside unopened_new rfl, Option.bind_some,
      Library.run, step_setenv, Option.bind_some, Library.run, step_barrier, opens]
    exact ran
  · rw [started thread member]
    rfl
  · rw [started thread member]
    exact ThreadCounters.kept_start opening rfl
  · by_cases member : thread ∈ gomp.team .initial
    · rw [started thread member]
      exact (ThreadCounters.kept_start opening rfl).inBounds
    · rw [threads, show (PerfCntrs.opening environment (gomp.team .initial) opening
        { (new : PerfCntrs Mark) with roiBp := some 1 }).threads thread = ThreadCounters.new from
          if_neg member]
      exact ThreadCounters.kept_new.inBounds

end PerfCntrs

/-- What a thread prints, in either mode. -/
theorem ThreadCounters.Kept.lines_eq_of_whole {began : Option Mark} {marks : List Mark}
    {counters : ThreadCounters Mark} {ompParallel : Int} (kept : Kept began marks counters)
    (whole : ompParallel = 0 → marks = []) (fits : marks.length ≤ maxParallelPhases)
    (closing : Mark) (tid : Nat) : counters.lines ompParallel closing tid =
      (phases began (marks ++ [closing])).zipIdx.map fun (reading, bid) =>
        ⟨tid, bid, some reading⟩ := by
  by_cases regions : ompParallel = 0
  · obtain rfl := whole regions
    rw [lines, storedIndices, if_neg (not_not.mpr regions), kept.count_eq, kept.since_eq]
    rfl
  · exact kept.lines_eq regions fits closing tid

namespace AppRun

variable {gomp : Gomp} {mode : Environment} {papi : Papi} {app : AppRun Mark}
  {environment : Text → Option Text} {barriers : Nat}

/-- When the region of interest is about to end, the threads hold the phases of the mode. -/
theorem recorded_untilEnd (app : AppRun Mark) (enabled : mode.bpPerfcntrs ≠ 0) : ∃ state,
    run (PerfCntrs.step gomp mode 2) PerfCntrs.new
        (PerfCntrs.untilEnd app.before app.inside app.opening) = some state ∧
      PerfCntrs.Recorded gomp mode app.opening (app.phaseCalls mode) state := by
  by_cases regions : mode.bpPerfcntrsOmpparallel ≠ 0
  · rw [phaseCalls, if_pos regions]
    exact @PerfCntrs.run_untilEnd _ gomp mode 0 _ _ app.opening enabled regions app.outside app.within
  · rw [phaseCalls, if_neg regions]
    exact @PerfCntrs.run_untilEnd_whole _ gomp mode 0 _ _ app.opening enabled (not_not.mp regions)
      app.outside app.within

theorem length_readings (app : AppRun Mark) (thread : Nat) :
    (app.readings gomp mode thread).length =
      (PerfCntrs.marksOf gomp thread (app.phaseCalls mode)).length + 1 := by
  rw [readings, length_phases, List.length_append]
  rfl

/-- The lines of one thread, by the numbers of its phases. -/
theorem map_zipIdx_readings (readings : List (Reading Mark)) (tid : Nat) :
    (readings.zipIdx.map fun entry => (⟨tid, entry.2, some entry.1⟩ : PhaseLine Mark)) =
      (List.range readings.length).map fun bid => ⟨tid, bid, readings[bid]?⟩ := by
  refine List.ext_getElem (by simp) fun bid inside other => ?_
  simp

/-- The run goes through, and every thread of the pool prints its readings. -/
theorem run_calls (even : app.Even gomp mode barriers) (enabled : mode.bpPerfcntrs ≠ 0) :
    ∃ final, run (PerfCntrs.step gomp mode 2) PerfCntrs.new app.calls = some final ∧
      final.dumps ≠ 0 ∧
      final.outfile = (List.range (gomp.team .initial).length).flatMap fun tid =>
        (List.range barriers).map fun bid => ⟨tid, bid, app.reading gomp mode tid bid⟩ := by
  obtain ⟨state, ran, holds⟩ := @recorded_untilEnd _ gomp mode app enabled
  have ends : run (PerfCntrs.step gomp mode (0 + 2)) state (PerfCntrs.ending app.closing) = _ :=
    PerfCntrs.run_ending enabled holds
  refine ⟨_, Eq.trans ?_ ends, Nat.succ_ne_zero state.dumps, ?_⟩
  · rw [calls, run_append, ran, Option.bind_some]
  · rw [PerfCntrs.outfile_closing holds]
    refine flatMap_zipIdx fun tid thread placed => ?_
    have inPool := List.mem_of_getElem? placed
    refine Eq.trans ((holds.kept _ inPool).lines_eq_of_whole (fun whole => ?_) ?_ app.closing tid) ?_
    · rw [phaseCalls, if_neg (not_not.mpr (holds.opened.ompParallel_eq.symm.trans whole))]
      rfl
    · have counted := @length_readings _ gomp mode app thread
      rw [even.alike _ inPool] at counted
      have fits := even.fits
      omega
    · refine (map_zipIdx_readings (app.readings gomp mode thread) tid).trans ?_
      rw [even.alike thread inPool]
      simp only [reading, placed, Option.bind_some]

/-- The lines of a phase are those of its samples. -/
theorem phaseText_eq (app : AppRun Mark) (stats : List Text) (tid bid : Nat)
    (values : Option (Reading Mark)) :
    app.phaseText (stats.map ("PAPI_".toList ++ ·)) ⟨tid, bid, values⟩ =
      (stats.map fun stat => (⟨stat, tid, app.pid, bid,
        app.count ("PAPI_".toList ++ stat) tid values⟩ : Sample)).flatMap Sample.line := by
  rw [phaseText, List.flatMap_map, List.flatMap_map]
  refine List.flatMap_congr fun stat _ => ?_
  rw [Sample.line_eq]
  generalize "PAPI_".toList = start
  simp only [List.append_assoc, List.cons_append]

/-- The texts that the threads print are those of their samples. -/
theorem threadTexts_eq (app : AppRun Mark) (stats : List Text) :
    app.threadTexts (stats.map ("PAPI_".toList ++ ·)) (gomp.team .initial).length
      ((List.range (gomp.team .initial).length).flatMap fun tid =>
        (List.range barriers).map fun bid => ⟨tid, bid, app.reading gomp mode tid bid⟩) =
      (app.papiRun gomp mode).texts barriers stats := by
  refine List.map_congr_left fun tid member => ?_
  have owned : ∀ other, ∀ line ∈ (List.range barriers).map fun bid =>
      (⟨other, bid, app.reading gomp mode other bid⟩ : PhaseLine Mark), line.tid = other := by
    intro other line inside
    obtain ⟨bid, -, rfl⟩ := List.mem_map.mp inside
    rfl
  rw [filter_flatMap_eq_of_owner List.nodup_range owned, if_pos member, List.flatMap_map,
    PapiRun.threadSamples, List.flatMap_assoc]
  refine List.flatMap_congr fun bid _ => ?_
  rw [phaseText_eq]
  rfl

end AppRun

/-- Threads whose lines are kept whole print the samples of the run, in an order that keeps those of
each thread in theirs. -/
theorem PapiRun.exists_interleaves {run : PapiRun} {pool barriers size : Nat} {stats : List Text}
    (order : run.order = List.range pool) (named : ∀ stat ∈ stats, Sample.IsCounter stat)
    (filled : 0 < size) (keeps : KeepsLines size (run.texts barriers stats))
    {actions : List OutputStep} {final : OutputState}
    (ran : Library.run (OutputState.step size (run.texts barriers stats)) OutputState.start actions =
      some final)
    (finished : final.Finished (run.texts barriers stats)) :
    ∃ samples, final.file.map Prod.snd = samples.flatMap Sample.line ∧
      run.Interleaves barriers stats samples := by
  have solid : ∀ tid, ∀ sample ∈ run.threadSamples barriers stats tid,
      sample.tid = tid ∧ IsLine sample.line ∧ Sample.parse sample.line = some sample := by
    intro tid sample member
    obtain ⟨bid, -, stat, counted, rfl⟩ := mem_threadSamples.mp member
    exact ⟨rfl, Sample.isLine_line (named stat counted), Sample.parse_line (named stat counted)⟩
  have ends : EndsLines (run.texts barriers stats) := by
    intro text member
    obtain ⟨tid, -, rfl⟩ := List.mem_map.mp member
    rw [List.flatMap_def]
    refine getLast?_flatten fun line printed => ?_
    obtain ⟨sample, inside, rfl⟩ := List.mem_map.mp printed
    exact (solid tid sample inside).2.1
  let items : Nat → List Sample := fun tid =>
    if tid ∈ run.order then run.threadSamples barriers stats tid else []
  have whole : ∀ tid, textOf tid final.file = (items tid).flatMap Sample.line := by
    intro tid
    rw [(OutputState.consistent_run filled ran).textOf_eq finished, textAt, texts, order,
      List.getElem?_map, show items tid = if tid ∈ run.order then _ else [] from rfl, order]
    rcases Nat.lt_or_ge tid pool with inside | beyond
    · rw [List.getElem?_range inside, if_pos (List.mem_range.mpr inside)]
      rfl
    · rw [List.getElem?_eq_none (by rw [List.length_range]; exact beyond),
        if_neg (by rw [List.mem_range]; exact Nat.not_lt.mpr beyond)]
      rfl
  refine @exists_items _ Sample.line Sample.parse Sample.tid items (fun tid sample member => ?_) _
    (OutputState.changesAtBreaks_run filled ends keeps ran) whole
  replace member : sample ∈ if tid ∈ run.order then run.threadSamples barriers stats tid else [] :=
    member
  split at member
  · exact solid tid sample member
  · cases member

namespace AppRun

variable {gomp : Gomp} {mode : Environment} {papi : Papi} {app : AppRun Mark}
  {environment : Text → Option Text} {barriers : Nat}

/-- A run in an environment that enables the counters, with events that PAPI can count, prints what
its threads have counted, and ends well. -/
theorem report_eq (even : app.Even gomp (Environment.ofVariables environment) barriers)
    (enabled : (Environment.ofVariables environment).bpPerfcntrs ≠ 0) {stats : List Text}
    (delivers : app.Delivers gomp (Environment.ofVariables environment) barriers stats)
    (names : eventNames environment = stats.map ("PAPI_".toList ++ ·))
    (named : ∀ stat ∈ stats, Sample.IsCounter stat)
    (counts : papi.Counts (eventNames environment)) : ∃ samples,
    app.report gomp papi environment = (some (samples.flatMap Sample.line), 0) ∧
      (app.papiRun gomp (Environment.ofVariables environment)).Interleaves barriers stats samples := by
  obtain ⟨codes, looked, back⟩ := counts.eventCodes
  obtain ⟨final, ran, dumped, printed⟩ := run_calls even enabled
  obtain ⟨state, reached, finished⟩ := delivers.finishes
  obtain ⟨samples, wrote, interleaves⟩ := PapiRun.exists_interleaves rfl named delivers.filled
    delivers.keeps reached finished
  refine ⟨samples, ?_, interleaves⟩
  rw [report]
  simp only [if_pos enabled, looked, ran, back, if_neg dumped, printed]
  rw [names, threadTexts_eq, print, reached, Option.map_some, wrote]

end AppRun

/-! ### The runs of a batch -/

/-- A variable that the script sets as a switch. -/
theorem env2int_switch {environment : Text → Option Text} {name : Text} {on : Bool}
    (held : environment name = some (if on then ['1'] else ['0'])) :
    env2int environment name = if on then 1 else 0 := by
  unfold env2int
  rw [held]
  cases on <;> decide

namespace Batch

variable {batch : Batch} {environment : Text → Option Text} {iteration : Nat} {round : Text}

/-- The settings of the header reach every run. -/
theorem runEnvironment_settings {name : Text} (free : name ∉ perRun) :
    batch.runEnvironment environment iteration round name = batch.settings environment name := by
  rw [perRun, List.mem_cons, not_or] at free
  rw [runEnvironment, overlay_of_notMem free.2, overlay_of_notMem (by simpa using free.1)]

theorem runEnvironment_ompNumThreads :
    batch.runEnvironment environment iteration round "OMP_NUM_THREADS".toList =
      some (decimal batch.nthreads) := by
  rw [runEnvironment_settings (by decide)]
  rfl

theorem runEnvironment_events :
    batch.runEnvironment environment iteration round eventsVariable = some round := rfl

/-- The mode of an experiment. -/
def mode (batch : Batch) : Environment := ⟨1, if batch.barriers then 1 else 0⟩

theorem ofVariables_runEnvironment :
    Environment.ofVariables (batch.runEnvironment environment iteration round) = batch.mode := by
  have enabled : env2int (batch.runEnvironment environment iteration round)
      "BP_PERFCNTRS".toList = 1 := by
    refine @env2int_switch _ _ true ?_
    rw [runEnvironment_settings (by decide)]
    rfl
  have regions : env2int (batch.runEnvironment environment iteration round)
      "BP_PERFCNTRS_OMPPARALLEL".toList = if batch.barriers then 1 else 0 := by
    refine env2int_switch ?_
    rw [runEnvironment_settings (by decide)]
    rfl
  rw [Environment.ofVariables, enabled, regions, mode]

/-- The events of a round are those that its lines are printed for. -/
theorem eventNames_runEnvironment {platform : Platform} (member : round ∈ papiRounds platform) :
    eventNames (batch.runEnvironment environment iteration round) =
      (roundStats round).map ("PAPI_".toList ++ ·) := by
  rw [eventNames, runEnvironment_events, Option.getD_some]
  revert round
  cases platform <;> decide +kernel

end Batch

/-- The machine that the experiments run on: `libgomp`, which makes the pool as large as it is told,
PAPI, and what the runs of the applications do. -/
structure Machine (Mark : Type) where
  gomp : (Text → Option Text) → Gomp
  papi : Papi
  app : Nat → (Text → Option Text) → Text → AppRun Mark
  pool : ∀ environment nthreads, 0 < nthreads →
    environment "OMP_NUM_THREADS".toList = some (decimal nthreads) →
      ((gomp environment).team .initial).length = nthreads

namespace Machine

variable {machine : Machine Mark} {batch : Batch} {environment : Text → Option Text}
  {bench : Option Text} {runs iteration index : Nat} {round : Text}

/-- What the counters of a run gather. -/
def report (machine : Machine Mark) : Report := fun runs environment command =>
  (machine.app runs environment command).report (machine.gomp environment) machine.papi environment

/-- The run of a round in an iteration of a batch, as it prints its counters. -/
def papiRun (machine : Machine Mark) (batch : Batch) (environment : Text → Option Text)
    (bench : Option Text) (runs iteration index : Nat) (round : Text) : PapiRun :=
  let environment := batch.runEnvironment environment iteration round
  (machine.app (runs + iteration * (papiRounds batch.runningOn).length + index) environment
    (batch.command bench)).papiRun (machine.gomp environment) batch.mode

/-- The runs of an iteration, one for each round. -/
def iterationRuns (machine : Machine Mark) (batch : Batch) (environment : Text → Option Text)
    (bench : Option Text) (runs iteration : Nat) : List PapiRun :=
  (papiRounds batch.runningOn).mapIdx fun index round =>
    machine.papiRun batch environment bench runs iteration index round

/-- PAPI can count the events of each round, and every run of the batch has the same phases for all
threads and keeps the lines that they print whole. -/
structure Measures (machine : Machine Mark) (batch : Batch) (environment : Text → Option Text)
    (bench : Option Text) (runs barriers : Nat) : Prop where
  counts : ∀ round ∈ papiRounds batch.runningOn,
    machine.papi.Counts ((roundStats round).map ("PAPI_".toList ++ ·))
  even : ∀ iteration < batch.iterations, ∀ (index : Nat) round,
    (papiRounds batch.runningOn)[index]? = some round →
      (machine.app (runs + iteration * (papiRounds batch.runningOn).length + index)
        (batch.runEnvironment environment iteration round) (batch.command bench)).Even
          (machine.gomp (batch.runEnvironment environment iteration round)) batch.mode barriers
  delivers : ∀ iteration < batch.iterations, ∀ (index : Nat) round,
    (papiRounds batch.runningOn)[index]? = some round →
      (machine.app (runs + iteration * (papiRounds batch.runningOn).length + index)
        (batch.runEnvironment environment iteration round) (batch.command bench)).Delivers
          (machine.gomp (batch.runEnvironment environment iteration round)) batch.mode barriers
          (roundStats round)

variable {barriers : Nat}

/-- What the counters of a run of the batch gather, and the status of the run. -/
theorem Measures.report_eq (measures : machine.Measures batch environment bench runs barriers)
    (early : iteration < batch.iterations)
    (held : (papiRounds batch.runningOn)[index]? = some round) : ∃ samples,
    machine.report (runs + iteration * (papiRounds batch.runningOn).length + index)
      (batch.runEnvironment environment iteration round) (batch.command bench) =
        (some (samples.flatMap Sample.line), 0) ∧
      (machine.papiRun batch environment bench runs iteration index round).Interleaves barriers
        (roundStats round) samples := by
  have even := measures.even iteration early index round held
  have delivers := measures.delivers iteration early index round held
  have member := List.mem_of_getElem? held
  have names := @Batch.eventNames_runEnvironment batch environment iteration _ _ member
  rw [← @Batch.ofVariables_runEnvironment batch environment iteration round] at even delivers
  have enabled : (Environment.ofVariables
      (batch.runEnvironment environment iteration round)).bpPerfcntrs ≠ 0 := by
    rw [Batch.ofVariables_runEnvironment]
    exact one_ne_zero
  have gathered := AppRun.report_eq even enabled delivers names (papiRounds_spec member).2.2
    (names ▸ measures.counts round member)
  rw [Batch.ofVariables_runEnvironment] at gathered
  exact gathered

theorem Measures.endsWell (measures : machine.Measures batch environment bench runs barriers) :
    batch.EndsWell machine.report environment bench runs := by
  intro iteration early index round held
  obtain ⟨samples, gathered, -⟩ := measures.report_eq early held
  rw [gathered]

/-- The rounds with their runs. -/
theorem zip_iterationRuns : (papiRounds batch.runningOn).zip
    (machine.iterationRuns batch environment bench runs iteration) =
      (papiRounds batch.runningOn).mapIdx fun index round =>
        (round, machine.papiRun batch environment bench runs iteration index round) := by
  refine List.ext_getElem (by simp [iterationRuns]) fun index inside other => ?_
  simp [iterationRuns]

/-- The reports of an iteration, one for each of its runs. -/
theorem Measures.iterationReports_eq
    (measures : machine.Measures batch environment bench runs barriers)
    (early : iteration < batch.iterations) : ∃ parts,
    WrittenBy batch.runningOn barriers (machine.iterationRuns batch environment bench runs iteration)
      parts ∧
    batch.iterationReports machine.report environment runs bench iteration =
      parts.map fun samples => some (samples.flatMap Sample.line) := by
  have each : ∀ index, ∃ samples, ∀ round, (papiRounds batch.runningOn)[index]? = some round →
      machine.report (runs + iteration * (papiRounds batch.runningOn).length + index)
        (batch.runEnvironment environment iteration round) (batch.command bench) =
          (some (samples.flatMap Sample.line), 0) ∧
        (machine.papiRun batch environment bench runs iteration index round).Interleaves barriers
          (roundStats round) samples := by
    intro index
    cases held : (papiRounds batch.runningOn)[index]? with
    | none => exact ⟨[], fun _ same => nomatch same⟩
    | some round =>
      obtain ⟨samples, gathered⟩ := measures.report_eq early held
      exact ⟨samples, fun _ same => Option.some_inj.mp same ▸ gathered⟩
  choose samples spec using each
  refine ⟨(papiRounds batch.runningOn).mapIdx fun index _ => samples index, ?_, ?_⟩
  · rw [WrittenBy, zip_iterationRuns]
    refine List.forall₂_iff_get.mpr ⟨by simp, fun index inside other => ?_⟩
    rw [List.length_mapIdx] at inside
    rw [List.get_eq_getElem, List.get_eq_getElem, List.getElem_mapIdx, List.getElem_mapIdx]
    exact (spec index _ (List.getElem?_eq_getElem inside)).2
  · refine List.ext_getElem (by simp [Batch.iterationReports]) fun index inside other => ?_
    rw [Batch.iterationReports, List.length_mapIdx] at inside
    rw [List.getElem_map, List.getElem_mapIdx]
    simp only [Batch.iterationReports, List.getElem_mapIdx]
    rw [(spec index _ (List.getElem?_eq_getElem inside)).1]

end Machine

end BarrierPoint
