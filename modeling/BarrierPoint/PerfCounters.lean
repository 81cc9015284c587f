/-
This file models the library that is preloaded to gather the performance
counters: its wrappers of the two OpenMP entry points, and the functions that
start, record and stop the counters. The library's own OpenMP constructs call
the wrappers again, so a wrapper takes a bound on the depth of its calls. The
events that the counters count between two calls of the application are what
they read, so a reading is the pair of these calls. A call of the application
carries a mark that tells it from the others; calls do not overlap.
-/

import BarrierPoint.Library.Machine
import Mathlib.Data.List.Nodup

namespace BarrierPoint

open Library

/-! ### The OpenMP runtime -/

/-- A thread that calls into the OpenMP runtime, and what it is told by `omp_get_thread_num`,
`omp_get_level` and `omp_in_parallel`. The initial thread is thread 0. -/
structure Caller where
  thread : Nat
  threadNum : Nat
  level : Nat
  inParallel : Bool
  deriving DecidableEq, Repr

/-- The initial thread in serial code. -/
def Caller.initial : Caller where
  thread := 0
  threadNum := 0
  level := 0
  inParallel := false

/-- `libgomp`: the threads that run a region without a `num_threads` clause, by their thread
numbers. The thread that starts the region is the first of them. The team of a caller is the same
throughout a run: the application does not call `omp_set_num_threads`. -/
structure Gomp where
  team : Caller → List Nat
  first : ∀ caller, (team caller).head? = some caller.thread
  distinct : ∀ caller, (team caller).Nodup

/-! ### The state of the library -/

/-- `MAX_PARALLEL_PHASES`. -/
def maxParallelPhases : Nat := 25800

/-- What PAPI counted between two calls of the application. -/
structure Reading (Mark : Type) where
  began : Option Mark
  ended : Mark
  deriving DecidableEq, Repr

/-- The lines written for all counters of a phase. There is no reading behind the end of the array
of the phases. -/
structure PhaseLine (Mark : Type) where
  tid : Nat
  bid : Nat
  values : Option (Reading Mark)
  deriving DecidableEq, Repr

/-- The variables of a thread: the state of its event set, the call at which its counters were last
zero, and `event_values_pbarrier` with `perfc_omp_parallel_region_count`. The indices used on the
array are kept as well. -/
structure ThreadCounters (Mark : Type) where
  running : Bool
  since : Option Mark
  eventValuesPbarrier : Nat → Option (Reading Mark)
  regionCount : Nat
  accessed : List Nat

/-- The environment variables that select the mode. -/
structure Environment where
  bpPerfcntrs : Int
  bpPerfcntrsOmpparallel : Int

/-- The variables of the process, those of every thread, the variable `ROI_BP`, the output file, and
how often the results have been written. -/
structure PerfCntrs (Mark : Type) where
  roiBp : Option Int
  bpNumber : Int
  measuring : Bool
  insideRoi : Bool
  initialized : Bool
  bpPerfcntrs : Int
  ompParallel : Int
  started : Bool
  threads : Nat → ThreadCounters Mark
  outfile : List (PhaseLine Mark)
  dumps : Nat

variable {Mark : Type}

namespace ThreadCounters

def new : ThreadCounters Mark where
  running := false
  since := none
  eventValuesPbarrier := fun _ => none
  regionCount := 0
  accessed := []

/-- `PAPI_create_eventset` and `PAPI_add_event`. -/
def create (counters : ThreadCounters Mark) : ThreadCounters Mark :=
  { counters with running := false }

/-- `PAPI_start`, behind a `PAPI_stop` and a `PAPI_reset` where the counters are running. -/
def start (mark : Mark) (counters : ThreadCounters Mark) : ThreadCounters Mark :=
  { counters with
    regionCount := 0
    running := true
    since := some mark }

/-- `PAPI_read`, store the values of the phase while there is room, and `PAPI_reset`. -/
def record (mark : Mark) (counters : ThreadCounters Mark) : ThreadCounters Mark :=
  let count := counters.regionCount
  { counters with
    eventValuesPbarrier := if count < maxParallelPhases
      then fun index => if index = count then some ⟨counters.since, mark⟩
        else counters.eventValuesPbarrier index
      else counters.eventValuesPbarrier
    accessed := if count < maxParallelPhases then counters.accessed ++ [count]
      else counters.accessed
    regionCount := count + 1
    since := some mark }

/-- Read the values of a phase to print them. -/
def storedPhase (counters : ThreadCounters Mark) (index : Nat) : Option (Reading Mark) :=
  if index < maxParallelPhases then counters.eventValuesPbarrier index else none

/-- The phases a thread has recorded, printed when the counters are stored for each region. -/
def storedIndices (ompParallel : Int) (counters : ThreadCounters Mark) : List Nat :=
  if ompParallel ≠ 0 then List.range counters.regionCount else []

/-- What a thread prints: the recorded phases, and the last one that runs until now. -/
def lines (ompParallel : Int) (mark : Mark) (tid : Nat) (counters : ThreadCounters Mark) :
    List (PhaseLine Mark) :=
  (counters.storedIndices ompParallel).map (fun index =>
    ⟨tid, index, counters.storedPhase index⟩) ++
    [⟨tid, counters.regionCount, some ⟨counters.since, mark⟩⟩]

/-- `PAPI_stop`, and the use of the array to print it. -/
def stop (ompParallel : Int) (counters : ThreadCounters Mark) : ThreadCounters Mark :=
  { counters with
    running := false
    accessed := counters.accessed ++ counters.storedIndices ompParallel }

end ThreadCounters

namespace PerfCntrs

def new : PerfCntrs Mark where
  roiBp := none
  bpNumber := -1
  measuring := false
  insideRoi := false
  initialized := false
  bpPerfcntrs := 0
  ompParallel := 0
  started := false
  threads := fun _ => ThreadCounters.new
  outfile := []
  dumps := 0

/-- Change the variables of a thread. -/
def onThread (thread : Nat) (change : ThreadCounters Mark → ThreadCounters Mark)
    (state : PerfCntrs Mark) : PerfCntrs Mark :=
  { state with
    threads := fun other =>
      if other = thread then change (state.threads other) else state.threads other }

/-- A function that the compiler outlines from a region; it is run by a thread with a number. -/
abbrev Outlined (Mark : Type) := Nat → Nat → PerfCntrs Mark → Option (PerfCntrs Mark)

/-- `GOMP_parallel` of `libgomp`: every thread of the team runs the function. -/
def gompParallelReal (gomp : Gomp) (fn : Outlined Mark) (caller : Caller) (state : PerfCntrs Mark) :
    Option (PerfCntrs Mark) :=
  run (fun state member => fn member.1 member.2 state) state (gomp.team caller).zipIdx

/-- `BarrierPoints`. -/
def barrierPoints (caller : Caller) (state : PerfCntrs Mark) : PerfCntrs Mark :=
  if state.insideRoi ∧ caller.threadNum = 0 then { state with bpNumber := state.bpNumber + 1 }
  else state

/-- The counters are stored for each region and are running. -/
def recording (state : PerfCntrs Mark) : Bool :=
  state.bpPerfcntrs ≠ 0 && state.ompParallel ≠ 0 && state.started

/-- `parallelRegionPerformanceCounters`. A caller in a parallel region records its own counters;
otherwise the threads of a region of the library record theirs. -/
def parallelRegionPerformanceCounters
    (parallel : Outlined Mark → PerfCntrs Mark → Option (PerfCntrs Mark)) (caller : Caller)
    (mark : Mark) (state : PerfCntrs Mark) : Option (PerfCntrs Mark) :=
  if state.recording then
    if caller.inParallel then some (state.onThread caller.thread (.record mark))
    else parallel (fun thread _ state => some (state.onThread thread (.record mark))) state
  else some state

/-- `barrierRegionPerformanceCounters`: the caller records its own counters. -/
def barrierRegionPerformanceCounters (caller : Caller) (mark : Mark) (state : PerfCntrs Mark) :
    PerfCntrs Mark :=
  if state.recording then state.onThread caller.thread (.record mark) else state

/-- `initPerformanceCounters`: the first thread of the team reads the mode once, a barrier, and a
region that creates the event sets. -/
def initPerformanceCounters (environment : Environment)
    (parallel : Outlined Mark → PerfCntrs Mark → Option (PerfCntrs Mark))
    (barrier : PerfCntrs Mark → Option (PerfCntrs Mark)) (caller : Caller)
    (state : PerfCntrs Mark) : Option (PerfCntrs Mark) := do
  let state := if caller.threadNum = 0 ∧ !state.initialized then
      { state with
        initialized := true
        bpPerfcntrs := environment.bpPerfcntrs
        ompParallel := environment.bpPerfcntrsOmpparallel }
    else state
  let state ← barrier state
  if state.bpPerfcntrs ≠ 0 then
    parallel (fun thread _ state => some (state.onThread thread .create)) state
  else some state

/-- `startPerformanceCounters`. -/
def startPerformanceCounters
    (parallel : Outlined Mark → PerfCntrs Mark → Option (PerfCntrs Mark)) (mark : Mark)
    (state : PerfCntrs Mark) : Option (PerfCntrs Mark) :=
  if state.bpPerfcntrs ≠ 0 then do
    let state ← parallel (fun thread _ state => some (state.onThread thread (.start mark))) state
    return { state with started := true }
  else some state

/-- What a thread does when the counters are stopped. `PAPI_stop` fails on counters that are not
running, and the library exits then. -/
def stopThread (mark : Mark) : Outlined Mark := fun thread threadNum state =>
  if (state.threads thread).running then
    let printed := (state.threads thread).lines state.ompParallel mark threadNum
    some { state.onThread thread (.stop state.ompParallel) with
      outfile := state.outfile ++ printed }
  else none

/-- `stopPerformanceCounters`. -/
def stopPerformanceCounters
    (parallel : Outlined Mark → PerfCntrs Mark → Option (PerfCntrs Mark)) (mark : Mark)
    (state : PerfCntrs Mark) : Option (PerfCntrs Mark) :=
  if state.bpPerfcntrs ≠ 0 then do
    let state ← parallel (stopThread mark) state
    return { state with started := false, dumps := state.dumps + 1 }
  else some state

/-- The wrapper of `GOMP_parallel`. -/
def gompParallel (gomp : Gomp) (caller : Caller) (mark : Mark) :
    Nat → Outlined Mark → PerfCntrs Mark → Option (PerfCntrs Mark)
  | 0, _, _ => none
  | depth + 1, fn, state => do
      let state ← (if !state.measuring && state.insideRoi then do
          let state := { state.barrierPoints caller with measuring := true }
          let state ← parallelRegionPerformanceCounters (gompParallel gomp caller mark depth)
            caller mark state
          return { state with measuring := false }
        else some state)
      gompParallelReal gomp fn caller state

/-- The value of `_inside_roi` after reading the environment. -/
def readRoi (state : PerfCntrs Mark) : Bool :=
  match state.roiBp with
  | some value => value = 1
  | none => state.insideRoi

/-- The wrapper of `GOMP_barrier`. -/
def gompBarrier (gomp : Gomp) (environment : Environment) (caller : Caller) (mark : Mark) :
    Nat → PerfCntrs Mark → Option (PerfCntrs Mark)
  | 0, _ => none
  | depth + 1, state =>
      let state := { state with insideRoi := state.readRoi }
      if state.insideRoi then
        let state := state.barrierPoints caller
        if state.bpNumber = 0 then do
          let state := { state with measuring := true }
          let state ← initPerformanceCounters environment (gompParallel gomp caller mark depth)
            (gompBarrier gomp environment caller mark depth) caller state
          let state ← startPerformanceCounters (gompParallel gomp caller mark depth) mark state
          return { state with measuring := false }
        else some (state.barrierRegionPerformanceCounters caller mark)
      else if state.bpNumber > -1 then
        stopPerformanceCounters (gompParallel gomp caller mark depth) mark state
      else some state

end PerfCntrs

/-! ### The calls of the application -/

/-- The application sets `ROI_BP` or calls into the OpenMP runtime. What the function of a parallel
region calls follows the call that starts the region. -/
inductive OmpCall (Mark : Type) where
  | setenv (roiBp : Int)
  | parallel (caller : Caller) (mark : Mark)
  | barrier (caller : Caller) (mark : Mark)
  deriving DecidableEq, Repr

/-- The library takes a call, with a bound on the depth of its own calls. -/
def PerfCntrs.step (gomp : Gomp) (environment : Environment) (depth : Nat)
    (state : PerfCntrs Mark) : OmpCall Mark → Option (PerfCntrs Mark)
  | .setenv roiBp => some { state with roiBp := some roiBp }
  | .parallel caller mark => gompParallel gomp caller mark depth (fun _ _ state => some state) state
  | .barrier caller mark => gompBarrier gomp environment caller mark depth state

end BarrierPoint
