/-
This file models the script that gathers the performance counters: the rounds
of counters it samples on each platform, the names of the files the runs of
the application append to, the parser of these files, and the rows of the
check file it writes. A counter occurs in the files once for each round that
samples it, and the parser appends what it reads to one list for each barrier,
thread and counter.
-/

import BarrierPoint.Library.Numeral
import Mathlib.Data.List.AList

namespace BarrierPoint

open Library

/-- `runningOn`. -/
inductive Platform where
  | x86_64
  | aarch64
  | unknown
  deriving DecidableEq, Repr

/-- The rounds of counters sampled on a platform, each as the event list of one run. -/
def papiRounds : Platform → List Text
  | .x86_64 => [
      "PAPI_TOT_INS,PAPI_TOT_CYC".toList,
      "PAPI_TOT_INS,PAPI_L1_DCM,PAPI_L1_ICM,PAPI_L1_TCM,PAPI_L1_LDM,PAPI_L1_STM".toList,
      "PAPI_TOT_INS,PAPI_L2_DCM,PAPI_L2_ICM,PAPI_L2_TCM,PAPI_L2_STM,PAPI_L2_DCA".toList]
  | .aarch64 => [
      "PAPI_TOT_INS,PAPI_TOT_CYC,PAPI_L1_DCA,PAPI_L1_DCM".toList,
      "PAPI_TOT_INS,PAPI_L1_ICM,PAPI_L1_ICA,PAPI_L2_DCM".toList]
  | .unknown => []

/-! ### The lines of a file of counters -/

/-- What one line of a file of counters records. -/
structure Sample where
  stat : Text
  tid : Nat
  pid : Nat
  bid : Nat
  value : Nat
  deriving DecidableEq, Repr

namespace Sample

/-- The line of a counter, as `stopPerformanceCounters` prints it. -/
def line (sample : Sample) : Text :=
  "PAPI_".toList ++ sample.stat ++
    '[' :: decimal sample.tid ++ ']' ::
    '[' :: decimal sample.pid ++ ']' ::
    '[' :: decimal sample.bid ++ ']' ::
    '=' :: decimal sample.value ++ ['\n']

/-- `\w`. -/
def isWord (c : Char) : Bool := c.isAlphanum || c = '_'

/-- `\d+`. -/
def digits (text : Text) : Option (Nat × Text) :=
  let numeral := text.takeWhile Char.isDigit
  if numeral = [] then none
  else some (Nat.ofDigitChars 10 numeral 0, text.dropWhile Char.isDigit)

/-- `\[(\d+)\]`. -/
def bracketed : Text → Option (Nat × Text)
  | '[' :: text => do
      let (number, rest) ← digits text
      match rest with
      | ']' :: rest => some (number, rest)
      | _ => none
  | _ => none

/-- Match the pattern of a line at the start of a text. The name of the counter runs up to the first
bracket and has an underscore inside. -/
def matchAt (text : Text) : Option Sample := do
  let rest ← text.dropPrefix? "PAPI_".toList
  let stat := rest.takeWhile isWord
  guard ('_' ∈ (stat.drop 1).dropLast)
  let (tid, rest) ← bracketed (rest.dropWhile isWord)
  let (pid, rest) ← bracketed rest
  let (bid, rest) ← bracketed rest
  match rest with
  | '=' :: rest => do
      let (value, _) ← digits rest
      some ⟨stat, tid, pid, bid, value⟩
  | _ => none

/-- `re.search`: the first place of a line where the pattern matches. -/
def parse (line : Text) : Option Sample := line.tails.findSome? matchAt

end Sample

/-! ### The parser -/

/-- `defaultdict(list)`: the samples of each counter. -/
abbrev CounterDict : Type := AList fun _ : Text => List (Nat × Nat)

/-- `StatsPerfCounters`: for every barrier and thread, the samples of each counter, as pairs with
the instruction count read last, and these counts. -/
structure StatsPerfCounters where
  stats : List (List CounterDict)
  tInst : List (List Nat)

namespace StatsPerfCounters

/-- The counter that every round samples. -/
def totIns : Text := "TOT_INS".toList

/-- Make room for one more barrier when the barrier of a sample is new. -/
def grow (nthreads : Nat) (counters : StatsPerfCounters) (bid : Nat) : StatsPerfCounters :=
  if counters.stats.length < bid + 1 then {
    stats := counters.stats ++ [List.replicate nthreads ∅]
    tInst := counters.tInst ++ [List.replicate nthreads 0] }
  else counters

/-- `_t_inst` after a sample. -/
def countInstructions (tInst : List (List Nat)) (sample : Sample) :
    Except PyError (List (List Nat)) :=
  if sample.stat = totIns then do
    let row ← getItem tInst sample.bid
    let row ← setItem row sample.tid sample.value
    setItem tInst sample.bid row
  else return tInst

/-- Append a sample. -/
def addSample (nthreads : Nat) (counters : StatsPerfCounters) (sample : Sample) :
    Except PyError StatsPerfCounters := do
  let counters := counters.grow nthreads sample.bid
  let tInst ← countInstructions counters.tInst sample
  let row ← getItem counters.stats sample.bid
  let thread ← getItem row sample.tid
  let insts ← getItem tInst sample.bid
  let inst ← getItem insts sample.tid
  let held := (thread.lookup sample.stat).getD []
  let row ← setItem row sample.tid (thread.insert sample.stat (held ++ [(inst, sample.value)]))
  let stats ← setItem counters.stats sample.bid row
  return { stats, tInst }

/-- Read a line. One that does not match is left out. -/
def addLine (nthreads : Nat) (counters : StatsPerfCounters) (line : Text) :
    Except PyError StatsPerfCounters :=
  match Sample.parse line with
  | some sample => counters.addSample nthreads sample
  | none => return counters

/-- The constructor: read the files of all iterations, and leave out those that cannot be opened. -/
def new (files : Text → Option (List Text)) (filePrefix : Text) (iterations nthreads : Nat) :
    Except PyError StatsPerfCounters :=
  (List.range iterations).foldlM (fun counters iteration =>
    match files (filePrefix ++ decimal iteration ++ ".papi".toList) with
    | some lines => lines.foldlM (addLine nthreads) counters
    | none => return counters) { stats := [], tInst := [] }

def getNumberBarriers (counters : StatsPerfCounters) : Nat := counters.stats.length

/-- `x[threadID][STAT][iteration][1]`. -/
def readSample (stat : Text) (threadID iteration : Nat)
    (row : List CounterDict) : Except PyError Nat := do
  let thread ← getItem row threadID
  let sample ← getItem ((thread.lookup stat).getD []) iteration
  return sample.2

/-- The value of a counter at a barrier, or over all barriers for a negative one. -/
def total (stat : Text) (counters : StatsPerfCounters) (threadID iteration : Nat)
    (barrierID : Int) : Except PyError Nat :=
  if barrierID < 0 then do
    let values ← counters.stats.mapM (readSample stat threadID iteration)
    return values.sum
  else do
    let row ← getItem counters.stats barrierID
    readSample stat threadID iteration row

/-- The value of a counter, or nothing where the platform lacks it: `0.0` is written then. -/
abbrev Cell := Option Nat

variable (runningOn : Platform) (counters : StatsPerfCounters) (threadID iteration : Nat)
  (barrierID : Int)

def getTotalCycles : Except PyError Cell := do
  return some (← counters.total "TOT_CYC".toList threadID iteration barrierID)

def getTotalInstructions : Except PyError Cell := do
  return some (← counters.total totIns threadID iteration barrierID)

def getTotalL1DataMisses : Except PyError Cell := do
  return some (← counters.total "L1_DCM".toList threadID iteration barrierID)

def getTotalL1InstMisses : Except PyError Cell := do
  return some (← counters.total "L1_ICM".toList threadID iteration barrierID)

def getTotalL1DataAccesses : Except PyError Cell :=
  if runningOn ≠ .aarch64 then return none
  else do return some (← counters.total "L1_DCA".toList threadID iteration barrierID)

def getTotalL1InstAccesses : Except PyError Cell :=
  if runningOn ≠ .aarch64 then return none
  else do return some (← counters.total "L1_ICA".toList threadID iteration barrierID)

/-- An iteration that was not sampled counts as zero here. -/
def getTotalL2DataMisses : Except PyError Cell :=
  if barrierID < 0 then do
    return some (← counters.total "L2_DCM".toList threadID iteration barrierID)
  else do
    let row ← getItem counters.stats barrierID
    let thread ← getItem row threadID
    let samples := (thread.lookup "L2_DCM".toList).getD []
    if samples.length ≤ iteration then return some 0
    let sample ← getItem samples iteration
    return some sample.2

def getTotalL2DataAccesses : Except PyError Cell :=
  if runningOn = .aarch64 then return none
  else do return some (← counters.total "L2_DCA".toList threadID iteration barrierID)

end StatsPerfCounters

/-! ### The experiment -/

/-- `Experiment`. An empty suffix is left out of the names. -/
structure Experiment where
  miniApp : Text
  nthreads : Nat
  barriers : Bool
  iterations : Nat
  toolOutPath : Text
  outSuffix : Text
  runningOn : Platform

/-- A row of the check file: one cell for each column behind the first four. -/
structure CheckRow where
  thread : Nat
  iteration : Nat
  barrier : Nat
  cells : List StatsPerfCounters.Cell
  deriving DecidableEq, Repr

namespace Experiment

/-- The part that the names of all files of an experiment share. -/
def baseName (experiment : Experiment) : Text :=
  let app := experiment.toolOutPath ++ '/' :: experiment.miniApp
  let suffixed := if experiment.outSuffix ≠ [] then app ++ '-' :: experiment.outSuffix else app
  let threads := suffixed ++ '.' :: decimal experiment.nthreads ++ ['t']
  (if experiment.barriers then threads ++ ".BP".toList else threads) ++ ".rep".toList

/-- `shfileN`, the name of the batch script. -/
def shfileN (experiment : Experiment) : Text :=
  experiment.baseName ++ decimal experiment.iterations ++ ".sh".toList

/-- `BP_PERFCNTRS_OUTPUT_FILE` in an iteration of the batch script. -/
def outputFile (experiment : Experiment) (iteration : Nat) : Text :=
  experiment.baseName ++ decimal iteration ++ ".papi".toList

/-- `filePrefix`, which the parser cuts out of the name of the batch script. -/
def filePrefix (experiment : Experiment) : Text :=
  let named := experiment.shfileN.take (experiment.shfileN.length - 3)
  named.take (named.length - (decimal experiment.iterations).length)

/-- One row of the check file. -/
def checkRow (experiment : Experiment) (stats : StatsPerfCounters) (i j k : Nat) :
    Except PyError CheckRow := do
  let cycles ← stats.getTotalCycles i j k
  let instructions ← stats.getTotalInstructions i j k
  let l1DAccesses ← stats.getTotalL1DataAccesses experiment.runningOn i j k
  let l1DMisses ← stats.getTotalL1DataMisses i j k
  let l1IAccesses ← stats.getTotalL1InstAccesses experiment.runningOn i j k
  let l1IMisses ← stats.getTotalL1InstMisses i j k
  let l2DAccesses ← stats.getTotalL2DataAccesses experiment.runningOn i j k
  let l2DMisses ← stats.getTotalL2DataMisses i j k
  return {
    thread := i
    iteration := j
    barrier := k
    cells := [cycles, instructions, l1DAccesses, l1DMisses, l1IAccesses, l1IMisses, l2DAccesses,
      l2DMisses] }

/-- The rows `RunExperimentBatch` writes into the check file. -/
def checkRows (experiment : Experiment) (files : Text → Option (List Text)) :
    Except PyError (List CheckRow) := do
  let stats ← StatsPerfCounters.new files experiment.filePrefix experiment.iterations
    experiment.nthreads
  let rows ← (List.range experiment.nthreads).mapM fun i =>
    (List.range experiment.iterations).mapM fun j =>
      (List.range stats.getNumberBarriers).mapM fun k => experiment.checkRow stats i j k
  return rows.flatten.flatten

end Experiment

end BarrierPoint
