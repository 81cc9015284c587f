/-
This file proves that the script of the errors recovers from the check files
what the script of the performance counters wrote. The header names the columns
in the order in which a row lists the values, so each value is found under the
name of the getter it comes from, at its thread, its iteration and its barrier.
-/

import BarrierPoint.CheckFile

namespace BarrierPoint

open Library
open StatsPerfCounters (Cell)

/-! ### The file that was written -/

/-- The value of a column at a thread, an iteration and a barrier. -/
def statistic (held : List ThreadStats) (tid : Nat) (name : Text) (itr bid : Nat) : Option ℚ :=
  cell (series held tid name) itr bid

theorem cell_columnTable {barriers iterations itr bid : Nat} (value : Nat → Nat → ℚ)
    (known : itr < iterations) (below : bid < barriers) :
    cell (columnTable barriers value iterations 0) itr bid = some (value itr bid) := by
  rw [columnTable, if_pos rfl, List.append_nil]
  have row : ((List.range iterations).map fun itr => (List.range barriers).map (value itr))[itr]? =
      some ((List.range barriers).map (value itr)) := by
    rw [List.getElem?_map, List.getElem?_range known]
    rfl
  refine cell_eq_some row ?_
  rw [List.getElem?_map, List.getElem?_range below]
  rfl

namespace Experiment

variable {experiment : Experiment} {stats : StatsPerfCounters}

/-- The columns behind those that name a row, each with the getter of its values. -/
def columns (experiment : Experiment) (stats : StatsPerfCounters) :
    List (Text × (Nat → Nat → Int → Except PyError Cell)) := [
  ("Cycles".toList, stats.getTotalCycles),
  ("Instructions".toList, stats.getTotalInstructions),
  ("L1DAccesses".toList, stats.getTotalL1DataAccesses experiment.runningOn),
  ("L1DMisses".toList, stats.getTotalL1DataMisses),
  ("L1IAccesses".toList, stats.getTotalL1InstAccesses experiment.runningOn),
  ("L1IMisses".toList, stats.getTotalL1InstMisses),
  ("L2DAccesses".toList, stats.getTotalL2DataAccesses experiment.runningOn),
  ("L2DMisses".toList, stats.getTotalL2DataMisses)]

/-- The columns with the values that the getters return. -/
def written (experiment : Experiment) (stats : StatsPerfCounters) : List Column :=
  (experiment.columns stats).map fun column =>
    (column.1, fun tid itr bid => (column.2 tid itr bid).toOption.getD none)

theorem map_fst_written (experiment : Experiment) (stats : StatsPerfCounters) :
    (experiment.written stats).map Prod.fst = statHeader := rfl

/-- All getters are defined for every thread, iteration and barrier, there is at least one of each,
and the name of the application is a plain field. -/
structure Checkable (experiment : Experiment) (stats : StatsPerfCounters) : Prop where
  plainName : PlainField experiment.miniApp
  someThread : 0 < experiment.nthreads
  someIteration : 0 < experiment.iterations
  someBarrier : 0 < stats.getNumberBarriers
  defined : ∀ tid < experiment.nthreads, ∀ itr < experiment.iterations,
    ∀ bid < stats.getNumberBarriers, ∀ column ∈ experiment.columns stats,
    ∃ value, column.2 tid itr bid = .ok value

/-- The row of a thread, an iteration and a barrier. -/
def rowAt (experiment : Experiment) (stats : StatsPerfCounters) (tid itr bid : Nat) : CheckRow where
  thread := tid
  iteration := itr
  barrier := bid
  cells := (experiment.written stats).map fun column => column.2 tid itr bid

theorem eq_ok_written {getter : Except PyError Cell} (defined : ∃ value, getter = .ok value) :
    getter = .ok (getter.toOption.getD none) := by
  obtain ⟨value, rfl⟩ := defined
  rfl

theorem checkRow_eq_rowAt {tid itr bid : Nat} (defined : ∀ column ∈ experiment.columns stats,
    ∃ value, column.2 tid itr bid = .ok value) :
    experiment.checkRow stats tid itr bid = .ok (experiment.rowAt stats tid itr bid) := by
  simp only [columns, List.forall_mem_cons] at defined
  obtain ⟨cycles, instructions, l1DAccesses, l1DMisses, l1IAccesses, l1IMisses, l2DAccesses,
    l2DMisses, -⟩ := defined
  exact (bind_of_eq_ok (eq_ok_written cycles) _).trans
    ((bind_of_eq_ok (eq_ok_written instructions) _).trans
      ((bind_of_eq_ok (eq_ok_written l1DAccesses) _).trans
        ((bind_of_eq_ok (eq_ok_written l1DMisses) _).trans
          ((bind_of_eq_ok (eq_ok_written l1IAccesses) _).trans
            ((bind_of_eq_ok (eq_ok_written l1IMisses) _).trans
              ((bind_of_eq_ok (eq_ok_written l2DAccesses) _).trans
                (bind_of_eq_ok (eq_ok_written l2DMisses) _)))))))

theorem flatten_flatten_map (row : Nat → Nat → Nat → CheckRow) (threads iterations barriers : Nat) :
    ((List.range threads).map fun tid => (List.range iterations).map fun itr =>
      (List.range barriers).map (row tid itr)).flatten.flatten =
    (List.range threads).flatMap fun tid => (List.range iterations).flatMap fun itr =>
      (List.range barriers).flatMap fun bid => [row tid itr bid] := by
  rw [List.flatten_flatten, List.map_map, List.flatMap_def]
  congr 1
  refine List.map_congr_left fun tid _ => ?_
  rw [Function.comp_apply, List.flatMap_def]
  congr 1
  refine List.map_congr_left fun itr _ => ?_
  rw [List.map_eq_flatMap]

theorem Checkable.tableRows_eq (checkable : Checkable experiment stats) :
    experiment.tableRows stats = .ok ((List.range experiment.nthreads).flatMap fun tid =>
      (List.range experiment.iterations).flatMap fun itr =>
        (List.range stats.getNumberBarriers).flatMap fun bid =>
          [experiment.rowAt stats tid itr bid]) := by
  rw [← flatten_flatten_map, tableRows]
  refine bind_of_eq_ok (mapM_eq_ok fun tid thread => mapM_eq_ok fun itr iteration =>
    mapM_eq_ok fun bid barrier => checkRow_eq_rowAt ?_) _
  exact checkable.defined tid (List.mem_range.mp thread) itr (List.mem_range.mp iteration) bid
    (List.mem_range.mp barrier)

theorem plain_printCell (value : Cell) : PlainField (printCell value) := by
  cases value with
  | none => decide
  | some value => exact plain_decimal value

theorem fields_rowAt (experiment : Experiment) (stats : StatsPerfCounters) (tid itr bid : Nat) :
    (experiment.rowAt stats tid itr bid).fields experiment.miniApp =
      rowFields experiment.miniApp (experiment.written stats) tid itr bid := by
  rw [CheckRow.fields, rowAt, rowFields, List.map_map]
  rfl

theorem plain_fields {row : CheckRow} {miniApp : Text} (plainName : PlainField miniApp) :
    ∀ field ∈ row.fields miniApp, PlainField field := by
  intro field member
  rw [CheckRow.fields, List.mem_cons, List.mem_cons, List.mem_cons, List.mem_cons] at member
  rcases member with rfl | rfl | rfl | rfl | member
  · exact plainName
  · exact plain_decimal _
  · exact plain_decimal _
  · exact plain_decimal _
  · obtain ⟨value, -, rfl⟩ := List.mem_map.mp member
    exact plain_printCell value

/-- The records of the check file are the header and the fields of the rows. -/
theorem csvRecords_checkFile {rows : List CheckRow} (plainName : PlainField experiment.miniApp)
    (ran : experiment.tableRows stats = .ok rows) : ∃ file, experiment.checkFile stats = .ok file ∧
      csvRecords file = (keyHeader ++ statHeader) :: rows.map fun row =>
        row.fields experiment.miniApp := by
  refine ⟨_, bind_of_eq_ok ran _, ?_⟩
  have records := csvRecords_flatMap
    ((keyHeader ++ statHeader) :: rows.map fun row => row.fields experiment.miniApp)
    (List.forall_mem_cons.mpr ⟨by decide, fun fields member => by
      obtain ⟨row, -, rfl⟩ := List.mem_map.mp member
      exact Nat.le_add_left 2 _⟩)
    (List.forall_mem_cons.mpr ⟨by decide, fun fields member => by
      obtain ⟨row, -, rfl⟩ := List.mem_map.mp member
      exact plain_fields plainName⟩)
  rw [List.flatMap_cons, List.flatMap_map] at records
  exact records

/-- The check file is read without an error, and what is held at its end is what the getters
returned. -/
theorem Checkable.readCheckFile_checkFile (checkable : Checkable experiment stats) :
    ∃ file held, experiment.checkFile stats = .ok file ∧
      readCheckFile file = .ok (held, some ⟨experiment.miniApp, (experiment.nthreads - 1 : Nat),
        (experiment.iterations - 1 : Nat), (stats.getNumberBarriers - 1 : Nat)⟩) ∧
      held.length = experiment.nthreads ∧
      ∀ tid < experiment.nthreads, ∀ column ∈ experiment.written stats,
        series held tid column.1 =
          columnTable stats.getNumberBarriers (numbers column tid) experiment.iterations 0 := by
  obtain ⟨file, wrote, records⟩ := csvRecords_checkFile checkable.plainName checkable.tableRows_eq
  have distinct : ((experiment.written stats).map Prod.fst).Nodup := by
    rw [map_fst_written]
    decide
  obtain ⟨after, ran, read⟩ := ReadUpTo.rows experiment.miniApp experiment.nthreads distinct
    checkable.someIteration checkable.someBarrier
  refine ⟨file, after.1, wrote, ?_, read.length, read.earlier⟩
  have last := read.last
  obtain ⟨count, threads⟩ := Nat.exists_eq_add_of_lt checkable.someThread
  rw [threads, Nat.zero_add] at last ⊢
  rw [readCheckFile, records, Nat.add_sub_cancel]
  simp only [List.map_flatMap, List.map_singleton, fields_rowAt]
  refine ran.trans (congrArg Except.ok (Prod.ext rfl last))

end Experiment

/-- Every value a getter returned is held at its column, thread, iteration and barrier. -/
def Recovered (experiment : Experiment) (stats : StatsPerfCounters) (held : List ThreadStats) : Prop :=
  ∀ tid < experiment.nthreads, ∀ itr < experiment.iterations, ∀ bid < stats.getNumberBarriers,
    ∀ column ∈ experiment.columns stats, ∃ value, column.2 tid itr bid = .ok value ∧
      statistic held tid column.1 itr bid = some (cellNumber value)

theorem Experiment.Checkable.recovered {experiment : Experiment} {stats : StatsPerfCounters}
    (checkable : experiment.Checkable stats) {held : List ThreadStats}
    (each : ∀ tid < experiment.nthreads, ∀ column ∈ experiment.written stats,
      series held tid column.1 =
        columnTable stats.getNumberBarriers (numbers column tid) experiment.iterations 0) :
    Recovered experiment stats held := by
  intro tid thread itr iteration bid barrier column member
  obtain ⟨value, returned⟩ := checkable.defined tid thread itr iteration bid barrier column member
  refine ⟨value, returned, ?_⟩
  rw [statistic, each tid thread _ (List.mem_map_of_mem member), cell_columnTable _ iteration barrier]
  show some (cellNumber ((column.2 tid itr bid).toOption.getD none)) = _
  rw [returned]
  rfl

/-- The check files of the whole application and of the barriers are read without an error. Every
value is found where it belongs, and the numbers of threads and iterations and the highest barrier
are recovered. -/
theorem readCheckFiles_checkFile {whole barriers : Experiment} {stats statsBp : StatsPerfCounters}
    (checkable : whole.Checkable stats) (checkableBp : barriers.Checkable statsBp) :
    ∃ fbaseline gbarriers read, whole.checkFile stats = .ok fbaseline ∧
      barriers.checkFile statsBp = .ok gbarriers ∧
      readCheckFiles (some fbaseline) (some gbarriers) = .ok (some read) ∧
      Recovered whole stats read.statsT ∧ Recovered barriers statsBp read.statsBp ∧
      read.nthreads = whole.nthreads ∧ read.iterations = whole.iterations ∧
      read.barriers = (statsBp.getNumberBarriers : Int) - 1 := by
  obtain ⟨fbaseline, held, wrote, ran, length, each⟩ := checkable.readCheckFile_checkFile
  obtain ⟨gbarriers, heldBp, wroteBp, ranBp, -, eachBp⟩ := checkableBp.readCheckFile_checkFile
  have lastThread : whole.nthreads - 1 < held.length := by
    rw [length]
    exact Nat.sub_one_lt_of_lt checkable.someThread
  have cycles : ((held[whole.nthreads - 1].lookup "Cycles".toList).getD []).length =
      whole.iterations := by
    have column := each (whole.nthreads - 1) (length ▸ lastThread) _ List.mem_cons_self
    rw [series, List.getElem?_eq_getElem lastThread, columnTable, if_pos rfl, List.append_nil] at column
    refine (congrArg List.length column).trans ?_
    rw [List.length_map, List.length_range]
  refine ⟨fbaseline, gbarriers, _, wrote, wroteBp, (bind_of_eq_ok ran _).trans ((bind_of_eq_ok
    (getItem_of_getElem? (List.getElem?_eq_getElem lastThread)) _).trans (bind_of_eq_ok ranBp _)),
    checkable.recovered each, checkableBp.recovered eachBp, length, cycles, ?_⟩
  show ((statsBp.getNumberBarriers - 1 : Nat) : Int) = _
  have := checkableBp.someBarrier
  omega

/-- The samples of all counters of a thread at a barrier in two iterations. -/
def twoSamples (value : Nat) : CounterDict :=
  ["TOT_CYC", "TOT_INS", "L1_DCM", "L1_ICM", "L2_DCM", "L2_DCA"].foldl (fun dict stat =>
    dict.insert stat.toList [(value, value), (value, value + 1)]) ∅

/-- The counters of two threads at two barriers. -/
def twoBarriers : StatsPerfCounters where
  stats := [[twoSamples 10, twoSamples 20], [twoSamples 30, twoSamples 40]]
  tInst := [[10, 20], [30, 40]]

/-- Two threads and two iterations. -/
def twoByTwo : Experiment where
  miniApp := "rsbench".toList
  nthreads := 2
  barriers := true
  iterations := 2
  toolOutPath := "out".toList
  outSuffix := []
  runningOn := .x86_64

theorem twoByTwo_checkable : twoByTwo.Checkable twoBarriers where
  plainName := by decide
  someThread := by decide
  someIteration := by decide
  someBarrier := by decide
  defined := by
    have returns : ∀ tid < 2, ∀ itr < 2, ∀ bid < (2 : Nat), ∀ column ∈ twoByTwo.columns twoBarriers,
        (column.2 tid itr bid).isOk = true := by decide +kernel
    intro tid thread itr iteration bid barrier column member
    have ok := returns tid thread itr iteration bid barrier column member
    cases returned : column.2 tid itr bid with
    | error raised =>
      rw [returned] at ok
      cases ok
    | ok value => exact ⟨value, rfl⟩

theorem readCheckFiles_twoByTwo : ∃ fbaseline gbarriers read,
    twoByTwo.checkFile twoBarriers = .ok fbaseline ∧ twoByTwo.checkFile twoBarriers = .ok gbarriers ∧
    readCheckFiles (some fbaseline) (some gbarriers) = .ok (some read) ∧
    Recovered twoByTwo twoBarriers read.statsT ∧ Recovered twoByTwo twoBarriers read.statsBp ∧
    read.nthreads = 2 ∧ read.iterations = 2 ∧ read.barriers = (2 : Nat) - 1 :=
  readCheckFiles_checkFile twoByTwo_checkable twoByTwo_checkable

end BarrierPoint
