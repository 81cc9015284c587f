/-
This file models the check file that the script of the performance counters
writes and that the script of the errors reads back. The reader grows a list of
threads, a list of iterations and a list of barriers by one element each time a
row names a new one. For rows in the order of threads, iterations and barriers
it is proved what is held after each of them.
-/

import BarrierPoint.Library.Csv
import BarrierPoint.Library.Rows
import BarrierPoint.RunBenchmarks

namespace BarrierPoint

open Library
open StatsPerfCounters (Cell)

/-! ### The writer -/

/-- `'{}'.format` of a value: `0.0` where the platform lacks the counter. -/
def printCell : Cell → Text
  | some value => decimal value
  | none => "0.0".toList

/-- The number a value stands for. -/
def cellNumber (value : Cell) : ℚ := (value.getD 0 : Nat)

/-- The fields of a row of the check file. -/
def CheckRow.fields (miniApp : Text) (row : CheckRow) : List Text :=
  miniApp :: decimal row.thread :: decimal row.iteration :: decimal row.barrier ::
    row.cells.map printCell

/-- The columns of the check file that name a row. -/
def keyHeader : List Text :=
  ["Benchmark".toList, "Thread".toList, "Iteration".toList, "Barrier".toList]

/-- The columns behind these. -/
def statHeader : List Text :=
  ["Cycles".toList, "Instructions".toList, "L1DAccesses".toList, "L1DMisses".toList,
    "L1IAccesses".toList, "L1IMisses".toList, "L2DAccesses".toList, "L2DMisses".toList]

namespace Experiment

/-- The rows of the check file for the counters that were parsed. -/
def tableRows (experiment : Experiment) (stats : StatsPerfCounters) :
    Except PyError (List CheckRow) := do
  let rows ← (List.range experiment.nthreads).mapM fun i =>
    (List.range experiment.iterations).mapM fun j =>
      (List.range stats.getNumberBarriers).mapM fun k => experiment.checkRow stats i j k
  return rows.flatten.flatten

/-- The check file `RunExperimentBatch` writes. -/
def checkFile (experiment : Experiment) (stats : StatsPerfCounters) : Except PyError Text := do
  let rows ← experiment.tableRows stats
  return csvLine (keyHeader ++ statHeader) ++
    rows.flatMap fun row => csvLine (row.fields experiment.miniApp)

end Experiment

/-! ### The reader -/

/-- The statistics of a thread: for each column, the values of the barriers in each iteration. A
column that was not read yet is an empty list. -/
abbrev ThreadStats : Type := AList fun _ : Text => List (List ℚ)

/-- The first fields of a row. -/
structure RowKey where
  miniApp : Text
  tid : Int
  itr : Int
  bid : Int
  deriving DecidableEq, Repr

/-- Read the first fields of a row. The loop over the file of the barriers leaves out the name, which
is there whenever the next field is. -/
def rowKey (line : List Text) : Except PyError RowKey := do
  let miniApp ← getItem line 0
  let second ← getItem line 1
  let tid ← parseInt second
  let third ← getItem line 2
  let itr ← parseInt third
  let fourth ← getItem line 3
  let bid ← parseInt fourth
  return { miniApp, tid, itr, bid }

/-- Read one value of a row, given with its column. -/
def addValue (stat : List Text) (key : RowKey) (held : List ThreadStats) :
    Text × Nat → Except PyError (List ThreadStats)
  | (value, i) => do
    let thread ← getItem held key.tid
    let name ← getItem stat i
    let values := (thread.lookup name).getD []
    let values := if (values.length : Int) < key.itr + 1 then values ++ [[]] else values
    let row ← getItem values key.itr
    let number ← parseFloat value
    let row := row ++ [number]
    if (row.length : Int) ≠ key.bid + 1 then .error .assertionError
    else
      let values ← setItem values key.itr row
      setItem held key.tid (thread.insert name values)

/-- Make room for a thread that is new. -/
def growThreads (held : List ThreadStats) (tid : Int) : List ThreadStats :=
  if (held.length : Int) < tid + 1 then held ++ [∅] else held

/-- Read a row. -/
def addRow (stat : List Text) (held : List ThreadStats × Option RowKey) (line : List Text) :
    Except PyError (List ThreadStats × Option RowKey) := do
  let key ← rowKey line
  let stats ← (line.drop 4).zipIdx.foldlM (addValue stat key) (growThreads held.1 key.tid)
  return (stats, some key)

/-- Read a check file: the statistics and what named the last row, if there is one. -/
def readCheckFile (file : Text) : Except PyError (List ThreadStats × Option RowKey) :=
  match csvRecords file with
  | [] => .error .stopIteration
  | header :: rows => rows.foldlM (addRow (header.drop 4)) ([], none)

/-- What the constructor of `errorEstimate` keeps of the two check files. -/
structure CheckStats where
  miniApp : Text
  statsT : List ThreadStats
  iterations : Nat
  nthreads : Nat
  statsBp : List ThreadStats
  barriers : Int

/-- Read the check file of the whole application and the one of the barriers. The constructor
returns early (`none`) when one is missing. The highest barrier is that of the last row read, which
is one of the first file when the second has none. -/
def readCheckFiles (fbaseline gbarriers : Option Text) : Except PyError (Option CheckStats) :=
  match fbaseline with
  | none => return none
  | some fbaseline => do
    let (statsT, last) ← readCheckFile fbaseline
    match last with
    | none => .error .nameError
    | some last => do
      let thread ← getItem statsT last.tid
      let iterations := ((thread.lookup "Cycles".toList).getD []).length
      match gbarriers with
      | none => return none
      | some gbarriers => do
        let (statsBp, lastBp) ← readCheckFile gbarriers
        return some {
          miniApp := last.miniApp
          statsT
          iterations
          nthreads := statsT.length
          statsBp
          barriers := (lastBp.getD last).bid }

/-! ### One value -/

/-- What is held for a column of a thread. -/
def series (held : List ThreadStats) (tid : Nat) (name : Text) : List (List ℚ) :=
  ((held[tid]?.getD ∅).lookup name).getD []

/-- Storing the values of a column of a thread changes that column of that thread only. -/
theorem series_set_insert {held : List ThreadStats} {tid : Nat} {thread : ThreadStats}
    (heldThread : held[tid]? = some thread) (name : Text) (values : List (List ℚ)) (otherTid : Nat)
    (otherName : Text) : series (held.set tid (thread.insert name values)) otherTid otherName =
      if tid = otherTid ∧ name = otherName then values else series held otherTid otherName := by
  rw [series, series]
  by_cases sameTid : tid = otherTid
  · subst sameTid
    rw [List.getElem?_set_self (List.getElem?_eq_some_iff.mp heldThread).1, heldThread]
    show ((AList.insert _ _ _ : ThreadStats).lookup otherName).getD [] = _
    by_cases sameName : name = otherName
    · subst sameName
      rw [AList.lookup_insert, if_pos ⟨rfl, rfl⟩]
      rfl
    · rw [AList.lookup_insert_ne (Ne.symm sameName), if_neg fun same => sameName same.2]
      rfl
  · rw [List.getElem?_set_ne sameTid, if_neg fun same => sameTid same.1]

/-- The row of an iteration is there after it was appended when it is new. -/
theorem append_row {front : List (List ℚ)} {row : List ℚ} {itr bid : Nat} (full : front.length = itr)
    (width : row.length = bid) :
    (if (((front ++ if bid = 0 then [] else [row]).length : Nat) : Int) < (itr : Int) + 1
      then (front ++ if bid = 0 then [] else [row]) ++ [[]]
      else front ++ if bid = 0 then [] else [row]) = front ++ [row] := by
  by_cases first : bid = 0
  · have blank : row = [] := List.eq_nil_of_length_eq_zero (width.trans first)
    rw [if_pos first, List.append_nil, if_pos (by omega), blank]
  · rw [if_neg first, if_neg (by rw [List.length_append, List.length_singleton]; omega)]

/-- A value is appended to the row of its iteration, and the row is appended when it is new. -/
theorem addValue_eq {stat : List Text} (miniApp : Text) {name value : Text}
    {held : List ThreadStats} {tid itr bid i : Nat} {number : ℚ} {front : List (List ℚ)} {row : List ℚ}
    (named : stat[i]? = some name) (inside : tid < held.length)
    (read : parseFloat value = .ok number)
    (before : series held tid name = front ++ if bid = 0 then [] else [row])
    (full : front.length = itr) (width : row.length = bid) :
    ∃ after, addValue stat ⟨miniApp, tid, itr, bid⟩ held (value, i) = .ok after ∧
      after.length = held.length ∧ ∀ otherTid otherName, series after otherTid otherName =
        if tid = otherTid ∧ name = otherName then front ++ [row ++ [number]]
        else series held otherTid otherName := by
  have heldThread := List.getElem?_eq_getElem inside
  have values : (held[tid].lookup name).getD [] = front ++ if bid = 0 then [] else [row] := by
    rw [← before, series, heldThread]
    rfl
  have heldRow : (front ++ [row])[itr]? = some row := by
    rw [← full, List.getElem?_append_right (le_refl _), Nat.sub_self]
    rfl
  have insideRow : itr < (front ++ [row]).length := by
    rw [List.length_append, List.length_singleton]
    omega
  have placed : (front ++ [row]).set itr (row ++ [number]) = front ++ [row ++ [number]] := by
    rw [← full, List.set_append_right _ _ (le_refl _), Nat.sub_self]
    rfl
  have length : ¬(((row ++ [number]).length : Nat) : Int) ≠ (bid : Int) + 1 := by
    rw [List.length_append, List.length_singleton]
    omega
  refine ⟨held.set tid (held[tid].insert name (front ++ [row ++ [number]])), ?_, List.length_set,
    series_set_insert heldThread name _⟩
  refine (bind_of_eq_ok (getItem_of_getElem? heldThread) _).trans
    ((bind_of_eq_ok (getItem_of_getElem? named) _).trans ?_)
  simp only [values, append_row full width]
  refine (bind_of_eq_ok (getItem_of_getElem? heldRow) _).trans ((bind_of_eq_ok read _).trans ?_)
  rw [if_neg length]
  refine (bind_of_eq_ok (setItem_of_lt insideRow _) _).trans ?_
  rw [placed]
  exact setItem_of_lt inside _

/-! ### One row -/

/-- A column of the file: its name, and the value written for a thread, an iteration and a barrier. -/
abbrev Column : Type := Text × (Nat → Nat → Nat → Cell)

/-- The numbers a column has for a thread. -/
def numbers (column : Column) (tid itr bid : Nat) : ℚ := cellNumber (column.2 tid itr bid)

/-- What is held for a column of a thread before barrier `bid` of iteration `itr` is read. -/
def columnTable (barriers : Nat) (value : Nat → Nat → ℚ) (itr bid : Nat) : List (List ℚ) :=
  ((List.range itr).map fun itr => (List.range barriers).map (value itr)) ++
    if bid = 0 then [] else [(List.range bid).map (value itr)]

theorem columnTable_succ (barriers : Nat) (value : Nat → Nat → ℚ) (itr bid : Nat) :
    columnTable barriers value itr (bid + 1) =
      ((List.range itr).map fun itr => (List.range barriers).map (value itr)) ++
        [(List.range bid).map (value itr) ++ [value itr bid]] := by
  rw [columnTable, if_neg (Nat.succ_ne_zero bid), List.range_succ (n := bid), List.map_append]
  rfl

/-- The fields of a row. -/
def rowFields (miniApp : Text) (columns : List Column) (tid itr bid : Nat) : List Text :=
  miniApp :: decimal tid :: decimal itr :: decimal bid ::
    columns.map fun column => printCell (column.2 tid itr bid)

theorem parseFloat_printCell (value : Cell) : parseFloat (printCell value) = .ok (cellNumber value) := by
  cases value with
  | none => decide +kernel
  | some value => exact parseFloat_decimal value

theorem plain_decimal (number : Nat) : PlainField (decimal number) := by
  intro c member
  have digit := isDigit_of_mem_decimal member
  refine ⟨?_, ?_, ?_, ?_⟩
  all_goals
    rintro rfl
    exact absurd digit (by decide)

theorem rowKey_rowFields (miniApp : Text) (columns : List Column) (tid itr bid : Nat) :
    rowKey (rowFields miniApp columns tid itr bid) = .ok ⟨miniApp, tid, itr, bid⟩ := by
  simp only [rowKey, rowFields]
  refine (bind_of_eq_ok (parseInt_decimal tid) _).trans ((bind_of_eq_ok (parseInt_decimal itr) _).trans
    ((bind_of_eq_ok (parseInt_decimal bid) _).trans rfl))

/-- The values of a row, from some column on. -/
theorem foldlM_addValue (miniApp : Text) {barriers tid itr bid : Nat} (rest : List Column) :
    ∀ (done : List Column) (held : List ThreadStats), ((done ++ rest).map Prod.fst).Nodup →
      tid < held.length →
      (∀ column ∈ rest, series held tid column.1 =
        columnTable barriers (numbers column tid) itr bid) →
      ∃ after, ((rest.map fun column => printCell (column.2 tid itr bid)).zipIdx done.length).foldlM
          (addValue ((done ++ rest).map Prod.fst) ⟨miniApp, tid, itr, bid⟩) held = .ok after ∧
        after.length = held.length ∧
        (∀ column ∈ rest, series after tid column.1 =
          columnTable barriers (numbers column tid) itr (bid + 1)) ∧
        ∀ otherTid name, tid ≠ otherTid ∨ name ∉ rest.map Prod.fst →
          series after otherTid name = series held otherTid name := by
  induction rest with
  | nil => exact fun done held _ _ _ => ⟨held, rfl, rfl, nofun, fun _ _ _ => rfl⟩
  | cons column rest inductionHypothesis =>
    intro done held distinct inside before
    rw [List.forall_mem_cons] at before
    have named : ((done ++ column :: rest).map Prod.fst)[done.length]? = some column.1 := by
      rw [List.map_append, List.getElem?_append_right (by rw [List.length_map]), List.length_map,
        Nat.sub_self]
      rfl
    obtain ⟨next, ran, length, each⟩ := addValue_eq miniApp named inside
      (parseFloat_printCell _) before.1 (by rw [List.length_map, List.length_range])
      (by rw [List.length_map, List.length_range])
    have fresh : column.1 ∉ rest.map Prod.fst := by
      rw [List.map_append, List.map_cons] at distinct
      exact (List.nodup_cons.mp (List.nodup_append.mp distinct).2.1).1
    have others : ∀ other ∈ rest, series next tid other.1 =
        columnTable barriers (numbers other tid) itr bid := by
      intro other member
      have apart : ¬(tid = tid ∧ column.1 = other.1) :=
        fun same => fresh (same.2 ▸ List.mem_map_of_mem member)
      rw [each, if_neg apart]
      exact before.2 other member
    have split : done ++ column :: rest = (done ++ [column]) ++ rest := by
      rw [List.append_assoc, List.singleton_append]
    obtain ⟨after, ranRest, lengthRest, eachRest, kept⟩ := inductionHypothesis (done ++ [column]) next
      (split ▸ distinct) (length.symm ▸ inside) others
    refine ⟨after, ?_, lengthRest.trans length, ?_, fun otherTid name different => ?_⟩
    · rw [List.map_cons, List.zipIdx_cons, List.foldlM_cons]
      refine (bind_of_eq_ok ran _).trans ?_
      rw [List.length_append, List.length_singleton] at ranRest
      rw [split]
      exact ranRest
    · rw [List.forall_mem_cons]
      refine ⟨?_, eachRest⟩
      rw [kept tid column.1 (Or.inr fresh), each, if_pos ⟨rfl, rfl⟩, columnTable_succ]
      rfl
    · rw [List.map_cons, List.mem_cons, not_or] at different
      rw [kept otherTid name (different.imp_right And.right), each, if_neg]
      rintro ⟨rfl, rfl⟩
      exact different.elim (fun other => other rfl) fun other => other.1 rfl

/-! ### All rows -/

/-- What named the row before a place of the file. -/
def lastKey (miniApp : Text) (iterations barriers : Nat) : Nat → Nat → Nat → Option RowKey
  | tid, itr, bid + 1 => some ⟨miniApp, tid, itr, bid⟩
  | tid, itr + 1, 0 => some ⟨miniApp, tid, itr, (barriers - 1 : Nat)⟩
  | tid + 1, 0, 0 => some ⟨miniApp, tid, (iterations - 1 : Nat), (barriers - 1 : Nat)⟩
  | 0, 0, 0 => none

/-- The state of the reader before the row of a thread, an iteration and a barrier. All rows of the
earlier threads were read, and of this thread those of the earlier iterations and barriers. -/
structure ReadUpTo (miniApp : Text) (columns : List Column) (iterations barriers tid itr bid : Nat)
    (state : List ThreadStats × Option RowKey) : Prop where
  length : state.1.length = if itr = 0 ∧ bid = 0 then tid else tid + 1
  last : state.2 = lastKey miniApp iterations barriers tid itr bid
  earlier : ∀ other < tid, ∀ column ∈ columns, series state.1 other column.1 =
    columnTable barriers (numbers column other) iterations 0
  current : ∀ column ∈ columns, series state.1 tid column.1 =
    columnTable barriers (numbers column tid) itr bid

theorem series_of_length_le {held : List ThreadStats} {tid : Nat} (missing : held.length ≤ tid)
    (name : Text) : series held tid name = [] := by
  rw [series, List.getElem?_eq_none missing]
  rfl

theorem series_append_empty (held : List ThreadStats) (tid : Nat) (name : Text) :
    series (held ++ [∅]) tid name = series held tid name := by
  rcases Nat.lt_or_ge tid held.length with old | new
  · rw [series, series, List.getElem?_append_left old]
  · rw [series_of_length_le new, series, List.getElem?_append_right new]
    cases tid - held.length with
    | zero => rfl
    | succ beyond => rfl

theorem series_growThreads (held : List ThreadStats) (key tid : Nat) (name : Text) :
    series (growThreads held key) tid name = series held tid name := by
  rw [growThreads]
  split
  · exact series_append_empty held tid name
  · rfl

theorem length_growThreads {held : List ThreadStats} {tid : Nat}
    (next : held.length = tid ∨ held.length = tid + 1) :
    (growThreads held tid).length = tid + 1 := by
  rw [growThreads]
  split
  · rw [List.length_append, List.length_singleton]
    omega
  · omega

namespace ReadUpTo

variable {miniApp : Text} {columns : List Column} {iterations barriers tid itr bid : Nat}
  {state : List ThreadStats × Option RowKey}

theorem start : ReadUpTo miniApp columns iterations barriers 0 0 0 ([], none) where
  length := rfl
  last := rfl
  earlier := nofun
  current := fun _ _ => rfl

/-- A row adds the values of its barrier. -/
theorem row (read : ReadUpTo miniApp columns iterations barriers tid itr bid state)
    (distinct : (columns.map Prod.fst).Nodup) : ∃ after,
    addRow (columns.map Prod.fst) state (rowFields miniApp columns tid itr bid) = .ok after ∧
      ReadUpTo miniApp columns iterations barriers tid itr (bid + 1) after := by
  have grown : (growThreads state.1 tid).length = tid + 1 := by
    refine length_growThreads ?_
    rw [read.length]
    split
    · exact Or.inl rfl
    · exact Or.inr rfl
  have inside : tid < (growThreads state.1 tid).length := by omega
  obtain ⟨after, ran, length, each, kept⟩ := foldlM_addValue miniApp columns []
    (growThreads state.1 tid) distinct inside fun column member => by
      rw [series_growThreads]
      exact read.current column member
  refine ⟨(after, some ⟨miniApp, tid, itr, bid⟩), ?_, ?_, rfl, fun other earlier column member => ?_,
    each⟩
  · rw [addRow, bind_of_eq_ok (rowKey_rowFields miniApp columns tid itr bid)]
    exact bind_of_eq_ok ran _
  · rw [if_neg fun first => Nat.succ_ne_zero bid first.2]
    exact length.trans grown
  · rw [kept other column.1 (Or.inl earlier.ne'), series_growThreads]
    exact read.earlier other earlier column member

/-- After the last barrier the next iteration starts. -/
theorem endIteration (read : ReadUpTo miniApp columns iterations barriers tid itr barriers state)
    (some : 0 < barriers) : ReadUpTo miniApp columns iterations barriers tid (itr + 1) 0 state where
  length := by
    rw [read.length, if_neg (by omega), if_neg (by omega)]
  last := by
    obtain ⟨count, rfl⟩ := Nat.exists_eq_add_of_lt some
    rw [read.last, Nat.zero_add]
    rfl
  earlier := read.earlier
  current := fun column member => by
    rw [read.current column member, columnTable, columnTable, if_neg (by omega), if_pos rfl,
      List.append_nil, List.range_succ, List.map_append]
    rfl

/-- After the last iteration the next thread starts. -/
theorem endThread (read : ReadUpTo miniApp columns iterations barriers tid iterations 0 state)
    (some : 0 < iterations) : ReadUpTo miniApp columns iterations barriers (tid + 1) 0 0 state where
  length := by
    rw [read.length, if_neg (by omega), if_pos ⟨rfl, rfl⟩]
  last := by
    obtain ⟨count, rfl⟩ := Nat.exists_eq_add_of_lt some
    rw [read.last, Nat.zero_add]
    rfl
  earlier := fun other earlier column member => by
    rcases Nat.lt_succ_iff_lt_or_eq.mp earlier with before | rfl
    · exact read.earlier other before column member
    · exact read.current column member
  current := fun column _ => by
    refine series_of_length_le ?_ column.1
    rw [read.length, if_neg (by omega)]

/-- Reading the rows of an iteration. -/
theorem iterationRows (read : ReadUpTo miniApp columns iterations barriers tid itr 0 state)
    (distinct : (columns.map Prod.fst).Nodup) (some : 0 < barriers) : ∃ after,
    ((List.range barriers).flatMap fun bid => [rowFields miniApp columns tid itr bid]).foldlM
        (addRow (columns.map Prod.fst)) state = .ok after ∧
      ReadUpTo miniApp columns iterations barriers tid (itr + 1) 0 after := by
  have round : ∀ bid < barriers, ∀ state,
      ReadUpTo miniApp columns iterations barriers tid itr bid state →
      ∃ after, [rowFields miniApp columns tid itr bid].foldlM (addRow (columns.map Prod.fst)) state =
        .ok after ∧ ReadUpTo miniApp columns iterations barriers tid itr (bid + 1) after := by
    intro bid _ state read
    obtain ⟨after, ran, held⟩ := read.row distinct
    exact ⟨after, bind_of_eq_ok ran _, held⟩
  obtain ⟨after, ran, held⟩ := foldlM_flatMap_range _ round read
  exact ⟨after, ran, held.endIteration some⟩

/-- Reading the rows of a thread. -/
theorem threadRows (read : ReadUpTo miniApp columns iterations barriers tid 0 0 state)
    (distinct : (columns.map Prod.fst).Nodup) (someIteration : 0 < iterations)
    (someBarrier : 0 < barriers) : ∃ after, ((List.range iterations).flatMap fun itr =>
      (List.range barriers).flatMap fun bid => [rowFields miniApp columns tid itr bid]).foldlM
        (addRow (columns.map Prod.fst)) state = .ok after ∧
      ReadUpTo miniApp columns iterations barriers (tid + 1) 0 0 after := by
  obtain ⟨after, ran, held⟩ := foldlM_flatMap_range
    (fun itr => ReadUpTo miniApp columns iterations barriers tid itr 0)
    (fun itr _ state read => read.iterationRows distinct someBarrier) read
  exact ⟨after, ran, held.endThread someIteration⟩

/-- Reading the rows of all threads, iterations and barriers in this order. -/
theorem rows (miniApp : Text) (threads : Nat) (distinct : (columns.map Prod.fst).Nodup)
    (someIteration : 0 < iterations) (someBarrier : 0 < barriers) : ∃ after,
    ((List.range threads).flatMap fun tid => (List.range iterations).flatMap fun itr =>
      (List.range barriers).flatMap fun bid => [rowFields miniApp columns tid itr bid]).foldlM
        (addRow (columns.map Prod.fst)) ([], none) = .ok after ∧
      ReadUpTo miniApp columns iterations barriers threads 0 0 after :=
  foldlM_flatMap_range (fun tid => ReadUpTo miniApp columns iterations barriers tid 0 0)
    (fun _ _ _ read => read.threadRows distinct someIteration someBarrier) start

end ReadUpTo

end BarrierPoint
