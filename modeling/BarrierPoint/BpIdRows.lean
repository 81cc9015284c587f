/-
This file says what `.bp_id` lists. The regions of the master carry the names of
the synchronisation points that ended them, and a row has the number of the
region behind its point. A map counts how often a name was seen, the first time
as zero, so the iteration of a row is the number of rows before it with the same
routine. Ordering, numbering and aligning the threads keep the master and the
names of its regions.
-/

import BarrierPoint.SaveSafety

namespace BarrierPoint

open Library

/-! ### Rows -/

/-- A row of `.bp_id`. -/
structure BpIdRow where
  barrierPoint : Nat
  iteration : Nat
  routine : String
  deriving DecidableEq, Repr

def BpIdRow.print (row : BpIdRow) : Text :=
  decimal row.barrierPoint ++ ',' :: decimal row.iteration ++ ',' :: row.routine.toList ++ ['\n']

/-- The rows of regions with these names, behind regions with other names. -/
def rowsBehind (past : List String) : List String → List BpIdRow
  | [] => []
  | name :: names =>
      (if name ≠ "thread_exit" then [⟨past.length + 1, past.count name, name⟩] else []) ++
        rowsBehind (past ++ [name]) names

/-- The first row stands for the start of the region of interest. -/
def masterRows (names : List String) : List BpIdRow :=
  ⟨0, 0, "ROI_Start"⟩ :: rowsBehind [] names

/-- The text of `.bp_id`. -/
def bpIdText (rows : List BpIdRow) : Text :=
  "BarrierPoint,Iteration,Routine\n".toList ++ rows.flatMap BpIdRow.print

/-- The last region of the master has no row. -/
theorem rowsBehind_concat (names : List String) : ∀ past,
    rowsBehind past (names ++ ["thread_exit"]) = rowsBehind past names := by
  induction names with
  | nil => exact fun _ => rfl
  | cons name names inductionHypothesis =>
    intro past
    rw [List.cons_append, rowsBehind, rowsBehind, inductionHypothesis]

section Points

variable {points : List String}

theorem map_routine_rowsBehind (named : ∀ point ∈ points, point ≠ "thread_exit") : ∀ past,
    (rowsBehind past points).map BpIdRow.routine = points := by
  induction points with
  | nil => exact fun _ => rfl
  | cons point points inductionHypothesis =>
    intro past
    rw [List.forall_mem_cons] at named
    rw [rowsBehind, if_pos named.1, List.map_append, inductionHypothesis named.2]
    rfl

theorem map_barrierPoint_rowsBehind (named : ∀ point ∈ points, point ≠ "thread_exit") : ∀ past,
    (rowsBehind past points).map BpIdRow.barrierPoint =
      List.range' (past.length + 1) points.length := by
  induction points with
  | nil => exact fun _ => rfl
  | cons point points inductionHypothesis =>
    intro past
    rw [List.forall_mem_cons] at named
    rw [rowsBehind, if_pos named.1, List.map_append, inductionHypothesis named.2,
      List.length_append, List.length_singleton, List.length_cons, List.range'_succ]
    rfl

theorem iteration_rowsBehind (named : ∀ point ∈ points, point ≠ "thread_exit") :
    ∀ (past : List String) (index : Nat) (row : BpIdRow),
      (rowsBehind past points)[index]? = some row →
        row.iteration = (past ++ points.take index).count row.routine := by
  induction points with
  | nil => exact fun past index row held => nomatch held
  | cons point points inductionHypothesis =>
    intro past index row held
    rw [List.forall_mem_cons] at named
    rw [rowsBehind, if_pos named.1, List.singleton_append] at held
    cases index with
    | zero =>
      cases held
      rw [List.take_zero, List.append_nil]
    | succ index =>
      rw [inductionHypothesis named.2 _ index row held, List.take_succ_cons, List.append_assoc,
        List.singleton_append]

end Points

/-- The rows are numbered from zero, name the points in order, and count the earlier rows with the
same routine; so a routine and an iteration identify a row. -/
structure NumbersPoints (points : List String) (rows : List BpIdRow) : Prop where
  numbers : rows.map BpIdRow.barrierPoint = List.range (points.length + 1)
  routines : rows.map BpIdRow.routine = "ROI_Start" :: points
  iterations : ∀ (index : Nat) row, rows[index]? = some row →
    row.iteration = (rows.take index).countP fun earlier => earlier.routine = row.routine
  identify : (rows.map fun row => (row.routine, row.iteration)).Nodup

theorem countP_routine (rows : List BpIdRow) (routine : String) :
    (rows.countP fun row => row.routine = routine) = (rows.map BpIdRow.routine).count routine := by
  rw [List.count, List.countP_map]
  refine List.countP_congr fun row _ => ?_
  rw [Function.comp_apply, decide_eq_true_eq, beq_iff_eq]

/-- Counting the earlier rows of a routine gives its rows different iterations. -/
theorem nodup_of_iterations {rows : List BpIdRow}
    (iterations : ∀ (index : Nat) row, rows[index]? = some row →
      row.iteration = (rows.take index).countP fun earlier => earlier.routine = row.routine) :
    (rows.map fun row => (row.routine, row.iteration)).Nodup := by
  refine List.pairwise_map.mpr (List.pairwise_iff_getElem.mpr ?_)
  intro first second inFirst inSecond before same
  rw [Prod.mk.injEq] at same
  have counted := iterations first _ (List.getElem?_eq_getElem inFirst)
  have later := iterations second _ (List.getElem?_eq_getElem inSecond)
  have sublist : (rows.take (first + 1)).Sublist (rows.take second) :=
    (List.take_prefix_take_left before).sublist
  have more := sublist.countP_le (p := fun earlier => earlier.routine = rows[second].routine)
  rw [List.take_succ_eq_append_getElem inFirst, List.countP_append, List.countP_singleton,
    decide_eq_true same.1, if_pos rfl, ← later, ← same.1, ← counted, same.2] at more
  omega

/-- The rows of the master, when no point bears a name the file uses otherwise. -/
theorem numbersPoints_masterRows {points : List String}
    (named : ∀ point ∈ points, point ≠ "thread_exit" ∧ point ≠ "ROI_Start") :
    NumbersPoints points (masterRows (points ++ ["thread_exit"])) := by
  have inside : ∀ point ∈ points, point ≠ "thread_exit" := fun point member =>
    (named point member).1
  have routines : (masterRows (points ++ ["thread_exit"])).map BpIdRow.routine =
      "ROI_Start" :: points := by
    rw [masterRows, rowsBehind_concat, List.map_cons, map_routine_rowsBehind inside]
  have iterations : ∀ (index : Nat) row,
      (masterRows (points ++ ["thread_exit"]))[index]? = some row →
      row.iteration = ((masterRows (points ++ ["thread_exit"])).take index).countP
        fun earlier => earlier.routine = row.routine := by
    intro index row held
    rw [countP_routine, List.map_take, routines]
    cases index with
    | zero =>
      cases held
      rfl
    | succ index =>
      rw [masterRows, rowsBehind_concat, List.getElem?_cons_succ] at held
      have member : row.routine ∈ points := by
        rw [← map_routine_rowsBehind inside []]
        exact List.mem_map_of_mem (List.mem_of_getElem? held)
      rw [iteration_rowsBehind inside [] index row held, List.nil_append, List.take_succ_cons,
        List.count_cons_of_ne (named _ member).2.symm]
  refine ⟨?_, routines, iterations, nodup_of_iterations iterations⟩
  rw [masterRows, rowsBehind_concat, List.map_cons, map_barrierPoint_rowsBehind inside,
    List.range_eq_range', List.range'_succ]
  rfl

/-! ### The file -/

/-- The regions are those below a count, and carry these names. -/
def Named (names : List String) (regions : UnorderedMap Nat Region) : Prop :=
  ∀ id, (regions.lookup id).map Region.synchName = names[id]?

theorem Named.isSome_iff {names : List String} {regions : UnorderedMap Nat Region}
    (named : Named names regions) (id : Nat) :
    (regions.lookup id).isSome = true ↔ id < names.length := by
  rw [← Option.isSome_map, named, Option.isSome_iff_ne_none, ne_eq, List.getElem?_eq_none_iff,
    Nat.not_le]

namespace BarrierPointData

/-- How often a name has been seen before, by the map. -/
def timesSeen (synchTimes : UnorderedMap String Nat) (name : String) : Nat :=
  match synchTimes.lookup name with
  | some times => times + 1
  | none => 0

theorem bpIdRows_cons {regions : UnorderedMap Nat Region} {id : Nat} {region : Region}
    (found : regions.lookup id = some region) (ids : List Nat)
    (synchTimes : UnorderedMap String Nat) :
    bpIdRows regions (id :: ids) synchTimes =
      (bpIdRows regions ids (synchTimes.insert region.synchName
        (timesSeen synchTimes region.synchName))).map fun later =>
          ((if region.synchName ≠ "thread_exit" then
            BpIdRow.print ⟨id + 1, timesSeen synchTimes region.synchName, region.synchName⟩
          else []) ++ later.1, later.2) := by
  rw [bpIdRows, found, Option.bind_eq_bind, Option.bind_some, Option.map_eq_bind]
  rfl

/-- The rows of the regions from an id on. The map counts the names of the regions before it. -/
theorem bpIdRows_eq {regions : UnorderedMap Nat Region} (names : List String) :
    ∀ (past : List String) (synchTimes : UnorderedMap String Nat),
      Named (past ++ names) regions →
      (∀ name, synchTimes.lookup name = if name ∈ past then some (past.count name - 1) else none) →
      ∃ times, bpIdRows regions (List.range' past.length names.length) synchTimes =
        some ((rowsBehind past names).flatMap BpIdRow.print, times) := by
  induction names with
  | nil => exact fun past synchTimes _ _ => ⟨synchTimes, rfl⟩
  | cons name names inductionHypothesis =>
    intro past synchTimes named counts
    have here : (past ++ name :: names)[past.length]? = some name := by
      rw [List.getElem?_append_right le_rfl, Nat.sub_self]
      rfl
    obtain ⟨region, found, isNamed⟩ := Option.map_eq_some_iff.mp ((named past.length).trans here)
    have times : timesSeen synchTimes name = past.count name := by
      rw [timesSeen, counts]
      by_cases seen : name ∈ past
      · rw [if_pos seen]
        exact Nat.sub_add_cancel (List.count_pos_iff.mpr seen)
      · rw [if_neg seen]
        exact (List.count_eq_zero.mpr seen).symm
    obtain ⟨final, ran⟩ := inductionHypothesis (past ++ [name])
      (synchTimes.insert name (past.count name)) (by rwa [List.append_assoc]) fun other => by
        rw [UnorderedMap.lookup_insert, counts, List.count_append]
        by_cases here : other = name
        · subst here
          simp
        · simp [here, Ne.symm here]
    rw [List.length_append] at ran
    refine ⟨final, ?_⟩
    rw [List.length_cons, List.range'_succ, bpIdRows_cons found, isNamed, times]
    refine (congrArg (Option.map _) ran).trans ?_
    rw [Option.map_some, rowsBehind, List.flatMap_append]
    split
    · rw [List.flatMap_singleton]
    · rfl

/-- The regions of the masters among the threads. -/
def masterRegions (threads : List ThreadData) : List (UnorderedMap Nat Region) :=
  (threads.filter fun data => data.isMaster).map ThreadData.regions

theorem masterRegions_cons (data : ThreadData) (threads : List ThreadData) :
    masterRegions (data :: threads) =
      if data.isMaster then data.regions :: masterRegions threads else masterRegions threads := by
  rw [masterRegions, List.filter_cons]
  split <;> rfl

theorem bpIdThreads_workers {synchCount : Nat} (threads : List ThreadData)
    (workers : masterRegions threads = []) (synchTimes : UnorderedMap String Nat) :
    bpIdThreads synchCount threads synchTimes = some [] := by
  induction threads with
  | nil => rfl
  | cons data threads inductionHypothesis =>
    rw [masterRegions_cons] at workers
    rw [bpIdThreads]
    split
    · rename_i master
      rw [if_pos master] at workers
      cases workers
    · rename_i worker
      rw [if_neg worker] at workers
      exact inductionHypothesis workers

/-- With one master among the threads the file lists its regions. -/
theorem bpIdThreads_eq {names : List String} {regions : UnorderedMap Nat Region}
    (named : Named names regions) (threads : List ThreadData)
    (oneMaster : masterRegions threads = [regions]) :
    bpIdThreads names.length threads ∅ = some ((masterRows names).flatMap BpIdRow.print) := by
  induction threads with
  | nil => cases oneMaster
  | cons data threads inductionHypothesis =>
    rw [masterRegions_cons] at oneMaster
    rw [bpIdThreads]
    split
    · rename_i master
      rw [if_pos master] at oneMaster
      obtain ⟨rfl, workers⟩ := List.cons.inj oneMaster
      obtain ⟨times, ran⟩ := bpIdRows_eq names [] ∅ named fun name => AList.lookup_empty name
      rw [List.range_eq_range', show (0 : Nat) = [].length from rfl, ran, Option.bind_eq_bind,
        Option.bind_some]
      show (bpIdThreads names.length threads times).bind _ = _
      rw [bpIdThreads_workers threads workers]
      exact congrArg some (List.append_nil _)
    · rename_i worker
      rw [if_neg worker] at oneMaster
      exact inductionHypothesis oneMaster

/-- One of the threads is the master, and its regions, as many as there were synchronisation points,
carry these names. -/
structure ListsMaster (names : List String) (barrierPoint : BarrierPointData) : Prop where
  counted : barrierPoint.synchCount = names.length
  master : ∃ regions, masterRegions barrierPoint.threads = [regions] ∧ Named names regions

theorem ListsMaster.saveBpId_eq {names : List String} {barrierPoint : BarrierPointData}
    (lists : ListsMaster names barrierPoint) :
    barrierPoint.saveBpId = some (bpIdText (masterRows names)) := by
  obtain ⟨regions, oneMaster, named⟩ := lists.master
  rw [saveBpId, lists.counted, bpIdThreads_eq named _ oneMaster]
  rfl

/-! ### Ordering and aligning -/

theorem masterRegions_mapIdx (threads : List ThreadData) :
    ∀ number : Nat → ThreadData → ThreadData,
      (∀ index data, (number index data).isMaster = data.isMaster ∧
        (number index data).regions = data.regions) →
      masterRegions (threads.mapIdx number) = masterRegions threads := by
  induction threads with
  | nil => exact fun _ _ => rfl
  | cons data threads inductionHypothesis =>
    intro number kept
    rw [List.mapIdx_cons, masterRegions_cons, masterRegions_cons, (kept 0 data).1, (kept 0 data).2,
      inductionHypothesis _ fun index => kept (index + 1)]

/-- Ordering and numbering the threads changes neither which one is the master nor its regions. -/
theorem ListsMaster.generateFakeTid {names : List String} {barrierPoint : BarrierPointData}
    (lists : ListsMaster names barrierPoint) : ListsMaster names barrierPoint.generateFakeTid := by
  obtain ⟨regions, oneMaster, named⟩ := lists.master
  have sorted := ((List.perm_insertionSort (fun first second : ThreadData =>
    first.tid ≤ second.tid) barrierPoint.threads).filter fun data => data.isMaster).map
      ThreadData.regions
  refine ⟨lists.counted, regions, ?_, named⟩
  refine (masterRegions_mapIdx _ _ ?_).trans
    (List.perm_singleton.mp (sorted.trans (.of_eq oneMaster)))
  exact fun index data => ⟨rfl, rfl⟩

theorem synchName_alignRegion (parallelOmpF : UnorderedMap Address String) (region : Region)
    (balance : UInt64) : (alignRegion parallelOmpF region balance).1.synchName = region.synchName := by
  have blocks : ∀ (addresses : List Address) (state : Region × UInt64),
      (addresses.foldl alignBlock state).1.synchName = state.1.synchName := by
    intro addresses
    induction addresses with
    | nil => exact fun _ => rfl
    | cons address addresses inductionHypothesis =>
      intro state
      rw [List.foldl_cons, inductionHypothesis, alignBlock]
      cases state.1.bbv.lookup address <;> rfl
  exact blocks parallelOmpF.keys _

/-- Aligning a thread keeps its ids and the names of its regions. -/
theorem named_alignThread {parallelOmpF : UnorderedMap Address String} {names : List String}
    (ids : List Nat) : ∀ {regions aligned : UnorderedMap Nat Region} {balance rest : UInt64},
      alignThread parallelOmpF ids regions balance = some (aligned, rest) → Named names regions →
        Named names aligned := by
  induction ids with
  | nil =>
    intro regions aligned balance rest ran named
    cases ran
    exact named
  | cons id ids inductionHypothesis =>
    intro regions aligned balance rest ran named
    obtain ⟨region, found, ran⟩ := Option.bind_eq_some_iff.mp ran
    refine inductionHypothesis ran fun other => ?_
    rw [UnorderedMap.lookup_insert]
    split
    · rename_i here
      rw [here, ← named, found]
      exact congrArg some (synchName_alignRegion parallelOmpF region balance)
    · exact named other

theorem masterRegions_alignThreads {parallelOmpF : UnorderedMap Address String} {synchCount : Nat}
    (threads : List ThreadData) : ∀ {balance : UInt64} {aligned : List ThreadData},
      alignThreads parallelOmpF synchCount threads balance = some aligned →
        List.Forall₂ (fun before after => ∀ names, Named names before → Named names after)
          (masterRegions threads) (masterRegions aligned) := by
  induction threads with
  | nil =>
    intro balance aligned ran
    cases ran
    exact .nil
  | cons data threads inductionHypothesis =>
    intro balance aligned ran
    obtain ⟨⟨regions, next⟩, first, ran⟩ := Option.bind_eq_some_iff.mp ran
    obtain ⟨rest, later, ran⟩ := Option.bind_eq_some_iff.mp ran
    cases ran
    rw [masterRegions_cons, masterRegions_cons]
    split
    · exact .cons (fun names named => named_alignThread _ first named) (inductionHypothesis later)
    · exact inductionHypothesis later

/-- Aligning the threads keeps the ids of the master and the names of its regions. -/
theorem ListsMaster.alignSynchBb {names : List String} {barrierPoint saved : BarrierPointData}
    {parallelOmpF : UnorderedMap Address String} (lists : ListsMaster names barrierPoint)
    (aligned : barrierPoint.alignSynchBb parallelOmpF = some saved) : ListsMaster names saved := by
  obtain ⟨regions, oneMaster, named⟩ := lists.master
  obtain ⟨threads, ran, rest⟩ := Option.bind_eq_some_iff.mp aligned
  cases rest
  have kept := masterRegions_alignThreads _ ran
  rw [oneMaster] at kept
  obtain ⟨after, later, keeps, none, same⟩ := List.forall₂_cons_left_iff.mp kept
  rw [List.forall₂_nil_left_iff.mp none] at same
  exact ⟨lists.counted, after, same, keeps names named⟩

end BarrierPointData

end BarrierPoint
