/-
This file says what a call of the application does to the library of the
performance counters. Before the region of interest it does nothing. The
barrier that opens the region calls itself and the wrapper of parallel regions
again: the number of the inner call is one, so it neither starts nor records,
and the regions pass through. In the region a call records one phase for each
thread it concerns, and the barrier that closes it prints them.
-/

import BarrierPoint.PerfCounters
import Mathlib.Tactic.Common

namespace BarrierPoint

open Library

variable {Mark : Type} {gomp : Gomp} {environment : Environment} {caller : Caller} {mark : Mark}
  {depth : Nat}

theorem Gomp.mem_team (gomp : Gomp) (caller : Caller) : caller.thread ∈ gomp.team caller :=
  List.mem_of_mem_head? (gomp.first caller)

theorem Gomp.initial_mem (gomp : Gomp) : 0 ∈ gomp.team .initial := gomp.mem_team .initial

namespace PerfCntrs

variable {state next : PerfCntrs Mark}

theorem step_setenv (roiBp : Int) : step gomp environment depth state (.setenv roiBp) =
    some { state with roiBp := some roiBp } := rfl

theorem step_parallel : step gomp environment depth state (.parallel caller mark) =
    gompParallel gomp caller mark depth (fun _ _ state => some state) state := rfl

theorem step_barrier : step gomp environment depth state (.barrier caller mark) =
    gompBarrier gomp environment caller mark depth state := rfl

/-! ### Regions of the library -/

/-- Change the variables of the threads of a team. -/
def onTeam (team : List Nat) (change : ThreadCounters Mark → ThreadCounters Mark)
    (state : PerfCntrs Mark) : PerfCntrs Mark :=
  { state with
    threads := fun thread =>
      if thread ∈ team then change (state.threads thread) else state.threads thread }

/-- The threads of a team change their variables one after the other. -/
theorem run_onThread (change : ThreadCounters Mark → ThreadCounters Mark) (team : List Nat) :
    ∀ (number : Nat) (state : PerfCntrs Mark), team.Nodup →
      run (fun state (member : Nat × Nat) => some (state.onThread member.1 change)) state
        (team.zipIdx number) = some (state.onTeam team change) := by
  induction team with
  | nil => exact fun _ _ _ => rfl
  | cons thread team inductionHypothesis =>
    intro number state distinct
    rw [List.nodup_cons] at distinct
    rw [List.zipIdx_cons, run, Option.bind_some, inductionHypothesis _ _ distinct.2]
    have same : (state.onThread thread change).onTeam team change =
        state.onTeam (thread :: team) change := by
      refine congrArg (fun threads => { state with threads }) (funext fun other => ?_)
      by_cases here : other = thread
      · subst here
        simp [onThread, distinct.1]
      · simp [onThread, here]
    rw [same]

theorem gompParallelReal_onThread (gomp : Gomp) (caller : Caller)
    (change : ThreadCounters Mark → ThreadCounters Mark) (state : PerfCntrs Mark) :
    gompParallelReal gomp (fun thread _ state => some (state.onThread thread change)) caller state =
      some (state.onTeam (gomp.team caller) change) :=
  run_onThread change _ 0 state (gomp.distinct caller)

/-- What the functions of the application do comes later. -/
theorem gompParallelReal_app (gomp : Gomp) (caller : Caller) (state : PerfCntrs Mark) :
    gompParallelReal gomp (fun _ _ state => some state) caller state = some state := by
  have idle : ∀ members : List (Nat × Nat),
      run (fun (state : PerfCntrs Mark) (_ : Nat × Nat) => some state) state members =
        some state := by
    intro members
    induction members with
    | nil => rfl
    | cons member members inductionHypothesis => exact inductionHypothesis
  exact idle _

/-- The wrapper passes on what it does not measure. -/
theorem gompParallel_passes (fn : Outlined Mark)
    (passes : (!state.measuring && state.insideRoi) = false) :
    gompParallel gomp caller mark (depth + 1) fn state = gompParallelReal gomp fn caller state := by
  rw [gompParallel, passes]
  rfl

/-! ### The stages of a run -/

/-- No barrier has opened the region of interest. -/
structure Unopened (state : PerfCntrs Mark) : Prop where
  bpNumber_eq : state.bpNumber = -1
  measuring_eq : state.measuring = false
  insideRoi_eq : state.insideRoi = false
  initialized_eq : state.initialized = false
  started_eq : state.started = false

/-- The region of interest is open, and the counters are running. -/
structure Opened (environment : Environment) (state : PerfCntrs Mark) : Prop where
  bpNumber_pos : 0 < state.bpNumber
  measuring_eq : state.measuring = false
  insideRoi_eq : state.insideRoi = true
  started_eq : state.started = true
  bpPerfcntrs_eq : state.bpPerfcntrs = environment.bpPerfcntrs
  ompParallel_eq : state.ompParallel = environment.bpPerfcntrsOmpparallel

theorem unopened_new : (new : PerfCntrs Mark).Unopened := ⟨rfl, rfl, rfl, rfl, rfl⟩

/-- Before the region of interest a barrier that does not open it does nothing. -/
theorem Unopened.barrier (holds : state.Unopened) (outside : state.readRoi = false) :
    gompBarrier gomp environment caller mark (depth + 1) state = some state := by
  have same : { state with insideRoi := state.readRoi } = state := by
    rw [outside, ← holds.insideRoi_eq]
  rw [gompBarrier, same]
  simp only [holds.insideRoi_eq, Bool.false_eq_true, if_false, holds.bpNumber_eq, gt_iff_lt,
    Int.lt_irrefl]

theorem Unopened.parallel (holds : state.Unopened) :
    gompParallel gomp caller mark (depth + 1) (fun _ _ state => some state) state = some state := by
  rw [gompParallel_passes _ (by rw [holds.insideRoi_eq, Bool.and_false]), gompParallelReal_app]

/-- The barrier that the library calls while it opens the region only counts. -/
theorem gompBarrier_inner (reads : state.readRoi = true) (first : caller.threadNum = 0)
    (opening : state.bpNumber = 0) (unstarted : state.started = false) :
    gompBarrier gomp environment caller mark (depth + 1) state =
      some { state with insideRoi := true, bpNumber := 1 } := by
  obtain ⟨roiBp, bpNumber, measuring, insideRoi, initialized, bpPerfcntrs, ompParallel, started,
    threads, outfile, dumps⟩ := state
  obtain rfl : bpNumber = 0 := opening
  obtain rfl : started = false := unstarted
  have counts : (⟨roiBp, 0, measuring, true, initialized, bpPerfcntrs, ompParallel, false, threads,
      outfile, dumps⟩ : PerfCntrs Mark).barrierPoints caller = ⟨roiBp, 1, measuring, true,
        initialized, bpPerfcntrs, ompParallel, false, threads, outfile, dumps⟩ :=
    if_pos ⟨rfl, first⟩
  have unrecorded : (⟨roiBp, 1, measuring, true, initialized, bpPerfcntrs, ompParallel, false,
      threads, outfile, dumps⟩ : PerfCntrs Mark).recording = false := Bool.and_false _
  rw [gompBarrier, reads]
  show (if (barrierPoints caller _).bpNumber = 0 then _ else
    some ((barrierPoints caller _).barrierRegionPerformanceCounters caller mark)) = _
  rw [counts]
  refine (if_neg (show (1 : Int) ≠ 0 by decide)).trans (congrArg some ?_)
  rw [barrierRegionPerformanceCounters, unrecorded]
  rfl

/-- The state behind the barrier that opens the region of interest. -/
def opening (environment : Environment) (team : List Nat) (mark : Mark) (state : PerfCntrs Mark) :
    PerfCntrs Mark :=
  { state.onTeam team fun counters => (counters.create).start mark with
    bpNumber := 1
    insideRoi := true
    initialized := true
    bpPerfcntrs := environment.bpPerfcntrs
    ompParallel := environment.bpPerfcntrsOmpparallel
    started := true }

/-- Opening the region of interest starts the counters of the threads of the library's region. -/
theorem Unopened.opens (holds : state.Unopened) (reads : state.readRoi = true)
    (first : caller.threadNum = 0) (enabled : environment.bpPerfcntrs ≠ 0) :
    gompBarrier gomp environment caller mark (depth + 2) state =
      some (state.opening environment (gomp.team caller) mark) := by
  obtain ⟨roiBp, bpNumber, measuring, insideRoi, initialized, bpPerfcntrs, ompParallel, started,
    threads, outfile, dumps⟩ := state
  obtain ⟨rfl, rfl, rfl, rfl, rfl⟩ := holds
  let mode : PerfCntrs Mark :=
    ⟨roiBp, 0, true, true, true, environment.bpPerfcntrs, environment.bpPerfcntrsOmpparallel, false,
      threads, outfile, dumps⟩
  have again : mode.readRoi = true := by
    cases roiBp with
    | none => rfl
    | some value => exact reads
  have inner : gompBarrier gomp environment caller mark (depth + 1) mode =
      some { mode with bpNumber := 1 } := gompBarrier_inner again first rfl rfl
  have initialises : initPerformanceCounters environment (gompParallel gomp caller mark (depth + 1))
      (gompBarrier gomp environment caller mark (depth + 1)) caller
      ⟨roiBp, 0, true, true, false, bpPerfcntrs, ompParallel, false, threads, outfile, dumps⟩ =
        some (({ mode with bpNumber := 1 } : PerfCntrs Mark).onTeam (gomp.team caller)
          .create) := by
    rw [initPerformanceCounters, if_pos ⟨first, rfl⟩]
    show (gompBarrier gomp environment caller mark (depth + 1) mode).bind _ = _
    rw [inner, Option.bind_some, if_pos enabled, gompParallel_passes _ rfl,
      gompParallelReal_onThread]
  have starts : startPerformanceCounters (gompParallel gomp caller mark (depth + 1)) mark
      (({ mode with bpNumber := 1 } : PerfCntrs Mark).onTeam (gomp.team caller) .create) =
        some { (({ mode with bpNumber := 1 } : PerfCntrs Mark).onTeam (gomp.team caller)
          .create).onTeam (gomp.team caller) (.start mark) with started := true } := by
    rw [startPerformanceCounters]
    refine (if_pos enabled).trans ?_
    rw [gompParallel_passes _ rfl, gompParallelReal_onThread]
    rfl
  have both : (((⟨roiBp, 1, false, true, true, environment.bpPerfcntrs,
      environment.bpPerfcntrsOmpparallel, true, threads, outfile, dumps⟩ :
        PerfCntrs Mark).onTeam (gomp.team caller) .create).onTeam (gomp.team caller)
          (.start mark)) = (⟨roiBp, 1, false, true, true, environment.bpPerfcntrs,
      environment.bpPerfcntrsOmpparallel, true, threads, outfile, dumps⟩ :
        PerfCntrs Mark).onTeam (gomp.team caller) fun counters => counters.create.start mark := by
    refine congrArg (PerfCntrs.mk _ _ _ _ _ _ _ _ · _ _) (funext fun thread => ?_)
    by_cases member : thread ∈ gomp.team caller <;> simp [onTeam, member]
  have counts : (⟨roiBp, -1, false, true, false, bpPerfcntrs, ompParallel, false, threads, outfile,
      dumps⟩ : PerfCntrs Mark).barrierPoints caller = ⟨roiBp, 0, false, true, false, bpPerfcntrs,
        ompParallel, false, threads, outfile, dumps⟩ := if_pos ⟨rfl, first⟩
  rw [gompBarrier, reads]
  show (if (barrierPoints caller _).bpNumber = 0 then _ else _) = _
  rw [counts]
  show (initPerformanceCounters environment _ _ caller ⟨roiBp, 0, true, true, false, bpPerfcntrs,
    ompParallel, false, threads, outfile, dumps⟩).bind _ = _
  rw [initialises, Option.bind_some]
  show (startPerformanceCounters _ mark _).bind _ = _
  rw [starts]
  exact congrArg some both

theorem opened_opening (environment : Environment) (team : List Nat) (mark : Mark)
    (measuring : state.measuring = false) :
    (state.opening environment team mark).Opened environment :=
  ⟨Int.one_pos, measuring, rfl, rfl, rfl, rfl⟩

/-! ### Calls in the region of interest -/

/-- A thread that calls counts at most one point more. -/
theorem barrierPoints_eq (caller : Caller) (state : PerfCntrs Mark) :
    ∃ number, state.bpNumber ≤ number ∧
      state.barrierPoints caller = { state with bpNumber := number } := by
  unfold barrierPoints
  split
  · exact ⟨_, Int.le_add_of_nonneg_right (by decide), rfl⟩
  · exact ⟨_, Int.le_refl _, rfl⟩

/-- The variables of a thread after a call that concerns it, or does not. -/
def recorded (counters : ThreadCounters Mark) : Option Mark → ThreadCounters Mark
  | some mark => counters.record mark
  | none => counters

/-- The phase a call ends for a thread: a barrier ends one for its caller, a region in serial code
one for the threads of the library's region, and a nested region one for its caller. -/
def recordedMark (gomp : Gomp) (thread : Nat) : OmpCall Mark → Option Mark
  | .setenv _ => none
  | .parallel caller mark =>
      if (if caller.inParallel then thread = caller.thread else thread ∈ gomp.team caller)
        then some mark else none
  | .barrier caller mark => if thread = caller.thread then some mark else none

/-- What a call in the region of interest does. -/
structure Records (gomp : Gomp) (environment : Environment) (call : OmpCall Mark)
    (state next : PerfCntrs Mark) : Prop where
  opened : next.Opened environment
  threads_eq : ∀ thread, next.threads thread = if environment.bpPerfcntrsOmpparallel ≠ 0
    then recorded (state.threads thread) (recordedMark gomp thread call) else state.threads thread
  roiBp_eq : next.roiBp = state.roiBp
  outfile_eq : next.outfile = state.outfile
  dumps_eq : next.dumps = state.dumps

theorem Opened.recording_eq (holds : state.Opened environment)
    (enabled : environment.bpPerfcntrs ≠ 0) :
    state.recording = decide (environment.bpPerfcntrsOmpparallel ≠ 0) := by
  rw [recording, holds.bpPerfcntrs_eq, holds.ompParallel_eq, holds.started_eq, Bool.and_true,
    decide_eq_true enabled, Bool.true_and]

/-- A region starts: a nested call ends a phase of its caller, another one of a whole team. -/
theorem Opened.parallel (holds : state.Opened environment) (enabled : environment.bpPerfcntrs ≠ 0) :
    ∃ next, gompParallel gomp caller mark (depth + 2) (fun _ _ state => some state) state =
      some next ∧ Records gomp environment (.parallel caller mark) state next := by
  obtain ⟨number, larger, counts⟩ := barrierPoints_eq caller state
  have opened : ({ state with bpNumber := number } : PerfCntrs Mark).Opened environment :=
    ⟨Int.lt_of_lt_of_le holds.bpNumber_pos larger, holds.measuring_eq, holds.insideRoi_eq,
      holds.started_eq, holds.bpPerfcntrs_eq, holds.ompParallel_eq⟩
  have records := opened.recording_eq enabled
  have body : ∃ next, parallelRegionPerformanceCounters (gompParallel gomp caller mark (depth + 1))
      caller mark { state with bpNumber := number, measuring := true } =
        some { next with measuring := true } ∧
      Records gomp environment (.parallel caller mark) state next := by
    rw [parallelRegionPerformanceCounters,
      show ({ state with bpNumber := number, measuring := true } : PerfCntrs Mark).recording =
        decide (environment.bpPerfcntrsOmpparallel ≠ 0) from records]
    by_cases mode : environment.bpPerfcntrsOmpparallel ≠ 0
    · rw [if_pos (decide_eq_true mode)]
      cases nested : caller.inParallel with
      | true =>
        refine ⟨({ state with bpNumber := number } : PerfCntrs Mark).onThread caller.thread
          (.record mark), rfl, ⟨opened.1, opened.2, opened.3, opened.4, opened.5, opened.6⟩,
          fun thread => ?_, rfl, rfl, rfl⟩
        rw [if_pos mode, recordedMark, nested]
        by_cases here : thread = caller.thread <;> simp [onThread, recorded, here]
      | false =>
        refine ⟨({ state with bpNumber := number } : PerfCntrs Mark).onTeam (gomp.team caller)
          (.record mark), ?_, ⟨opened.1, opened.2, opened.3, opened.4, opened.5, opened.6⟩,
          fun thread => ?_, rfl, rfl, rfl⟩
        · rw [if_neg Bool.false_ne_true, gompParallel_passes _ rfl, gompParallelReal_onThread]
          rfl
        · rw [if_pos mode, recordedMark, nested]
          by_cases member : thread ∈ gomp.team caller <;> simp [onTeam, recorded, member]
    · rw [if_neg (by simpa using mode)]
      exact ⟨{ state with bpNumber := number }, rfl, opened, fun thread => (if_neg mode).symm, rfl,
        rfl, rfl⟩
  obtain ⟨next, ran, spec⟩ := body
  refine ⟨next, ?_, spec⟩
  rw [gompParallel, holds.measuring_eq, holds.insideRoi_eq, counts]
  show ((parallelRegionPerformanceCounters _ caller mark
    { state with bpNumber := number, measuring := true }).bind _).bind _ = _
  rw [ran, Option.bind_some]
  refine (gompParallelReal_app gomp caller _).trans (congrArg some ?_)
  rw [← spec.opened.measuring_eq]

/-- A barrier in the region ends a phase of its caller. -/
theorem Opened.barrier (holds : state.Opened environment) (enabled : environment.bpPerfcntrs ≠ 0)
    (reads : state.readRoi = true) :
    ∃ next, gompBarrier gomp environment caller mark (depth + 1) state = some next ∧
      Records gomp environment (.barrier caller mark) state next := by
  obtain ⟨number, larger, counts⟩ := barrierPoints_eq caller state
  have same : { state with insideRoi := true } = state := by rw [← holds.insideRoi_eq]
  have opened : ({ state with bpNumber := number } : PerfCntrs Mark).Opened environment :=
    ⟨Int.lt_of_lt_of_le holds.bpNumber_pos larger, holds.measuring_eq, holds.insideRoi_eq,
      holds.started_eq, holds.bpPerfcntrs_eq, holds.ompParallel_eq⟩
  have later : ¬number = 0 := (Int.ne_of_lt (Int.lt_of_lt_of_le holds.bpNumber_pos larger)).symm
  refine ⟨({ state with bpNumber := number } : PerfCntrs Mark).barrierRegionPerformanceCounters
    caller mark, ?_, ?_⟩
  · rw [gompBarrier, reads, same, counts, if_pos holds.insideRoi_eq]
    exact if_neg later
  · rw [barrierRegionPerformanceCounters, opened.recording_eq enabled]
    by_cases mode : environment.bpPerfcntrsOmpparallel ≠ 0
    · rw [if_pos (decide_eq_true mode)]
      refine ⟨⟨opened.1, opened.2, opened.3, opened.4, opened.5, opened.6⟩, fun thread => ?_, rfl,
        rfl, rfl⟩
      rw [if_pos mode, recordedMark]
      by_cases here : thread = caller.thread <;> simp [onThread, recorded, here]
    · rw [if_neg (by simpa using mode)]
      exact ⟨opened, fun thread => (if_neg mode).symm, rfl, rfl, rfl⟩

/-! ### The end of the region of interest -/

/-- What the threads of a team print, one after the other. -/
def printed (mark : Mark) (state : PerfCntrs Mark) (members : List (Nat × Nat)) :
    List (PhaseLine Mark) :=
  members.flatMap fun member =>
    (state.threads member.1).lines state.ompParallel mark member.2

/-- The threads of a team stop running counters one after the other. -/
theorem run_stopThread (mark : Mark) (team : List Nat) :
    ∀ (number : Nat) (state : PerfCntrs Mark), team.Nodup →
      (∀ thread ∈ team, (state.threads thread).running = true) →
      run (fun state (member : Nat × Nat) => stopThread mark member.1 member.2 state) state
        (team.zipIdx number) = some { state.onTeam team (.stop state.ompParallel) with
          outfile := state.outfile ++ printed mark state (team.zipIdx number) } := by
  induction team with
  | nil =>
    intro number state _ _
    refine congrArg some ?_
    show state = { state with outfile := state.outfile ++ [] }
    rw [List.append_nil]
  | cons thread team inductionHypothesis =>
    intro number state distinct running
    rw [List.nodup_cons] at distinct
    rw [List.forall_mem_cons] at running
    let next : PerfCntrs Mark := { state.onThread thread (.stop state.ompParallel) with
      outfile := state.outfile ++ (state.threads thread).lines state.ompParallel mark number }
    have others : ∀ other ∈ team, next.threads other = state.threads other :=
      fun other member =>
        if_neg fun (same : other = thread) => distinct.1 (same ▸ member)
    have rest := inductionHypothesis (number + 1) next distinct.2 fun other member =>
      (others other member).symm ▸ running.2 other member
    have prints : printed mark next (team.zipIdx (number + 1)) =
        printed mark state (team.zipIdx (number + 1)) := by
      refine List.flatMap_congr fun member inside => ?_
      rw [others member.1 (List.fst_mem_of_mem_zipIdx inside)]
      rfl
    have stops : (next.onTeam team (.stop state.ompParallel)).threads =
        (state.onTeam (thread :: team) (.stop state.ompParallel)).threads := by
      refine funext fun other => ?_
      by_cases here : other = thread
      · subst here
        simp [onTeam, onThread, next, distinct.1]
      · simp [onTeam, onThread, next, here]
    rw [List.zipIdx_cons, run, stopThread, if_pos running.1, Option.bind_some]
    have prints' : next.outfile ++ printed mark next (team.zipIdx (number + 1)) =
        state.outfile ++ printed mark state ((thread, number) :: team.zipIdx (number + 1)) := by
      rw [prints, printed, printed, List.flatMap_cons, ← List.append_assoc]
    exact rest.trans (congrArg some (congrArg₂ (fun threads outfile =>
      ({ state with threads, outfile } : PerfCntrs Mark)) stops prints'))

/-- A team with a thread whose counters are not running ends the run. -/
theorem run_stopThread_eq_none (mark : Mark) (team : List Nat) :
    ∀ (number : Nat) (state : PerfCntrs Mark), team.Nodup →
      (∃ thread ∈ team, (state.threads thread).running = false) →
      run (fun state (member : Nat × Nat) => stopThread mark member.1 member.2 state) state
        (team.zipIdx number) = none := by
  induction team with
  | nil => exact fun _ _ _ stopped => nomatch stopped
  | cons thread team inductionHypothesis =>
    intro number state distinct stopped
    rw [List.nodup_cons] at distinct
    rw [List.zipIdx_cons, run, stopThread]
    cases running : (state.threads thread).running with
    | false => rfl
    | true =>
      rw [if_pos rfl, Option.bind_some]
      refine inductionHypothesis _ _ distinct.2 ?_
      obtain ⟨other, member, idle⟩ := stopped
      rcases List.mem_cons.mp member with rfl | later
      · rw [running] at idle
        cases idle
      · refine ⟨other, later, ?_⟩
        rw [← idle]
        exact congrArg ThreadCounters.running
          (if_neg fun (same : other = thread) => distinct.1 (same ▸ later))

/-- A barrier outside the region of interest, once it has been opened, stops the counters. -/
theorem gompBarrier_stops (reads : state.readRoi = false) (counted : 0 < state.bpNumber)
    (enabled : state.bpPerfcntrs ≠ 0) :
    gompBarrier gomp environment caller mark (depth + 2) state =
      (gompParallelReal gomp (stopThread mark) caller { state with insideRoi := false }).bind
        fun state => some { state with started := false, dumps := state.dumps + 1 } := by
  rw [gompBarrier, reads]
  refine (if_neg Bool.false_ne_true).trans ((if_pos ?_).trans ?_)
  · exact Int.lt_trans (by decide) counted
  · rw [stopPerformanceCounters]
    refine (if_pos enabled).trans ?_
    rw [gompParallel_passes _ (Bool.and_false _)]
    rfl

/-- The state behind the barrier that closes the region of interest. -/
def closing (team : List Nat) (mark : Mark) (state : PerfCntrs Mark) : PerfCntrs Mark :=
  { state.onTeam team (.stop state.ompParallel) with
    insideRoi := false
    started := false
    outfile := state.outfile ++ printed mark state team.zipIdx
    dumps := state.dumps + 1 }

theorem gompBarrier_closes (reads : state.readRoi = false) (counted : 0 < state.bpNumber)
    (enabled : state.bpPerfcntrs ≠ 0)
    (running : ∀ thread ∈ gomp.team caller, (state.threads thread).running = true) :
    gompBarrier gomp environment caller mark (depth + 2) state =
      some (state.closing (gomp.team caller) mark) := by
  rw [gompBarrier_stops reads counted enabled, gompParallelReal,
    run_stopThread mark _ 0 { state with insideRoi := false } (gomp.distinct caller) running]
  rfl

theorem gompBarrier_exits (reads : state.readRoi = false) (counted : 0 < state.bpNumber)
    (enabled : state.bpPerfcntrs ≠ 0)
    (stopped : ∃ thread ∈ gomp.team caller, (state.threads thread).running = false) :
    gompBarrier gomp environment caller mark (depth + 2) state = none := by
  rw [gompBarrier_stops reads counted enabled, gompParallelReal,
    run_stopThread_eq_none mark _ 0 { state with insideRoi := false } (gomp.distinct caller) stopped]
  rfl

end PerfCntrs

end BarrierPoint
