/-
This file decides when the preloaded library stops the performance counters
only while they are running. The calls are those of the main thread, and the
variable `ROI_BP` changes at will. The first barrier that finds it one starts
the counters, and the next one that finds another value stops them. Whether to
stop is read off the number of the barrier point, which never falls back, so
every later barrier outside the region of interest stops them once more, and
the library exits then. A region that is opened again is not measured.
-/

import BarrierPoint.PhaseCounts

namespace BarrierPoint

open Library

variable {Mark : Type}

namespace PerfCntrs

variable {gomp : Gomp} {environment : Environment} {depth : Nat} {state next : PerfCntrs Mark}

/-! ### What the barriers find -/

/-- The main thread makes a call; it is the first thread of each team that it belongs to. -/
def ByMain : OmpCall Mark → Prop
  | .setenv _ => True
  | .parallel caller _ => caller.thread = 0 ∧ caller.threadNum = 0
  | .barrier caller _ => caller.thread = 0 ∧ caller.threadNum = 0

/-- A call enters `stopPerformanceCounters`. -/
def EntersStop (state : PerfCntrs Mark) : OmpCall Mark → Prop
  | .setenv _ => False
  | .parallel _ _ => False
  | .barrier _ _ => state.readRoi = false ∧ -1 < state.bpNumber

/-- The callers of the barriers, and whether they find the value one in `ROI_BP`. -/
def barriers (roiBp : Option Int) : List (OmpCall Mark) → List (Caller × Bool)
  | [] => []
  | .setenv value :: calls => barriers (some value) calls
  | .parallel _ _ :: calls => barriers roiBp calls
  | .barrier caller _ :: calls => (caller, roiBp = some 1) :: barriers roiBp calls

/-- How many regions of interest end: a barrier finds another value than one, and the barrier before
it found one. -/
def roiEnds (inside : Bool) : List (Caller × Bool) → Nat
  | [] => 0
  | (_, found) :: rest => (if inside && !found then 1 else 0) + roiEnds found rest

/-- The callers of the barriers that find another value than one. -/
def closers (found : List (Caller × Bool)) : List Caller :=
  (found.filter fun barrier => !barrier.2).map Prod.fst

/-- At most one barrier behind the one that opens the region of interest finds another value than
one, and the library's region of that barrier has no thread that did not start its counters. -/
def EndsOnce (gomp : Gomp) : List (Caller × Bool) → Prop
  | [] => True
  | (opener, true) :: rest => (closers rest).length ≤ 1 ∧
      ∀ closer ∈ closers rest, ∀ thread ∈ gomp.team closer, thread ∈ gomp.team opener
  | (_, false) :: rest => EndsOnce gomp rest

/-- The counters are running whenever a call stops them. -/
def StopsRunning (state : PerfCntrs Mark) (call : OmpCall Mark) : Prop :=
  EntersStop state call → state.started = true

/-- The counters are running whenever they are stopped, the run does not end in an error, and the
results of each region of interest that ends are written once. -/
def EndsWell (gomp : Gomp) (environment : Environment) (depth : Nat) (inside : Bool)
    (state : PerfCntrs Mark) (calls : List (OmpCall Mark)) : Prop :=
  Along (step gomp environment depth) StopsRunning state calls ∧
    ∃ final, run (step gomp environment depth) state calls = some final ∧
      final.dumps = state.dumps + roiEnds inside (barriers state.roiBp calls)

/-! ### One call more -/

variable {call : OmpCall Mark} {calls : List (OmpCall Mark)} {inside found : Bool} {caller : Caller}
  {mark : Mark}

/-- A call that is no barrier. -/
theorem endsWell_cons (stepped : step gomp environment depth state call = some next)
    (silent : ¬EntersStop state call)
    (barriers_eq : barriers state.roiBp (call :: calls) = barriers next.roiBp calls)
    (dumps_eq : next.dumps = state.dumps) :
    EndsWell gomp environment depth inside state (call :: calls) ↔
      EndsWell gomp environment depth inside next calls := by
  rw [EndsWell, EndsWell, Along, run, stepped, Option.bind_some, barriers_eq, dumps_eq]
  exact and_congr_left fun _ => ⟨And.right, fun along => ⟨fun enters => (silent enters).elim, along⟩⟩

/-- A barrier that goes through. -/
theorem endsWell_barrier
    (stepped : gompBarrier gomp environment caller mark depth state = some next)
    (allowed : StopsRunning state (.barrier caller mark))
    (finds : decide (state.roiBp = some 1) = found) (roiBp_eq : next.roiBp = state.roiBp)
    (dumps_eq : next.dumps = state.dumps + if inside && !found then 1 else 0) :
    EndsWell gomp environment depth inside state (.barrier caller mark :: calls) ↔
      EndsWell gomp environment depth found next calls := by
  rw [EndsWell, EndsWell, Along, run, step_barrier, stepped, Option.bind_some, barriers, finds,
    roiEnds, dumps_eq, roiBp_eq, Nat.add_assoc]
  exact and_congr_left fun _ => ⟨And.right, fun along => ⟨allowed, along⟩⟩

/-- A barrier that ends in an error. -/
theorem not_endsWell_barrier
    (exits : gompBarrier gomp environment caller mark depth state = none) :
    ¬EndsWell gomp environment depth inside state (.barrier caller mark :: calls) := by
  rintro ⟨-, final, finished, -⟩
  rw [run, step_barrier, exits] at finished
  cases finished

theorem endsWell_setenv (value : Int) :
    EndsWell gomp environment depth inside state (.setenv value :: calls) ↔
      EndsWell gomp environment depth inside { state with roiBp := some value } calls :=
  endsWell_cons (step_setenv value) id rfl rfl

/-- A region that starts. -/
theorem endsWell_parallel
    (stepped : gompParallel gomp caller mark depth (fun _ _ state => some state) state = some next)
    (roiBp_eq : next.roiBp = state.roiBp) (dumps_eq : next.dumps = state.dumps) :
    EndsWell gomp environment depth inside state (.parallel caller mark :: calls) ↔
      EndsWell gomp environment depth inside next calls :=
  endsWell_cons (step_parallel.trans stepped) id (congrArg (barriers · calls) roiBp_eq.symm) dumps_eq

theorem readRoi_of_set (set : state.roiBp.isSome) :
    state.readRoi = decide (state.roiBp = some 1) := by
  obtain ⟨value, holds⟩ := Option.isSome_iff_exists.mp set
  rw [readRoi, holds]
  simp

/-! ### Behind the region of interest -/

/-- The counters have been stopped; a barrier may have opened the region of interest again. -/
structure Ended (state : PerfCntrs Mark) : Prop where
  bpNumber_pos : 0 < state.bpNumber
  measuring_eq : state.measuring = false
  started_eq : state.started = false
  enabled : state.bpPerfcntrs ≠ 0
  stopped : (state.threads 0).running = false
  set : state.roiBp.isSome

/-- A region that starts is not recorded. -/
theorem Ended.parallel (holds : state.Ended) :
    ∃ next, gompParallel gomp caller mark (depth + 1) (fun _ _ state => some state) state =
      some next ∧ next.Ended ∧ next.roiBp = state.roiBp ∧ next.dumps = state.dumps := by
  cases within : state.insideRoi with
  | false =>
    refine ⟨state, ?_, holds, rfl, rfl⟩
    rw [gompParallel_passes _ (by rw [within, Bool.and_false]), gompParallelReal_app]
  | true =>
    obtain ⟨number, larger, counts⟩ := barrierPoints_eq caller state
    have idle : parallelRegionPerformanceCounters (gompParallel gomp caller mark depth) caller mark
        { state with bpNumber := number, measuring := true } =
          some { state with bpNumber := number, measuring := true } :=
      if_neg (by simp [recording, holds.started_eq])
    refine ⟨{ state with bpNumber := number }, ?_,
      ⟨Int.lt_of_lt_of_le holds.bpNumber_pos larger, holds.measuring_eq, holds.started_eq,
        holds.enabled, holds.stopped, holds.set⟩, rfl, rfl⟩
    rw [gompParallel, holds.measuring_eq, within, counts]
    show ((parallelRegionPerformanceCounters _ caller mark
      { state with bpNumber := number, measuring := true }).bind _).bind _ = _
    rw [idle]
    exact (gompParallelReal_app gomp caller _).trans (congrArg (fun insideRoi => some
      ({ state with bpNumber := number, measuring := false, insideRoi } : PerfCntrs Mark)) within)

/-- A barrier that opens the region of interest again neither starts the counters nor records. -/
theorem Ended.barrier (holds : state.Ended) (reads : state.readRoi = true) :
    ∃ next, gompBarrier gomp environment caller mark (depth + 1) state = some next ∧ next.Ended ∧
      next.roiBp = state.roiBp ∧ next.dumps = state.dumps := by
  obtain ⟨number, larger, counts⟩ := barrierPoints_eq caller { state with insideRoi := true }
  have positive : 0 < number := Int.lt_of_lt_of_le holds.bpNumber_pos larger
  refine ⟨{ state with insideRoi := true, bpNumber := number }, ?_,
    ⟨positive, holds.measuring_eq, holds.started_eq, holds.enabled, holds.stopped, holds.set⟩, rfl,
    rfl⟩
  rw [gompBarrier, reads, counts]
  refine (if_pos rfl).trans ((if_neg (Int.ne_of_gt positive)).trans (congrArg some ?_))
  exact if_neg (by simp [recording, holds.started_eq])

/-- Behind the region of interest any barrier outside of it ends the run. -/
theorem Ended.endsWell_iff (calls : List (OmpCall Mark)) : ∀ {state : PerfCntrs Mark} {inside : Bool},
    state.Ended → (∀ call ∈ calls, ByMain call) →
      (EndsWell gomp environment (depth + 2) inside state calls ↔
        closers (barriers state.roiBp calls) = []) := by
  induction calls with
  | nil => exact fun _ _ => ⟨fun _ => rfl, fun _ => ⟨trivial, _, rfl, rfl⟩⟩
  | cons call calls inductionHypothesis =>
    intro state inside holds main
    rw [List.forall_mem_cons] at main
    cases call with
    | setenv value =>
      rw [endsWell_setenv]
      exact inductionHypothesis ⟨holds.bpNumber_pos, holds.measuring_eq, holds.started_eq,
        holds.enabled, holds.stopped, rfl⟩ main.2
    | parallel caller mark =>
      obtain ⟨next, stepped, ended, roiBp_eq, dumps_eq⟩ : ∃ next,
          gompParallel gomp caller mark (depth + 2) (fun _ _ state => some state) state =
            some next ∧ _ := holds.parallel
      rw [endsWell_parallel stepped roiBp_eq dumps_eq,
        inductionHypothesis ended main.2, roiBp_eq]
      rfl
    | barrier caller mark =>
      have reads := readRoi_of_set holds.set
      cases finds : decide (state.roiBp = some 1) with
      | true =>
        obtain ⟨next, stepped, ended, roiBp_eq, dumps_eq⟩ : ∃ next,
            gompBarrier gomp environment caller mark (depth + 2) state = some next ∧ _ :=
          holds.barrier (reads.trans finds)
        rw [endsWell_barrier stepped (fun enters => absurd (reads.trans finds) (by simp [enters.1]))
            finds roiBp_eq (by rw [dumps_eq, Bool.not_true, Bool.and_false]; rfl),
          inductionHypothesis ended main.2, roiBp_eq, barriers, finds]
        rfl
      | false =>
        refine iff_of_false (not_endsWell_barrier (gompBarrier_exits (reads.trans finds)
          holds.bpNumber_pos holds.enabled ⟨0, ?_, holds.stopped⟩)) ?_
        · exact main.1.1 ▸ gomp.mem_team caller
        · rw [barriers, finds]
          exact List.cons_ne_nil _ _

/-! ### In the region of interest -/

/-- The counters of the threads of a team are running. -/
structure Running (environment : Environment) (team : List Nat) (state : PerfCntrs Mark) : Prop where
  opened : state.Opened environment
  running_eq : ∀ thread, (state.threads thread).running = decide (thread ∈ team)
  set : state.roiBp.isSome

variable {team : List Nat}

theorem running_recorded (counters : ThreadCounters Mark) (mark : Option Mark) :
    (recorded counters mark).running = counters.running := by
  cases mark <;> rfl

theorem Running.of_records (holds : state.Running environment team)
    (records : Records gomp environment call state next) : next.Running environment team := by
  refine ⟨records.opened, fun thread => ?_, records.roiBp_eq ▸ holds.set⟩
  rw [records.threads_eq, ← holds.running_eq]
  split
  · exact running_recorded _ _
  · rfl

theorem Running.closing (holds : state.Running environment team)
    (enabled : environment.bpPerfcntrs ≠ 0) (member : 0 ∈ gomp.team caller) :
    (state.closing (gomp.team caller) mark).Ended := by
  refine ⟨holds.opened.bpNumber_pos, holds.opened.measuring_eq, rfl,
    show state.bpPerfcntrs ≠ 0 from holds.opened.bpPerfcntrs_eq ▸ enabled, ?_, holds.set⟩
  exact congrArg ThreadCounters.running (if_pos member)

/-- The barrier that finds the end of the region of interest stops the counters of its team, which
have to be running, and no barrier outside of a region may come behind it. -/
theorem Running.endsWell_closing_iff (enabled : environment.bpPerfcntrs ≠ 0)
    (holds : state.Running environment team) (member : 0 ∈ gomp.team caller)
    (finds : decide (state.roiBp = some 1) = false) (main : ∀ call ∈ calls, ByMain call) :
    EndsWell gomp environment (depth + 2) true state (.barrier caller mark :: calls) ↔
      (closers (barriers state.roiBp calls)).length + 1 ≤ 1 ∧
        ∀ closer ∈ caller :: closers (barriers state.roiBp calls), ∀ thread ∈ gomp.team closer,
          thread ∈ team := by
  have outside : state.readRoi = false := (readRoi_of_set holds.set).trans finds
  have enabled' : state.bpPerfcntrs ≠ 0 := holds.opened.bpPerfcntrs_eq ▸ enabled
  by_cases covered : ∀ thread ∈ gomp.team caller, thread ∈ team
  · have closes : gompBarrier gomp environment caller mark (depth + 2) state = _ :=
      gompBarrier_closes outside holds.opened.bpNumber_pos enabled' fun thread member =>
        (holds.running_eq thread).trans (decide_eq_true (covered thread member))
    have ended : (state.closing (gomp.team caller) mark).Ended := holds.closing enabled member
    rw [endsWell_barrier closes (fun _ => holds.opened.started_eq) finds rfl rfl,
      ended.endsWell_iff calls main]
    show closers (barriers state.roiBp calls) = [] ↔ _
    constructor
    · intro none_left
      rw [none_left]
      exact ⟨Nat.le_refl _, fun closer member => List.mem_singleton.mp member ▸ covered⟩
    · rintro ⟨short, -⟩
      exact List.length_eq_zero_iff.mp (by omega)
  · obtain ⟨thread, inTeam, absent⟩ : ∃ thread ∈ gomp.team caller, thread ∉ team := by
      by_contra every
      exact covered fun thread member => by_contra fun absent => every ⟨thread, member, absent⟩
    refine iff_of_false (not_endsWell_barrier (gompBarrier_exits outside
      holds.opened.bpNumber_pos enabled' ⟨thread, inTeam, ?_⟩)) ?_
    · exact (holds.running_eq thread).trans (decide_eq_false absent)
    · rintro ⟨-, within⟩
      exact absent (within caller List.mem_cons_self thread inTeam)

/-- In the region of interest one barrier outside of it is left, whose threads are all running. -/
theorem Running.endsWell_iff (enabled : environment.bpPerfcntrs ≠ 0) (calls : List (OmpCall Mark)) :
    ∀ {state : PerfCntrs Mark}, state.Running environment team → (∀ call ∈ calls, ByMain call) →
      (EndsWell gomp environment (depth + 2) true state calls ↔
        (closers (barriers state.roiBp calls)).length ≤ 1 ∧
          ∀ closer ∈ closers (barriers state.roiBp calls), ∀ thread ∈ gomp.team closer,
            thread ∈ team) := by
  induction calls with
  | nil => exact fun _ _ => ⟨fun _ => ⟨Nat.zero_le _, nofun⟩, fun _ => ⟨trivial, _, rfl, rfl⟩⟩
  | cons call calls inductionHypothesis =>
    intro state holds main
    rw [List.forall_mem_cons] at main
    cases call with
    | setenv value =>
      rw [endsWell_setenv]
      have kept : Opened environment { state with roiBp := some value } :=
        ⟨holds.opened.1, holds.opened.2, holds.opened.3, holds.opened.4, holds.opened.5,
          holds.opened.6⟩
      exact inductionHypothesis ⟨kept, holds.running_eq, rfl⟩ main.2
    | parallel caller mark =>
      obtain ⟨next, stepped, records⟩ : ∃ next,
          gompParallel gomp caller mark (depth + 2) (fun _ _ state => some state) state =
            some next ∧ Records gomp environment (.parallel caller mark) state next :=
        holds.opened.parallel enabled
      rw [endsWell_parallel stepped records.roiBp_eq records.dumps_eq,
        inductionHypothesis (holds.of_records records) main.2, records.roiBp_eq]
      rfl
    | barrier caller mark =>
      have reads := readRoi_of_set holds.set
      cases finds : decide (state.roiBp = some 1) with
      | true =>
        obtain ⟨next, stepped, records⟩ : ∃ next,
            gompBarrier gomp environment caller mark (depth + 2) state = some next ∧
              Records gomp environment (.barrier caller mark) state next :=
          holds.opened.barrier enabled (reads.trans finds)
        rw [endsWell_barrier stepped (fun enters => absurd (reads.trans finds) (by simp [enters.1]))
            finds records.roiBp_eq (by rw [records.dumps_eq]; rfl),
          inductionHypothesis (holds.of_records records) main.2, records.roiBp_eq, barriers, finds]
        rfl
      | false =>
        rw [barriers, finds]
        exact holds.endsWell_closing_iff enabled (main.1.1 ▸ gomp.mem_team caller) finds main.2

/-! ### From the start of the application -/

/-- The barrier that opens the region of interest starts the counters of its team. -/
theorem Unopened.opening (holds : state.Unopened)
    (idle : ∀ thread, (state.threads thread).running = false) (finds : state.roiBp = some 1) :
    (state.opening environment (gomp.team caller) mark).Running environment (gomp.team caller) := by
  refine ⟨opened_opening environment _ mark holds.measuring_eq, fun thread => ?_, ?_⟩
  · show (if thread ∈ gomp.team caller then (state.threads thread).create.start mark
      else state.threads thread).running = _
    split
    · rename_i member
      exact (decide_eq_true member).symm
    · rename_i absent
      exact (idle thread).trans (decide_eq_false absent).symm
  · show state.roiBp.isSome
    rw [finds]
    rfl

/-- Before the region of interest is opened no counters are running. -/
theorem Unopened.endsWell_iff (enabled : environment.bpPerfcntrs ≠ 0) (calls : List (OmpCall Mark)) :
    ∀ {state : PerfCntrs Mark}, state.Unopened → (∀ thread, (state.threads thread).running = false) →
      (∀ call ∈ calls, ByMain call) →
      (EndsWell gomp environment (depth + 2) false state calls ↔
        EndsOnce gomp (barriers state.roiBp calls)) := by
  induction calls with
  | nil => exact fun _ _ _ => ⟨fun _ => trivial, fun _ => ⟨trivial, _, rfl, rfl⟩⟩
  | cons call calls inductionHypothesis =>
    intro state holds idle main
    rw [List.forall_mem_cons] at main
    have reads : state.readRoi = decide (state.roiBp = some 1) := by
      cases unset : state.roiBp with
      | none =>
        rw [readRoi, unset]
        exact holds.insideRoi_eq
      | some value =>
        rw [readRoi_of_set (by rw [unset]; rfl), unset]
    cases call with
    | setenv value =>
      rw [endsWell_setenv]
      exact inductionHypothesis ⟨holds.1, holds.2, holds.3, holds.4, holds.5⟩ idle main.2
    | parallel caller mark =>
      have stepped : gompParallel gomp caller mark (depth + 2) (fun _ _ state => some state) state =
          some state := holds.parallel
      rw [endsWell_parallel stepped rfl rfl]
      exact inductionHypothesis holds idle main.2
    | barrier caller mark =>
      cases finds : decide (state.roiBp = some 1) with
      | false =>
        have stepped : gompBarrier gomp environment caller mark (depth + 2) state = some state :=
          holds.barrier (reads.trans finds)
        rw [endsWell_barrier stepped
            (fun enters => absurd enters.2 (by rw [holds.bpNumber_eq]; decide)) finds rfl rfl,
          inductionHypothesis holds idle main.2, barriers, finds]
        rfl
      | true =>
        have opens : gompBarrier gomp environment caller mark (depth + 2) state = _ :=
          holds.opens (reads.trans finds) main.1.2 enabled
        have running : (state.opening environment (gomp.team caller) mark).Running environment
            (gomp.team caller) := holds.opening idle (of_decide_eq_true finds)
        rw [endsWell_barrier opens (fun enters => absurd (reads.trans finds) (by simp [enters.1]))
            finds rfl rfl,
          running.endsWell_iff enabled calls main.2, barriers, finds]
        rfl

/-- The counters are stopped only while they are running, the library never exits, and the results
of each region of interest are written once, exactly when at most one barrier of the run finds that
the region has ended and its threads have started their counters. -/
theorem stops_running_iff (gomp : Gomp) (environment : Environment) (depth : Nat)
    (enabled : environment.bpPerfcntrs ≠ 0) (calls : List (OmpCall Mark))
    (main : ∀ call ∈ calls, ByMain call) :
    (Along (step gomp environment (depth + 2)) StopsRunning new calls ∧
      ∃ final, run (step gomp environment (depth + 2)) new calls = some final ∧
        final.dumps = roiEnds false (barriers none calls)) ↔
      EndsOnce gomp (barriers none calls) := by
  have ends : EndsWell gomp environment (depth + 2) false new calls ↔ _ :=
    unopened_new.endsWell_iff enabled calls (fun _ => rfl) main
  rw [EndsWell, show (new : PerfCntrs Mark).dumps = 0 from rfl, Nat.zero_add] at ends
  exact ends

/-- A region of interest with a parallel region, and no barrier behind it. -/
theorem stops_running_iff_once :
    (Along (step twoThreads perRegion 2) StopsRunning new [.setenv 1, .barrier .initial 0,
        .parallel .initial 1, .setenv 0, .barrier .initial 2] ∧
      ∃ final, run (step twoThreads perRegion 2) new [.setenv 1, .barrier .initial 0,
          .parallel .initial 1, .setenv 0, .barrier .initial 2] = some final ∧
        final.dumps = roiEnds false (barriers none [.setenv 1, .barrier .initial 0,
          .parallel .initial 1, .setenv 0, .barrier .initial 2])) ↔
      EndsOnce twoThreads (barriers none [.setenv 1, .barrier .initial 0, .parallel .initial 1,
        .setenv 0, .barrier .initial 2]) :=
  stops_running_iff twoThreads perRegion 0 (by decide) _ fun call member => by
    simp only [List.mem_cons, List.not_mem_nil, or_false] at member
    rcases member with rfl | rfl | rfl | rfl | rfl <;> trivial

/-- The barrier behind the end of the region of interest stops counters that are not running, and
the library exits. -/
theorem stops_stopped_barrier :
    ¬Along (step twoThreads perRegion 2) StopsRunning new [.setenv 1, .barrier .initial 0, .setenv 0,
        .barrier .initial 1, .barrier .initial 2] ∧
      run (step twoThreads perRegion 2) new [.setenv 1, .barrier .initial 0, .setenv 0,
        .barrier .initial 1, .barrier .initial 2] = none := by
  refine ⟨fun along => ?_, rfl⟩
  have stopped := along.2.2.2.2.1 ⟨rfl, by decide⟩
  cases stopped

end PerfCntrs

end BarrierPoint
