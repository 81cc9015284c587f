/-
This file compares the phases that are printed at the end of the region of
interest with those that were recorded. A phase is recorded only while there is
room in the array, but it is counted in any case, and what is printed follows
the count.
-/

import BarrierPoint.PhaseCounts

namespace BarrierPoint

open Library

variable {Mark : Type}

namespace ThreadCounters

variable {began : Option Mark} {marks : List Mark} {counters : ThreadCounters Mark} {ompParallel : Int}

/-- A thread whose phases fit into the array prints each of them with its reading. -/
theorem Kept.lines_eq (kept : Kept began marks counters) (regions : ompParallel ≠ 0)
    (fits : marks.length ≤ maxParallelPhases) (closing : Mark) (tid : Nat) :
    counters.lines ompParallel closing tid =
      (phases began (marks ++ [closing])).zipIdx.map fun (reading, bid) =>
        ⟨tid, bid, some reading⟩ := by
  have stored : (counters.storedIndices ompParallel).map (fun index =>
      (⟨tid, index, counters.storedPhase index⟩ : PhaseLine Mark)) =
        (phases began marks).zipIdx.map fun (reading, bid) => ⟨tid, bid, some reading⟩ := by
    refine List.ext_getElem? fun index => ?_
    rw [List.getElem?_map, List.getElem?_map, List.getElem?_zipIdx, storedIndices, if_pos regions,
      kept.count_eq, Nat.zero_add]
    rcases Nat.lt_or_ge index marks.length with inside | beyond
    · rw [List.getElem?_range inside, Option.map_some,
        kept.storedPhase_eq inside (Nat.lt_of_lt_of_le inside fits)]
      have held := List.getElem?_eq_getElem ((length_phases marks began).symm ▸ inside)
      rw [held]
      rfl
    · rw [List.getElem?_eq_none (by rw [List.length_range]; exact beyond),
        List.getElem?_eq_none (by rw [length_phases]; exact beyond)]
      rfl
  rw [lines, stored, phases_append, List.zipIdx_append, List.map_append, length_phases,
    kept.count_eq, kept.since_eq, Nat.zero_add]
  rfl

end ThreadCounters

namespace PerfCntrs

variable {gomp : Gomp} {environment : Environment} {depth : Nat} {state : PerfCntrs Mark}
  {inside : List (OmpCall Mark)} {opening closing : Mark}

/-- Every printed line carries what was read when the phase of its thread ended. -/
def CarriesPhases (gomp : Gomp) (opening : Mark) (inside : List (OmpCall Mark)) (closing : Mark)
    (outfile : List (PhaseLine Mark)) : Prop :=
  ∀ line ∈ outfile, ∃ thread reading, (gomp.team .initial)[line.tid]? = some thread ∧
    (phases (some opening) (marksOf gomp thread inside ++ [closing]))[line.bid]? = some reading ∧
    line.values = some reading

/-- The phases of all threads of the pool fit into the array. -/
def Fits (gomp : Gomp) (inside : List (OmpCall Mark)) : Prop :=
  ∀ thread ∈ gomp.team .initial, (marksOf gomp thread inside).length ≤ maxParallelPhases

/-- What is printed for a thread is read from the array at every index below its count. -/
theorem accessed_closing (holds : Recorded gomp environment opening inside state)
    (regions : environment.bpPerfcntrsOmpparallel ≠ 0) {thread : Nat}
    (member : thread ∈ gomp.team .initial) :
    ((({ state with roiBp := some 0 } : PerfCntrs Mark).closing (gomp.team .initial)
      closing).threads thread).accessed =
        (state.threads thread).accessed ++ List.range (marksOf gomp thread inside).length := by
  show (if thread ∈ gomp.team .initial then (state.threads thread).stop state.ompParallel
    else state.threads thread).accessed = _
  rw [if_pos member, ThreadCounters.stop, ThreadCounters.storedIndices,
    if_pos (holds.opened.ompParallel_eq ▸ regions), (holds.kept thread member).count_eq]

/-- A thread with more phases than the array has places reads behind its end. -/
theorem not_inBounds_of_long (closing : Mark)
    (holds : Recorded gomp environment opening inside state)
    (regions : environment.bpPerfcntrsOmpparallel ≠ 0) {thread : Nat}
    (member : thread ∈ gomp.team .initial)
    (long : maxParallelPhases < (marksOf gomp thread inside).length) :
    ∃ index ∈ ((({ state with roiBp := some 0 } : PerfCntrs Mark).closing (gomp.team .initial)
      closing).threads thread).accessed, ¬index < maxParallelPhases := by
  refine ⟨maxParallelPhases, ?_, Nat.lt_irrefl _⟩
  rw [accessed_closing holds regions member]
  exact List.mem_append_right _ (List.mem_range.mpr long)

theorem inBounds_of_fits (holds : Recorded gomp environment opening inside state)
    (regions : environment.bpPerfcntrsOmpparallel ≠ 0) (fits : Fits gomp inside) (thread : Nat) :
    ∀ index ∈ ((({ state with roiBp := some 0 } : PerfCntrs Mark).closing (gomp.team .initial)
      closing).threads thread).accessed, index < maxParallelPhases := by
  intro index used
  by_cases member : thread ∈ gomp.team .initial
  · rw [accessed_closing holds regions member] at used
    rcases List.mem_append.mp used with old | read
    · exact holds.inBounds thread index old
    · exact Nat.lt_of_lt_of_le (List.mem_range.mp read) (fits thread member)
  · have same : (({ state with roiBp := some 0 } : PerfCntrs Mark).closing (gomp.team .initial)
        closing).threads thread = state.threads thread := if_neg member
    rw [same] at used
    exact holds.inBounds thread index used

theorem carriesPhases_of_fits (holds : Recorded gomp environment opening inside state)
    (regions : environment.bpPerfcntrsOmpparallel ≠ 0) (fits : Fits gomp inside) :
    CarriesPhases gomp opening inside closing
      (printed closing state (gomp.team .initial).zipIdx) := by
  intro line member
  obtain ⟨⟨thread, tid⟩, numbered, printed⟩ := List.mem_flatMap.mp member
  have placed := List.mem_zipIdx_iff_getElem?.mp numbered
  have inPool := List.mem_of_getElem? placed
  rw [(holds.kept thread inPool).lines_eq (holds.opened.ompParallel_eq ▸ regions)
    (fits thread inPool) closing tid] at printed
  obtain ⟨⟨reading, bid⟩, held, rfl⟩ := List.mem_map.mp printed
  exact ⟨thread, reading, placed, List.mem_zipIdx_iff_getElem?.mp held, rfl⟩

/-- Every index used on the array of the phases is below its size, and every printed line carries
what was read for its phase, exactly when the phases of the threads of the pool fit into it. -/
theorem printed_iff_fits (gomp : Gomp) (environment : Environment) (depth : Nat)
    (enabled : environment.bpPerfcntrs ≠ 0) (regions : environment.bpPerfcntrsOmpparallel ≠ 0)
    (before inside : List (OmpCall Mark)) (opening closing : Mark)
    (outside : ∀ call ∈ before, LeavesRoi call) (within : ∀ call ∈ inside, LeavesRoi call) :
    ∃ state final, Library.run (step gomp environment (depth + 2)) new
        (untilEnd before inside opening) = some state ∧
      Library.run (step gomp environment (depth + 2)) state (ending closing) = some final ∧
      (((∀ thread, ∀ index ∈ (final.threads thread).accessed, index < maxParallelPhases) ∧
        CarriesPhases gomp opening inside closing final.outfile) ↔ Fits gomp inside) := by
  obtain ⟨state, ran, holds⟩ : ∃ state, Library.run (step gomp environment (depth + 2)) new
      (untilEnd before inside opening) = some state ∧
        Recorded gomp environment opening inside state :=
    run_untilEnd opening enabled regions outside within
  refine ⟨state, _, ran, run_ending enabled holds, ?_, fun fits => ?_⟩
  · rintro ⟨inBounds, -⟩ thread member
    by_contra long
    obtain ⟨index, used, beyond⟩ :=
      not_inBounds_of_long closing holds regions member (Nat.lt_of_not_le long)
    exact beyond (inBounds thread index used)
  · refine ⟨inBounds_of_fits holds regions fits, ?_⟩
    rw [outfile_closing holds]
    exact carriesPhases_of_fits holds regions fits

/-- A region of both threads with a barrier. -/
theorem printed_iff_fits_team : ∃ state final,
    Library.run (step twoThreads perRegion 2) new (untilEnd [] [.parallel .initial 1,
      .barrier ⟨0, 0, 1, true⟩ 2, .barrier ⟨1, 1, 1, true⟩ 3] 0) = some state ∧
    Library.run (step twoThreads perRegion 2) state (ending 4) = some final ∧
    (((∀ thread, ∀ index ∈ (final.threads thread).accessed, index < maxParallelPhases) ∧
      CarriesPhases twoThreads 0 [.parallel .initial 1, .barrier ⟨0, 0, 1, true⟩ 2,
        .barrier ⟨1, 1, 1, true⟩ 3] 4 final.outfile) ↔
      Fits twoThreads [.parallel .initial 1, .barrier ⟨0, 0, 1, true⟩ 2,
        .barrier ⟨1, 1, 1, true⟩ 3]) :=
  printed_iff_fits twoThreads perRegion 0 (by decide) (by decide) [] _ 0 4 nofun fun call member => by
    simp only [List.mem_cons, List.not_mem_nil, or_false] at member
    rcases member with rfl | rfl | rfl <;> trivial

/-- One barrier more than the array has places. -/
theorem not_inBounds_full : ∃ state final,
    Library.run (step twoThreads perRegion 2) new (untilEnd []
      (List.replicate (maxParallelPhases + 1) (.barrier .initial 1)) 0) = some state ∧
    Library.run (step twoThreads perRegion 2) state (ending 2) = some final ∧
    ∃ index ∈ (final.threads 0).accessed, ¬index < maxParallelPhases := by
  obtain ⟨state, ran, holds⟩ : ∃ state, Library.run (step twoThreads perRegion 2) new (untilEnd []
      (List.replicate (maxParallelPhases + 1) (.barrier .initial 1)) 0) = some state ∧
        Recorded twoThreads perRegion 0
          (List.replicate (maxParallelPhases + 1) (.barrier .initial 1)) state :=
    run_untilEnd 0 (by decide) (by decide) nofun fun call member => by
      rw [List.eq_of_mem_replicate member]
      trivial
  refine ⟨state, _, ran, run_ending (by decide) holds,
    not_inBounds_of_long 2 holds (by decide) twoThreads.initial_mem ?_⟩
  have every : ∀ count, (marksOf twoThreads 0
      (List.replicate count (OmpCall.barrier .initial 1))).length = count := by
    intro count
    induction count with
    | zero => rfl
    | succ count inductionHypothesis => exact congrArg (· + 1) inductionHypothesis
  rw [every]
  exact Nat.lt_succ_self _

end PerfCntrs

end BarrierPoint
