/-
This file follows the parser through files of counters in which the threads
have appended complete blocks of lines in any order. A thread may have any
number of phases, and a round any counters behind the instruction count. Every
block starts at the first barrier, so the parser never skips one; and every
phase starts with its instruction count, so every value is paired with the
instruction count of its own thread, phase and run.
-/

import BarrierPoint.PapiParser

namespace BarrierPoint

open Library StatsPerfCounters

/-! ### Blocks -/

/-- What `stopPerformanceCounters` prints for one thread: its number, the process, the counters of
the round behind the instruction count, the number of phases before the last one, and the value of
each counter in each phase. -/
structure PapiBlock where
  tid : Nat
  pid : Nat
  others : List Text
  regionCount : Nat
  value : Nat → Text → Nat
  named : ∀ stat ∈ others, Sample.IsCounter stat

namespace PapiBlock

/-- The counters of the round. -/
def events (block : PapiBlock) : List Text := totIns :: block.others

/-- The lines of one phase. -/
def phaseSamples (block : PapiBlock) (bid : Nat) : List Sample :=
  block.events.map fun stat => ⟨stat, block.tid, block.pid, bid, block.value bid stat⟩

/-- The lines of the block: the phases that were stored, and the last one. -/
def samples (block : PapiBlock) : List Sample :=
  (List.range (block.regionCount + 1)).flatMap block.phaseSamples

/-- The values of a counter in a phase, each with the instruction count of the phase. -/
def phasePairs (block : PapiBlock) (stat : Text) (bid : Nat) : List (Nat × Nat) :=
  (block.events.filter (· = stat)).map fun stat => (block.value bid totIns, block.value bid stat)

/-- What the block records for a counter of a thread at a barrier. -/
def pairs (block : PapiBlock) (stat : Text) (tid bid : Nat) : List (Nat × Nat) :=
  if block.tid = tid ∧ bid < block.regionCount + 1 then block.phasePairs stat bid else []

theorem isCounter_events (block : PapiBlock) : ∀ stat ∈ block.events, Sample.IsCounter stat :=
  List.forall_mem_cons.mpr ⟨by decide, block.named⟩

theorem isCounter_samples (block : PapiBlock) :
    ∀ sample ∈ block.samples, Sample.IsCounter sample.stat := by
  intro sample member
  obtain ⟨bid, -, member⟩ := List.mem_flatMap.mp member
  obtain ⟨stat, counted, rfl⟩ := List.mem_map.mp member
  exact block.isCounter_events stat counted

end PapiBlock

/-! ### Reading a block -/

variable {nthreads barriers : Nat} {counters : StatsPerfCounters} {block : PapiBlock}

/-- What one more counter contributes to the pairs of a phase. -/
theorem pairs_cons (block : PapiBlock) (bid : Nat) (next : Text) (stats : List Text) (stat : Text)
    (tid place : Nat) :
    ((if next = stat ∧ block.tid = tid ∧ bid = place
        then [(block.value bid totIns, block.value bid next)] else []) ++
      if block.tid = tid ∧ bid = place then (stats.filter (· = stat)).map fun stat =>
        (block.value bid totIns, block.value bid stat) else []) =
      if block.tid = tid ∧ bid = place then ((next :: stats).filter (· = stat)).map fun stat =>
        (block.value bid totIns, block.value bid stat) else [] := by
  by_cases here : block.tid = tid ∧ bid = place
  · rw [if_pos here, if_pos here, List.filter_cons]
    by_cases same : next = stat
    · rw [if_pos ⟨same, here⟩, if_pos (decide_eq_true same)]
      rfl
    · rw [if_neg fun alike => same alike.1, if_neg (by simpa using same)]
      rfl
  · rw [if_neg here, if_neg here, if_neg fun alike => here alike.2]
    rfl

/-- The counters behind the instruction count are paired with it. -/
theorem addOthers (known : block.tid < nthreads) {bid : Nat} (stats : List Text) :
    ∀ {counters : StatsPerfCounters}, Shaped nthreads barriers counters → bid < barriers →
    counters.inst block.tid bid = block.value bid totIns → ∃ after,
      (stats.map fun stat => (⟨stat, block.tid, block.pid, bid, block.value bid stat⟩ : Sample)).foldlM
        (StatsPerfCounters.addSample nthreads) counters = .ok after ∧
      Shaped nthreads barriers after ∧
      ∀ stat tid place, after.entries stat tid place = counters.entries stat tid place ++
        if block.tid = tid ∧ bid = place then
          (stats.filter (· = stat)).map fun stat => (block.value bid totIns, block.value bid stat)
        else [] := by
  induction stats with
  | nil =>
    intro counters shaped inside counted
    refine ⟨counters, rfl, shaped, fun stat tid place => ?_⟩
    split <;> exact (List.append_nil _).symm
  | cons next stats inductionHypothesis =>
    intro counters shaped inside counted
    obtain ⟨middle, added, shapedMiddle, insts, appended⟩ := shaped.addSample
      (show (⟨next, block.tid, block.pid, bid, block.value bid next⟩ : Sample).bid ≤ barriers from
        inside.le) known
    rw [Nat.max_eq_left inside] at shapedMiddle
    have countedMiddle : middle.inst block.tid bid = block.value bid totIns := by
      rw [insts, counted]
      split
      · rename_i same
        rw [← same.1]
      · rfl
    obtain ⟨after, ran, shapedAfter, rest⟩ :=
      inductionHypothesis shapedMiddle inside countedMiddle
    refine ⟨after, ?_, shapedAfter, fun stat tid place => ?_⟩
    · rw [List.map_cons, List.foldlM_cons, bind_of_eq_ok added]
      exact ran
    · rw [rest, appended, countedMiddle, List.append_assoc, pairs_cons]

/-- A phase that is next at most is recorded with its instruction count. -/
theorem addPhase (known : block.tid < nthreads) (shaped : Shaped nthreads barriers counters)
    {bid : Nat} (next : bid ≤ barriers) : ∃ after,
      (block.phaseSamples bid).foldlM (StatsPerfCounters.addSample nthreads) counters = .ok after ∧
      Shaped nthreads (max barriers (bid + 1)) after ∧
      ∀ stat tid place, after.entries stat tid place = counters.entries stat tid place ++
        if block.tid = tid ∧ bid = place then block.phasePairs stat bid else [] := by
  obtain ⟨first, added, shapedFirst, insts, appended⟩ := shaped.addSample
    (show (⟨totIns, block.tid, block.pid, bid, block.value bid totIns⟩ : Sample).bid ≤ barriers from
      next) known
  have counted : first.inst block.tid bid = block.value bid totIns := by
    rw [insts, if_pos ⟨rfl, rfl, rfl⟩]
  obtain ⟨after, ran, shapedAfter, rest⟩ := addOthers known block.others shapedFirst
    (Nat.lt_of_lt_of_le (Nat.lt_succ_self bid) (Nat.le_max_right _ _)) counted
  refine ⟨after, ?_, shapedAfter, fun stat tid place => ?_⟩
  · rw [PapiBlock.phaseSamples, PapiBlock.events, List.map_cons, List.foldlM_cons,
      bind_of_eq_ok added]
    exact ran
  · rw [rest, appended, counted, List.append_assoc, pairs_cons]
    rfl

/-- A block is recorded: in every phase of its thread each counter with its instruction count. -/
theorem addBlock (known : block.tid < nthreads) (shaped : Shaped nthreads barriers counters) :
    ∃ after, block.samples.foldlM (StatsPerfCounters.addSample nthreads) counters = .ok after ∧
      Shaped nthreads (max barriers (block.regionCount + 1)) after ∧
      ∀ stat tid bid, after.entries stat tid bid =
        counters.entries stat tid bid ++ block.pairs stat tid bid := by
  have steps : ∀ count, ∃ after,
      ((List.range count).flatMap block.phaseSamples).foldlM
        (StatsPerfCounters.addSample nthreads) counters = .ok after ∧
      Shaped nthreads (max barriers count) after ∧
      ∀ stat tid bid, after.entries stat tid bid = counters.entries stat tid bid ++
        if block.tid = tid ∧ bid < count then block.phasePairs stat bid else [] := by
    intro count
    induction count with
    | zero =>
      refine ⟨counters, rfl, (Nat.max_zero barriers).symm ▸ shaped, fun stat tid bid => ?_⟩
      rw [if_neg fun same => Nat.not_lt_zero _ same.2, List.append_nil]
    | succ count inductionHypothesis =>
      obtain ⟨middle, ran, shapedMiddle, recorded⟩ := inductionHypothesis
      obtain ⟨after, added, shapedAfter, appended⟩ :=
        addPhase known shapedMiddle (Nat.le_max_right barriers count)
      refine ⟨after, ?_, ?_, fun stat tid bid => ?_⟩
      · rw [List.range_succ, List.flatMap_append, List.foldlM_append, bind_of_eq_ok ran,
          List.flatMap_singleton]
        exact added
      · rw [show max barriers (count + 1) = max (max barriers count) (count + 1) by omega]
        exact shapedAfter
      · rw [appended, recorded, List.append_assoc]
        refine congrArg (counters.entries stat tid bid ++ ·) ?_
        by_cases last : count = bid
        · subst last
          rw [if_neg fun same => Nat.lt_irrefl _ same.2, List.nil_append]
          simp
        · rw [if_neg (fun same : block.tid = tid ∧ count = bid => last same.2), List.append_nil]
          have order : bid < count ↔ bid < count + 1 := by omega
          simp only [order]
  exact steps (block.regionCount + 1)

/-- Blocks are recorded one after the other. -/
theorem addBlocks (blocks : List PapiBlock) : ∀ {barriers : Nat} {counters : StatsPerfCounters},
    Shaped nthreads barriers counters → (∀ block ∈ blocks, block.tid < nthreads) → ∃ after,
      (blocks.flatMap PapiBlock.samples).foldlM (StatsPerfCounters.addSample nthreads) counters =
        .ok after ∧
      Shaped nthreads (blocks.foldl (fun barriers block => max barriers (block.regionCount + 1))
        barriers) after ∧
      ∀ stat tid bid, after.entries stat tid bid = counters.entries stat tid bid ++
        blocks.flatMap fun block => block.pairs stat tid bid := by
  induction blocks with
  | nil =>
    intro barriers counters shaped _
    exact ⟨counters, rfl, shaped, fun stat tid bid => (List.append_nil _).symm⟩
  | cons block blocks inductionHypothesis =>
    intro barriers counters shaped known
    rw [List.forall_mem_cons] at known
    obtain ⟨middle, added, shapedMiddle, recorded⟩ := addBlock known.1 shaped
    obtain ⟨after, ran, shapedAfter, rest⟩ := inductionHypothesis shapedMiddle known.2
    refine ⟨after, ?_, shapedAfter, fun stat tid bid => ?_⟩
    · rw [List.flatMap_cons, List.foldlM_append, bind_of_eq_ok added]
      exact ran
    · rw [rest, recorded, List.append_assoc, List.flatMap_cons]

/-! ### Reading the files -/

/-- The files hold blocks, for each iteration those of its file. -/
def HoldBlocks (files : Text → Option (List Text)) (filePrefix : Text)
    (written : List (List PapiBlock)) : Prop :=
  ∀ (iteration : Nat) blocks, written[iteration]? = some blocks →
    files (filePrefix ++ decimal iteration ++ ".papi".toList) =
      some ((blocks.flatMap PapiBlock.samples).map Sample.line)

/-- Files of complete blocks, in any order, are parsed without an error. There are as many barriers
as the longest block has phases; and each counter of a thread at a barrier has the values written
for it, in the order of the files, each with the instruction count of its block and phase. -/
theorem new_blocks {files : Text → Option (List Text)} {filePrefix : Text} {nthreads : Nat}
    {written : List (List PapiBlock)} (held : HoldBlocks files filePrefix written)
    (known : ∀ blocks ∈ written, ∀ block ∈ blocks, block.tid < nthreads) : ∃ counters,
      new files filePrefix written.length nthreads = .ok counters ∧
      counters.getNumberBarriers =
        (written.flatten.map fun block => block.regionCount + 1).foldl max 0 ∧
      ∀ bid < counters.getNumberBarriers, ∀ tid < nthreads, ∃ row thread,
        counters.stats[bid]? = some row ∧ row[tid]? = some thread ∧
        ∀ stat, (thread.lookup stat).getD [] =
          written.flatten.flatMap fun block => block.pairs stat tid bid := by
  have empty : Shaped nthreads 0 { stats := [], tInst := [] } := ⟨rfl, rfl, nofun, nofun⟩
  obtain ⟨counters, ran, shaped, recorded⟩ := addBlocks written.flatten empty
    fun block member => by
      obtain ⟨blocks, inside, member⟩ := List.mem_flatten.mp member
      exact known blocks inside block member
  have read := new_eq files filePrefix nthreads
    (written.map fun blocks => blocks.flatMap PapiBlock.samples)
    (fun iteration samples heldSamples => by
      rw [List.getElem?_map, Option.map_eq_some_iff] at heldSamples
      obtain ⟨blocks, here, rfl⟩ := heldSamples
      exact held iteration blocks here)
    (fun samples member sample inside => by
      obtain ⟨blocks, -, rfl⟩ := List.mem_map.mp member
      obtain ⟨block, -, inside⟩ := List.mem_flatMap.mp inside
      exact block.isCounter_samples sample inside)
  have inOrder : written.flatten.flatMap PapiBlock.samples =
      written.flatMap fun blocks => blocks.flatMap PapiBlock.samples := by
    rw [← List.flatMap_id, List.flatMap_assoc]
    rfl
  rw [List.length_map, ← List.flatMap_def, ← inOrder, ran] at read
  refine ⟨counters, read, ?_, fun bid inside tid knownTid => ?_⟩
  · rw [List.foldl_map]
    exact shaped.length
  · have heldRow := List.getElem?_eq_getElem inside
    have width := shaped.threads _ (List.getElem_mem inside)
    have heldThread := List.getElem?_eq_getElem (width.symm ▸ knownTid)
    refine ⟨_, _, heldRow, heldThread, fun stat => ?_⟩
    have there := recorded stat tid bid
    rw [entries, cell_eq_some heldRow heldThread] at there
    exact there

theorem isCounter_totCyc : ∀ stat ∈ ["TOT_CYC".toList], Sample.IsCounter stat := by decide

/-- A round of two threads, of which the second has one phase more. -/
def unevenRound (pid : Nat) : List PapiBlock :=
  [⟨1, pid, ["TOT_CYC".toList], 1, fun bid _ => 7 + bid, isCounter_totCyc⟩,
    ⟨0, pid, ["TOT_CYC".toList], 0, fun _ stat => if stat = totIns then 5 else 8,
      isCounter_totCyc⟩]

/-- One iteration with that round. -/
def unevenFiles (name : Text) : Option (List Text) :=
  if name = "r0.papi".toList then
    some (((unevenRound 3).flatMap PapiBlock.samples).map Sample.line)
  else none

theorem holdBlocks_unevenFiles : HoldBlocks unevenFiles "r".toList [unevenRound 3] := by
  rintro (_ | iteration) blocks held
  · cases held
    rfl
  · cases held

theorem new_blocks_unevenRound : ∃ counters, new unevenFiles "r".toList 1 2 = .ok counters ∧
    counters.getNumberBarriers = 2 := by
  obtain ⟨counters, read, number, -⟩ := new_blocks holdBlocks_unevenFiles
    (show ∀ blocks ∈ [unevenRound 3], ∀ block ∈ blocks, block.tid < 2 by decide)
  exact ⟨counters, read, number⟩

end BarrierPoint
