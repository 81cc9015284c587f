/-
This file models how the analysis script combines the vector files of the
client into one vector for each phase, and proves that the dimensions of these
vectors are kept apart. The first line of each file belongs to the phase before
the first parallel region and is skipped. The identifiers of the basic blocks
are shifted by the largest identifier of the reuse distances that is left, so
they come after all of these, although the client has packed the identifiers
with strides that count the skipped line, too.
-/

import BarrierPoint.DrAnalysis
import BarrierPoint.VectorFiles
import Mathlib.Algebra.BigOperators.Ring.Finset

namespace BarrierPoint

open Library

/-! ### Combining the files -/

/-- What is kept of the reuse distances: the largest identifier, and for each phase the sum of the
frequencies and the pairs of an identifier and a frequency. -/
structure ReuseData where
  bbMax : Int
  totalReusePerPhase : List Int
  reuseDataPerPhase : List (List (Int × Int))

/-- One line of the reuse distances. -/
def ReuseData.addLine (reuse : ReuseData) (line : Text) : Except PyError ReuseData := do
  let data ← colonNumbers line
  let bbMax ← maximum (everyOther data ++ [reuse.bbMax])
  return {
    bbMax
    totalReusePerPhase := reuse.totalReusePerPhase ++ [(everyOther (data.drop 1)).sum]
    reuseDataPerPhase := reuse.reuseDataPerPhase ++ [inPairs data] }

/-- The file of the reuse distances. -/
def readReuse (ldvReuse : Text) : Except PyError ReuseData :=
  ((fileLines ldvReuse).drop 1).foldlM ReuseData.addLine
    { bbMax := 0, totalReusePerPhase := [], reuseDataPerPhase := [] }

/-- A line of `.bpv`: the reuse distances with their adjusted frequencies, then the basic blocks
with their adjusted identifiers. -/
structure BpvLine where
  reuse : List (Int × ℚ)
  blocks : List (Int × Int)
  deriving DecidableEq, Repr

/-- The dimensions of a line, in the order they are written. -/
def BpvLine.ids (line : BpvLine) : List Int := line.reuse.map Prod.fst ++ line.blocks.map Prod.fst

/-- Combine one line of the basic block vectors with the reuse distances of its phase. The division
is exact here. -/
def combineLine (reuse : ReuseData) (insPerPhase : List Int) (line : Text) (phase : Nat) :
    Except PyError BpvLine := do
  let data ← colonNumbers line
  let distances ← getItem reuse.reuseDataPerPhase phase
  let adjusted ← distances.mapM fun (id, count) => do
    let ins ← getItem insPerPhase phase
    let total ← getItem reuse.totalReusePerPhase phase
    if total = 0 then .error .zeroDivisionError
    else return (id, ((count * ins : Int) : ℚ) / total)
  return {
    reuse := adjusted
    blocks := ((everyOther data).map (· + reuse.bbMax)).zip (everyOther (data.drop 1)) }

/-- What combining the files computes and writes. -/
structure Combined where
  bbMax : Int
  insPerPhase : List Int
  lines : List BpvLine
  deriving DecidableEq, Repr

/-- `__CombineBBVsandLDVs`, which returns false (`none`) when a file is missing. -/
def combineBBVsandLDVs (bbvCount bbvInscount ldvReuse : Option Text) :
    Except PyError (Option Combined) :=
  match bbvCount, bbvInscount, ldvReuse with
  | some bbvCount, some bbvInscount, some ldvReuse => do
      let reuse ← readReuse ldvReuse
      let insPerPhase ← readInsPerPhase (fileLines bbvInscount)
      if insPerPhase.length ≠ reuse.reuseDataPerPhase.length then .error .assertionError
      else
        let lines ← ((fileLines bbvCount).drop 1).zipIdx.mapM fun (line, phase) =>
          combineLine reuse insPerPhase line phase
        return some { bbMax := reuse.bbMax, insPerPhase, lines }
  | _, _, _ => return none

/-- What an entry of a combined vector comes from: a bucket of the histogram of a thread, or a basic
block of a thread. -/
inductive Source where
  | reuse (thread bucket : Nat)
  | block (thread : Nat) (address : Address)
  deriving DecidableEq

/-- The thread of a source. -/
def Source.thread : Source → Nat
  | .reuse thread _ => thread
  | .block thread _ => thread

namespace BarrierPointData

variable {barrierPoint : BarrierPointData}

/-! ### Reading the reuse distances -/

/-- The phases that are not skipped. -/
def phases (barrierPoint : BarrierPointData) : List Nat := List.range' 1 (barrierPoint.synchCount - 1)

theorem drop_range (count : Nat) : (List.range count).drop 1 = List.range' 1 (count - 1) := by
  rw [List.range_eq_range', List.drop_range']

/-- Pairs as the script reads them. -/
def asInts (pairs : List (Nat × Nat)) : List (Int × Int) :=
  pairs.map fun pair => ((pair.1 : Int), (pair.2 : Int))

theorem colonNumbers_vector (synchId : Nat) (pairs : List (Nat × Nat)) :
    colonNumbers (colonPairs (vectorDelim synchId) pairs ++ ['\n']) =
      .ok ((asInts pairs).flatMap fun pair => [pair.1, pair.2]) := by
  rw [colonNumbers_colonPairs (vectorDelim_ne synchId).1, asInts, List.flatMap_map]

/-- The lines of a vector file that are not skipped. -/
theorem drop_fileLines {file : Text} {pairs : Nat → List (Nat × Nat)}
    (printed : file = (List.range barrierPoint.synchCount).flatMap fun number =>
      colonPairs (vectorDelim number) (pairs number) ++ ['\n']) :
    (fileLines file).drop 1 = barrierPoint.phases.map fun number =>
      colonPairs (vectorDelim number) (pairs number) ++ ['\n'] := by
  rw [printed, fileLines_flatMap _ _ fun number _ =>
    newline_notMem_colonPairs (vectorDelim_ne number).2 (pairs number), ← List.map_drop, drop_range,
    phases]

theorem foldlM_addLine (pairs : Nat → List (Nat × Nat)) (numbers : List Nat) :
    ∀ before : ReuseData, ∃ reuse : ReuseData,
      (numbers.map fun number => colonPairs (vectorDelim number) (pairs number) ++ ['\n']).foldlM
        ReuseData.addLine before = .ok reuse ∧
      reuse.totalReusePerPhase = before.totalReusePerPhase ++
        numbers.map (fun number => ((asInts (pairs number)).map Prod.snd).sum) ∧
      reuse.reuseDataPerPhase = before.reuseDataPerPhase ++
        numbers.map (fun number => asInts (pairs number)) ∧
      before.bbMax ≤ reuse.bbMax ∧
      ∀ number ∈ numbers, ∀ pair ∈ asInts (pairs number), pair.1 ≤ reuse.bbMax := by
  induction numbers with
  | nil => exact fun before => ⟨before, rfl, by simp, by simp, le_refl _, nofun⟩
  | cons number numbers inductionHypothesis =>
    intro before
    have filled : (asInts (pairs number)).map Prod.fst ++ [before.bbMax] ≠ [] := by simp
    obtain ⟨bbMax, found, bound⟩ := maximum_eq_ok filled
    obtain ⟨reuse, ran, totals, data, above, each⟩ := inductionHypothesis {
      bbMax
      totalReusePerPhase := before.totalReusePerPhase ++ [((asInts (pairs number)).map Prod.snd).sum]
      reuseDataPerPhase := before.reuseDataPerPhase ++ [asInts (pairs number)] }
    refine ⟨reuse, ?_, ?_, ?_, (bound _ (by simp)).trans above, ?_⟩
    · rw [List.map_cons, List.foldlM_cons, ReuseData.addLine,
        bind_of_eq_ok (colonNumbers_vector number (pairs number)), everyOther_flatMap,
        everyOther_drop_flatMap, inPairs_flatMap, bind_of_eq_ok found]
      exact ran
    · rw [totals, List.append_assoc]
      rfl
    · rw [data, List.append_assoc]
      rfl
    · rw [List.forall_mem_cons]
      exact ⟨fun pair member => (bound _ (List.mem_append_left _
        (List.mem_map_of_mem member))).trans above, each⟩

/-! ### The combined lines -/

/-- The line of a phase. -/
def bpvLine (barrierPoint : BarrierPointData) (bbMax : Int) (insPerPhase : List Int) (phase : Nat) :
    BpvLine where
  reuse := (asInts (barrierPoint.ldvPairs phase)).map fun pair =>
    (pair.1, ((pair.2 * insPerPhase.getD (phase - 1) 0 : Int) : ℚ) /
      ((asInts (barrierPoint.ldvPairs phase)).map Prod.snd).sum)
  blocks := (asInts (barrierPoint.bbvPairs phase)).map fun pair => (pair.1 + bbMax, pair.2)

/-- The frequencies that are written are not zero, so they do not sum up to zero. -/
theorem sum_ne_zero {phase : Nat} {pair : Int × Int}
    (member : pair ∈ asInts (barrierPoint.ldvPairs phase)) :
    ((asInts (barrierPoint.ldvPairs phase)).map Prod.snd).sum ≠ 0 := by
  have positive : ∀ count ∈ (asInts (barrierPoint.ldvPairs phase)).map Prod.snd, 0 < count := by
    intro count inside
    rw [asInts, List.map_map] at inside
    obtain ⟨printed, written, rfl⟩ := List.mem_map.mp inside
    obtain ⟨data, -, region, -, kept⟩ := mem_forThreads.mp written
    obtain ⟨⟨ent, bucket⟩, entry, rfl⟩ := List.mem_map.mp kept
    have filled : ent ≠ 0 := by simpa using (List.mem_filter.mp entry).2
    exact Int.natCast_pos.mpr (Nat.pos_of_ne_zero filled)
  have filled : (asInts (barrierPoint.ldvPairs phase)).map Prod.snd ≠ [] :=
    List.ne_nil_of_mem (List.mem_map_of_mem member)
  exact (List.sum_pos _ positive filled).ne'

theorem combineLine_eq {reuse : ReuseData} {insPerPhase : List Int} {index : Nat}
    (inside : index < insPerPhase.length)
    (total : reuse.totalReusePerPhase[index]? =
      some ((asInts (barrierPoint.ldvPairs (index + 1))).map Prod.snd).sum)
    (data : reuse.reuseDataPerPhase[index]? = some (asInts (barrierPoint.ldvPairs (index + 1)))) :
    combineLine reuse insPerPhase
      (colonPairs (vectorDelim (index + 1)) (barrierPoint.bbvPairs (index + 1)) ++ ['\n']) index =
      .ok (barrierPoint.bpvLine reuse.bbMax insPerPhase (index + 1)) := by
  have ins : insPerPhase[index]? = some (insPerPhase.getD index 0) := by
    rw [List.getD_eq_getElem?_getD, List.getElem?_eq_getElem inside, Option.getD_some]
  rw [combineLine, bind_of_eq_ok (colonNumbers_vector _ _), bind_of_eq_ok (getItem_of_getElem? data),
    bind_of_eq_ok (mapM_eq_ok fun pair member => ?_), everyOther_flatMap, everyOther_drop_flatMap,
    List.map_map, List.zip_map']
  · rfl
  · obtain ⟨id, count⟩ := pair
    show (getItem insPerPhase index >>= _) = _
    rw [bind_of_eq_ok (getItem_of_getElem? ins), bind_of_eq_ok (getItem_of_getElem? total),
      if_neg (sum_ne_zero member)]
    rfl

theorem readReuse_eq (barrierPoint : BarrierPointData) : ∃ reuse,
    readReuse barrierPoint.saveLdvBb = .ok reuse ∧
    reuse.totalReusePerPhase = barrierPoint.phases.map
      (fun phase => ((asInts (barrierPoint.ldvPairs phase)).map Prod.snd).sum) ∧
    reuse.reuseDataPerPhase =
      barrierPoint.phases.map (fun phase => asInts (barrierPoint.ldvPairs phase)) ∧
    ∀ phase ∈ barrierPoint.phases, ∀ pair ∈ asInts (barrierPoint.ldvPairs phase),
      pair.1 ≤ reuse.bbMax := by
  obtain ⟨reuse, ran, totals, data, -, bound⟩ := foldlM_addLine barrierPoint.ldvPairs
    barrierPoint.phases { bbMax := 0, totalReusePerPhase := [], reuseDataPerPhase := [] }
  refine ⟨reuse, ?_, totals, data, bound⟩
  rw [readReuse, drop_fileLines barrierPoint.saveLdvBb_eq]
  exact ran

theorem getElem?_phases {index phase : Nat} :
    barrierPoint.phases[index]? = some phase ↔
      index < barrierPoint.synchCount - 1 ∧ index + 1 = phase := by
  rw [phases]
  by_cases inside : index < barrierPoint.synchCount - 1
  · rw [List.getElem?_range' inside, Option.some_inj, Nat.one_mul, Nat.add_comm]
    exact ⟨fun same => ⟨inside, same⟩, And.right⟩
  · rw [List.getElem?_eq_none (by rw [List.length_range']; omega)]
    exact ⟨nofun, fun held => (inside held.1).elim⟩

/-- The lines are combined phase by phase. -/
theorem combineLines_eq {reuse : ReuseData} (read : readReuse barrierPoint.saveLdvBb = .ok reuse)
    {insPerPhase : List Int} (same : insPerPhase.length = reuse.reuseDataPerPhase.length) :
    (((fileLines barrierPoint.saveBbvCount).drop 1).zipIdx.mapM fun (line, phase) =>
      combineLine reuse insPerPhase line phase) =
      .ok (barrierPoint.phases.map (barrierPoint.bpvLine reuse.bbMax insPerPhase)) := by
  obtain ⟨known, ran, totals, data, -⟩ := barrierPoint.readReuse_eq
  obtain rfl := Except.ok.inj (read.symm.trans ran)
  rw [data, List.length_map] at same
  rw [drop_fileLines barrierPoint.saveBbvCount_eq]
  have each : ∀ entry ∈ (barrierPoint.phases.map fun number =>
      colonPairs (vectorDelim number) (barrierPoint.bbvPairs number) ++ ['\n']).zipIdx,
      combineLine reuse insPerPhase entry.1 entry.2 =
        .ok (barrierPoint.bpvLine reuse.bbMax insPerPhase (entry.2 + 1)) := by
    rintro ⟨line, index⟩ member
    rw [List.mk_mem_zipIdx_iff_getElem?, List.getElem?_map, Option.map_eq_some_iff] at member
    obtain ⟨phase, held, rfl⟩ := member
    have inside := (List.getElem?_eq_some_iff.mp held).1
    obtain ⟨-, rfl⟩ := getElem?_phases.mp held
    exact combineLine_eq (same ▸ inside) (by rw [totals, List.getElem?_map, held]; rfl)
      (by rw [data, List.getElem?_map, held]; rfl)
  rw [mapM_eq_ok each]
  refine congrArg Except.ok (List.ext_getElem? fun index => ?_)
  rw [List.getElem?_map, List.getElem?_zipIdx, List.getElem?_map, List.getElem?_map]
  cases held : barrierPoint.phases[index]? with
  | none => rfl
  | some phase =>
    obtain ⟨-, rfl⟩ := getElem?_phases.mp held
    show some _ = some _
    rw [Nat.zero_add]

/-- The instructions all threads have executed in a phase. -/
def instructions (barrierPoint : BarrierPointData) (phase : Nat) : Nat :=
  (barrierPoint.threads.map fun data => (data.getInstrCount phase).toNat).sum

/-- A line of instruction counts is read when there is a thread. -/
theorem readCounts_eq (team : barrierPoint.threads ≠ []) (id : Nat) :
    (([','].intercalate (barrierPoint.threads.map fun data =>
      decimal (data.getInstrCount id).toNat) ++ ['\n']).splitOn ',').mapM parseInt =
      .ok (barrierPoint.threads.map fun data => ((data.getInstrCount id).toNat : Int)) := by
  obtain ⟨data, threads, teamEq⟩ := List.exists_cons_of_ne_nil team
  have read := commaNumbers_intercalate (data.getInstrCount id).toNat
    (threads.map fun data => (data.getInstrCount id).toNat)
  rw [List.map_cons, List.map_map] at read
  rw [teamEq, List.map_cons, List.map_cons]
  refine read.trans ?_
  rw [List.map_cons, List.map_map]
  rfl

/-- The instruction counts of the client are read, one for each phase, when there is a thread. -/
theorem readInsPerPhase_eq (team : barrierPoint.threads ≠ []) :
    readInsPerPhase (fileLines barrierPoint.saveBbvInstCount) =
      .ok (barrierPoint.phases.map fun phase => (barrierPoint.instructions phase : Int)) := by
  have solid : ∀ id ∈ List.range barrierPoint.synchCount, '\n' ∉ [','].intercalate
      (barrierPoint.threads.map fun data => decimal (data.getInstrCount id).toNat) := by
    refine fun id _ => notMem_intercalate (by decide) fun field member => ?_
    obtain ⟨data, -, rfl⟩ := List.mem_map.mp member
    exact notMem_decimal (by decide) _
  rw [readInsPerPhase, saveBbvInstCount, fileLines_flatMap _ _ solid, ← List.map_drop, drop_range,
    ← phases, List.mapM_map]
  refine mapM_eq_ok fun id _ => (bind_of_eq_ok (readCounts_eq team id) _).trans ?_
  rw [instructions, Nat.cast_list_sum, List.map_map]
  rfl

/-- The files of a run with a thread are combined. -/
theorem combineBBVsandLDVs_eq (team : barrierPoint.threads ≠ []) : ∃ bbMax,
    combineBBVsandLDVs (some barrierPoint.saveBbvCount) (some barrierPoint.saveBbvInstCount)
      (some barrierPoint.saveLdvBb) = .ok (some {
        bbMax
        insPerPhase := barrierPoint.phases.map fun phase => (barrierPoint.instructions phase : Int)
        lines := barrierPoint.phases.map (barrierPoint.bpvLine bbMax
          (barrierPoint.phases.map fun phase => (barrierPoint.instructions phase : Int))) }) := by
  obtain ⟨reuse, read, -, data, -⟩ := barrierPoint.readReuse_eq
  have lengths : (barrierPoint.phases.map fun phase =>
      (barrierPoint.instructions phase : Int)).length = reuse.reuseDataPerPhase.length := by
    rw [data, List.length_map, List.length_map]
  refine ⟨reuse.bbMax, ?_⟩
  rw [combineBBVsandLDVs, bind_of_eq_ok read, bind_of_eq_ok (readInsPerPhase_eq team),
    if_neg (not_not.mpr lengths), bind_of_eq_ok (combineLines_eq read lengths)]
  rfl

/-! ### The dimensions -/

/-- The non-zero buckets of the threads that have a region. -/
def reuseSources (barrierPoint : BarrierPointData) (phase : Nat) : List Source :=
  barrierPoint.forThreads phase fun data region =>
    (region.lruHist.zipIdx.filter (·.1 ≠ 0)).map fun entry =>
      .reuse data.fakeTid.toNat entry.2

/-- The basic blocks of the threads that have a region. -/
def blockSources (barrierPoint : BarrierPointData) (phase : Nat) : List Source :=
  barrierPoint.forThreads phase fun data region =>
    region.bbv.entries.map fun bb => .block data.fakeTid.toNat bb.1

/-- What the entries of the line of a phase come from. -/
def sources (barrierPoint : BarrierPointData) (phase : Nat) : List Source :=
  barrierPoint.reuseSources phase ++ barrierPoint.blockSources phase

/-- The dimension of a source, where the blocks are numbered by their places. -/
def dimension (barrierPoint : BarrierPointData) (blocks : List Address) (bbMax : Int) : Source → Int
  | .reuse thread bucket => (1 + bucket + thread * barrierPoint.maxHistSize : Nat)
  | .block thread address => (1 + blocks.idxOf address + thread * blocks.length : Nat) + bbMax

theorem mem_reuseSources {phase : Nat} (inside : phase < barrierPoint.synchCount) {source : Source}
    (member : source ∈ barrierPoint.reuseSources phase) :
    ∃ thread bucket, source = .reuse thread bucket ∧ bucket < barrierPoint.maxHistSize := by
  obtain ⟨data, thread, region, found, kept⟩ := mem_forThreads.mp member
  obtain ⟨⟨ent, bucket⟩, entry, rfl⟩ := List.mem_map.mp kept
  exact ⟨_, _, rfl, Nat.lt_of_lt_of_le (List.snd_lt_of_mem_zipIdx (List.mem_of_mem_filter entry))
    (length_le_maxHistSize (mem_metRegions thread inside found))⟩

theorem mem_blockSources {phase : Nat} (inside : phase < barrierPoint.synchCount) {source : Source}
    (member : source ∈ barrierPoint.blockSources phase) :
    ∃ thread address, source = .block thread address ∧ address ∈ barrierPoint.metBlocks := by
  obtain ⟨data, thread, region, found, kept⟩ := mem_forThreads.mp member
  obtain ⟨bb, entry, rfl⟩ := List.mem_map.mp kept
  exact ⟨_, _, rfl, List.mem_flatMap.mpr
    ⟨region, mem_metRegions thread inside found, List.mem_map_of_mem entry⟩⟩

theorem map_ldvPairs (blocks : List Address) (bbMax : Int) (phase : Nat) :
    (asInts (barrierPoint.ldvPairs phase)).map Prod.fst =
      (barrierPoint.reuseSources phase).map (barrierPoint.dimension blocks bbMax) := by
  rw [asInts, List.map_map, ldvPairs, map_forThreads, reuseSources, map_forThreads]
  refine forThreads_congr fun data _ region _ => ?_
  rw [List.map_map, List.map_map]
  rfl

theorem map_bbvPairs {blocks : List Address}
    (numbers : BlockNumbers barrierPoint.metBlocks blocks barrierPoint.bbIds)
    (numbered : barrierPoint.FakeTids)
    (fits : barrierPoint.threads.length * blocks.length < 2 ^ 32) {phase : Nat}
    (inside : phase < barrierPoint.synchCount) (bbMax : Int) :
    (asInts (barrierPoint.bbvPairs phase)).map (fun pair => pair.1 + bbMax) =
      (barrierPoint.blockSources phase).map (barrierPoint.dimension blocks bbMax) := by
  rw [asInts, List.map_map, bbvPairs_eq numbers numbered fits inside, map_forThreads, blockSources,
    map_forThreads]
  refine forThreads_congr fun data _ region _ => ?_
  rw [List.map_map, List.map_map]
  rfl

theorem ids_bpvLine {blocks : List Address}
    (numbers : BlockNumbers barrierPoint.metBlocks blocks barrierPoint.bbIds)
    (numbered : barrierPoint.FakeTids)
    (fits : barrierPoint.threads.length * blocks.length < 2 ^ 32) {phase : Nat}
    (inside : phase < barrierPoint.synchCount) (bbMax : Int) (insPerPhase : List Int) :
    (barrierPoint.bpvLine bbMax insPerPhase phase).ids =
      (barrierPoint.sources phase).map (barrierPoint.dimension blocks bbMax) := by
  rw [BpvLine.ids, bpvLine, List.map_map, List.map_map, sources, List.map_append,
    ← map_ldvPairs, ← map_bbvPairs numbers numbered fits inside]
  rfl

/-- What a thread contributes to a phase are sources of its own. -/
theorem thread_of_mem {items : ThreadData → Region → List Source}
    (own : ∀ data region, ∀ source ∈ items data region, source.thread = data.fakeTid.toNat)
    {phase : Nat} {data : ThreadData} {source : Source}
    (member : source ∈ match data.regions.lookup phase with
      | some region => items data region
      | none => []) : source.thread = data.fakeTid.toNat := by
  cases found : data.regions.lookup phase with
  | none =>
    rw [found] at member
    cases member
  | some region =>
    rw [found] at member
    exact own data region source member

/-- No entry is written twice for a region, so the threads contribute different sources. -/
theorem nodup_forThreads (numbered : barrierPoint.FakeTids) {phase : Nat}
    {items : ThreadData → Region → List Source}
    (distinct : ∀ data region, (items data region).Nodup)
    (own : ∀ data region, ∀ source ∈ items data region, source.thread = data.fakeTid.toNat) :
    (barrierPoint.forThreads phase items).Nodup := by
  rw [forThreads, List.nodup_flatMap]
  constructor
  · intro data _
    cases data.regions.lookup phase with
    | none => exact List.nodup_nil
    | some region => exact distinct data region
  · refine List.pairwise_iff_getElem.mpr fun first second inFirst inSecond order => ?_
    intro source one other
    have tid : ∀ (index : Nat) (inside : index < barrierPoint.threads.length),
        barrierPoint.threads[index].fakeTid.toNat = index :=
      fun index inside => numbered index _ (List.getElem?_eq_getElem inside)
    have sameThread := (thread_of_mem own one).symm.trans (thread_of_mem own other)
    rw [tid first inFirst, tid second inSecond] at sameThread
    exact absurd sameThread (Nat.ne_of_lt order)

theorem nodup_sources (numbered : barrierPoint.FakeTids) {phase : Nat}
    (inside : phase < barrierPoint.synchCount) : (barrierPoint.sources phase).Nodup := by
  refine List.nodup_append.mpr ⟨?_, ?_, ?_⟩
  · refine nodup_forThreads numbered (fun data region => ?_) fun data region source member => ?_
    · refine List.Nodup.map_on ?_ ?_
      · rintro ⟨ent, bucket⟩ first ⟨other, place⟩ second same
        obtain rfl : bucket = place := by
          injection same
        have one := List.mk_mem_zipIdx_iff_getElem?.mp (List.mem_of_mem_filter first)
        have two := List.mk_mem_zipIdx_iff_getElem?.mp (List.mem_of_mem_filter second)
        rw [Option.some_inj.mp (one.symm.trans two)]
      · refine List.Nodup.filter _ (List.Nodup.of_map Prod.snd ?_)
        rw [List.zipIdx_map_snd]
        exact List.nodup_range'
    · obtain ⟨entry, -, rfl⟩ := List.mem_map.mp member
      rfl
  · refine nodup_forThreads numbered (fun data region => ?_) fun data region source member => ?_
    · have keys : (region.bbv.entries.map Sigma.fst).Nodup := region.bbv.nodupKeys
      rw [show (fun bb : Sigma fun _ : Address => UInt32 =>
        Source.block data.fakeTid.toNat bb.1) = Source.block data.fakeTid.toNat ∘ Sigma.fst from rfl,
        ← List.map_map]
      exact keys.map fun first second same => by injection same
    · obtain ⟨entry, -, rfl⟩ := List.mem_map.mp member
      rfl
  · rintro source first other second rfl
    obtain ⟨_, _, here, -⟩ := mem_reuseSources inside first
    obtain ⟨_, _, there, -⟩ := mem_blockSources inside second
    rw [here] at there
    cases there

/-- Two identifiers that are packed alike pack the same thread and index. -/
theorem pack_inj {stride index other : Nat} (inside : index < stride) (within : other < stride)
    {thread another : Nat}
    (same : 1 + index + thread * stride = 1 + other + another * stride) :
    thread = another ∧ index = other := by
  have first := decode_pack inside thread 0
  rw [same, decode_pack within another 0, Prod.mk.injEq, Prod.mk.injEq] at first
  exact ⟨Int.ofNat_inj.mp first.1.1.symm, Int.ofNat_inj.mp first.1.2.symm⟩

/-- The dimensions of the reuse distances are up to any bound of the identifiers read for them. -/
theorem dimension_le (blocks : List Address) {bbMax : Int} {phase : Nat}
    (bound : ∀ pair ∈ asInts (barrierPoint.ldvPairs phase), pair.1 ≤ bbMax) {source : Source}
    (member : source ∈ barrierPoint.reuseSources phase) :
    barrierPoint.dimension blocks bbMax source ≤ bbMax := by
  have printed := List.mem_map_of_mem (f := barrierPoint.dimension blocks bbMax) member
  rw [← map_ldvPairs] at printed
  obtain ⟨pair, written, same⟩ := List.mem_map.mp printed
  rw [← same]
  exact bound pair written

/-- The dimensions of the blocks are above the bound they are shifted by. -/
theorem lt_dimension (blocks : List Address) (bbMax : Int) {phase : Nat}
    (inside : phase < barrierPoint.synchCount) {source : Source}
    (member : source ∈ barrierPoint.blockSources phase) :
    bbMax < barrierPoint.dimension blocks bbMax source := by
  obtain ⟨thread, address, rfl, -⟩ := mem_blockSources inside member
  rw [dimension]
  omega

/-- Different sources have different dimensions: below the bound the reuse distances, above it the
blocks. -/
theorem injOn_dimension {blocks : List Address}
    (numbers : BlockNumbers barrierPoint.metBlocks blocks barrierPoint.bbIds) {bbMax : Int}
    (below : ∀ phase ∈ barrierPoint.phases, ∀ source ∈ barrierPoint.reuseSources phase,
      barrierPoint.dimension blocks bbMax source ≤ bbMax)
    (above : ∀ phase ∈ barrierPoint.phases, ∀ source ∈ barrierPoint.blockSources phase,
      bbMax < barrierPoint.dimension blocks bbMax source)
    (inside : ∀ phase ∈ barrierPoint.phases, phase < barrierPoint.synchCount) :
    Set.InjOn (barrierPoint.dimension blocks bbMax)
      {source | ∃ phase ∈ barrierPoint.phases, source ∈ barrierPoint.sources phase} := by
  rintro first ⟨phase, known, one⟩ second ⟨later, knownLater, two⟩ same
  rcases List.mem_append.mp one with reuse | block
  · have low := below phase known first reuse
    obtain ⟨thread, bucket, rfl, small⟩ := mem_reuseSources (inside phase known) reuse
    rcases List.mem_append.mp two with otherReuse | otherBlock
    · obtain ⟨another, place, rfl, alsoSmall⟩ :=
        mem_reuseSources (inside later knownLater) otherReuse
      obtain ⟨rfl, rfl⟩ := pack_inj small alsoSmall (Int.ofNat_inj.mp same)
      rfl
    · exact absurd (same ▸ low) (not_le.mpr (above later knownLater second otherBlock))
  · have high := above phase known first block
    obtain ⟨thread, address, rfl, met⟩ := mem_blockSources (inside phase known) block
    rcases List.mem_append.mp two with otherReuse | otherBlock
    · exact absurd (same ▸ high) (not_lt.mpr (below later knownLater second otherReuse))
    · obtain ⟨another, place, rfl, alsoMet⟩ :=
        mem_blockSources (inside later knownLater) otherBlock
      rw [← numbers.mem_iff] at met alsoMet
      obtain ⟨rfl, alike⟩ := pack_inj (List.idxOf_lt_length_of_mem met)
        (List.idxOf_lt_length_of_mem alsoMet) (Int.ofNat_inj.mp (add_right_cancel same))
      rw [(List.idxOf_inj met).mp alike]

/-- The dimensions of the combined vectors. For the files of a run with a thread the vectors are
written. In every line no dimension occurs twice, the reuse distances come up to the bound and the
blocks after it; and over all lines a dimension stands for one source. -/
theorem combined_dimensions (numbered : barrierPoint.FakeTids)
    (fits : barrierPoint.threads.length * barrierPoint.metBlocks.toFinset.card < 2 ^ 32) :
    (barrierPoint.threads ≠ [] → ∃ combined, combineBBVsandLDVs (some barrierPoint.saveBbvCount)
      (some barrierPoint.saveBbvInstCount) (some barrierPoint.saveLdvBb) = .ok (some combined)) ∧
    ∀ (bbvInscount : Text) (combined : Combined),
      combineBBVsandLDVs (some barrierPoint.saveBbvCount) (some bbvInscount)
        (some barrierPoint.saveLdvBb) = .ok (some combined) →
      (∀ line ∈ combined.lines, line.ids.Nodup ∧
        (∀ entry ∈ line.reuse, entry.1 ≤ combined.bbMax) ∧
        ∀ entry ∈ line.blocks, combined.bbMax < entry.1) ∧
      ∃ dimension : Source → Int,
        combined.lines.map BpvLine.ids =
          (List.range' 1 (barrierPoint.synchCount - 1)).map
            (fun phase => (barrierPoint.sources phase).map dimension) ∧
        Set.InjOn dimension {source | ∃ phase ∈ List.range' 1 (barrierPoint.synchCount - 1),
          source ∈ barrierPoint.sources phase} := by
  obtain ⟨blocks, numbers⟩ := barrierPoint.blockNumbers_bbIds
  rw [numbers.card_eq] at fits
  obtain ⟨reuse, read, -, data, bound⟩ := barrierPoint.readReuse_eq
  have inside : ∀ phase ∈ barrierPoint.phases, phase < barrierPoint.synchCount := by
    intro phase member
    have range := List.mem_range'_1.mp member
    omega
  constructor
  · intro team
    obtain ⟨bbMax, ran⟩ := combineBBVsandLDVs_eq team
    exact ⟨_, ran⟩
  · intro bbvInscount combined ran
    rw [combineBBVsandLDVs, bind_of_eq_ok read] at ran
    obtain ⟨insPerPhase, -, ran⟩ := exists_of_bind_eq_ok ran
    by_cases lengths : insPerPhase.length = reuse.reuseDataPerPhase.length
    · rw [if_neg (not_not.mpr lengths), bind_of_eq_ok (combineLines_eq read lengths)] at ran
      cases ran
      have below : ∀ phase ∈ barrierPoint.phases, ∀ source ∈ barrierPoint.reuseSources phase,
          barrierPoint.dimension blocks reuse.bbMax source ≤ reuse.bbMax :=
        fun phase known source => dimension_le blocks (bound phase known)
      have above : ∀ phase ∈ barrierPoint.phases, ∀ source ∈ barrierPoint.blockSources phase,
          reuse.bbMax < barrierPoint.dimension blocks reuse.bbMax source :=
        fun phase known source => lt_dimension blocks reuse.bbMax (inside phase known)
      have injective := injOn_dimension numbers below above inside
      refine ⟨fun line member => ?_, barrierPoint.dimension blocks reuse.bbMax, ?_, injective⟩
      · obtain ⟨phase, known, rfl⟩ := List.mem_map.mp member
        rw [ids_bpvLine numbers numbered fits (inside phase known)]
        refine ⟨(nodup_sources numbered (inside phase known)).map_on
          fun first one second two same => injective ⟨phase, known, one⟩ ⟨phase, known, two⟩ same,
          fun entry written => ?_, fun entry written => ?_⟩
        · obtain ⟨pair, printed, rfl⟩ := List.mem_map.mp written
          exact bound phase known pair printed
        · obtain ⟨pair, printed, rfl⟩ := List.mem_map.mp written
          have shifted := List.mem_map_of_mem (f := fun pair : Int × Int => pair.1 + reuse.bbMax)
            printed
          rw [map_bbvPairs numbers numbered fits (inside phase known)] at shifted
          obtain ⟨source, member, same⟩ := List.mem_map.mp shifted
          rw [← same]
          exact above phase known source member
      · rw [List.map_map]
        exact List.map_congr_left fun phase known =>
          ids_bpvLine numbers numbered fits (inside phase known) _ _
    · rw [if_pos lengths] at ran
      cases ran

theorem combined_dimensions_twoThreads : ∃ combined,
    combineBBVsandLDVs (some twoThreads.saveBbvCount) (some twoThreads.saveBbvInstCount)
      (some twoThreads.saveLdvBb) = .ok (some combined) ∧
    ∀ line ∈ combined.lines, line.ids.Nodup := by
  obtain ⟨written, apart⟩ := combined_dimensions fakeTids_twoThreads (by decide)
  obtain ⟨combined, ran⟩ := written (by decide)
  exact ⟨combined, ran, fun line member => ((apart _ combined ran).1 line member).1⟩

end BarrierPointData

end BarrierPoint
