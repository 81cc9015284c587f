/-
This file reads the two vector files of the client back the way the analysis
script does. A line holds a pair of an identifier and a count for each non-zero
histogram bucket, or for each basic block, of every thread that has the region.
An identifier packs the thread and the bucket or block with a stride, and
dividing by the stride recovers them: no histogram is longer than the stride of
the buckets, and the blocks are numbered below the stride of the blocks.
-/

import BarrierPoint.Library.Lines
import BarrierPoint.Writers
import BarrierPoint.ClientSteps
import Mathlib.Data.Finset.Card

namespace BarrierPoint

open Library

/-- A line of a vector file as pairs of an identifier and a count. -/
def readVector (line : Text) : Except PyError (List (Int × Int)) := do
  return inPairs (← colonNumbers line)

/-- A line of a file by its number. -/
def readLine (file : Text) (number : Nat) : Except PyError (List (Int × Int)) := do
  readVector (← getItem (fileLines file) number)

/-- The thread and the index that an identifier stands for, with the count. -/
def decode (stride : Nat) (pair : Int × Int) : (Int × Int) × Int :=
  (((pair.1 - 1) / stride, (pair.1 - 1) % stride), pair.2)

/-- Dividing by the stride undoes the packing. -/
theorem decode_pack {stride index : Nat} (inside : index < stride) (thread count : Nat) :
    decode stride ((1 + index + thread * stride : Nat), (count : Int)) =
      (((thread : Int), (index : Int)), (count : Int)) := by
  have less : ((1 + index + thread * stride : Nat) : Int) - 1 = (index + thread * stride : Nat) := by
    rw [Nat.add_assoc, Nat.cast_add, Nat.cast_one, add_sub_cancel_left]
  have positive : 0 < stride := Nat.zero_lt_of_lt inside
  rw [decode, less, ← Int.natCast_ediv, ← Int.natCast_emod, Nat.add_mul_div_right _ _ positive,
    Nat.add_mul_mod_self_right, Nat.div_eq_of_lt inside, Nat.mod_eq_of_lt inside, Nat.zero_add]

namespace BarrierPointData

variable {barrierPoint : BarrierPointData}

/-- The threads are numbered by their places. -/
def FakeTids (barrierPoint : BarrierPointData) : Prop :=
  ∀ (index : Nat) data, barrierPoint.threads[index]? = some data → data.fakeTid.toNat = index

theorem fakeTids_generateFakeTid (few : barrierPoint.threads.length ≤ 2 ^ 32) :
    barrierPoint.generateFakeTid.FakeTids := by
  intro index data held
  rw [generateFakeTid, List.getElem?_mapIdx, Option.map_eq_some_iff] at held
  obtain ⟨before, place, rfl⟩ := held
  have inside := (List.getElem?_eq_some_iff.mp place).1
  rw [List.length_insertionSort] at inside
  exact UInt32.toNat_ofNat_of_lt' (Nat.lt_of_lt_of_le inside few)

/-- The alignment keeps the ids of the threads. -/
theorem fakeTids_alignThreads {parallelOmpF : UnorderedMap Address String} {synchCount : Nat}
    (threads : List ThreadData) : ∀ {balance : UInt64} {aligned : List ThreadData},
      alignThreads parallelOmpF synchCount threads balance = some aligned →
        aligned.map ThreadData.fakeTid = threads.map ThreadData.fakeTid := by
  induction threads with
  | nil =>
    rintro balance aligned ran
    rw [← Option.some_inj.mp ran]
  | cons data threads inductionHypothesis =>
    intro balance aligned ran
    obtain ⟨⟨regions, next⟩, -, ran⟩ := Option.bind_eq_some_iff.mp ran
    obtain ⟨rest, restRan, ran⟩ := Option.bind_eq_some_iff.mp ran
    rw [← Option.some_inj.mp ran, List.map_cons, List.map_cons, inductionHypothesis restRan]

/-- The vector files that are saved are those of threads with the numbers of their places. -/
theorem save_vectorFiles {parallelOmpF : UnorderedMap Address String} {files : Files}
    (few : barrierPoint.threads.length ≤ 2 ^ 32)
    (ran : barrierPoint.save parallelOmpF = some files) :
    ∃ saved : BarrierPointData, saved.FakeTids ∧ saved.synchCount = barrierPoint.synchCount ∧
      files.ldvBb = saved.saveLdvBb ∧ files.bbvCount = saved.saveBbvCount := by
  obtain ⟨saved, aligned, ran⟩ := Option.bind_eq_some_iff.mp ran
  obtain ⟨bpId, -, ran⟩ := Option.bind_eq_some_iff.mp ran
  obtain ⟨threads, moved, here⟩ := Option.bind_eq_some_iff.mp aligned
  obtain rfl := Option.some_inj.mp here
  obtain rfl := Option.some_inj.mp ran
  refine ⟨{ barrierPoint with threads }, fun index data held => ?_, rfl, rfl, rfl⟩
  have place : (threads.map ThreadData.fakeTid)[index]? = some data.fakeTid := by
    rw [List.getElem?_map, held]
    rfl
  rw [fakeTids_alignThreads _ moved, List.getElem?_map, Option.map_eq_some_iff] at place
  obtain ⟨before, beforeHeld, same⟩ := place
  rw [← same]
  exact fakeTids_generateFakeTid few index before beforeHeld

/-! ### The lines of the files -/

/-- Something of every thread that has a region. -/
def forThreads {Item : Type} (barrierPoint : BarrierPointData) (synchId : Nat)
    (items : ThreadData → Region → List Item) : List Item :=
  barrierPoint.threads.flatMap fun data =>
    match data.regions.lookup synchId with
    | some region => items data region
    | none => []

/-- The pairs of a line of `.ldv_bb`. -/
def ldvPairs (barrierPoint : BarrierPointData) (synchId : Nat) : List (Nat × Nat) :=
  barrierPoint.forThreads synchId fun data region =>
    (region.lruHist.zipIdx.filter (·.1 ≠ 0)).map fun (ent, bucket) =>
      (1 + bucket + data.fakeTid.toNat * barrierPoint.maxHistSize, ent)

/-- The stride of the basic blocks, as the source computes it. -/
def bbTotalNumber (barrierPoint : BarrierPointData) : UInt32 := (barrierPoint.bbIds.2 - 1).toUInt32

/-- The pairs of a line of `.bbv_count`. -/
def bbvPairs (barrierPoint : BarrierPointData) (synchId : Nat) : List (Nat × Nat) :=
  barrierPoint.forThreads synchId fun data region =>
    region.bbv.entries.map fun bb =>
      (((barrierPoint.bbIds.1.lookup bb.1).getD 0 +
        data.fakeTid * barrierPoint.bbTotalNumber).toNat, bb.2.toNat)

theorem saveBbvCount_eq (barrierPoint : BarrierPointData) : barrierPoint.saveBbvCount =
    (List.range barrierPoint.synchCount).flatMap fun synchId =>
      colonPairs (vectorDelim synchId) (barrierPoint.bbvPairs synchId) ++ ['\n'] := by
  refine List.flatMap_congr fun synchId _ => ?_
  rw [colonPairs, bbvPairs, forThreads, List.flatMap_assoc]
  refine congrArg (fun text => vectorDelim synchId :: text ++ ['\n']) ?_
  refine List.flatMap_congr fun data _ => ?_
  cases data.regions.lookup synchId with
  | none => rfl
  | some region =>
    show _ = List.flatMap _ (List.map _ region.bbv.entries)
    rw [List.flatMap_map]
    rfl

theorem saveLdvBb_eq (barrierPoint : BarrierPointData) : barrierPoint.saveLdvBb =
    (List.range barrierPoint.synchCount).flatMap fun synchId =>
      colonPairs (vectorDelim synchId) (barrierPoint.ldvPairs synchId) ++ ['\n'] := by
  refine List.flatMap_congr fun synchId _ => ?_
  rw [colonPairs, ldvPairs, forThreads, List.flatMap_assoc]
  refine congrArg (fun text => vectorDelim synchId :: text ++ ['\n']) ?_
  refine List.flatMap_congr fun data _ => ?_
  cases data.regions.lookup synchId with
  | none => rfl
  | some region =>
    show (region.lruHist.mapIdx _).flatten = _
    rw [List.mapIdx_eq_zipIdx_map, ← List.flatMap_def, List.flatMap_map]
    induction region.lruHist.zipIdx with
    | nil => rfl
    | cons entry entries inductionHypothesis =>
      obtain ⟨ent, bucket⟩ := entry
      rw [List.flatMap_cons, inductionHypothesis]
      by_cases filled : ent ≠ 0
      · rw [List.filter_cons_of_pos (by simpa using filled), List.flatMap_cons]
        exact congrArg (· ++ _) (if_pos filled)
      · rw [List.filter_cons_of_neg (by simpa using filled)]
        exact congrArg (· ++ _) (if_neg filled)

theorem vectorDelim_ne (synchId : Nat) : vectorDelim synchId ≠ ':' ∧ vectorDelim synchId ≠ '\n' := by
  unfold vectorDelim
  split <;> decide

/-- A line that was printed is read back as its pairs. -/
theorem readLine_eq {file : Text} {pairs : Nat → List (Nat × Nat)} {lines : Nat}
    (printed : file = (List.range lines).flatMap fun number =>
      colonPairs (vectorDelim number) (pairs number) ++ ['\n']) {number : Nat}
    (inside : number < lines) : readLine file number =
      .ok ((pairs number).map fun pair => ((pair.1 : Int), (pair.2 : Int))) := by
  have held : (fileLines file)[number]? =
      some (colonPairs (vectorDelim number) (pairs number) ++ ['\n']) := by
    rw [printed, fileLines_flatMap _ _ fun number _ =>
      newline_notMem_colonPairs (vectorDelim_ne number).2 (pairs number), List.getElem?_map,
      List.getElem?_range inside]
    rfl
  rw [readLine, bind_of_eq_ok (getItem_of_getElem? held), readVector,
    bind_of_eq_ok (colonNumbers_colonPairs (vectorDelim_ne number).1 _)]
  refine congrArg Except.ok ?_
  rw [← inPairs_flatMap ((pairs number).map _), List.flatMap_map]

/-! ### The strides -/

/-- The regions below the synchronisation count, in the order the source goes through them. -/
def metRegions (barrierPoint : BarrierPointData) : List Region :=
  barrierPoint.threads.flatMap fun data =>
    (List.range barrierPoint.synchCount).filterMap data.regions.lookup

/-- The basic blocks of these regions, in that order. -/
def metBlocks (barrierPoint : BarrierPointData) : List Address :=
  barrierPoint.metRegions.flatMap fun region => region.bbv.entries.map Sigma.fst

theorem mem_metRegions {data : ThreadData} (thread : data ∈ barrierPoint.threads) {id : Nat}
    (inside : id < barrierPoint.synchCount) {region : Region}
    (found : data.regions.lookup id = some region) : region ∈ barrierPoint.metRegions :=
  List.mem_flatMap.mpr ⟨data, thread, List.mem_filterMap.mpr ⟨id, List.mem_range.mpr inside, found⟩⟩

theorem maxHistSize_eq (barrierPoint : BarrierPointData) : barrierPoint.maxHistSize =
    barrierPoint.metRegions.foldl (fun maxSize region => max maxSize region.lruHist.length) 0 := by
  rw [metRegions, List.foldl_flatMap]
  refine congrArg (fun step => barrierPoint.threads.foldl step 0) (funext fun maxSize => ?_)
  refine funext fun data => ?_
  rw [List.foldl_filterMap]
  refine congrArg (fun step => (List.range barrierPoint.synchCount).foldl step maxSize)
    (funext fun maxSize => funext fun id => ?_)
  cases data.regions.lookup id <;> rfl

/-- Number a block unless it has a number. -/
def numberBlock (state : UnorderedMap Address UInt32 × Nat) (block : Address) :
    UnorderedMap Address UInt32 × Nat :=
  if (state.1.lookup block).isSome then state
  else (state.1.insert block state.2.toUInt32, state.2 + 1)

theorem bbIds_eq (barrierPoint : BarrierPointData) :
    barrierPoint.bbIds = barrierPoint.metBlocks.foldl numberBlock (∅, 1) := by
  rw [metBlocks, metRegions, List.flatMap_assoc, List.foldl_flatMap]
  refine congrArg (fun step => barrierPoint.threads.foldl step (∅, 1)) (funext fun state => ?_)
  refine funext fun data => ?_
  rw [List.foldl_flatMap, List.foldl_filterMap]
  refine congrArg (fun step => (List.range barrierPoint.synchCount).foldl step state)
    (funext fun state => funext fun synchId => ?_)
  cases data.regions.lookup synchId with
  | none => rfl
  | some region =>
    show _ = List.foldl numberBlock state (List.map Sigma.fst region.bbv.entries)
    rw [List.foldl_map]
    rfl

theorem le_foldl_max {Item : Type} (size : Item → Nat) (items : List Item) : ∀ largest,
    largest ≤ items.foldl (fun largest item => max largest (size item)) largest ∧
      ∀ item ∈ items, size item ≤
        items.foldl (fun largest item => max largest (size item)) largest := by
  induction items with
  | nil => exact fun largest => ⟨Nat.le_refl _, nofun⟩
  | cons item items inductionHypothesis =>
    intro largest
    obtain ⟨above, each⟩ := inductionHypothesis (max largest (size item))
    rw [List.foldl_cons, List.forall_mem_cons]
    exact ⟨(Nat.le_max_left _ _).trans above, (Nat.le_max_right _ _).trans above, each⟩

/-- No histogram of these regions is longer than the stride. -/
theorem length_le_maxHistSize {region : Region} (met : region ∈ barrierPoint.metRegions) :
    region.lruHist.length ≤ barrierPoint.maxHistSize := by
  rw [maxHistSize_eq]
  exact (le_foldl_max (fun region : Region => region.lruHist.length) _ 0).2 region met

/-- The blocks that were met have the numbers from one on. -/
structure BlockNumbers (met blocks : List Address) (state : UnorderedMap Address UInt32 × Nat) :
    Prop where
  distinct : blocks.Nodup
  mem_iff : ∀ block, block ∈ blocks ↔ block ∈ met
  next_eq : state.2 = blocks.length + 1
  lookup_eq : ∀ block, state.1.lookup block =
    if block ∈ blocks then some (blocks.idxOf block + 1).toUInt32 else none

theorem BlockNumbers.step {met blocks : List Address} {state : UnorderedMap Address UInt32 × Nat}
    (numbers : BlockNumbers met blocks state) (block : Address) :
    ∃ blocks, BlockNumbers (met ++ [block]) blocks (numberBlock state block) := by
  have found := numbers.lookup_eq block
  unfold numberBlock
  by_cases seen : block ∈ blocks
  · rw [if_pos seen] at found
    refine ⟨blocks, ?_⟩
    rw [found, if_pos Option.isSome_some]
    refine ⟨numbers.distinct, fun other => ?_, numbers.next_eq, numbers.lookup_eq⟩
    rw [numbers.mem_iff, List.mem_append, List.mem_singleton]
    exact ⟨.inl, fun either => either.elim id fun same => (numbers.mem_iff other).mp (same ▸ seen)⟩
  · rw [if_neg seen] at found
    refine ⟨blocks ++ [block], ?_⟩
    rw [found, if_neg (by simp)]
    refine ⟨?_, fun other => ?_, ?_, fun other => ?_⟩
    · exact List.nodup_append.mpr ⟨numbers.distinct, List.nodup_singleton block,
        fun first inside second last => by
          rw [List.mem_singleton.mp last]
          rintro rfl
          exact seen inside⟩
    · rw [List.mem_append, List.mem_append, numbers.mem_iff]
    · rw [numbers.next_eq, List.length_append]
      rfl
    · rw [UnorderedMap.lookup_insert, numbers.lookup_eq other]
      by_cases here : other = block
      · subst here
        rw [if_pos rfl, if_pos (by simp), List.idxOf_append_of_notMem seen, numbers.next_eq]
        simp
      · rw [if_neg here]
        by_cases earlier : other ∈ blocks
        · rw [if_pos earlier, if_pos (List.mem_append_left _ earlier),
            List.idxOf_append_of_mem earlier]
        · rw [if_neg earlier, if_neg (by simp [earlier, here])]

theorem blockNumbers_foldl (more : List Address) : ∀ {met blocks : List Address}
    {state : UnorderedMap Address UInt32 × Nat}, BlockNumbers met blocks state →
      ∃ blocks, BlockNumbers (met ++ more) blocks (more.foldl numberBlock state) := by
  induction more with
  | nil =>
    intro met blocks state numbers
    rw [List.append_nil]
    exact ⟨blocks, numbers⟩
  | cons block more inductionHypothesis =>
    intro met blocks state numbers
    obtain ⟨later, numbered⟩ := numbers.step block
    rw [← List.singleton_append, ← List.append_assoc]
    exact inductionHypothesis numbered

theorem blockNumbers_bbIds (barrierPoint : BarrierPointData) :
    ∃ blocks, BlockNumbers barrierPoint.metBlocks blocks barrierPoint.bbIds := by
  have first : BlockNumbers [] [] ((∅ : UnorderedMap Address UInt32), 1) :=
    ⟨List.nodup_nil, fun _ => Iff.rfl, rfl, fun block => AList.lookup_empty block⟩
  rw [bbIds_eq]
  exact blockNumbers_foldl barrierPoint.metBlocks first

/-- There are as many numbers as blocks. -/
theorem BlockNumbers.card_eq {met blocks : List Address}
    {state : UnorderedMap Address UInt32 × Nat} (numbers : BlockNumbers met blocks state) :
    met.toFinset.card = blocks.length := by
  rw [← List.toFinset_card_of_nodup numbers.distinct]
  refine congrArg Finset.card (Finset.ext fun block => ?_)
  rw [List.mem_toFinset, List.mem_toFinset, numbers.mem_iff]

/-! ### What the lines stand for -/

theorem mem_forThreads {Item : Type} {synchId : Nat} {items : ThreadData → Region → List Item}
    {item : Item} : item ∈ barrierPoint.forThreads synchId items ↔
      ∃ data ∈ barrierPoint.threads, ∃ region, data.regions.lookup synchId = some region ∧
        item ∈ items data region := by
  rw [forThreads, List.mem_flatMap]
  refine exists_congr fun data => and_congr_right fun _ => ?_
  cases data.regions.lookup synchId with
  | none => simp
  | some region => simp

theorem map_forThreads {Item Image : Type} (synchId : Nat)
    (items : ThreadData → Region → List Item) (image : Item → Image) :
    (barrierPoint.forThreads synchId items).map image =
      barrierPoint.forThreads synchId fun data region => (items data region).map image := by
  rw [forThreads, List.map_flatMap]
  refine List.flatMap_congr fun data _ => ?_
  cases data.regions.lookup synchId <;> rfl

theorem forThreads_congr {Item : Type} {synchId : Nat} {items others : ThreadData → Region → List Item}
    (same : ∀ data ∈ barrierPoint.threads, ∀ region, data.regions.lookup synchId = some region →
      items data region = others data region) :
    barrierPoint.forThreads synchId items = barrierPoint.forThreads synchId others := by
  refine List.flatMap_congr fun data thread => ?_
  cases found : data.regions.lookup synchId with
  | none => rfl
  | some region => exact same data thread region found

/-- The threads, the buckets and the counts of the non-zero histogram entries of a region. -/
def histEntries (barrierPoint : BarrierPointData) (synchId : Nat) : List ((Int × Int) × Int) :=
  barrierPoint.forThreads synchId fun data region =>
    (region.lruHist.zipIdx.filter (·.1 ≠ 0)).map fun (ent, bucket) =>
      ((data.fakeTid.toNat, bucket), ent)

/-- The threads, the numbers of the blocks and the counts of the basic block vectors of a region. -/
def bbvEntries (barrierPoint : BarrierPointData) (number : Address → Nat) (synchId : Nat) :
    List ((Int × Int) × Int) :=
  barrierPoint.forThreads synchId fun data region =>
    region.bbv.entries.map fun bb => ((data.fakeTid.toNat, number bb.1), bb.2.toNat)

theorem ldvPairs_decode {synchId : Nat} (inside : synchId < barrierPoint.synchCount) :
    ((barrierPoint.ldvPairs synchId).map fun pair => ((pair.1 : Int), (pair.2 : Int))).map
      (decode barrierPoint.maxHistSize) = barrierPoint.histEntries synchId := by
  rw [ldvPairs, map_forThreads, map_forThreads]
  refine forThreads_congr fun data thread region found => ?_
  rw [List.map_map, List.map_map]
  refine List.map_congr_left fun entry member => ?_
  have within := List.snd_lt_of_mem_zipIdx (List.mem_of_mem_filter member)
  exact decode_pack (Nat.lt_of_lt_of_le within
    (length_le_maxHistSize (mem_metRegions thread inside found))) data.fakeTid.toNat entry.1

/-! ### The numbers of the blocks -/

theorem toNat_toUInt32 {number : Nat} (fits : number < 2 ^ 32) : number.toUInt32.toNat = number :=
  UInt32.toNat_ofNat_of_lt' fits

theorem bbTotalNumber_toNat {blocks : List Address}
    (numbers : BlockNumbers barrierPoint.metBlocks blocks barrierPoint.bbIds)
    {data : ThreadData} (thread : data ∈ barrierPoint.threads)
    (fits : barrierPoint.threads.length * blocks.length < 2 ^ 32) :
    barrierPoint.bbTotalNumber.toNat = blocks.length := by
  have fewer := Nat.le_mul_of_pos_left blocks.length (List.length_pos_of_mem thread)
  rw [bbTotalNumber, numbers.next_eq, Nat.add_sub_cancel, toNat_toUInt32 (by omega)]

/-- A block that was met is printed as its place in the list of the blocks, packed with the thread.
The sum fits the 32 bits it is computed in when all the blocks of all the threads do. -/
theorem bbvPairs_eq {blocks : List Address}
    (numbers : BlockNumbers barrierPoint.metBlocks blocks barrierPoint.bbIds)
    (numbered : barrierPoint.FakeTids)
    (fits : barrierPoint.threads.length * blocks.length < 2 ^ 32) {synchId : Nat}
    (inside : synchId < barrierPoint.synchCount) : barrierPoint.bbvPairs synchId =
      barrierPoint.forThreads synchId fun data region => region.bbv.entries.map fun bb =>
        (1 + blocks.idxOf bb.1 + data.fakeTid.toNat * blocks.length, bb.2.toNat) := by
  refine forThreads_congr fun data thread region found => ?_
  refine List.map_congr_left fun bb member => congrArg (·, bb.2.toNat) ?_
  obtain ⟨index, held⟩ := List.getElem?_of_mem thread
  have early := (List.getElem?_eq_some_iff.mp held).1
  have tid := numbered index data held
  have met : bb.1 ∈ blocks := (numbers.mem_iff bb.1).mpr (List.mem_flatMap.mpr
    ⟨region, mem_metRegions thread inside found, List.mem_map_of_mem member⟩)
  have place := List.idxOf_lt_length_of_mem met
  have room : index * blocks.length + blocks.length ≤
      barrierPoint.threads.length * blocks.length := by
    rw [← Nat.succ_mul]
    exact Nat.mul_le_mul_right _ early
  rw [numbers.lookup_eq, if_pos met, Option.getD_some, UInt32.toNat_add, UInt32.toNat_mul,
    bbTotalNumber_toNat numbers thread fits, tid, toNat_toUInt32 (by omega),
    Nat.mod_eq_of_lt (a := index * blocks.length) (by omega),
    Nat.mod_eq_of_lt (by omega), Nat.add_comm (blocks.idxOf bb.1)]

theorem bbvPairs_decode {blocks : List Address}
    (numbers : BlockNumbers barrierPoint.metBlocks blocks barrierPoint.bbIds)
    (numbered : barrierPoint.FakeTids)
    (fits : barrierPoint.threads.length * blocks.length < 2 ^ 32) {synchId : Nat}
    (inside : synchId < barrierPoint.synchCount) :
    ((barrierPoint.bbvPairs synchId).map fun pair => ((pair.1 : Int), (pair.2 : Int))).map
      (decode barrierPoint.bbTotalNumber.toNat) = barrierPoint.bbvEntries blocks.idxOf synchId := by
  rw [bbvPairs_eq numbers numbered fits inside, map_forThreads, map_forThreads]
  refine forThreads_congr fun data thread region found => ?_
  rw [List.map_map, List.map_map, bbTotalNumber_toNat numbers thread fits]
  refine List.map_congr_left fun bb member => ?_
  have met : bb.1 ∈ blocks := (numbers.mem_iff bb.1).mpr (List.mem_flatMap.mpr
    ⟨region, mem_metRegions thread inside found, List.mem_map_of_mem member⟩)
  exact decode_pack (List.idxOf_lt_length_of_mem met) data.fakeTid.toNat bb.2.toNat

/-! ### The entries of a thread -/

/-- A thread is known by its fake id. -/
theorem FakeTids.same (numbered : barrierPoint.FakeTids) {data other : ThreadData}
    (thread : data ∈ barrierPoint.threads) (another : other ∈ barrierPoint.threads)
    (alike : data.fakeTid = other.fakeTid) : data = other := by
  obtain ⟨index, held⟩ := List.getElem?_of_mem thread
  obtain ⟨place, there⟩ := List.getElem?_of_mem another
  have equal : index = place := by
    rw [← numbered index data held, ← numbered place other there, alike]
  rw [equal, there] at held
  exact (Option.some_inj.mp held).symm

/-- What is found under a thread and an index is what stands there. -/
theorem lookup_forThreads (numbered : barrierPoint.FakeTids) {synchId : Nat} {Item : Type}
    {items : Region → List Item} {index : Item → Nat} {count : Item → Nat} {data : ThreadData}
    (thread : data ∈ barrierPoint.threads) {wanted : Nat} {held : Region → Option Nat}
    (found : ∀ region ∈ barrierPoint.metRegions, ∀ value, held region = some value ↔
      ∃ item ∈ items region, index item = wanted ∧ count item = value)
    (inside : synchId < barrierPoint.synchCount) :
    (barrierPoint.forThreads synchId fun data region => (items region).map fun item =>
      (((data.fakeTid.toNat : Int), (index item : Int)), (count item : Int))).lookup
        ((data.fakeTid.toNat : Int), (wanted : Int)) =
      ((data.regions.lookup synchId).bind held).map (fun value : Nat => (value : Int)) := by
  refine lookup_eq_of_mem_iff fun value => ?_
  rw [mem_forThreads, Option.map_eq_some_iff]
  constructor
  · rintro ⟨other, another, region, has, member⟩
    obtain ⟨item, within, same⟩ := List.mem_map.mp member
    rw [Prod.mk.injEq, Prod.mk.injEq, Int.ofNat_inj, Int.ofNat_inj] at same
    obtain ⟨⟨tid, place⟩, rfl⟩ := same
    rw [numbered.same thread another (UInt32.toNat_inj.mp tid.symm), has]
    exact ⟨count item, (found region (mem_metRegions another inside has) _).mpr
      ⟨item, within, place, rfl⟩, rfl⟩
  · rintro ⟨value, has, rfl⟩
    obtain ⟨region, region_eq, value_eq⟩ := Option.bind_eq_some_iff.mp has
    obtain ⟨item, within, place, rfl⟩ :=
      (found region (mem_metRegions thread inside region_eq) _).mp value_eq
    exact ⟨data, thread, region, region_eq, List.mem_map.mpr ⟨item, within, by rw [place]⟩⟩

theorem mem_histogram {region : Region} {bucket value : Nat} :
    region.lruHist[bucket]?.filter (· ≠ 0) = some value ↔
      ∃ item ∈ region.lruHist.zipIdx.filter (·.1 ≠ 0), item.2 = bucket ∧ item.1 = value := by
  rw [Option.filter_eq_some_iff]
  constructor
  · rintro ⟨held, filled⟩
    refine ⟨(value, bucket), List.mem_filter.mpr ⟨?_, by simpa using filled⟩, rfl, rfl⟩
    exact List.mk_mem_zipIdx_iff_getElem?.mpr held
  · rintro ⟨⟨ent, index⟩, member, rfl, rfl⟩
    obtain ⟨within, filled⟩ := List.mem_filter.mp member
    exact ⟨List.mk_mem_zipIdx_iff_getElem?.mp within, by simpa using filled⟩

/-- Reading a line of the vector files and dividing by the strides gives, once each and in order,
the non-zero histogram entries and the basic blocks of the threads that have the region. So the
histogram and the basic block vector of each thread can be looked up in the line. -/
theorem vectorFiles_decode (numbered : barrierPoint.FakeTids)
    (fits : barrierPoint.threads.length * barrierPoint.metBlocks.toFinset.card < 2 ^ 32) :
    ∃ number : Address → Nat,
      Set.InjOn number {block | block ∈ barrierPoint.metBlocks} ∧
      ∀ synchId < barrierPoint.synchCount, ∃ ldv bbv,
        readLine barrierPoint.saveLdvBb synchId = .ok ldv ∧
        readLine barrierPoint.saveBbvCount synchId = .ok bbv ∧
        ldv.map (decode barrierPoint.maxHistSize) = barrierPoint.histEntries synchId ∧
        bbv.map (decode barrierPoint.bbTotalNumber.toNat) =
          barrierPoint.bbvEntries number synchId ∧
        ∀ data ∈ barrierPoint.threads,
          (∀ bucket : Nat, (ldv.map (decode barrierPoint.maxHistSize)).lookup
              ((data.fakeTid.toNat : Int), (bucket : Int)) =
            ((data.regions.lookup synchId).bind fun region =>
              region.lruHist[bucket]?.filter (· ≠ 0)).map fun ent : Nat => (ent : Int)) ∧
          ∀ block ∈ barrierPoint.metBlocks,
            (bbv.map (decode barrierPoint.bbTotalNumber.toNat)).lookup
              ((data.fakeTid.toNat : Int), (number block : Int)) =
            ((data.regions.lookup synchId).bind fun region =>
              (region.bbv.lookup block).map UInt32.toNat).map fun count : Nat => (count : Int) := by
  obtain ⟨blocks, numbers⟩ := barrierPoint.blockNumbers_bbIds
  rw [numbers.card_eq] at fits
  have injective : Set.InjOn blocks.idxOf {block | block ∈ barrierPoint.metBlocks} :=
    fun first met second _ same =>
      (List.idxOf_inj ((numbers.mem_iff first).mpr met)).mp same
  refine ⟨blocks.idxOf, injective, fun synchId inside => ⟨_, _,
    readLine_eq barrierPoint.saveLdvBb_eq inside, readLine_eq barrierPoint.saveBbvCount_eq inside,
    ldvPairs_decode inside, bbvPairs_decode numbers numbered fits inside, fun data thread => ?_⟩⟩
  rw [ldvPairs_decode inside, bbvPairs_decode numbers numbered fits inside]
  constructor
  · intro bucket
    exact lookup_forThreads numbered thread (fun region _ value => mem_histogram) inside
  · intro block met
    refine lookup_forThreads numbered thread (fun region known value => ?_) inside
    rw [Option.map_eq_some_iff]
    constructor
    · rintro ⟨count, held, rfl⟩
      exact ⟨⟨block, count⟩, AList.mem_lookup_iff.mp held, rfl, rfl⟩
    · rintro ⟨⟨other, count⟩, member, same, rfl⟩
      have otherMet : other ∈ barrierPoint.metBlocks :=
        List.mem_flatMap.mpr ⟨region, known, List.mem_map_of_mem member⟩
      rw [← injective otherMet met same]
      exact ⟨count, AList.mem_lookup_iff.mpr member, rfl⟩

/-- Two threads, of which the second has missed the first synchronisation point. -/
def twoThreads : BarrierPointData where
  synchCount := 2
  threads := [
    { ThreadData.new 7 true 2 with
      fakeTid := 0
      regions := ((∅ : UnorderedMap Nat Region).insert 0
        ⟨"main._omp_fn.0", 9, (∅ : UnorderedMap Address UInt32).insert 4198400 9, [0, 3, 1]⟩).insert
        1 ⟨"thread_exit", 2, (∅ : UnorderedMap Address UInt32).insert 4198480 2, [5]⟩ },
    { ThreadData.new 8 false 2 with
      fakeTid := 1
      regions := (∅ : UnorderedMap Nat Region).insert 1
        ⟨"thread_exit", 4, (∅ : UnorderedMap Address UInt32).insert 4198400 4, [0, 2]⟩ }]

theorem fakeTids_twoThreads : twoThreads.FakeTids := by
  rintro (_ | _ | index) data held
  · cases held
    rfl
  · cases held
    rfl
  · nomatch held

theorem vectorFiles_decode_twoThreads : ∃ ldv,
    readLine twoThreads.saveLdvBb 1 = .ok ldv ∧
      ldv.map (decode twoThreads.maxHistSize) = [((0, 0), 5), ((1, 1), 2)] := by
  obtain ⟨number, -, lines⟩ := vectorFiles_decode fakeTids_twoThreads (by decide)
  obtain ⟨ldv, -, read, -, decoded, -⟩ := lines 1 (by decide)
  exact ⟨ldv, read, decoded⟩

end BarrierPointData

end BarrierPoint
