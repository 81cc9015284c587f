/-
This file compares the two counts of a region. The total is kept in 64 bits,
the count of each block in 32 bits. The basic block vector is what was counted,
block by block, exactly when no block of the region has come to `2^32`
instructions; from there on a count starts over at zero, and the vector no
longer adds up to the total that is stored beside it.
-/

import BarrierPoint.Alignment
import BarrierPoint.ThreadRuns

namespace BarrierPoint

open Library

/-! ### The count of a block -/

/-- The instructions that were counted for a block. -/
def blockInstructions (blocks : List (Address × UInt64)) (key : Address) : Nat :=
  ((blocks.filter fun block => block.1 = key).map fun block => block.2.toNat).sum

/-- What counting a block does to the vector. -/
theorem lookup_countBlock (bbv : UnorderedMap Address UInt32) (block : Address × UInt64)
    (key : Address) : ((countBlock bbv block).lookup key).map UInt32.toNat =
      if key = block.1 then
        some ((((bbv.lookup key).map UInt32.toNat).getD 0 + block.2.toNat) % 2 ^ 32)
      else (bbv.lookup key).map UInt32.toNat := by
  rw [countBlock, UnorderedMap.lookup_insert]
  split
  · rename_i same
    rw [← same]
    cases bbv.lookup key with
    | none =>
      rw [Option.map_some, Option.map_none, Option.getD_none, Nat.zero_add]
      exact congrArg some block.2.toNat_toUInt32
    | some held =>
      rw [Option.map_some, Option.map_some, Option.getD_some]
      refine congrArg some ?_
      rw [UInt64.toNat_toUInt32, UInt64.toNat_add, UInt32.toNat_toUInt64]
      omega
  · rfl

theorem blockInstructions_append (blocks : List (Address × UInt64)) (block : Address × UInt64)
    (key : Address) : blockInstructions (blocks ++ [block]) key =
      blockInstructions blocks key + if key = block.1 then block.2.toNat else 0 := by
  rw [blockInstructions, List.filter_append, List.map_append, List.sum_append, ← blockInstructions]
  congr 1
  by_cases same : block.1 = key
  · simp [same]
  · simp [same, Ne.symm same]

theorem blockInstructions_eq_zero {blocks : List (Address × UInt64)} {key : Address}
    (absent : key ∉ blocks.map Prod.fst) : blockInstructions blocks key = 0 := by
  rw [blockInstructions, List.filter_eq_nil_iff.mpr]
  · rfl
  · intro block member same
    exact absent (List.mem_map.mpr ⟨block, member, of_decide_eq_true same⟩)

/-- The vector holds the count of every block modulo `2^32`. -/
theorem lookup_countBlocks (blocks : List (Address × UInt64)) (key : Address) :
    ((blocks.foldl countBlock ∅).lookup key).map UInt32.toNat =
      if key ∈ blocks.map Prod.fst then some (blockInstructions blocks key % 2 ^ 32) else none := by
  induction blocks using List.reverseRecOn with
  | nil => rfl
  | append_singleton blocks block inductionHypothesis =>
    rw [List.foldl_append, List.foldl_cons, List.foldl_nil, lookup_countBlock,
      inductionHypothesis, blockInstructions_append, List.map_append]
    by_cases same : key = block.1
    · have counted : key ∈ blocks.map Prod.fst ++ [block].map Prod.fst :=
        List.mem_append_right _ (List.mem_singleton.mpr same)
      rw [if_pos same, if_pos same, if_pos counted]
      by_cases before : key ∈ blocks.map Prod.fst
      · rw [if_pos before, Option.getD_some, Nat.mod_add_mod]
      · rw [if_neg before, Option.getD_none, blockInstructions_eq_zero before]
    · rw [if_neg same, if_neg same, Nat.add_zero]
      have kept : key ∈ blocks.map Prod.fst ++ [block].map Prod.fst ↔
          key ∈ blocks.map Prod.fst := by
        simp [same]
      simp only [kept]

/-! ### The entries together -/

theorem totalCount_insert (bbv : UnorderedMap Address UInt32) (key : Address) (count : UInt32) :
    totalCount (bbv.insert key count) = count.toNat + totalCount (bbv.erase key) := by
  rw [totalCount, AList.entries_insert, List.map_cons, List.sum_cons]
  rfl

/-- A count that fits adds to the total what it adds to the count of its block. -/
theorem totalCount_countBlock (bbv : UnorderedMap Address UInt32) (block : Address × UInt64)
    (fits : ((bbv.lookup block.1).map UInt32.toNat).getD 0 + block.2.toNat < 2 ^ 32) :
    totalCount (countBlock bbv block) = totalCount bbv + block.2.toNat := by
  have here := lookup_countBlock bbv block block.1
  rw [if_pos rfl, Nat.mod_eq_of_lt fits, countBlock, AList.lookup_insert, Option.map_some] at here
  rw [countBlock, totalCount_insert, Option.some_inj.mp here]
  cases held : bbv.lookup block.1 with
  | none =>
    have absent : block.1 ∉ bbv.entries.keys := AList.lookup_eq_none.mp held
    rw [totalCount, show (bbv.erase block.1).entries = bbv.entries from
      List.kerase_of_notMem_keys absent]
    exact (congrArg (· + _) (Nat.zero_add _)).trans (Nat.add_comm _ _)
  | some count =>
    rw [totalCount_erase held, Option.map_some, Option.getD_some]
    omega

theorem blockInstructions_le_append (blocks : List (Address × UInt64)) (block : Address × UInt64)
    (key : Address) : blockInstructions blocks key ≤ blockInstructions (blocks ++ [block]) key := by
  rw [blockInstructions_append]
  exact Nat.le_add_right _ _

/-- As long as no count starts over, the vector adds up to everything that was counted. -/
theorem totalCount_countBlocks (blocks : List (Address × UInt64))
    (fits : ∀ key, blockInstructions blocks key < 2 ^ 32) :
    totalCount (blocks.foldl countBlock ∅) = (blocks.map fun block => block.2.toNat).sum := by
  induction blocks using List.reverseRecOn with
  | nil => rfl
  | append_singleton blocks block inductionHypothesis =>
    have before : ∀ key, blockInstructions blocks key < 2 ^ 32 := fun key =>
      (blockInstructions_le_append blocks block key).trans_lt (fits key)
    have held : (((blocks.foldl countBlock ∅).lookup block.1).map UInt32.toNat).getD 0 =
        blockInstructions blocks block.1 := by
      rw [lookup_countBlocks]
      split
      · exact Nat.mod_eq_of_lt (before block.1)
      · rename_i absent
        exact (blockInstructions_eq_zero absent).symm
    have here := fits block.1
    rw [blockInstructions_append, if_pos rfl, ← held] at here
    rw [List.foldl_append, List.foldl_cons, List.foldl_nil, totalCount_countBlock _ _ here,
      inductionHypothesis before, List.map_append, List.sum_append]
    rfl

/-! ### Stored regions -/

/-- The vector of a region is what was counted, and adds up to the total of the region. -/
structure CountsBlocks (blocks : List (Address × UInt64)) (region : Region) : Prop where
  count : ∀ key, (region.bbv.lookup key).map UInt32.toNat =
    if key ∈ blocks.map Prod.fst then some (blockInstructions blocks key) else none
  total : totalCount region.bbv = region.instrCount.toNat

theorem countsBlocks_regionOf_iff (mask : Address) (ops : List ThreadOp) (name : String)
    (fits : ((ThreadOp.blocks (ThreadOp.sinceSave ops)).map fun block => block.2.toNat).sum <
      2 ^ 64) :
    CountsBlocks (ThreadOp.blocks (ThreadOp.sinceSave ops)) (regionOf mask ops name) ↔
      ∀ key, blockInstructions (ThreadOp.blocks (ThreadOp.sinceSave ops)) key < 2 ^ 32 := by
  have stored := lookup_countBlocks (ThreadOp.blocks (ThreadOp.sinceSave ops))
  refine ⟨fun counts key => ?_, fun small => ⟨fun key => ?_, ?_⟩⟩
  · by_cases met : key ∈ (ThreadOp.blocks (ThreadOp.sinceSave ops)).map Prod.fst
    · have exact := (stored key).symm.trans (counts.count key)
      rw [if_pos met, if_pos met, Option.some_inj] at exact
      rw [← exact]
      exact Nat.mod_lt _ (by decide)
    · rw [blockInstructions_eq_zero met]
      decide
  · rw [regionOf, stored, Nat.mod_eq_of_lt (small key)]
  · rw [ThreadData.toNat_instrCount, Nat.mod_eq_of_lt fits]
    exact totalCount_countBlocks _ small

namespace ThreadData

/-- A synchronisation point stores the blocks as they were counted exactly when no block of its
region comes to `2^32` instructions. -/
theorem countsBlocks_iff (mask : Address) (threadId : UInt32) (isMaster : Bool) (regionId : Nat)
    {ops front back : List ThreadOp} {name : String}
    (saved : ops = front ++ .saveBarrier name :: back)
    (fits : ((ThreadOp.blocks (ThreadOp.sinceSave front)).map fun block => block.2.toNat).sum <
      2 ^ 64) :
    ∃ data region, run (perform mask) (ThreadData.new threadId isMaster regionId) ops = some data ∧
      data.regions.lookup (regionId + ThreadOp.saves front) = some region ∧
      (CountsBlocks (ThreadOp.blocks (ThreadOp.sinceSave front)) region ↔
        ∀ key, blockInstructions (ThreadOp.blocks (ThreadOp.sinceSave front)) key < 2 ^ 32) := by
  obtain ⟨data, ran, behind⟩ := (behind_new mask threadId isMaster regionId).performs ops
  exact ⟨data, _, ran, behind.stored front name back saved,
    countsBlocks_regionOf_iff mask front name fits⟩

/-- Two blocks in turn behind a synchronisation point. -/
def twoBlocks : List ThreadOp :=
  [.saveBarrier "main._omp_fn.0", .addBb 0x10 7, .record 0x40, .addBb 0x20 5, .addAddress,
    .addBb 0x10 2]

theorem countsBlocks_iff_twoBlocks : ∃ data region,
    run (perform 0xffffffffffffffc0) (ThreadData.new 1 true 0)
      (twoBlocks ++ .saveBarrier "GOMP_barrier" :: []) = some data ∧
    data.regions.lookup (0 + ThreadOp.saves twoBlocks) = some region ∧
    (CountsBlocks (ThreadOp.blocks (ThreadOp.sinceSave twoBlocks)) region ↔
      ∀ key, blockInstructions (ThreadOp.blocks (ThreadOp.sinceSave twoBlocks)) key < 2 ^ 32) :=
  countsBlocks_iff 0xffffffffffffffc0 1 true 0 rfl (by decide)

/-- A hot block between two synchronisation points: 16 instructions, `2^28` times. -/
def hotBlock : List ThreadOp :=
  .saveBarrier "main._omp_fn.0" :: List.replicate (2 ^ 28) (.addBb 0x10 16)

theorem blocks_hotBlock : ThreadOp.blocks (ThreadOp.sinceSave hotBlock) =
    List.replicate (2 ^ 28) (0x10, 16) := by
  have noSave : ∀ op ∈ List.replicate (2 ^ 28) (ThreadOp.addBb 0x10 16), op.isSave = false := by
    intro op member
    rw [List.eq_of_mem_replicate member]
    rfl
  have since : ThreadOp.sinceSave hotBlock = List.replicate (2 ^ 28) (.addBb 0x10 16) :=
    ThreadOp.sinceSave_append [.saveBarrier "main._omp_fn.0"] noSave
  rw [since]
  exact List.filterMap_replicate_of_some rfl

theorem blockInstructions_hotBlock :
    blockInstructions (List.replicate (2 ^ 28) (0x10, 16)) 0x10 = 2 ^ 32 := by
  rw [blockInstructions, List.filter_replicate_of_pos (by decide), List.map_replicate,
    List.sum_replicate_nat]
  rfl

/-- The count of the hot block starts over, and the vector that is stored holds zero for it. -/
theorem not_countsBlocks_hotBlock : ∃ data region,
    ((ThreadOp.blocks (ThreadOp.sinceSave hotBlock)).map fun block => block.2.toNat).sum < 2 ^ 64 ∧
    run (perform 0xffffffffffffffc0) (ThreadData.new 1 true 0)
      (hotBlock ++ [.saveBarrier "GOMP_barrier"]) = some data ∧
    data.regions.lookup 1 = some region ∧
    ¬ CountsBlocks (ThreadOp.blocks (ThreadOp.sinceSave hotBlock)) region := by
  have fits : ((ThreadOp.blocks (ThreadOp.sinceSave hotBlock)).map fun block =>
      block.2.toNat).sum < 2 ^ 64 := by
    rw [blocks_hotBlock, List.map_replicate, List.sum_replicate_nat]
    decide
  obtain ⟨data, ran, behind⟩ := (behind_new 0xffffffffffffffc0 1 true 0).performs
    (hotBlock ++ [.saveBarrier "GOMP_barrier"])
  have place : 0 + ThreadOp.saves hotBlock = 1 := by
    have none : ThreadOp.saves (List.replicate (2 ^ 28) (.addBb 0x10 16)) = 0 := by
      refine List.countP_eq_zero.mpr fun op member => ?_
      rw [List.eq_of_mem_replicate member]
      exact Bool.false_ne_true
    rw [Nat.zero_add, ThreadOp.saves, hotBlock, List.countP_cons_of_pos rfl]
    exact congrArg (· + 1) none
  refine ⟨data, _, fits, ran, place ▸ behind.stored hotBlock _ [] rfl, fun counts => ?_⟩
  have small := (countsBlocks_regionOf_iff _ hotBlock _ fits).mp counts 0x10
  rw [blocks_hotBlock, blockInstructions_hotBlock] at small
  exact Nat.lt_irrefl _ small

end ThreadData

end BarrierPoint
