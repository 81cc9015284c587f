/-
This file asks when the alignment of one thread is independent of the other
threads. The count carried from region to region is one variable for all
threads: what the last region of a thread leaves is added to the first region
of the thread behind it. A thread therefore ends up the same in two lists
exactly when the threads in front of it leave the same count there, or when
either count disappears in a first region of parallel blocks only.
-/

import BarrierPoint.Alignment
import BarrierPoint.SaveSafety

namespace BarrierPoint

open Library

/-! ### What the incoming count changes in a region -/

/-- Two regions that differ in their instruction counts at most. -/
structure SameBlocks (first second : Region) : Prop where
  synchName_eq : first.synchName = second.synchName
  bbv_eq : first.bbv = second.bbv
  lruHist_eq : first.lruHist = second.lruHist

theorem SameBlocks.eq_iff {first second : Region} (same : SameBlocks first second) :
    first = second ↔ first.instrCount.toNat = second.instrCount.toNat := by
  obtain ⟨name, count, blocks, hist⟩ := first
  obtain ⟨name', count', blocks', hist'⟩ := second
  obtain ⟨rfl, rfl, rfl⟩ := same
  simp only [Region.mk.injEq, true_and, and_true, UInt64.toNat_inj]

/-- Taking out a block looks at the blocks only, not at the instruction count. -/
theorem SameBlocks.alignBlock {first second : Region} (same : SameBlocks first second)
    (balance : UInt64) (bbAddr : Address) :
    SameBlocks (alignBlock (first, balance) bbAddr).1 (alignBlock (second, balance) bbAddr).1 ∧
      (BarrierPoint.alignBlock (first, balance) bbAddr).2 =
        (BarrierPoint.alignBlock (second, balance) bbAddr).2 := by
  cases held : second.bbv.lookup bbAddr with
  | none =>
    rw [alignBlock_of_missing held, alignBlock_of_missing (same.bbv_eq ▸ held)]
    exact ⟨same, rfl⟩
  | some count =>
    rw [alignBlock_of_found held, alignBlock_of_found (same.bbv_eq ▸ held)]
    exact ⟨⟨same.synchName_eq, by rw [same.bbv_eq], same.lruHist_eq⟩, rfl⟩

theorem SameBlocks.foldl_alignBlock (addresses : List Address) :
    ∀ first second : Region, SameBlocks first second → ∀ balance : UInt64,
      SameBlocks (addresses.foldl BarrierPoint.alignBlock (first, balance)).1
        (addresses.foldl BarrierPoint.alignBlock (second, balance)).1 := by
  induction addresses with
  | nil => exact fun _ _ same _ => same
  | cons address addresses inductionHypothesis =>
    intro first second same balance
    obtain ⟨sameNext, balanceNext⟩ := same.alignBlock balance address
    have later := inductionHypothesis _ _ sameNext
      (BarrierPoint.alignBlock (first, balance) address).2
    rw [List.foldl_cons, List.foldl_cons]
    rw [show BarrierPoint.alignBlock (second, balance) address =
      ((BarrierPoint.alignBlock (second, balance) address).1,
        (BarrierPoint.alignBlock (first, balance) address).2) from
      Prod.ext rfl balanceNext.symm]
    exact later

/-- Whatever comes into a region, its name, its blocks and its histogram come out the same. -/
theorem sameBlocks_alignRegion (parallelOmpF : UnorderedMap Address String) (region : Region)
    (balance balance' : UInt64) :
    SameBlocks (alignRegion parallelOmpF region balance).1
      (alignRegion parallelOmpF region balance').1 :=
  SameBlocks.foldl_alignBlock parallelOmpF.keys
    { region with instrCount := region.instrCount + balance }
    { region with instrCount := region.instrCount + balance' } ⟨rfl, rfl, rfl⟩ 0

/-- Two incoming counts leave the same region: they are equal, or with either of them the region
has no more instructions than its parallel blocks, which are all taken out. -/
def SameStart (parallelOmpF : UnorderedMap Address String) (region : Region)
    (left left' : UInt64) : Prop :=
  left = left' ∨
    ((region.instrCount + left).toNat ≤ parallelSum parallelOmpF region.bbv ∧
      (region.instrCount + left').toNat ≤ parallelSum parallelOmpF region.bbv)

theorem alignRegion_eq_iff (parallelOmpF : UnorderedMap Address String) (region : Region)
    (left left' : UInt64) :
    (alignRegion parallelOmpF region left).1 = (alignRegion parallelOmpF region left').1 ↔
      SameStart parallelOmpF region left left' := by
  rw [(sameBlocks_alignRegion parallelOmpF region left left').eq_iff,
    (alignRegion_spec parallelOmpF region left).1.instr_eq,
    (alignRegion_spec parallelOmpF region left').1.instr_eq, SameStart, UInt64.toNat_add,
    UInt64.toNat_add, ← UInt64.toNat_inj]
  have bound := left.toNat_lt
  have bound' := left'.toNat_lt
  have total := region.instrCount.toNat_lt
  omega

/-! ### What the incoming count changes in a thread -/

theorem balanceInto_congr {parallelOmpF : UnorderedMap Address String}
    {regions regions' : UnorderedMap Nat Region}
    (same : ∀ id, regions.lookup id = regions'.lookup id) (start : Nat) (balance : UInt64)
    (id : Nat) : balanceInto parallelOmpF regions start balance id =
      balanceInto parallelOmpF regions' start balance id := by
  rw [balanceInto, balanceInto, same]

/-- Behind the first region, what comes in does not depend on the count the thread starts with. -/
theorem balanceInto_of_ne {parallelOmpF : UnorderedMap Address String}
    {regions : UnorderedMap Nat Region} {start id : Nat} (behind : id ≠ start)
    (left left' : UInt64) : balanceInto parallelOmpF regions start left id =
      balanceInto parallelOmpF regions start left' id := by
  rw [balanceInto, balanceInto, if_neg behind, if_neg behind]

/-- A thread ends up the same from two starting counts exactly when its first region does. -/
theorem alignedLookup_agrees_iff {parallelOmpF : UnorderedMap Address String} {synchCount : Nat}
    {regions regions' : UnorderedMap Nat Region}
    (same : ∀ id, regions.lookup id = regions'.lookup id) (left left' : UInt64) :
    (∀ id, alignedLookup parallelOmpF synchCount regions left id =
        alignedLookup parallelOmpF synchCount regions' left' id) ↔
      (0 < synchCount → ∀ region ∈ regions.lookup 0,
        SameStart parallelOmpF region left left') := by
  constructor
  · intro agrees positive region found
    have first := agrees 0
    rw [alignedLookup, alignedLookup, if_pos positive, if_pos positive, ← same, found,
      Option.map_some, Option.map_some, balanceInto, balanceInto, if_pos rfl, if_pos rfl] at first
    exact (alignRegion_eq_iff parallelOmpF region left left').mp (Option.some_inj.mp first)
  · intro starts id
    rw [alignedLookup, alignedLookup, ← same id]
    by_cases inside : id < synchCount
    · rw [if_pos inside, if_pos inside]
      refine Option.map_congr fun region found => ?_
      rw [← balanceInto_congr same]
      by_cases first : id = 0
      · subst first
        rw [balanceInto, balanceInto, if_pos rfl, if_pos rfl]
        exact (alignRegion_eq_iff parallelOmpF region left left').mpr (starts inside region found)
      · rw [balanceInto_of_ne first left left']
    · rw [if_neg inside, if_neg inside]

/-! ### One thread in two lists -/

namespace BarrierPointData

/-- Every thread has a region for every synchronisation point. -/
def Complete (barrierPoint : BarrierPointData) : Prop :=
  ∀ data ∈ barrierPoint.threads, HasRegions barrierPoint.synchCount data.regions

/-- What the thread in front of an index leaves: the count of the last parallel function with a
block in its last region. Nothing is in front of the first thread. -/
def leftInFront (parallelOmpF : UnorderedMap Address String) (barrierPoint : BarrierPointData) :
    Nat → UInt64
  | 0 => 0
  | index + 1 => ((barrierPoint.threads[index]?.bind fun data =>
      data.regions.lookup (barrierPoint.synchCount - 1)).map fun region =>
        lastCount parallelOmpF region.bbv).getD 0

theorem balanceBefore_eq_leftInFront (parallelOmpF : UnorderedMap Address String)
    {barrierPoint : BarrierPointData} (positive : 0 < barrierPoint.synchCount) {index : Nat}
    (inside : index < barrierPoint.threads.length) :
    balanceBefore parallelOmpF barrierPoint.synchCount barrierPoint.threads 0 index =
      barrierPoint.leftInFront parallelOmpF index := by
  cases index with
  | zero => rfl
  | succ index =>
    have held := List.getElem?_eq_getElem (show index < barrierPoint.threads.length by omega)
    rw [balanceBefore_succ parallelOmpF (show barrierPoint.synchCount - 1 + 1 = _ by omega) held,
      leftInFront, held, Option.bind_some]

/-- The alignment of both lists succeeds and gives the two threads the same regions. -/
def SameResult (parallelOmpF : UnorderedMap Address String) (first second : BarrierPointData)
    (index index' : Nat) : Prop :=
  ∃ aligned aligned' after after', first.alignSynchBb parallelOmpF = some aligned ∧
    second.alignSynchBb parallelOmpF = some aligned' ∧
    aligned.threads[index]? = some after ∧ aligned'.threads[index']? = some after' ∧
    ∀ id, after.regions.lookup id = after'.regions.lookup id

/-- What the alignment makes of the thread at an index. -/
theorem alignSynchBb_spec (parallelOmpF : UnorderedMap Address String)
    {barrierPoint : BarrierPointData} (complete : barrierPoint.Complete) :
    ∃ aligned, barrierPoint.alignSynchBb parallelOmpF = some aligned ∧
      ∀ index before, barrierPoint.threads[index]? = some before →
        ∃ after, aligned.threads[index]? = some after ∧
          ∀ id, after.regions.lookup id =
            alignedLookup parallelOmpF barrierPoint.synchCount before.regions
              (balanceBefore parallelOmpF barrierPoint.synchCount barrierPoint.threads 0 index)
                id := by
  obtain ⟨threads, ran, known⟩ :=
    alignThreads_eq parallelOmpF barrierPoint.synchCount barrierPoint.threads 0 complete
  refine ⟨{ barrierPoint with threads }, ?_, known⟩
  rw [alignSynchBb, ran]
  rfl

/-- A thread with the same own regions in two complete lists ends up the same exactly when what is
left in front of it makes no difference to its first region. -/
theorem sameResult_iff_sameStart (parallelOmpF : UnorderedMap Address String)
    {first second : BarrierPointData} (points : first.synchCount = second.synchCount)
    (complete : first.Complete) (complete' : second.Complete) {index index' : Nat}
    {data data' : ThreadData} (held : first.threads[index]? = some data)
    (held' : second.threads[index']? = some data')
    (own : ∀ id, data.regions.lookup id = data'.regions.lookup id) :
    SameResult parallelOmpF first second index index' ↔
      (0 < first.synchCount → ∀ region ∈ data.regions.lookup 0,
        SameStart parallelOmpF region (first.leftInFront parallelOmpF index)
          (second.leftInFront parallelOmpF index')) := by
  obtain ⟨aligned, ran, known⟩ := alignSynchBb_spec parallelOmpF complete
  obtain ⟨aligned', ran', known'⟩ := alignSynchBb_spec parallelOmpF complete'
  obtain ⟨after, heldAfter, lookups⟩ := known index data held
  obtain ⟨after', heldAfter', lookups'⟩ := known' index' data' held'
  have inside := (List.getElem?_eq_some_iff.mp held).1
  have inside' := (List.getElem?_eq_some_iff.mp held').1
  have results : SameResult parallelOmpF first second index index' ↔
      ∀ id, after.regions.lookup id = after'.regions.lookup id := by
    constructor
    · rintro ⟨_, _, _, _, ranTwice, ranTwice', heldTwice, heldTwice', agrees⟩
      obtain rfl := Option.some_inj.mp (ran.symm.trans ranTwice)
      obtain rfl := Option.some_inj.mp (ran'.symm.trans ranTwice')
      obtain rfl := Option.some_inj.mp (heldAfter.symm.trans heldTwice)
      obtain rfl := Option.some_inj.mp (heldAfter'.symm.trans heldTwice')
      exact agrees
    · exact fun agrees => ⟨_, _, _, _, ran, ran', heldAfter, heldAfter', agrees⟩
  simp only [results, lookups, lookups', ← points]
  rw [alignedLookup_agrees_iff own]
  refine forall_congr' fun positive => ?_
  rw [balanceBefore_eq_leftInFront parallelOmpF positive inside, points,
    balanceBefore_eq_leftInFront parallelOmpF (points ▸ positive) inside']

/-- A thread that takes one barrier and exits. -/
def exitingThread (tid : UInt32) (isMaster : Bool) : ThreadData :=
  { ThreadData.new tid isMaster 2 with
    regions := ((∅ : UnorderedMap Nat Region).insert 0
      ⟨"GOMP_barrier", 3, AList.singleton 0x20 3, []⟩).insert 1
      ⟨"thread_exit", 2, AList.singleton 0x20 2, []⟩ }

/-- A worker that runs ahead: it calls a parallel function between the barrier and its exit. The
region that this function ends still has the entry block, of five instructions. -/
def aheadThread : ThreadData :=
  { ThreadData.new 2 false 3 with
    regions := (((∅ : UnorderedMap Nat Region).insert 0
      ⟨"GOMP_barrier", 3, AList.singleton 0x20 3, []⟩).insert 1
      ⟨"main._omp_fn.0", 5, AList.singleton 0x10 5, []⟩).insert 2
      ⟨"thread_exit", 2, AList.singleton 0x20 2, []⟩ }

/-- The master, the worker that runs ahead and another worker. -/
def teamAhead : BarrierPointData := ⟨2, [exitingThread 1 true, aheadThread, exitingThread 3 false]⟩

/-- The same run without the worker that runs ahead. -/
def teamAlone : BarrierPointData := ⟨2, [exitingThread 1 true, exitingThread 3 false]⟩

theorem complete_teamAhead : teamAhead.Complete := by
  intro data member id inRange
  have inTwo : id < 2 := inRange
  rcases List.mem_cons.mp member with rfl | workers
  · interval_cases id <;> rfl
  · rcases List.mem_pair.mp workers with rfl | rfl
    · interval_cases id <;> rfl
    · interval_cases id <;> rfl

theorem complete_teamAlone : teamAlone.Complete := fun data member =>
  complete_teamAhead data
    ((List.Sublist.cons_cons _ (List.sublist_cons_self _ _)).subset member)

theorem sameResult_iff_sameStart_plain :
    SameResult (AList.singleton 0x10 "main._omp_fn.0") teamAhead teamAlone 2 1 ↔
      (0 < 2 → ∀ region ∈ (exitingThread 3 false).regions.lookup 0,
        SameStart (AList.singleton 0x10 "main._omp_fn.0") region
          (teamAhead.leftInFront (AList.singleton 0x10 "main._omp_fn.0") 2)
          (teamAlone.leftInFront (AList.singleton 0x10 "main._omp_fn.0") 1)) :=
  sameResult_iff_sameStart _ (by rfl) complete_teamAhead complete_teamAlone rfl rfl fun _ => rfl

/-- The first region of the other worker has three instructions, but eight behind the worker that
runs ahead. -/
theorem not_sameResult_plain :
    teamAhead.Complete ∧ teamAlone.Complete ∧
    ¬ SameResult (AList.singleton 0x10 "main._omp_fn.0") teamAhead teamAlone 2 1 := by
  refine ⟨complete_teamAhead, complete_teamAlone, ?_⟩
  rintro ⟨aligned, aligned', after, after', ran, ran', held, held', agrees⟩
  obtain rfl := Option.some_inj.mp ran
  obtain rfl := Option.some_inj.mp ran'
  obtain rfl := Option.some_inj.mp held
  obtain rfl := Option.some_inj.mp held'
  exact absurd (agrees 0) (by decide)

end BarrierPointData

end BarrierPoint
