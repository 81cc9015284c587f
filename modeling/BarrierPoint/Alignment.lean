/-
This file compares the alignment of the parallel functions' entry blocks with
its purpose, which is to move these blocks from the region being ended to the
next one. One region loses its parallel blocks and their counts, and passes on
the last count it took out -- not their sum, and not the blocks. The count
passed on by the last region of a thread goes to the first region of the next
thread. So the alignment does its work exactly when it has nothing to move.
-/

import BarrierPoint.Writers
import Mathlib.Algebra.BigOperators.Group.List.Basic
import Mathlib.Tactic.IntervalCases

namespace BarrierPoint

open Library

/-! ### Counting the blocks of a region -/

/-- The instructions of a basic block vector. -/
def totalCount (bbv : UnorderedMap Address UInt32) : Nat :=
  (bbv.entries.map fun entry => entry.2.toNat).sum

/-- The counts of the blocks at the given addresses, in their order. -/
def countsAt (addresses : List Address) (bbv : UnorderedMap Address UInt32) : List UInt32 :=
  addresses.filterMap fun address => bbv.lookup address

/-- `S`: the instructions of a region at addresses of parallel functions. -/
def parallelSum (parallelOmpF : UnorderedMap Address String)
    (bbv : UnorderedMap Address UInt32) : Nat :=
  ((countsAt parallelOmpF.keys bbv).map UInt32.toNat).sum

/-- What a region passes on: the count of the last parallel block found in it. -/
def lastCount (parallelOmpF : UnorderedMap Address String)
    (bbv : UnorderedMap Address UInt32) : UInt64 :=
  ((countsAt parallelOmpF.keys bbv).getLast?.map UInt32.toUInt64).getD 0

/-- Taking a block out of a vector takes its count out of the total. -/
theorem totalCount_erase {bbv : UnorderedMap Address UInt32} {address : Address} {count : UInt32}
    (found : bbv.lookup address = some count) :
    totalCount bbv = count.toNat + totalCount (bbv.erase address) := by
  have member : address ∈ bbv.entries.keys :=
    AList.lookup_isSome.mp (Option.isSome_iff_exists.mpr ⟨count, found⟩)
  obtain ⟨held, before, after, outside, entries, erased⟩ := List.exists_of_kerase member
  have same : held = count := by
    have known : (⟨address, held⟩ : Sigma fun _ => UInt32) ∈ bbv.entries := by
      rw [entries]
      exact List.mem_append_right _ List.mem_cons_self
    exact Option.some_inj.mp ((AList.mem_lookup_iff.mpr known).symm.trans found)
  have rest : (bbv.erase address).entries = before ++ after := erased
  rw [totalCount, totalCount, entries, rest, same]
  simp only [List.map_append, List.map_cons, List.sum_append, List.sum_cons]
  omega

/-! ### One region -/

theorem alignBlock_of_found {region : Region} {balance : UInt64} {bbAddr : Address}
    {found : UInt32} (held : region.bbv.lookup bbAddr = some found) :
    alignBlock (region, balance) bbAddr =
      ({ region with
          bbv := region.bbv.erase bbAddr
          instrCount := if found.toUInt64 ≤ region.instrCount
            then region.instrCount - found.toUInt64 else 0 }, found.toUInt64) := by
  rw [alignBlock, held]

theorem alignBlock_of_missing {region : Region} {balance : UInt64} {bbAddr : Address}
    (missing : region.bbv.lookup bbAddr = none) :
    alignBlock (region, balance) bbAddr = (region, balance) := by
  rw [alignBlock, missing]

/-- The clamped subtraction is the one of the natural numbers. -/
theorem toNat_clamped (total count : UInt64) :
    (if count ≤ total then total - count else 0).toNat = total.toNat - count.toNat := by
  split
  · rename_i fits
    exact UInt64.toNat_sub_of_le _ _ fits
  · rename_i exceeds
    have order : total.toNat < count.toNat := UInt64.lt_iff_toNat_lt.mp (UInt64.not_le.mp exceeds)
    rw [Nat.sub_eq_zero_of_le order.le]
    rfl

/-- What taking out the blocks at a list of addresses leaves of a region and its balance. -/
structure TakenOut (addresses : List Address) (region : Region) (balance : UInt64)
    (result : Region × UInt64) : Prop where
  instr_eq : result.1.instrCount.toNat =
    region.instrCount.toNat - ((countsAt addresses region.bbv).map UInt32.toNat).sum
  lookup_eq : ∀ address, result.1.bbv.lookup address =
    if address ∈ addresses then none else region.bbv.lookup address
  total_eq : totalCount region.bbv =
    ((countsAt addresses region.bbv).map UInt32.toNat).sum + totalCount result.1.bbv
  balance_eq : result.2 =
    ((countsAt addresses region.bbv).getLast?.map UInt32.toUInt64).getD balance

theorem takenOut (addresses : List Address) (distinct : addresses.Nodup) :
    ∀ (region : Region) (balance : UInt64),
      TakenOut addresses region balance (addresses.foldl alignBlock (region, balance)) := by
  induction addresses with
  | nil =>
    intro region balance
    exact ⟨rfl, fun _ => rfl, (Nat.zero_add _).symm, rfl⟩
  | cons first addresses inductionHypothesis =>
    intro region balance
    obtain ⟨fresh, distinct⟩ := List.nodup_cons.mp distinct
    cases held : region.bbv.lookup first with
    | none =>
      have counts : countsAt (first :: addresses) region.bbv = countsAt addresses region.bbv :=
        List.filterMap_cons_none held
      have rest := inductionHypothesis distinct region balance
      rw [List.foldl_cons, alignBlock_of_missing held]
      refine ⟨counts ▸ rest.instr_eq, fun address => ?_, counts ▸ rest.total_eq,
        counts ▸ rest.balance_eq⟩
      rw [rest.lookup_eq]
      by_cases here : address = first
      · subst here
        rw [if_neg fresh, if_pos List.mem_cons_self, held]
      · simp only [List.mem_cons, here, false_or]
    | some count =>
      have counts : countsAt (first :: addresses) region.bbv =
          count :: countsAt addresses region.bbv := List.filterMap_cons_some held
      have others : countsAt addresses (region.bbv.erase first) =
          countsAt addresses region.bbv := List.filterMap_congr fun address member =>
        AList.lookup_erase_ne (ne_of_mem_of_not_mem member fresh)
      have rest := inductionHypothesis distinct
        { region with
          bbv := region.bbv.erase first
          instrCount := if count.toUInt64 ≤ region.instrCount
            then region.instrCount - count.toUInt64 else 0 } count.toUInt64
      rw [List.foldl_cons, alignBlock_of_found held]
      refine ⟨?_, fun address => ?_, ?_, ?_⟩
      · rw [rest.instr_eq, others, toNat_clamped, counts, List.map_cons, List.sum_cons,
          Nat.sub_sub]
        rfl
      · rw [rest.lookup_eq]
        by_cases here : address = first
        · subst here
          rw [if_neg fresh, if_pos List.mem_cons_self, AList.lookup_erase]
        · simp only [List.mem_cons, here, false_or]
          rw [AList.lookup_erase_ne here]
      · have taken := rest.total_eq
        rw [others] at taken
        rw [totalCount_erase held, taken, counts, List.map_cons, List.sum_cons]
        omega
      · rw [rest.balance_eq, others, counts, List.getLast?_cons]
        cases (countsAt addresses region.bbv).getLast? <;> rfl

/-- A region loses its parallel blocks and their counts, whatever comes in, and passes on the last
of these counts. -/
structure RegionAligned (parallelOmpF : UnorderedMap Address String) (balance : UInt64)
    (before after : Region) : Prop where
  instr_eq : after.instrCount.toNat =
    (before.instrCount.toNat + balance.toNat) % 2 ^ 64 - parallelSum parallelOmpF before.bbv
  lookup_eq : ∀ address, after.bbv.lookup address =
    if address ∈ parallelOmpF.keys then none else before.bbv.lookup address
  total_eq : totalCount before.bbv = parallelSum parallelOmpF before.bbv + totalCount after.bbv

theorem alignRegion_spec (parallelOmpF : UnorderedMap Address String) (region : Region)
    (balance : UInt64) :
    RegionAligned parallelOmpF balance region (alignRegion parallelOmpF region balance).1 ∧
      (alignRegion parallelOmpF region balance).2 = lastCount parallelOmpF region.bbv := by
  have taken := takenOut parallelOmpF.keys parallelOmpF.keys_nodup
    { region with instrCount := region.instrCount + balance } 0
  refine ⟨⟨?_, taken.lookup_eq, taken.total_eq⟩, taken.balance_eq⟩
  have instr := taken.instr_eq
  rw [UInt64.toNat_add] at instr
  exact instr

/-! ### One thread and all threads -/

/-- What the region with an id gets from before: the balance of the region before it, and for the
first region the one the thread starts with. -/
def balanceInto (parallelOmpF : UnorderedMap Address String) (regions : UnorderedMap Nat Region)
    (start : Nat) (balance : UInt64) (id : Nat) : UInt64 :=
  if id = start then balance
  else ((regions.lookup (id - 1)).map fun region => lastCount parallelOmpF region.bbv).getD 0

/-- Each region of a thread is aligned with the balance that comes into it, and nothing else of the
thread changes. -/
theorem alignThread_eq (parallelOmpF : UnorderedMap Address String) (count : Nat) :
    ∀ (start : Nat) (regions : UnorderedMap Nat Region) (balance : UInt64),
      (∀ id, start ≤ id → id < start + count → (regions.lookup id).isSome) →
      ∃ aligned,
        alignThread parallelOmpF (List.range' start count) regions balance =
          some (aligned, balanceInto parallelOmpF regions start balance (start + count)) ∧
        ∀ id, aligned.lookup id = if start ≤ id ∧ id < start + count then
          (regions.lookup id).map fun region =>
            (alignRegion parallelOmpF region
              (balanceInto parallelOmpF regions start balance id)).1
          else regions.lookup id := by
  induction count with
  | zero =>
    intro start regions balance _
    refine ⟨regions, ?_, fun id => (if_neg (by omega)).symm⟩
    rw [balanceInto, if_pos (Nat.add_zero start)]
    rfl
  | succ count inductionHypothesis =>
    intro start regions balance has
    obtain ⟨region, found⟩ :=
      Option.isSome_iff_exists.mp (has start le_rfl (by omega))
    have passedOn := (alignRegion_spec parallelOmpF region balance).2
    have elsewhere : ∀ id, id ≠ start →
        (regions.insert start (alignRegion parallelOmpF region balance).1).lookup id =
          regions.lookup id := fun id other => AList.lookup_insert_ne other
    obtain ⟨aligned, ran, known⟩ := inductionHypothesis (start + 1)
      (regions.insert start (alignRegion parallelOmpF region balance).1)
      (alignRegion parallelOmpF region balance).2 fun id from_ upTo => by
        rw [elsewhere id (by omega)]
        exact has id (by omega) (by omega)
    have into : ∀ id, start < id → balanceInto parallelOmpF
        (regions.insert start (alignRegion parallelOmpF region balance).1) (start + 1)
          (alignRegion parallelOmpF region balance).2 id =
        balanceInto parallelOmpF regions start balance id := by
      intro id after
      unfold balanceInto
      rw [if_neg (show id ≠ start by omega), passedOn]
      split
      · rename_i next
        subst next
        rw [Nat.add_sub_cancel, found]
        rfl
      · rw [elsewhere (id - 1) (by omega)]
    refine ⟨aligned, ?_, fun id => ?_⟩
    · rw [into _ (by omega), show start + 1 + count = start + (count + 1) by omega] at ran
      rw [List.range'_succ, alignThread, found, Option.bind_eq_bind, Option.bind_some]
      exact ran
    · rw [known id]
      by_cases here : id = start
      · subst here
        rw [if_neg (by omega), if_pos (by omega), AList.lookup_insert, found, balanceInto,
          if_pos rfl]
        rfl
      · rw [elsewhere id here]
        by_cases inside : start ≤ id ∧ id < start + (count + 1)
        · rw [if_pos (by omega), if_pos inside, into id (by omega)]
        · rw [if_neg (by omega), if_neg inside]

/-- What a thread passes on to the next thread: the balance of its last region. -/
def balanceOut (parallelOmpF : UnorderedMap Address String) (synchCount : Nat)
    (data : ThreadData) (balance : UInt64) : UInt64 :=
  balanceInto parallelOmpF data.regions 0 balance synchCount

/-- The balance that comes into the thread at an index of the list. -/
def balanceBefore (parallelOmpF : UnorderedMap Address String) (synchCount : Nat)
    (threads : List ThreadData) (balance : UInt64) (index : Nat) : UInt64 :=
  (threads.take index).foldl (fun balance data =>
    balanceOut parallelOmpF synchCount data balance) balance

/-- Each region of a thread is aligned with the balance that comes into it. -/
def ThreadAligned (parallelOmpF : UnorderedMap Address String) (synchCount : Nat)
    (balance : UInt64) (before after : ThreadData) : Prop :=
  ∀ id < synchCount, ∃ old new, before.regions.lookup id = some old ∧
    after.regions.lookup id = some new ∧
    RegionAligned parallelOmpF (balanceInto parallelOmpF before.regions 0 balance id) old new

/-- The region with an id after the call, for a thread that starts with the given balance. -/
def alignedLookup (parallelOmpF : UnorderedMap Address String) (synchCount : Nat)
    (regions : UnorderedMap Nat Region) (balance : UInt64) (id : Nat) : Option Region :=
  if id < synchCount then
    (regions.lookup id).map fun region =>
      (alignRegion parallelOmpF region (balanceInto parallelOmpF regions 0 balance id)).1
  else regions.lookup id

/-- Every thread is aligned with what the threads in front of it leave. -/
theorem alignThreads_eq (parallelOmpF : UnorderedMap Address String) (synchCount : Nat)
    (threads : List ThreadData) : ∀ balance : UInt64,
      (∀ data ∈ threads, ∀ id < synchCount, (data.regions.lookup id).isSome) →
      ∃ aligned, alignThreads parallelOmpF synchCount threads balance = some aligned ∧
        ∀ index before, threads[index]? = some before → ∃ after, aligned[index]? = some after ∧
          ∀ id, after.regions.lookup id = alignedLookup parallelOmpF synchCount before.regions
            (balanceBefore parallelOmpF synchCount threads balance index) id := by
  induction threads with
  | nil => exact fun _ _ => ⟨[], rfl, fun index before held => by simp at held⟩
  | cons data threads inductionHypothesis =>
    intro balance has
    rw [List.forall_mem_cons] at has
    obtain ⟨regions, ran, known⟩ := alignThread_eq parallelOmpF synchCount 0 data.regions
      balance fun id _ inRange => has.1 id (by omega)
    simp only [Nat.zero_add, Nat.zero_le, true_and] at ran known
    obtain ⟨aligned, later, rest⟩ :=
      inductionHypothesis (balanceOut parallelOmpF synchCount data balance) has.2
    refine ⟨{ data with regions } :: aligned, ?_, fun index before held => ?_⟩
    · rw [alignThreads, List.range_eq_range', ran, Option.bind_eq_bind, Option.bind_some]
      show (alignThreads parallelOmpF synchCount threads
        (balanceOut parallelOmpF synchCount data balance)).bind _ = _
      rw [later]
      rfl
    · cases index with
      | zero =>
        cases held
        exact ⟨_, rfl, known⟩
      | succ index => exact rest index before held

theorem alignThreads_spec (parallelOmpF : UnorderedMap Address String) (synchCount : Nat)
    (threads : List ThreadData) (balance : UInt64)
    (has : ∀ data ∈ threads, ∀ id < synchCount, (data.regions.lookup id).isSome) :
    ∃ aligned, alignThreads parallelOmpF synchCount threads balance = some aligned ∧
      ∀ index before, threads[index]? = some before → ∃ after, aligned[index]? = some after ∧
        ThreadAligned parallelOmpF synchCount
          (balanceBefore parallelOmpF synchCount threads balance index) before after := by
  obtain ⟨aligned, ran, known⟩ := alignThreads_eq parallelOmpF synchCount threads balance has
  refine ⟨aligned, ran, fun index before held => ?_⟩
  obtain ⟨after, heldAfter, lookups⟩ := known index before held
  refine ⟨after, heldAfter, fun id inRange => ?_⟩
  obtain ⟨old, found⟩ :=
    Option.isSome_iff_exists.mp (has before (List.mem_of_getElem? held) id inRange)
  refine ⟨old, _, found, ?_, (alignRegion_spec parallelOmpF old _).1⟩
  rw [lookups, alignedLookup, if_pos inRange, found, Option.map_some]

/-! ### What the alignment is for -/

/-- The blocks of the region before the one with the id. -/
def blocksBefore (data : ThreadData) : Nat → UnorderedMap Address UInt32
  | 0 => ∅
  | id + 1 => ((data.regions.lookup id).map Region.bbv).getD ∅

/-- The entry blocks of the parallel functions have moved from each region to the next, and the
instruction count still is the sum of the blocks. -/
structure RegionMoved (parallelOmpF : UnorderedMap Address String)
    (passed : UnorderedMap Address UInt32) (old new : Region) : Prop where
  instr_eq : new.instrCount.toNat =
    old.instrCount.toNat - parallelSum parallelOmpF old.bbv + parallelSum parallelOmpF passed
  lookup_eq : ∀ address, new.bbv.lookup address =
    if address ∈ parallelOmpF.keys then passed.lookup address else old.bbv.lookup address
  total_eq : new.instrCount.toNat = totalCount new.bbv

/-- The purpose of the alignment, for every thread and region. -/
def AlignsBlocks (parallelOmpF : UnorderedMap Address String) (barrierPoint : BarrierPointData) :
    Prop :=
  ∃ aligned, barrierPoint.alignSynchBb parallelOmpF = some aligned ∧
    ∀ (index : Nat) before, barrierPoint.threads[index]? = some before → ∃ after : ThreadData,
      aligned.threads[index]? = some after ∧
      ∀ id < barrierPoint.synchCount, ∃ old new, before.regions.lookup id = some old ∧
        after.regions.lookup id = some new ∧
        RegionMoved parallelOmpF (blocksBefore before id) old new

/-- Every thread has a region for every id, and its instruction count is the sum of its blocks. -/
def Consistent (barrierPoint : BarrierPointData) : Prop :=
  ∀ data ∈ barrierPoint.threads, ∀ id < barrierPoint.synchCount, ∃ region,
    data.regions.lookup id = some region ∧ region.instrCount.toNat = totalCount region.bbv

/-- The regions before the last of each thread have no parallel blocks, and those of the last
region count nothing unless the thread is the last. (The one other way to come out even needs a
single region per thread, with `2 ^ 64` instructions and more in parallel blocks only.) -/
structure NothingToMove (parallelOmpF : UnorderedMap Address String)
    (barrierPoint : BarrierPointData) : Prop where
  inner : ∀ data ∈ barrierPoint.threads, ∀ id, id + 1 < barrierPoint.synchCount →
    ∀ region ∈ data.regions.lookup id, ∀ address ∈ parallelOmpF.keys,
      region.bbv.lookup address = none
  last : ∀ (index : Nat) data next, barrierPoint.threads[index]? = some data →
    barrierPoint.threads[index + 1]? = some next → ∀ id, id + 1 = barrierPoint.synchCount →
    ∀ region ∈ data.regions.lookup id, ∀ address ∈ parallelOmpF.keys,
    ∀ count ∈ region.bbv.lookup address, count = 0 ∨
      (id = 0 ∧ ∀ first ∈ next.regions.lookup 0,
        first.instrCount.toNat = parallelSum parallelOmpF first.bbv ∧
        2 ^ 64 ≤ first.instrCount.toNat + count.toNat)

/-- An aligned region is as it should be when nothing was passed to it and the balance that came in
does not show. -/
theorem regionMoved_iff {parallelOmpF : UnorderedMap Address String} {balance : UInt64}
    {old new : Region} {passed : UnorderedMap Address UInt32}
    (aligned : RegionAligned parallelOmpF balance old new)
    (consistent : old.instrCount.toNat = totalCount old.bbv) :
    RegionMoved parallelOmpF passed old new ↔
      (∀ address ∈ parallelOmpF.keys, passed.lookup address = none) ∧
      (old.instrCount.toNat + balance.toNat) % 2 ^ 64 - parallelSum parallelOmpF old.bbv =
        old.instrCount.toNat - parallelSum parallelOmpF old.bbv := by
  have total := aligned.total_eq
  constructor
  · intro moved
    refine ⟨fun address member => ?_, ?_⟩
    · have lookup := moved.lookup_eq address
      rw [aligned.lookup_eq, if_pos member, if_pos member] at lookup
      exact lookup.symm
    · rw [← aligned.instr_eq, moved.total_eq]
      omega
  · rintro ⟨empty, even⟩
    have nothing : parallelSum parallelOmpF passed = 0 := by
      rw [parallelSum, countsAt, List.filterMap_eq_nil_iff.mpr empty]
      rfl
    refine ⟨?_, fun address => ?_, ?_⟩
    · rw [aligned.instr_eq, even, nothing]
      rfl
    · rw [aligned.lookup_eq]
      split
      · rename_i member
        rw [empty address member]
      · rfl
    · rw [aligned.instr_eq, even]
      omega

theorem alignsBlocks_iff {parallelOmpF : UnorderedMap Address String}
    {barrierPoint : BarrierPointData} (consistent : Consistent barrierPoint) :
    AlignsBlocks parallelOmpF barrierPoint ↔
      ∀ index data, barrierPoint.threads[index]? = some data →
        ∀ id < barrierPoint.synchCount, ∀ region ∈ data.regions.lookup id,
        (∀ address ∈ parallelOmpF.keys, (blocksBefore data id).lookup address = none) ∧
        (region.instrCount.toNat + (balanceInto parallelOmpF data.regions 0
          (balanceBefore parallelOmpF barrierPoint.synchCount barrierPoint.threads 0 index)
            id).toNat) % 2 ^ 64 - parallelSum parallelOmpF region.bbv =
          region.instrCount.toNat - parallelSum parallelOmpF region.bbv := by
  obtain ⟨threads, ran, known⟩ := alignThreads_spec parallelOmpF barrierPoint.synchCount
    barrierPoint.threads 0 fun data member id inRange => by
      obtain ⟨region, found, -⟩ := consistent data member id inRange
      rw [found]
      rfl
  have aligned : barrierPoint.alignSynchBb parallelOmpF = some { barrierPoint with threads } := by
    rw [BarrierPointData.alignSynchBb, ran]
    rfl
  constructor
  · rintro ⟨result, resultEq, moved⟩ index data held id inRange region found
    obtain rfl := Option.some_inj.mp (aligned.symm.trans resultEq)
    obtain ⟨after, heldAfter, movedThread⟩ := moved index data held
    obtain ⟨after', heldAfter', alignedThread⟩ := known index data held
    obtain rfl := Option.some_inj.mp (heldAfter.symm.trans heldAfter')
    obtain ⟨old, new, foundOld, foundNew, movedRegion⟩ := movedThread id inRange
    obtain ⟨old', new', foundOld', foundNew', alignedRegion⟩ := alignedThread id inRange
    obtain rfl := Option.some_inj.mp (foundOld.symm.trans foundOld')
    obtain rfl := Option.some_inj.mp (foundNew.symm.trans foundNew')
    obtain rfl := Option.some_inj.mp (foundOld.symm.trans found)
    obtain ⟨region, foundRegion, sum⟩ := consistent data (List.mem_of_getElem? held) id inRange
    obtain rfl := Option.some_inj.mp (foundOld.symm.trans foundRegion)
    exact (regionMoved_iff alignedRegion sum).mp movedRegion
  · intro even
    refine ⟨_, aligned, fun index data held => ?_⟩
    obtain ⟨after, heldAfter, alignedThread⟩ := known index data held
    refine ⟨after, heldAfter, fun id inRange => ?_⟩
    obtain ⟨old, new, foundOld, foundNew, alignedRegion⟩ := alignedThread id inRange
    obtain ⟨region, foundRegion, sum⟩ := consistent data (List.mem_of_getElem? held) id inRange
    obtain rfl := Option.some_inj.mp (foundOld.symm.trans foundRegion)
    exact ⟨old, new, foundOld, foundNew,
      (regionMoved_iff alignedRegion sum).mpr (even index data held id inRange old foundOld)⟩

/-! ### Orders of the parallel functions -/

theorem parallelSum_perm {order parallelOmpF : UnorderedMap Address String}
    (same : order.entries.Perm parallelOmpF.entries) (bbv : UnorderedMap Address UInt32) :
    parallelSum order bbv = parallelSum parallelOmpF bbv :=
  (((same.map Sigma.fst).filterMap _).map _).sum_eq

theorem keys_perm {order parallelOmpF : UnorderedMap Address String}
    (same : order.entries.Perm parallelOmpF.entries) (address : Address) :
    address ∈ order.keys ↔ address ∈ parallelOmpF.keys :=
  (same.map Sigma.fst).mem_iff

/-- Some order lists a given function last. -/
theorem exists_order_last {parallelOmpF : UnorderedMap Address String} {address : Address}
    (member : address ∈ parallelOmpF.keys) : ∃ order : UnorderedMap Address String,
      order.entries.Perm parallelOmpF.entries ∧ ∃ front, order.keys = front ++ [address] := by
  obtain ⟨name, before, after, -, entries, -⟩ := List.exists_of_kerase member
  have same : (before ++ after ++ [(⟨address, name⟩ : Sigma fun _ => String)]).Perm
      parallelOmpF.entries := by
    rw [entries, List.append_assoc]
    exact (List.perm_append_singleton _ _).append_left before
  refine ⟨⟨_, (List.perm_nodupKeys same).mpr parallelOmpF.nodupKeys⟩, same,
    (before ++ after).map Sigma.fst, ?_⟩
  exact List.map_append

/-- The last count is none at all, or that of a parallel block of the region. -/
theorem lastCount_cases (parallelOmpF : UnorderedMap Address String)
    (bbv : UnorderedMap Address UInt32) : lastCount parallelOmpF bbv = 0 ∨
      ∃ address ∈ parallelOmpF.keys, ∃ count ∈ bbv.lookup address,
        lastCount parallelOmpF bbv = count.toUInt64 := by
  unfold lastCount
  cases last : (countsAt parallelOmpF.keys bbv).getLast? with
  | none => exact .inl rfl
  | some count =>
    obtain ⟨address, member, found⟩ :=
      List.mem_filterMap.mp (List.mem_of_getLast? last)
    exact .inr ⟨address, member, count, found, rfl⟩

theorem lastCount_of_last {order : UnorderedMap Address String} {front : List Address}
    {address : Address} (keys : order.keys = front ++ [address])
    {bbv : UnorderedMap Address UInt32} {count : UInt32}
    (found : bbv.lookup address = some count) : lastCount order bbv = count.toUInt64 := by
  have lastOne : countsAt [address] bbv = [count] := List.filterMap_cons_some found
  have counts : countsAt order.keys bbv = countsAt front bbv ++ [count] := by
    rw [keys, countsAt, List.filterMap_append]
    exact congrArg _ lastOne
  rw [lastCount, counts, List.getLast?_concat]
  rfl

/-- What comes into a thread is what the thread before it passes on. -/
theorem balanceBefore_succ (parallelOmpF : UnorderedMap Address String) {synchCount last index : Nat}
    (count : last + 1 = synchCount) {threads : List ThreadData} {data : ThreadData}
    (held : threads[index]? = some data) (balance : UInt64) :
    balanceBefore parallelOmpF synchCount threads balance (index + 1) =
      ((data.regions.lookup last).map fun region => lastCount parallelOmpF region.bbv).getD 0 := by
  obtain ⟨inside, rfl⟩ := List.getElem?_eq_some_iff.mp held
  rw [balanceBefore, List.take_succ_eq_append_getElem inside, List.foldl_append, List.foldl_cons,
    List.foldl_nil, balanceOut, balanceInto, if_neg (by omega), ← count, Nat.add_sub_cancel]

/-! ### When the alignment does its work -/

theorem alignsBlocks_of_nothingToMove {order parallelOmpF : UnorderedMap Address String}
    {barrierPoint : BarrierPointData} (consistent : Consistent barrierPoint)
    (nothing : NothingToMove parallelOmpF barrierPoint)
    (same : order.entries.Perm parallelOmpF.entries) : AlignsBlocks order barrierPoint := by
  rw [alignsBlocks_iff consistent]
  intro index data held id inRange region found
  have member := List.mem_of_getElem? held
  have empty : ∀ before, before + 1 < barrierPoint.synchCount →
      ∀ old ∈ data.regions.lookup before, ∀ address ∈ order.keys,
        old.bbv.lookup address = none := fun before inside old foundOld address known =>
    nothing.inner data member before inside old foundOld address ((keys_perm same address).mp known)
  cases id with
  | succ id =>
    obtain ⟨old, foundOld, -⟩ := consistent data member id (by omega)
    have none := empty id inRange old foundOld
    have into : balanceInto order data.regions 0 (balanceBefore order barrierPoint.synchCount
        barrierPoint.threads 0 index) (id + 1) = 0 := by
      rw [balanceInto, if_neg (Nat.succ_ne_zero id), Nat.add_sub_cancel, foundOld, Option.map_some,
        lastCount, countsAt, List.filterMap_eq_nil_iff.mpr none]
      rfl
    refine ⟨?_, ?_⟩
    · rw [blocksBefore, foundOld]
      exact none
    · rw [into]
      have bound := region.instrCount.toNat_lt
      rw [show (0 : UInt64).toNat = 0 from rfl, Nat.add_zero, Nat.mod_eq_of_lt bound]
  | zero =>
    refine ⟨fun address _ => AList.lookup_empty address, ?_⟩
    have bound := region.instrCount.toNat_lt
    rw [balanceInto, if_pos rfl]
    have unchanged : ∀ balance : UInt64, balance = 0 →
        (region.instrCount.toNat + balance.toNat) % 2 ^ 64 - parallelSum order region.bbv =
          region.instrCount.toNat - parallelSum order region.bbv := by
      rintro balance rfl
      rw [show (0 : UInt64).toNat = 0 from rfl, Nat.add_zero, Nat.mod_eq_of_lt bound]
    cases index with
    | zero => exact unchanged _ rfl
    | succ index =>
      have inside : index < barrierPoint.threads.length := by
        have := (List.getElem?_eq_some_iff.mp held).1
        omega
      have before := List.getElem?_eq_getElem inside
      obtain ⟨last, count⟩ : ∃ last, last + 1 = barrierPoint.synchCount :=
        ⟨barrierPoint.synchCount - 1, by omega⟩
      obtain ⟨old, foundOld, -⟩ := consistent _ (List.mem_of_getElem? before) last (by omega)
      rw [balanceBefore_succ order count before, foundOld, Option.map_some, Option.getD_some]
      rcases lastCount_cases order old.bbv with none | ⟨address, known, found', foundAt, passed⟩
      · exact unchanged _ none
      rcases nothing.last index _ data before held last count old foundOld address
        ((keys_perm same address).mp known) found' foundAt with rfl | ⟨-, wraps⟩
      · exact unchanged _ passed
      -- All blocks are parallel, and the sum has wrapped: both sides are zero.
      obtain ⟨onlyParallel, wrapped⟩ := wraps region found
      have small : found'.toNat < 2 ^ 32 := found'.toNat_lt
      rw [passed, parallelSum_perm same, ← onlyParallel, UInt32.toNat_toUInt64]
      omega

/-- Whatever the order of the parallel functions, the alignment moves their blocks and keeps the
counts consistent exactly when there is nothing to move. -/
theorem alignsBlocks_iff_nothingToMove (parallelOmpF : UnorderedMap Address String)
    (barrierPoint : BarrierPointData) (consistent : Consistent barrierPoint) :
    (∀ order : UnorderedMap Address String, order.entries.Perm parallelOmpF.entries →
      AlignsBlocks order barrierPoint) ↔ NothingToMove parallelOmpF barrierPoint := by
  refine ⟨fun aligns => ?_, fun nothing order same =>
    alignsBlocks_of_nothingToMove consistent nothing same⟩
  have inner : ∀ data ∈ barrierPoint.threads, ∀ id, id + 1 < barrierPoint.synchCount →
      ∀ region ∈ data.regions.lookup id, ∀ address ∈ parallelOmpF.keys,
        region.bbv.lookup address = none := by
    intro data member id inRange region found address known
    obtain ⟨index, held⟩ := List.getElem?_of_mem member
    obtain ⟨next, foundNext, -⟩ := consistent data member (id + 1) inRange
    have empty := ((alignsBlocks_iff consistent).mp (aligns parallelOmpF (List.Perm.refl _)) index
      data held (id + 1) inRange next foundNext).1 address known
    rw [blocksBefore, Option.mem_def.mp found] at empty
    exact empty
  refine ⟨inner, fun index data next held heldNext id count region found address known counted
    foundAt => ?_⟩
  obtain ⟨order, same, front, keys⟩ := exists_order_last known
  obtain ⟨first, foundFirst, sum⟩ :=
    consistent next (List.mem_of_getElem? heldNext) 0 (by omega)
  have even := ((alignsBlocks_iff consistent).mp (aligns order same) (index + 1) next heldNext 0
    (by omega) first foundFirst).2
  rw [balanceInto, if_pos rfl, balanceBefore_succ order count held, Option.mem_def.mp found,
    Option.map_some, Option.getD_some, lastCount_of_last keys foundAt, parallelSum_perm same,
    UInt32.toNat_toUInt64] at even
  have bound := first.instrCount.toNat_lt
  have small : counted.toNat < 2 ^ 32 := counted.toNat_lt
  obtain ⟨-, -, total⟩ := (alignRegion_spec parallelOmpF first 0).1
  by_cases none : counted = 0
  · exact .inl none
  · have positive : 0 < counted.toNat := by
      refine Nat.pos_of_ne_zero fun zero => none (UInt32.toNat_inj.mp ?_)
      exact zero
    refine .inr ⟨?_, fun first' foundFirst' => ?_⟩
    · by_contra later
      have noBlocks := inner next (List.mem_of_getElem? heldNext) 0 (by omega) first foundFirst
      have nothing : parallelSum parallelOmpF first.bbv = 0 := by
        rw [parallelSum, countsAt, List.filterMap_eq_nil_iff.mpr noBlocks]
        rfl
      omega
    · obtain rfl := Option.some_inj.mp (foundFirst.symm.trans foundFirst')
      omega

/-- One thread with two regions, the blocks of which are given as address and count. -/
def twoRegions (first second : UnorderedMap Address UInt32) (firstCount secondCount : UInt64) :
    BarrierPointData where
  synchCount := 2
  threads := [{ ThreadData.new 1 true 2 with
    regions := ((∅ : UnorderedMap Nat Region).insert 0 ⟨"main._omp_fn.0", firstCount, first, []⟩).insert
      1 ⟨"thread_exit", secondCount, second, []⟩ }]

theorem consistent_twoRegions {first second : UnorderedMap Address UInt32}
    {firstCount secondCount : UInt64} (sumFirst : firstCount.toNat = totalCount first)
    (sumSecond : secondCount.toNat = totalCount second) :
    Consistent (twoRegions first second firstCount secondCount) := by
  intro data member id inRange
  obtain rfl := List.mem_singleton.mp member
  have inTwo : id < 2 := inRange
  interval_cases id
  · exact ⟨_, rfl, sumFirst⟩
  · exact ⟨_, rfl, sumSecond⟩

/-- Two regions of which only the last has the entry block. -/
theorem alignsBlocks_iff_twoRegions :
    (∀ order : UnorderedMap Address String,
      order.entries.Perm (AList.singleton 0x10 "main._omp_fn.0").entries →
      AlignsBlocks order (twoRegions (AList.singleton 0x20 3) (AList.singleton 0x10 5) 3 5)) ↔
    NothingToMove (AList.singleton 0x10 "main._omp_fn.0")
      (twoRegions (AList.singleton 0x20 3) (AList.singleton 0x10 5) 3 5) :=
  alignsBlocks_iff_nothingToMove _ _ (consistent_twoRegions (by decide) (by decide))

/-- An entry block of five instructions in the first region is erased and not passed on, while its
count is added to the second region. -/
theorem not_alignsBlocks_entry :
    Consistent (twoRegions ((AList.singleton 0x20 3).insert 0x10 5) (AList.singleton 0x20 2) 8 2) ∧
    ¬ AlignsBlocks (AList.singleton 0x10 "main._omp_fn.0")
      (twoRegions ((AList.singleton 0x20 3).insert 0x10 5) (AList.singleton 0x20 2) 8 2) := by
  have consistent : Consistent
      (twoRegions ((AList.singleton 0x20 3).insert 0x10 5) (AList.singleton 0x20 2) 8 2) :=
    consistent_twoRegions (by decide) (by decide)
  refine ⟨consistent, fun aligns => ?_⟩
  have empty := ((alignsBlocks_iff consistent).mp aligns 0 _ rfl 1 (by decide) _ rfl).1 0x10
    (by decide)
  exact absurd empty (by decide)

end BarrierPoint
