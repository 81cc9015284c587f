/-
This file follows the data of one thread through any sequence of its
operations. What a synchronisation point stores is read off the operations: the
blocks that were counted and the references that were drained since the
synchronisation point before it. The tracker and the buffer are the only parts
that reach across synchronisation points: distances are measured against
everything that was ever drained, and references that wait when a region ends
are counted in the region in which they are drained.
-/

import BarrierPoint.ClientSteps
import BarrierPoint.HistogramLaws
import Mathlib.Data.List.DropRight

namespace BarrierPoint

open Library

/-! ### Operations -/

/-- The operations on the data of a thread. -/
inductive ThreadOp where
  | record (address : Address)
  | addBb (key : Address) (instN : UInt64)
  | addAddress
  | cleanBuffer
  | saveBarrier (synchPointName : String)
  deriving DecidableEq, Repr

namespace ThreadOp

def isSave : ThreadOp → Bool
  | .saveBarrier _ => true
  | .record _ | .addBb _ _ | .addAddress | .cleanBuffer => false

/-- The number of synchronisation points saved. -/
def saves (ops : List ThreadOp) : Nat := ops.countP isSave

/-- The operations up to the last synchronisation point. -/
def beforeSave (ops : List ThreadOp) : List ThreadOp := ops.rdropWhile fun op => !op.isSave

/-- The operations since the last synchronisation point, or since the creation of the thread. -/
def sinceSave (ops : List ThreadOp) : List ThreadOp := ops.rtakeWhile fun op => !op.isSave

/-- The blocks that are counted, with their instructions. -/
def blocks (ops : List ThreadOp) : List (Address × UInt64) :=
  ops.filterMap fun op => match op with
    | .addBb key instN => some (key, instN)
    | .record _ | .addAddress | .cleanBuffer | .saveBarrier _ => none

/-- The references that wait in the buffer behind some operations. -/
def waiting (buffer : List Address) : List ThreadOp → List Address
  | [] => buffer
  | .record address :: ops => waiting (buffer ++ [address]) ops
  | .addAddress :: ops | .cleanBuffer :: ops => waiting [] ops
  | .addBb _ _ :: ops | .saveBarrier _ :: ops => waiting buffer ops

/-- The references that some operations drain, masked. -/
def drained (mask : Address) (buffer : List Address) : List ThreadOp → List Address
  | [] => []
  | .record address :: ops => drained mask (buffer ++ [address]) ops
  | .addAddress :: ops => buffer.map (· &&& mask) ++ drained mask [] ops
  | .cleanBuffer :: ops => drained mask [] ops
  | .addBb _ _ :: ops | .saveBarrier _ :: ops => drained mask buffer ops

variable (mask : Address) (ops : List ThreadOp)

theorem beforeSave_append_sinceSave : beforeSave ops ++ sinceSave ops = ops :=
  List.rdropWhile_append_rtakeWhile

theorem waiting_append (more : List ThreadOp) : ∀ buffer,
    waiting buffer (ops ++ more) = waiting (waiting buffer ops) more := by
  induction ops with
  | nil => exact fun _ => rfl
  | cons op ops inductionHypothesis =>
    intro buffer
    cases op <;> exact inductionHypothesis _

theorem drained_append (more : List ThreadOp) : ∀ buffer,
    drained mask buffer (ops ++ more) =
      drained mask buffer ops ++ drained mask (waiting buffer ops) more := by
  induction ops with
  | nil => exact fun _ => rfl
  | cons op ops inductionHypothesis =>
    intro buffer
    cases op with
    | addAddress =>
      rw [List.cons_append, drained, drained, inductionHypothesis, List.append_assoc]
      rfl
    | record address => exact inductionHypothesis _
    | addBb key instN => exact inductionHypothesis _
    | cleanBuffer => exact inductionHypothesis _
    | saveBarrier synchPointName => exact inductionHypothesis _

/-- The references that were drained up to the last synchronisation point. -/
def drainedBefore : List Address := drained mask [] (beforeSave ops)

/-- The references that were drained since the last synchronisation point. -/
def drainedSince : List Address := drained mask (waiting [] (beforeSave ops)) (sinceSave ops)

theorem drainedBefore_append_drainedSince :
    drainedBefore mask ops ++ drainedSince mask ops = drained mask [] ops := by
  rw [drainedBefore, drainedSince, ← drained_append, beforeSave_append_sinceSave]

variable {ops}

theorem sinceSave_concat {op : ThreadOp} (goesOn : op.isSave = false) :
    sinceSave (ops ++ [op]) = sinceSave ops ++ [op] ∧ beforeSave (ops ++ [op]) = beforeSave ops := by
  have kept : (!op.isSave) = true := by rw [goesOn]; rfl
  exact ⟨List.rtakeWhile_concat_pos _ _ _ kept, List.rdropWhile_concat_pos _ _ _ kept⟩

theorem sinceSave_concat_save (name : String) :
    sinceSave (ops ++ [.saveBarrier name]) = [] ∧
      beforeSave (ops ++ [.saveBarrier name]) = ops ++ [.saveBarrier name] :=
  ⟨List.rtakeWhile_concat_neg _ _ _ Bool.false_ne_true,
    List.rdropWhile_concat_neg _ _ _ Bool.false_ne_true⟩

/-- Between two synchronisation points, the operations since the first are those between. -/
theorem sinceSave_append (ops : List ThreadOp) {more : List ThreadOp}
    (between : ∀ op ∈ more, op.isSave = false) : sinceSave (ops ++ more) = sinceSave ops ++ more := by
  induction more using List.reverseRecOn with
  | nil => rw [List.append_nil, List.append_nil]
  | append_singleton more op inductionHypothesis =>
    rw [List.forall_mem_append] at between
    rw [← List.append_assoc, (sinceSave_concat (between.2 op List.mem_cons_self)).1,
      inductionHypothesis between.1, List.append_assoc]

theorem drained_concat (op : ThreadOp) : drained mask [] (ops ++ [op]) =
    drained mask [] ops ++ drained mask (waiting [] ops) [op] := drained_append mask ops [op] []

/-- What an operation drains belongs to the region that is being executed. -/
theorem drainedSince_concat {op : ThreadOp} (goesOn : op.isSave = false) :
    drainedSince mask (ops ++ [op]) =
      drainedSince mask ops ++ drained mask (waiting [] ops) [op] := by
  obtain ⟨since, before⟩ := @sinceSave_concat ops _ goesOn
  rw [drainedSince, since, before, drained_append, ← waiting_append, beforeSave_append_sinceSave]
  rfl

theorem drainedBefore_concat {op : ThreadOp} (goesOn : op.isSave = false) :
    drainedBefore mask (ops ++ [op]) = drainedBefore mask ops := by
  rw [drainedBefore, (sinceSave_concat goesOn).2]
  rfl

end ThreadOp

/-! ### What a thread holds -/

/-- Count a block in a vector of 32-bit counts. -/
def countBlock (bbv : UnorderedMap Address UInt32) (block : Address × UInt64) :
    UnorderedMap Address UInt32 :=
  bbv.insert block.1 (match bbv.lookup block.1 with
    | some held => (held.toUInt64 + block.2).toUInt32
    | none => block.2.toUInt32)

/-- The region that a synchronisation point behind some operations stores. -/
def regionOf (mask : Address) (ops : List ThreadOp) (synchPointName : String) : Region where
  synchName := synchPointName
  instrCount := (ThreadOp.blocks (ThreadOp.sinceSave ops)).foldl (fun total block =>
    total + block.2) 0
  bbv := (ThreadOp.blocks (ThreadOp.sinceSave ops)).foldl countBlock ∅
  lruHist := countDistances [] (stackDistances (ThreadOp.drainedBefore mask ops).reverse
    (ThreadOp.drainedSince mask ops))

namespace ThreadData

/-- An operation on the data of a thread. -/
def perform (mask : Address) (data : ThreadData) : ThreadOp → Option ThreadData
  | .record address => some (data.record address)
  | .addBb key instN => some (data.addBb key instN)
  | .addAddress => data.addAddress mask
  | .cleanBuffer => some data.cleanBuffer
  | .saveBarrier synchPointName => some (data.saveBarrier synchPointName)

/-- The data of a thread behind some operations since its creation. -/
structure Behind (mask : Address) (regionId : Nat) (ops : List ThreadOp) (data : ThreadData) :
    Prop where
  tracks : ∃ order, data.reuseDist.Tracks (ThreadOp.drained mask [] ops).reverse order
  buffer_eq : data.buffer = ThreadOp.waiting [] ops
  current : ∀ name, data.currentRegion name = regionOf mask ops name
  synchId_eq : data.curSynchId = regionId + ThreadOp.saves ops
  keys : ∀ id, (data.regions.lookup id).isSome ↔
    regionId ≤ id ∧ id < regionId + ThreadOp.saves ops
  stored : ∀ front name back, ops = front ++ .saveBarrier name :: back →
    data.regions.lookup (regionId + ThreadOp.saves front) = some (regionOf mask front name)

theorem behind_new (mask : Address) (threadId : UInt32) (isMaster : Bool) (regionId : Nat) :
    (ThreadData.new threadId isMaster regionId).Behind mask regionId [] where
  tracks := ⟨[], ReuseDistance.tracks_new (by decide) false false 100⟩
  buffer_eq := rfl
  current := fun _ => rfl
  synchId_eq := rfl
  keys := by
    intro id
    have empty : (ThreadData.new threadId isMaster regionId).regions.lookup id = none :=
      AList.lookup_empty id
    rw [empty, ThreadOp.saves, List.countP_nil]
    exact iff_of_false Bool.false_ne_true (by omega)
  stored := by
    intro front name back split
    cases front <;> cases split

variable {mask : Address} {regionId : Nat} {ops : List ThreadOp} {data after : ThreadData}

/-- The last operation is the one behind the synchronisation point, or that itself. -/
theorem split_concat {front back : List ThreadOp} {op save : ThreadOp}
    (split : ops ++ [op] = front ++ save :: back) :
    (front = ops ∧ save = op) ∨ ∃ rest, ops = front ++ save :: rest := by
  rcases List.eq_nil_or_concat back with rfl | ⟨rest, last, rfl⟩
  · obtain ⟨rfl, same⟩ := List.append_inj' split rfl
    exact .inl ⟨rfl, (List.cons.inj same).1.symm⟩
  · rw [List.concat_eq_append, ← List.cons_append, ← List.append_assoc] at split
    exact .inr ⟨rest, (List.append_inj' split rfl).1⟩

/-- An operation that is no synchronisation point changes the current region only. -/
theorem Behind.goesOn (behind : data.Behind mask regionId ops) {op : ThreadOp}
    (noSave : op.isSave = false)
    (tracks : ∃ order, after.reuseDist.Tracks
      (ThreadOp.drained mask [] (ops ++ [op])).reverse order)
    (buffer_eq : after.buffer = ThreadOp.waiting [] (ops ++ [op]))
    (current : ∀ name, after.currentRegion name = regionOf mask (ops ++ [op]) name)
    (same : data.SameRegions after) : after.Behind mask regionId (ops ++ [op]) := by
  have count : ThreadOp.saves (ops ++ [op]) = ThreadOp.saves ops := by
    rw [ThreadOp.saves, List.countP_append, List.countP_singleton, noSave]
    rfl
  refine ⟨tracks, buffer_eq, current, ?_, ?_, fun front name back split => ?_⟩
  · rw [same.synchId_eq, behind.synchId_eq, count]
  · rw [same.regions_eq, count]
    exact behind.keys
  · rw [same.regions_eq]
    rcases split_concat split with ⟨-, rfl⟩ | ⟨rest, earlier⟩
    · cases noSave
    · exact behind.stored front name rest earlier

/-- A synchronisation point stores the current region under the next number. -/
theorem Behind.saved (behind : data.Behind mask regionId ops) (name : String) :
    (data.saveBarrier name).Behind mask regionId (ops ++ [.saveBarrier name]) := by
  obtain ⟨since, before⟩ := @ThreadOp.sinceSave_concat_save ops name
  have count : ThreadOp.saves (ops ++ [.saveBarrier name]) = ThreadOp.saves ops + 1 :=
    List.countP_append
  have free : data.regions.lookup data.curSynchId = none := by
    rw [← Option.not_isSome_iff_eq_none, behind.keys, behind.synchId_eq]
    omega
  have lookup : ∀ id, (data.saveBarrier name).regions.lookup id =
      if id = regionId + ThreadOp.saves ops then some (regionOf mask ops name)
        else data.regions.lookup id := by
    intro id
    rw [saveBarrier, UnorderedMap.lookup_insertNew, free, behind.synchId_eq, behind.current]
    rfl
  refine ⟨?_, ?_, fun later => ?_, ?_, fun id => ?_, fun front earlier back split => ?_⟩
  · rw [ThreadOp.drained_concat]
    exact List.append_nil _ ▸ behind.tracks
  · rw [ThreadOp.waiting_append]
    exact behind.buffer_eq
  · rw [regionOf, ThreadOp.drainedSince, since]
    rfl
  · rw [count]
    exact (congrArg (· + 1) behind.synchId_eq).trans (Nat.add_assoc ..)
  · rw [lookup, count]
    split
    · exact iff_of_true rfl (by omega)
    · rw [behind.keys]
      omega
  · rw [lookup]
    rcases split_concat split with ⟨rfl, same⟩ | ⟨rest, inside⟩
    · cases same
      rw [if_pos rfl]
    · have before : ThreadOp.saves front < ThreadOp.saves ops := by
        rw [inside, ThreadOp.saves, ThreadOp.saves, List.countP_append,
          List.countP_cons_of_pos rfl]
        omega
      rw [if_neg (by omega)]
      exact behind.stored front earlier rest inside

/-- What an operation adds to the current region: the block it counts, and the references it
drains, at their distances from everything drained before. -/
theorem regionOf_concat (mask : Address) {ops : List ThreadOp} {op : ThreadOp}
    (goesOn : op.isSave = false) (name : String) :
    regionOf mask (ops ++ [op]) name =
      { synchName := name
        instrCount := (ThreadOp.blocks [op]).foldl (fun total block => total + block.2)
          (regionOf mask ops name).instrCount
        bbv := (ThreadOp.blocks [op]).foldl countBlock (regionOf mask ops name).bbv
        lruHist := countDistances (regionOf mask ops name).lruHist
          (stackDistances (ThreadOp.drained mask [] ops).reverse
            (ThreadOp.drained mask (ThreadOp.waiting [] ops) [op])) } := by
  rw [regionOf, (ThreadOp.sinceSave_concat goesOn).1, ThreadOp.blocks, List.filterMap_append,
    List.foldl_append, List.foldl_append, ThreadOp.drainedBefore_concat mask goesOn,
    ThreadOp.drainedSince_concat mask goesOn, stackDistances_append, ← List.reverse_append,
    ThreadOp.drainedBefore_append_drainedSince, countDistances_append]
  rfl

/-- Every operation goes through and keeps what the thread holds. -/
theorem Behind.performed (behind : data.Behind mask regionId ops) (op : ThreadOp) :
    ∃ after, data.perform mask op = some after ∧ after.Behind mask regionId (ops ++ [op]) := by
  obtain ⟨order, tracks⟩ := behind.tracks
  cases op with
  | saveBarrier name => exact ⟨_, rfl, behind.saved name⟩
  | record address =>
    refine ⟨_, rfl, behind.goesOn rfl ⟨order, ?_⟩ ?_ (fun name => ?_) ⟨rfl, rfl, rfl⟩⟩
    · rw [ThreadOp.drained_concat]
      exact List.append_nil _ ▸ tracks
    · rw [ThreadOp.waiting_append, ← behind.buffer_eq]
      rfl
    · rw [regionOf_concat mask rfl, ← behind.current]
      rfl
  | addBb key instN =>
    refine ⟨_, rfl, behind.goesOn rfl ⟨order, ?_⟩ ?_ (fun name => ?_) ⟨rfl, rfl, rfl⟩⟩
    · rw [ThreadOp.drained_concat]
      exact List.append_nil _ ▸ tracks
    · rw [ThreadOp.waiting_append]
      exact behind.buffer_eq
    · rw [regionOf_concat mask rfl, ← behind.current]
      rfl
  | addAddress =>
    obtain ⟨final, finalOrder, ran, finalTracks⟩ := addAddress_eq tracks mask
    refine ⟨_, ran, behind.goesOn rfl ⟨finalOrder, ?_⟩ ?_ (fun name => ?_) ⟨rfl, rfl, rfl⟩⟩
    · rw [ThreadOp.drained_concat, List.reverse_append, ← behind.buffer_eq]
      exact (List.append_nil (data.buffer.map (· &&& mask))).symm ▸ finalTracks
    · rw [ThreadOp.waiting_append]
      rfl
    · rw [regionOf_concat mask rfl, ← behind.current, ← behind.buffer_eq]
      rw [ThreadOp.drained, ThreadOp.drained, List.append_nil]
      rfl
  | cleanBuffer =>
    refine ⟨_, rfl, behind.goesOn rfl ⟨order, ?_⟩ ?_ (fun name => ?_) ⟨rfl, rfl, rfl⟩⟩
    · rw [ThreadOp.drained_concat]
      exact List.append_nil _ ▸ tracks
    · rw [ThreadOp.waiting_append]
      rfl
    · rw [regionOf_concat mask rfl, ← behind.current]
      rfl

/-- Every sequence of operations goes through. -/
theorem Behind.performs (more : List ThreadOp) : ∀ {ops : List ThreadOp} {data : ThreadData},
    data.Behind mask regionId ops → ∃ after, run (perform mask) data more = some after ∧
      after.Behind mask regionId (ops ++ more) := by
  induction more with
  | nil =>
    intro ops data behind
    exact ⟨data, rfl, by rw [List.append_nil]; exact behind⟩
  | cons op more inductionHypothesis =>
    intro ops data behind
    obtain ⟨next, performed, nextBehind⟩ := behind.performed op
    obtain ⟨after, ran, afterBehind⟩ := inductionHypothesis nextBehind
    refine ⟨after, ?_, by rwa [List.append_assoc] at afterBehind⟩
    rw [run, performed, Option.bind_some, ran]

/-- No operation changes a region that is stored. -/
theorem stored_perform {op : ThreadOp} {id : Nat} {region : Region}
    (stored : data.regions.lookup id = some region) (performed : data.perform mask op = some after) :
    after.regions.lookup id = some region := by
  cases op with
  | addAddress =>
    rw [(goesOn_addAddress performed).sameRegions.regions_eq]
    exact stored
  | saveBarrier name =>
    cases performed
    rw [saveBarrier, UnorderedMap.lookup_insertNew]
    split
    · rename_i same
      rw [← same, stored]
      rfl
    · exact stored
  | record address =>
    cases performed
    exact stored
  | addBb key instN =>
    cases performed
    exact stored
  | cleanBuffer =>
    cases performed
    exact stored

theorem stored_run {more : List ThreadOp} {id : Nat} {region : Region}
    (stored : data.regions.lookup id = some region) (ran : run (perform mask) data more = some after) :
    after.regions.lookup id = some region :=
  run_invariant (fun data => data.regions.lookup id = some region)
    (fun _ _ _ stored _ performed => stored_perform stored performed) stored
    (along_of_forall (fun _ _ => trivial) more data) ran

theorem toNat_instrCount (mask : Address) (ops : List ThreadOp) (name : String) :
    (regionOf mask ops name).instrCount.toNat =
      ((ThreadOp.blocks (ThreadOp.sinceSave ops)).map fun block => block.2.toNat).sum % 2 ^ 64 := by
  have counted : ∀ (blocks : List (Address × UInt64)) (total : UInt64),
      (blocks.foldl (fun total block => total + block.2) total).toNat =
        (total.toNat + (blocks.map fun block => block.2.toNat).sum) % 2 ^ 64 := by
    intro blocks
    induction blocks with
    | nil => exact fun total => (Nat.mod_eq_of_lt total.toNat_lt).symm
    | cons block blocks inductionHypothesis =>
      intro total
      rw [List.foldl_cons, inductionHypothesis, UInt64.toNat_add, Nat.mod_add_mod, List.map_cons,
        List.sum_cons, Nat.add_assoc]
  rw [regionOf, counted, UInt64.toNat_zero, Nat.zero_add]

/-- However the operations of a thread are ordered, the synchronisation points store one region
each, under consecutive numbers: with its name, its instructions and its distances. What is stored
stays as it is. -/
theorem run_perform_stores (mask : Address) (threadId : UInt32) (isMaster : Bool) (regionId : Nat)
    (ops : List ThreadOp) :
    ∃ data, run (perform mask) (ThreadData.new threadId isMaster regionId) ops = some data ∧
      (∀ id, (data.regions.lookup id).isSome ↔
        regionId ≤ id ∧ id < regionId + ThreadOp.saves ops) ∧
      (∀ front name back, ops = front ++ .saveBarrier name :: back →
        ∃ region, data.regions.lookup (regionId + ThreadOp.saves front) = some region ∧
          region.synchName = name ∧
          region.instrCount.toNat = ((ThreadOp.blocks (ThreadOp.sinceSave front)).map
            fun block => block.2.toNat).sum % 2 ^ 64 ∧
          HistogramOf (stackDistances (ThreadOp.drainedBefore mask front).reverse
            (ThreadOp.drainedSince mask front)) region.lruHist) ∧
      ∀ more, ∃ after, run (perform mask) data more = some after ∧
        ∀ id region, data.regions.lookup id = some region →
          after.regions.lookup id = some region := by
  obtain ⟨data, ran, behind⟩ := (behind_new mask threadId isMaster regionId).performs ops
  refine ⟨data, ran, behind.keys, fun front name back split => ?_, fun more => ?_⟩
  · exact ⟨_, behind.stored front name back split, rfl, toNat_instrCount mask front name,
      histogramOf_countDistances (neg_one_le_of_mem_stackDistances _ _)⟩
  · obtain ⟨after, ranOn, -⟩ := behind.performs more
    exact ⟨after, ranOn, fun id region stored => stored_run stored ranOn⟩

end ThreadData

end BarrierPoint
