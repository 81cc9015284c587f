/-
This file says what draining the buffer of a thread does: it extends the
history of the reuse distance tracker by the references that were waiting, and
adds to the histogram one reference in the bucket of each distance that is
defined. First accesses have no distance and are not counted.
-/

import BarrierPoint.ReuseRun
import BarrierPoint.ThreadData

namespace BarrierPoint

open Library

/-! ### Distances and buckets -/

/-- The number of the distances that are defined and belong to a bucket. -/
def hits (bucket : Nat) (distances : List Int) : Nat :=
  distances.countP fun distance => distance ≠ -1 ∧ log2Rd distance = bucket

/-- The number of references a histogram counts in a bucket. -/
def counted (bucket : Nat) (hist : List Nat) : Nat := hist.getD bucket 0

theorem hits_append (bucket : Nat) (first second : List Int) :
    hits bucket (first ++ second) = hits bucket first + hits bucket second :=
  List.countP_append

theorem hits_cons (bucket : Nat) (distance : Int) (distances : List Int) :
    hits bucket (distance :: distances) = hits bucket [distance] + hits bucket distances :=
  hits_append bucket [distance] distances

theorem hits_first (bucket : Nat) : hits bucket [-1] = 0 := rfl

theorem hits_defined {distance : Int} (defined : distance ≠ -1) (bucket : Nat) :
    hits bucket [distance] = if log2Rd distance = bucket then 1 else 0 := by
  rw [hits, List.countP_singleton]
  simp only [decide_eq_true_eq, and_iff_right defined]

theorem counted_countBucket (hist : List Nat) (place bucket : Nat) :
    counted bucket (countBucket hist place) =
      counted bucket hist + if place = bucket then 1 else 0 := by
  unfold counted countBucket
  rw [List.getD_eq_getElem?_getD, List.getD_eq_getElem?_getD, List.getElem?_modify]
  have grown : ∀ bucket : Nat, (if hist.length ≤ place
      then hist ++ List.replicate (place + 1 - hist.length) 0 else hist)[bucket]?.getD 0 =
        hist[bucket]?.getD 0 := by
    intro bucket
    split
    · rcases Nat.lt_or_ge bucket hist.length with inside | beyond
      · rw [List.getElem?_append_left inside]
      · rw [List.getElem?_append_right beyond, List.getElem?_eq_none beyond,
          List.getElem?_replicate]
        split <;> rfl
    · rfl
  by_cases here : place = bucket
  · subst here
    have reached : place < (if hist.length ≤ place
        then hist ++ List.replicate (place + 1 - hist.length) 0 else hist).length := by
      split
      · rw [List.length_append, List.length_replicate]
        omega
      · omega
    rw [if_pos rfl, ← grown place, List.getElem?_eq_getElem reached]
    simp
  · rw [if_neg here, ← grown bucket]
    simp [here]

/-! ### Draining -/

theorem stackDistances_append (first second : List Address) : ∀ history,
    stackDistances history (first ++ second) =
      stackDistances history first ++ stackDistances (first.reverse ++ history) second := by
  induction first with
  | nil => exact fun _ => rfl
  | cons tag first inductionHypothesis =>
    intro history
    rw [List.cons_append, stackDistances, stackDistances, inductionHypothesis, List.reverse_cons,
      List.append_assoc]
    rfl

/-- The thread differs from before in its tracker and its histogram: the history has grown by a
trace, and the histogram by the distances of the trace. -/
structure ThreadData.Drained (before : ThreadData) (history trace : List Address)
    (after : ThreadData) : Prop where
  tracks : ∃ order, after.reuseDist.Tracks (trace.reverse ++ history) order
  counts : ∀ bucket, counted bucket after.curLruHist =
    counted bucket before.curLruHist + hits bucket (stackDistances history trace)
  regions_eq : after.regions = before.regions
  synchId_eq : after.curSynchId = before.curSynchId

/-- Count each distance that is defined in its bucket. -/
def countDistances (hist : List Nat) (distances : List Int) : List Nat :=
  distances.foldl (fun hist distance =>
    if distance ≠ -1 then countBucket hist (log2Rd distance) else hist) hist

theorem countDistances_append (hist : List Nat) (first second : List Int) :
    countDistances hist (first ++ second) = countDistances (countDistances hist first) second :=
  List.foldl_append

theorem counted_countDistances (bucket : Nat) (distances : List Int) : ∀ hist,
    counted bucket (countDistances hist distances) = counted bucket hist + hits bucket distances := by
  induction distances with
  | nil => exact fun _ => rfl
  | cons distance distances inductionHypothesis =>
    intro hist
    rw [countDistances, List.foldl_cons]
    refine (inductionHypothesis _).trans ?_
    rw [hits_cons, ← Nat.add_assoc]
    congr 1
    split
    · rename_i defined
      rw [counted_countBucket, hits_defined defined]
    · rename_i first
      rw [not_not.mp first, hits_first, Nat.add_zero]

namespace ThreadData

/-- The thread after its tracker has moved on and these distances were counted. -/
def counting (data : ThreadData) (reuseDist : ReuseDistance) (distances : List Int) : ThreadData :=
  { data with reuseDist, curLruHist := countDistances data.curLruHist distances }

/-- One reference is looked up and counted. -/
theorem addReference_eq {data : ThreadData} {history : List Address} {order : List Nat}
    (tracks : data.reuseDist.Tracks history order) (tag : Address) :
    ∃ next order', data.addReference tag =
        some (data.counting next [stackDistance history tag]) ∧
      next.Tracks (tag :: history) order' := by
  obtain ⟨next, nextOrder, looked, nextTracks⟩ := tracks.lookup_step tag
  refine ⟨next, nextOrder, ?_, nextTracks⟩
  rw [addReference, looked, Option.bind_eq_bind, Option.bind_some]
  rfl

theorem run_addReference_eq (mask : Address) (trace : List Address) :
    ∀ {data : ThreadData} {history : List Address} {order : List Nat},
      data.reuseDist.Tracks history order → ∃ final order',
        run (fun data address => addReference data (address &&& mask)) data trace =
          some (data.counting final (stackDistances history (trace.map (· &&& mask)))) ∧
        final.Tracks ((trace.map (· &&& mask)).reverse ++ history) order' := by
  induction trace with
  | nil => exact fun tracks => ⟨_, _, rfl, tracks⟩
  | cons address trace inductionHypothesis =>
    intro data history order tracks
    obtain ⟨next, nextOrder, looked, nextTracks⟩ := addReference_eq tracks (address &&& mask)
    obtain ⟨final, finalOrder, ran, finalTracks⟩ := @inductionHypothesis
      (data.counting next [stackDistance history (address &&& mask)]) _ _ nextTracks
    refine ⟨final, finalOrder, ?_, ?_⟩
    · rw [run, looked, Option.bind_some, ran]
      rfl
    · rw [List.map_cons, List.reverse_cons, List.append_assoc]
      exact finalTracks

/-- Draining counts the distances of the references that were waiting, and changes nothing but the
tracker, the histogram and the buffer. -/
theorem addAddress_eq {data : ThreadData} {history : List Address} {order : List Nat}
    (tracks : data.reuseDist.Tracks history order) (mask : Address) :
    ∃ final order', data.addAddress mask =
        some ({ data with buffer := [] }.counting final
          (stackDistances history (data.buffer.map (· &&& mask)))) ∧
      final.Tracks ((data.buffer.map (· &&& mask)).reverse ++ history) order' := by
  obtain ⟨final, order', ran, finalTracks⟩ := run_addReference_eq mask data.buffer tracks
  refine ⟨final, order', ?_, finalTracks⟩
  rw [addAddress, ran]
  rfl

theorem addAddress_spec {data : ThreadData} {history : List Address} {order : List Nat}
    (tracks : data.reuseDist.Tracks history order) (mask : Address) :
    ∃ after, data.addAddress mask = some after ∧ after.buffer = [] ∧
      data.Drained history (data.buffer.map (· &&& mask)) after := by
  obtain ⟨final, order', ran, finalTracks⟩ := addAddress_eq tracks mask
  exact ⟨_, ran, rfl, ⟨order', finalTracks⟩, fun bucket => counted_countDistances bucket _ _,
    rfl, rfl⟩

end ThreadData

end BarrierPoint
