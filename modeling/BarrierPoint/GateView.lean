/-
This file looks at the recency list as the reuse threshold sees it: the gate,
the clock, the number of lines, and on every node the time stamp and the count
of distant references. Relinking a node and shifting skip nodes are invisible
here, so each operation of the list comes down to what it does to the gate, to
one stamp and to one count.
-/

import BarrierPoint.Library.Recency
import BarrierPoint.MoveLine

namespace BarrierPoint

open Library

/-- The part of the recency list that decides which lines are distant. -/
structure GateView where
  gate : Pointer
  curTime : Nat
  uniqueLines : Nat
  threshold : Nat
  timeOf : Nat → Nat
  distantOf : Nat → Nat

namespace GateView

/-- The present time becomes the stamp of a node. -/
def stamp (view : GateView) (ref : Nat) : GateView :=
  { view with
    curTime := view.curTime + 1
    timeOf := Function.update view.timeOf ref view.curTime }

/-- A node has one more distant reference. -/
def count (view : GateView) (ref : Nat) : GateView :=
  { view with distantOf := Function.update view.distantOf ref (view.distantOf ref + 1) }

def setGate (view : GateView) (gate : Pointer) : GateView := { view with gate := gate }

end GateView

namespace LineRefList

/-! ### The view of a list -/

/-- The time stamp of a node. A node that is still to be allocated has the stamp of a new one. -/
def timeOf (list : LineRefList) (address : Nat) : Nat :=
  (list.nodes[address]?.map LineRef.timeStamp).getD 0

/-- The distant references of a node. A node that is still to be allocated has none. -/
def distantOf (list : LineRefList) (address : Nat) : Nat :=
  (list.nodes[address]?.map LineRef.distantRefs).getD 0

def gateView (list : LineRefList) : GateView where
  gate := list.gate
  curTime := list.curTime
  uniqueLines := list.uniqueLines
  threshold := list.threshold
  timeOf := list.timeOf
  distantOf := list.distantOf

/-- A line is distant when its stamp is older than that of the gate. -/
theorem refIsDistant_of_gate {list : LineRefList} {ref gate : Nat} (atGate : list.gate = some gate)
    (bound : ref < list.nodes.length) (gateBound : gate < list.nodes.length) :
    list.refIsDistant ref = some (decide (list.timeOf ref < list.timeOf gate)) := by
  have atLine := List.getElem?_eq_getElem bound
  have atLimit := List.getElem?_eq_getElem gateBound
  simp only [refIsDistant, atGate, load_some, timeOf, atLine, atLimit, Option.bind_eq_bind,
    Option.bind_some, Option.map_some, Option.getD_some, ← Nat.not_le, decide_not]
  rfl

theorem timeOf_writeAt (list : LineRefList) (pointer : Pointer) {change : LineRef → LineRef}
    (kept : ∀ node, (change node).timeStamp = node.timeStamp) :
    (list.writeAt pointer change).timeOf = list.timeOf := by
  funext address
  rw [timeOf, timeOf, writeAt_getElem?]
  cases list.nodes[address]? <;> split <;> simp [kept]

theorem distantOf_writeAt (list : LineRefList) (pointer : Pointer) {change : LineRef → LineRef}
    (kept : ∀ node, (change node).distantRefs = node.distantRefs) :
    (list.writeAt pointer change).distantOf = list.distantOf := by
  funext address
  rw [distantOf, distantOf, writeAt_getElem?]
  cases list.nodes[address]? <;> split <;> simp [kept]

/-- A change of a node that leaves its stamp and its count of distant references alone. -/
def KeepsDates (change : LineRef → LineRef) : Prop :=
  ∀ node, (change node).timeStamp = node.timeStamp ∧ (change node).distantRefs = node.distantRefs

theorem gateView_writeAt (list : LineRefList) (pointer : Pointer) {change : LineRef → LineRef}
    (kept : KeepsDates change) : (list.writeAt pointer change).gateView = list.gateView := by
  rw [gateView, timeOf_writeAt list pointer fun node => (kept node).1,
    distantOf_writeAt list pointer fun node => (kept node).2]
  rfl

theorem gateView_write (list : LineRefList) (address : Nat) {change : LineRef → LineRef}
    (kept : KeepsDates change) : (list.write address change).gateView = list.gateView :=
  gateView_writeAt list (some address) kept

/-- The view has nothing of the skip list in it. -/
theorem gateView_of_eraseSkips_eq {first second : LineRefList}
    (same : first.eraseSkips = second.eraseSkips) : first.gateView = second.gateView := by
  have erased : ∀ list : LineRefList, list.eraseSkips.gateView = list.gateView := by
    intro list
    have times : list.eraseSkips.timeOf = list.timeOf := by
      funext address
      rw [timeOf, eraseSkips, List.getElem?_map, Option.map_map]
      rfl
    have counts : list.eraseSkips.distantOf = list.distantOf := by
      funext address
      rw [distantOf, eraseSkips, List.getElem?_map, Option.map_map]
      rfl
    rw [gateView, times, counts]
    rfl
  rw [← erased, same, erased]

/-- A new node looks as it did before it was allocated. -/
theorem gateView_allocate (list : LineRefList) (tag : Address) :
    (list.allocate tag).1.gateView = list.gateView := by
  have entry : ∀ {Value : Type} (read : LineRef → Value) (value : Value) (address : Nat),
      read (LineRef.new tag) = value →
        ((list.allocate tag).1.nodes[address]?.map read).getD value =
          (list.nodes[address]?.map read).getD value := by
    intro Value read value address isNew
    show ((list.nodes ++ [LineRef.new tag])[address]?.map read).getD value = _
    rcases Nat.lt_trichotomy address list.nodes.length with old | rfl | beyond
    · rw [List.getElem?_append_left old]
    · rw [List.getElem?_concat_length, List.getElem?_eq_none le_rfl]
      exact isNew
    · rw [List.getElem?_eq_none (by simpa using Nat.succ_le_of_lt beyond),
        List.getElem?_eq_none beyond.le]
  have times : (list.allocate tag).1.timeOf = list.timeOf :=
    funext fun address => entry LineRef.timeStamp 0 address rfl
  have counts : (list.allocate tag).1.distantOf = list.distantOf :=
    funext fun address => entry LineRef.distantRefs 0 address rfl
  rw [gateView, times, counts]
  rfl

/-- Stamping the head is a stamp in the view. -/
theorem gateView_stamped {list : LineRefList} {head : Nat} (atHead : list.head = some head)
    (valid : head < list.nodes.length) : list.stamped.gateView = list.gateView.stamp head := by
  have counts : list.stamped.distantOf = list.distantOf :=
    distantOf_writeAt list list.head fun _ => rfl
  have times : list.stamped.timeOf = Function.update list.timeOf head list.curTime := by
    funext address
    show ((list.writeAt list.head (.setTimeStamp list.curTime)).nodes[address]?.map _).getD 0 = _
    rw [writeAt_getElem?, atHead]
    by_cases here : address = head
    · subst here
      rw [if_pos rfl, List.getElem?_eq_getElem valid, Function.update_self]
      rfl
    · rw [if_neg fun same => here (Option.some_inj.mp same).symm, Function.update_of_ne here]
      rfl
  rw [gateView, times, counts]
  rfl

/-- Counting a distant reference is seen in the count of that node alone. -/
theorem gateView_countDistantRef {list : LineRefList} {ref : Nat}
    (valid : ref < list.nodes.length) :
    (list.write ref .countDistantRef).gateView = list.gateView.count ref := by
  have times : (list.write ref .countDistantRef).timeOf = list.timeOf :=
    timeOf_writeAt list (some ref) fun _ => rfl
  have counts : (list.write ref .countDistantRef).distantOf =
      Function.update list.distantOf ref (list.distantOf ref + 1) := by
    funext address
    rw [distantOf, write_getElem?]
    by_cases here : address = ref
    · subst here
      rw [if_pos rfl, Function.update_self, distantOf, List.getElem?_eq_getElem valid]
      rfl
    · rw [if_neg (Ne.symm here), Function.update_of_ne here]
      rfl
  rw [gateView, times, counts]
  rfl

/-! ### Operations the view does not see -/

theorem store_eq_some {list next : LineRefList} {pointer : Pointer} {change : LineRef → LineRef}
    (stored : list.store pointer change = some next) :
    ∃ address, pointer = some address ∧ address < list.nodes.length ∧
      next = list.write address change := by
  cases pointer with
  | none => cases stored
  | some address =>
    by_cases bound : address < list.nodes.length
    · rw [store_some bound] at stored
      exact ⟨address, rfl, bound, (Option.some_inj.mp stored).symm⟩
    · rw [store, if_neg bound] at stored
      cases stored

theorem gateView_store {list next : LineRefList} {pointer : Pointer} {change : LineRef → LineRef}
    (stored : list.store pointer change = some next) (kept : KeepsDates change) :
    next.gateView = list.gateView := by
  obtain ⟨address, -, -, rfl⟩ := store_eq_some stored
  exact gateView_write list address kept

theorem gateView_storeIfSet {list next : LineRefList} {pointer : Pointer}
    {change : LineRef → LineRef} (stored : list.storeIfSet pointer change = some next)
    (kept : KeepsDates change) : next.gateView = list.gateView := by
  unfold storeIfSet at stored
  split at stored
  · exact gateView_store stored kept
  · cases stored
    rfl

theorem gateView_moveSkipFields {list next : LineRefList} {src dst : Nat}
    (moved : list.moveSkipFields src dst = some next) : next.gateView = list.gateView := by
  simp only [moveSkipFields, Option.bind_eq_bind, Option.bind_eq_some_iff] at moved
  obtain ⟨source, -, first, firstEq, _, -, second, secondEq, _, -, third, thirdEq, lastEq⟩ := moved
  rw [gateView_store lastEq fun _ => ⟨rfl, rfl⟩, gateView_storeIfSet thirdEq fun _ => ⟨rfl, rfl⟩,
    gateView_storeIfSet secondEq fun _ => ⟨rfl, rfl⟩, gateView_store firstEq fun _ => ⟨rfl, rfl⟩]

theorem gateView_shiftSkips (fuel : Nat) : ∀ {list next : LineRefList} {skip : Pointer},
    list.shiftSkips fuel skip = some next → next.gateView = list.gateView := by
  induction fuel with
  | zero =>
    intro list next skip shifted
    cases shifted
  | succ fuel inductionHypothesis =>
    intro list next skip shifted
    cases skip with
    | none =>
      cases shifted
      rfl
    | some skip =>
      simp only [shiftSkips, Option.bind_eq_bind, Option.bind_eq_some_iff] at shifted
      obtain ⟨node, -, dst, -, moved, movedEq, rest⟩ := shifted
      rw [inductionHypothesis rest, gateView_moveSkipFields movedEq]

theorem gateView_shiftSkipNodes {list next : LineRefList} {ref : Nat} {skip : Pointer}
    (shifted : list.shiftSkipNodes ref skip = some next) : next.gateView = list.gateView := by
  unfold shiftSkipNodes at shifted
  split at shifted
  · exact gateView_shiftSkips _ shifted
  · simp only [Option.bind_eq_bind, Option.bind_eq_some_iff] at shifted
    obtain ⟨line, -, _, -, kept⟩ := shifted
    cases kept
    rfl

theorem gateView_relink {list next : LineRefList} {ref : Nat}
    (relinked : list.relink ref = some next) :
    next.gateView = list.gateView ∧ next.head = some ref := by
  simp only [relink, Option.bind_eq_bind, Option.bind_eq_some_iff] at relinked
  obtain ⟨node, -, first, firstEq, second, secondEq, third, thirdEq, fourth, fourthEq, fifth,
    fifthEq, nextEq⟩ := relinked
  cases nextEq
  refine ⟨?_, rfl⟩
  show fifth.gateView = list.gateView
  rw [gateView_store fifthEq fun _ => ⟨rfl, rfl⟩, gateView_store fourthEq fun _ => ⟨rfl, rfl⟩,
    gateView_store thirdEq fun _ => ⟨rfl, rfl⟩, gateView_storeIfSet secondEq fun _ => ⟨rfl, rfl⟩,
    gateView_store firstEq fun _ => ⟨rfl, rfl⟩]

theorem gateView_stampHead {list next : LineRefList} {head : Nat} (atHead : list.head = some head)
    (stamped : list.stampHead = some next) : next.gateView = list.gateView.stamp head := by
  have valid : head < list.nodes.length := by
    simp only [stampHead, Option.bind_eq_bind, Option.bind_eq_some_iff] at stamped
    obtain ⟨_, stored, -⟩ := stamped
    obtain ⟨address, sameHead, bound, -⟩ := store_eq_some stored
    obtain rfl : head = address := Option.some_inj.mp (atHead.symm.trans sameHead)
    exact bound
  rw [stampHead_eq atHead valid] at stamped
  cases stamped
  exact gateView_stamped atHead valid

/-- Moving a line that is not the head releases the gate and stamps the line. -/
theorem gateView_moveLine {list moved : LineRefList} {ref : Nat} {dist : Int}
    (movedEq : list.moveLine ref = some (moved, dist)) :
    ∃ released, list.releaseGate ref = some released ∧
      moved.gateView = released.gateView.stamp ref := by
  simp only [moveLine, Option.bind_eq_bind, Option.bind_eq_some_iff] at movedEq
  obtain ⟨released, releasedEq, _, -, _, -, shifted, shiftedEq, relinked, relinkedEq, stamped,
    stampedEq, result⟩ := movedEq
  cases result
  obtain ⟨sameRelinked, atFront⟩ := gateView_relink relinkedEq
  refine ⟨released, releasedEq, ?_⟩
  rw [gateView_stampHead atFront stampedEq, sameRelinked, gateView_shiftSkipNodes shiftedEq]

end LineRefList

end BarrierPoint
