/-
This file spells out what holds of the recency list and its map after every run
of lookups, in the words of the memory: which nodes the map leads to, in which
order the links visit them, how their stamps compare, which of them are in the
skip list, and how far the walks along them go. The places of the skip nodes
are counted from the end of the list here, where they never move: an added line
shifts every place by one, and so does the length.
-/

import BarrierPoint.Gate
import Mathlib.Data.Set.Function

namespace BarrierPoint

open Library

namespace LineRefList

/-! ### Places counted from the end -/

/-- A place a whole number of skip distances before the end that has `distance - 1` places in
front of it. -/
def IsSkipPosition (distance count place : Nat) : Prop :=
  distance - 1 ≤ place ∧ ∃ stretches, 1 ≤ stretches ∧ place + stretches * distance = count

theorem isSkipPlace_iff {distance count place : Nat} (positive : 0 < distance) :
    IsSkipPlace distance count place ↔ IsSkipPosition distance count place := by
  constructor
  · rintro ⟨index, counted, rfl⟩
    unfold skipCount at counted
    obtain ⟨stretches, quotient⟩ :=
      Nat.exists_eq_add_of_le (show index + 1 ≤ (count + 1) / distance by omega)
    have whole := Nat.div_add_mod (count + 1) distance
    have expand : distance * (index + 1 + stretches) =
        index * distance + distance + stretches * distance := by ring
    rw [quotient, expand] at whole
    unfold skipPlace
    exact ⟨by omega, stretches, by omega, by omega⟩
  · rintro ⟨front, stretches, counted, rfl⟩
    obtain ⟨beyond, rfl⟩ := Nat.exists_eq_add_of_le front
    have expand : distance - 1 + beyond + stretches * distance + 1 =
        beyond + distance * (stretches + 1) := by
      rw [Nat.mul_add_one, Nat.mul_comm distance stretches]
      omega
    have whole := Nat.mod_add_div' beyond distance
    refine ⟨beyond / distance, ?_, ?_⟩
    · rw [skipCount, expand, Nat.add_mul_div_left _ _ positive]
      omega
    · rw [skipPlace, expand, Nat.add_mul_mod_self_left]
      omega

theorem skipPlace_succ (distance count index : Nat) :
    skipPlace distance count (index + 1) = skipPlace distance count index + distance := by
  rw [skipPlace, skipPlace, Nat.add_one_mul, Nat.add_assoc _ (index * distance)]

/-- Behind the last skip node there is less than one skip distance. -/
theorem length_le_skipPlace_add {distance count last : Nat}
    (isLast : skipCount distance count = last + 1) :
    count ≤ skipPlace distance count last + distance := by
  unfold skipCount at isLast
  have whole := Nat.div_add_mod (count + 1) distance
  have expand : distance * (last + 2) = last * distance + 2 * distance := by ring
  rw [show (count + 1) / distance = last + 2 by omega, expand] at whole
  unfold skipPlace
  omega

/-- In front of the first skip node there are less than two skip distances. -/
theorem firstSkip_lt {distance : Nat} (positive : 0 < distance) (count : Nat) :
    firstSkip distance count + 1 < 2 * distance := by
  have whole := Nat.div_add_mod (count + 1) distance
  have small := Nat.mod_lt (count + 1) positive
  unfold firstSkip skipCount skipPlace
  split
  · rename_i few
    have most : distance * ((count + 1) / distance) ≤ distance * 1 :=
      Nat.mul_le_mul_left distance (by omega)
    omega
  · omega

/-! ### The fields of a node at a place -/

section Fields

variable {list : LineRefList} {order : List Nat} {place ref : Nat}

theorem getElem?_skipSlots {distance index address : Nat} (positive : 0 < distance) :
    ((skipSlots distance order).map Prod.fst)[index]? = some address ↔
      index < skipCount distance order.length ∧
        order[skipPlace distance order.length index]? = some address := by
  rw [skipSlots, List.map_map, List.getElem?_map]
  by_cases counted : index < skipCount distance order.length
  · have held := List.getElem?_eq_getElem (skipPlace_lt counted positive)
    rw [List.getElem?_range counted, held, and_iff_right counted]
    show some (order.getD _ 0) = _ ↔ _
    rw [getD_eq held]
  · rw [List.getElem?_eq_none (by rw [List.length_range]; omega)]
    exact iff_of_false (Option.some_ne_none address).symm fun both => counted both.1

/-- The next skip node of a skip node stands one skip distance behind it, if that is a place of a
skip node. -/
theorem nextSkipOf_eq_some_iff (represents : list.Represents order)
    (positive : 0 < list.skipDistance) (held : order[place]? = some ref)
    (skip : IsSkipPlace list.skipDistance order.length place) (other : Nat) :
    list.nextSkipOf ref = some other ↔
      IsSkipPlace list.skipDistance order.length (place + list.skipDistance) ∧
        order[place + list.skipDistance]? = some other := by
  obtain ⟨index, counted, rfl⟩ := skip
  have atIndex := (getElem?_skipSlots positive).mpr ⟨counted, held⟩
  rw [represents.skips.linked.next_eq index ref atIndex, getElem?_skipSlots positive,
    skipPlace_succ]
  refine and_congr_left' ⟨fun behind => ⟨index + 1, behind, skipPlace_succ ..⟩, ?_⟩
  rintro ⟨behind, countedBehind, same⟩
  rwa [← skipPlace_injective positive (same.trans (skipPlace_succ ..).symm)]

/-- The previous skip node of a skip node stands one skip distance in front of it. -/
theorem prevSkipOf_eq_some_iff (represents : list.Represents order)
    (positive : 0 < list.skipDistance) (held : order[place]? = some ref)
    (skip : IsSkipPlace list.skipDistance order.length place) (other : Nat) :
    list.prevSkipOf ref = some other ↔ ∃ before, before + list.skipDistance = place ∧
      IsSkipPlace list.skipDistance order.length before ∧ order[before]? = some other := by
  obtain ⟨index, counted, rfl⟩ := skip
  have atIndex := (getElem?_skipSlots positive).mpr ⟨counted, held⟩
  rw [represents.skips.linked.prev_eq index ref atIndex]
  have previous : ∀ {before}, before + list.skipDistance =
      skipPlace list.skipDistance order.length index →
      IsSkipPlace list.skipDistance order.length before → ∃ earlier, index = earlier + 1 ∧
        skipPlace list.skipDistance order.length earlier = before := by
    rintro _ next ⟨earlier, -, rfl⟩
    rw [← skipPlace_succ] at next
    exact ⟨earlier, (skipPlace_injective positive next).symm, rfl⟩
  cases index with
  | zero =>
    refine iff_of_false nofun ?_
    rintro ⟨before, next, isSkip, -⟩
    obtain ⟨earlier, first, -⟩ := previous next isSkip
    cases first
  | succ index =>
    rw [predecessor_succ, getElem?_skipSlots positive]
    constructor
    · rintro ⟨countedBefore, heldBefore⟩
      exact ⟨_, (skipPlace_succ ..).symm, ⟨index, countedBefore, rfl⟩, heldBefore⟩
    · rintro ⟨before, next, isSkip, heldBefore⟩
      obtain ⟨earlier, same, rfl⟩ := previous next isSkip
      obtain rfl := Nat.succ.inj same
      exact ⟨by omega, heldBefore⟩

/-- On all nodes of the memory, and on all other addresses, the two link fields are inverse to each
other. -/
theorem Threads.nextOf_eq_some_iff (threads : list.Threads order) (address other : Nat) :
    list.nextOf address = some other ↔ list.prevOf other = some address := by
  have valid : ∀ {link : LineRef → Pointer} {node pointer},
      list.nodes[node]?.bind link = some pointer → node ∈ order := by
    intro link node pointer points
    obtain ⟨line, atNode, -⟩ := Option.bind_eq_some_iff.mp points
    exact (threads.mem_iff node).mpr (List.getElem?_eq_some_iff.mp atNode).1
  constructor
  · intro points
    have member := valid points
    obtain ⟨place, held⟩ := List.getElem?_of_mem member
    have memberOther := List.mem_of_getElem?
      ((threads.linked.next_eq place address held).symm.trans points)
    exact (threads.linked.next_eq_some_iff member memberOther).mp points
  · intro points
    have memberOther := valid points
    exact (threads.linked.next_eq_some_iff (threads.linked.mem_of_prev memberOther points)
      memberOther).mpr points

end Fields

/-! ### The length of the walks -/

section Walks

variable {list : LineRefList} {order : List Nat} {place ref : Nat}

/-- Walking back from any node ends after less than two skip distances, at a skip node or past the
head. -/
theorem walkBack_le (represents : list.Represents order) (positive : 0 < list.skipDistance)
    (held : order[place]? = some ref) : ∃ stop dist,
      list.walkBack list.walkBound (some ref) 0 = some (stop, dist) ∧
        dist ≤ 2 * (list.skipDistance : Int) - 1 := by
  have inside := (List.getElem?_eq_some_iff.mp held).1
  obtain ⟨passed, rest, count, split⟩ := exists_passed order.length place positive
  cases passed with
  | zero =>
    have ahead := lt_skipPlace_of_none split
    have before : place < firstSkip list.skipDistance order.length := by
      unfold firstSkip
      split
      · exact inside
      · exact ahead 0 (by omega)
    have bound := firstSkip_lt positive order.length
    exact ⟨_, _, walkBack_passesHead represents positive held ahead, by omega⟩
  | succ passed =>
    obtain ⟨steps, stepsEq, -, walked⟩ :=
      walkBack_reachesSkip represents positive held count split
    have before : place < skipPlace list.skipDistance order.length passed + list.skipDistance := by
      rcases Nat.eq_zero_or_pos rest with none | more
      · exact inside.trans_le (length_le_skipPlace_add (count.trans (none ▸ rfl)))
      · have notPassed := mt (split (passed + 1) (by omega)).mp (lt_irrefl _)
        rw [skipPlace_succ] at notPassed
        exact Nat.not_le.mp notPassed
    exact ⟨_, _, walked, by omega⟩

/-- So does the walk from a line that is added in front. -/
theorem scanPlain_le (represents : list.Represents order) (spaced : 2 ≤ list.skipDistance)
    (tag : Address) : ∃ stop count skip, (list.withLine tag).scanPlain
        (list.withLine tag).walkBound (list.withLine tag).head 0 none =
      some (stop, count, skip) ∧ count ≤ 2 * list.skipDistance - 1 := by
  have bound := firstSkip_lt (show 0 < list.skipDistance by omega) order.length
  exact ⟨_, _, _, scanPlain_withLine represents spaced tag, by omega⟩

end Walks

/-! ### The stamps -/

section Stamps

variable {list next : LineRefList} {order : List Nat} {place ref : Nat}

theorem dates_stepGate (stepped : list.stepGate = some next) :
    next.timeOf = list.timeOf ∧ next.curTime = list.curTime := by
  simp only [stepGate, Option.bind_eq_bind, Option.bind_eq_some_iff] at stepped
  obtain ⟨gate, -, same⟩ := stepped
  cases same
  exact ⟨rfl, rfl⟩

/-- Releasing the gate leaves all stamps alone, wherever the gate is. -/
theorem dates_releaseGate (released : list.releaseGate ref = some next) :
    next.timeOf = list.timeOf ∧ next.curTime = list.curTime := by
  simp only [releaseGate, Option.bind_eq_bind, Option.bind_eq_some_iff] at released
  obtain ⟨distant, -, released⟩ := released
  cases distant with
  | true =>
    rw [if_pos rfl] at released
    obtain ⟨counted, countedEq, stepped⟩ := Option.bind_eq_some_iff.mp released
    obtain ⟨address, -, -, rfl⟩ := store_eq_some countedEq
    obtain ⟨times, clock⟩ := dates_stepGate stepped
    exact ⟨times.trans (timeOf_writeAt list (some address) fun _ => rfl), clock⟩
  | false =>
    rw [if_neg Bool.false_ne_true] at released
    split at released
    · exact dates_stepGate released
    · cases released
      exact ⟨rfl, rfl⟩

/-- An added line has the latest stamp. -/
theorem stamps_withLine (represents : list.Represents order)
    (stamps : FallingStamps list.timeOf list.curTime order) (tag : Address) :
    FallingStamps (list.withLine tag).timeOf (list.withLine tag).curTime
      (list.nodes.length :: order) := by
  have times : (list.withLine tag).timeOf =
      Function.update list.timeOf list.nodes.length list.curTime := by
    refine (congrArg GateView.timeOf
      (gateView_pushedFront (lt_allocate_length list tag))).trans ?_
    rw [gateView_allocate]
    rfl
  rw [times]
  exact stamps.renew (length_notMem represents) (Nat.lt_succ_self _)

/-- A moved line has the latest stamp. The head needs no new one. -/
theorem stamps_moveToFront (represents : list.Represents order)
    (stamps : FallingStamps list.timeOf list.curTime order) (held : order[place]? = some ref)
    {dist : Int} (moved : list.moveToFront ref = some (next, dist)) :
    FallingStamps next.timeOf next.curTime (ref :: order.eraseIdx place) := by
  have times : (list.write ref .countRef).timeOf = list.timeOf :=
    timeOf_writeAt list (some ref) fun _ => rfl
  have counted : FallingStamps (list.write ref .countRef).timeOf
      (list.write ref .countRef).curTime order := times.symm ▸ stamps
  rw [moveToFront, store_some (represents.bound held), Option.bind_eq_bind, Option.bind_some]
    at moved
  have atHead : (list.write ref .countRef).head = some ref ↔ place = 0 := by
    show list.head = some ref ↔ _
    rw [represents.head_eq, getElem?_eq_some_iff_eq represents.distinct held, eq_comm]
  cases place with
  | zero =>
    rw [if_pos (atHead.mpr rfl)] at moved
    cases moved
    cases order with
    | nil => cases held
    | cons first rest =>
      obtain rfl : first = ref := Option.some_inj.mp held
      exact counted
  | succ place =>
    rw [if_neg (mt atHead.mp (Nat.succ_ne_zero place))] at moved
    obtain ⟨released, releasedEq, view⟩ := gateView_moveLine moved
    obtain ⟨releasedTimes, releasedClock⟩ := dates_releaseGate releasedEq
    have unused : ref ∉ order.eraseIdx (place + 1) := by
      rw [eraseIdx_eq_erase represents.distinct held]
      exact represents.distinct.not_mem_erase
    rw [← releasedTimes, ← releasedClock] at counted
    rw [show next.timeOf = Function.update released.timeOf ref released.curTime from
        congrArg GateView.timeOf view,
      show next.curTime = released.curTime + 1 from congrArg GateView.curTime view]
    exact (counted.sublist (List.eraseIdx_sublist ..)).renew unused (Nat.lt_succ_self _)

end Stamps

end LineRefList

namespace ReuseDistance

/-! ### The tracker with its stamps -/

/-- The list tracks the history, has the given skip distance, and its stamps fall. -/
structure StampTracks (distance : Nat) (reuse : ReuseDistance) (history : List Address)
    (order : List Nat) : Prop extends reuse.Tracks history order where
  stamps : FallingStamps reuse.refList.timeOf reuse.refList.curTime order
  distance_eq : reuse.refList.skipDistance = distance

variable {distance : Nat} {reuse : ReuseDistance} {history : List Address} {order : List Nat}

theorem stampTracks_new (spaced : 2 ≤ distance) (verify debugVerbose : Bool)
    (reuseThreshold : Nat) :
    StampTracks distance (new distance verify debugVerbose reuseThreshold) [] [] where
  toTracks := tracks_new spaced verify debugVerbose reuseThreshold
  stamps := FallingStamps.nil _ _
  distance_eq := rfl

/-- One lookup keeps the stamps falling. -/
theorem StampTracks.lookup_step (tracks : StampTracks distance reuse history order)
    (tag : Address) : ∃ next order',
      reuse.lookupDistance tag = some (next, stackDistance history tag) ∧
        StampTracks distance next (tag :: history) order' := by
  unfold stackDistance
  split
  · rename_i seen
    obtain ⟨place, ref, atPlace, atOrder, found⟩ := tracks.node_of_mem seen
    obtain ⟨moved, movedEq, lookupEq, nextTracks⟩ :=
      tracks.toTracks.lookup_seen atPlace atOrder found
    obtain ⟨again, againEq, -, sameDistance⟩ :=
      LineRefList.moveToFront_spec tracks.represents tracks.spaced atOrder
    obtain rfl : again = moved :=
      (Prod.mk.inj (Option.some_inj.mp (againEq.symm.trans movedEq))).1
    rw [usedSince_of_getElem? atPlace]
    exact ⟨_, _, lookupEq, nextTracks,
      LineRefList.stamps_moveToFront tracks.represents tracks.stamps atOrder movedEq,
      sameDistance.trans tracks.distance_eq⟩
  · rename_i fresh
    obtain ⟨next, lookupEq, nextTracks, -, same⟩ := tracks.toTracks.lookup_fresh fresh
    have view := LineRefList.gateView_of_eraseSkips_eq same
    have times : next.refList.timeOf = (reuse.refList.withLine tag).timeOf :=
      congrArg GateView.timeOf view
    have clock : next.refList.curTime = (reuse.refList.withLine tag).curTime :=
      congrArg GateView.curTime view
    have stamps := LineRefList.stamps_withLine tracks.represents tracks.stamps tag
    rw [← times, ← clock] at stamps
    exact ⟨next, _, lookupEq, nextTracks, stamps,
      (LineRefList.skipDistance_of_eraseSkips_eq same).trans tracks.distance_eq⟩

/-! ### The invariant of the stack -/

/-- What holds of the tracker after the lookups of a trace, told from the memory: the map leads
from the tags of the trace to the nodes, one to one; the links visit every node once, in the order
of the last accesses, and each way undoes the other; the stamps fall along them; exactly the nodes
at the skip positions are in the skip list, with their place as depth and their neighbours among
these nodes; and the walks are short. -/
structure StackInvariant (reuse : ReuseDistance) (distance : Nat) (trace : List Address) :
    Prop where
  bijective : Set.BijOn reuse.cacheMap.lookup {tag | tag ∈ trace}
    (some '' Set.Iio reuse.refList.nodes.length)
  unseen : ∀ tag, tag ∉ trace → reuse.cacheMap.lookup tag = none
  count_eq : reuse.refList.nodes.length = trace.toFinset.card
  visits : ∃ order : List Nat, order.Perm (List.range reuse.refList.nodes.length) ∧
    order.map some = (recency trace.reverse).map reuse.cacheMap.lookup ∧
    ∀ place, reuse.refList.nodeAt place = order[place]?
  inverse : ∀ ref other, reuse.refList.nextOf ref = some other ↔
    reuse.refList.prevOf other = some ref
  stamps_fall : ∀ earlier later newer older, earlier < later →
    reuse.refList.nodeAt earlier = some newer → reuse.refList.nodeAt later = some older →
    reuse.refList.timeOf older < reuse.refList.timeOf newer
  skip : ∀ place ref, reuse.refList.nodeAt place = some ref →
    LineRefList.IsSkipPosition distance trace.toFinset.card place →
    reuse.refList.depthOf ref = some (place : Int) ∧
    (∀ other, reuse.refList.nextSkipOf ref = some other ↔
      LineRefList.IsSkipPosition distance trace.toFinset.card (place + distance) ∧
        reuse.refList.nodeAt (place + distance) = some other) ∧
    ∀ other, reuse.refList.prevSkipOf ref = some other ↔ ∃ before, before + distance = place ∧
      LineRefList.IsSkipPosition distance trace.toFinset.card before ∧
        reuse.refList.nodeAt before = some other
  plain : ∀ place ref, reuse.refList.nodeAt place = some ref →
    ¬LineRefList.IsSkipPosition distance trace.toFinset.card place →
    reuse.refList.depthOf ref = some (-1) ∧ reuse.refList.nextSkipOf ref = none ∧
      reuse.refList.prevSkipOf ref = none
  walks : ∀ ref < reuse.refList.nodes.length, ∃ stop dist,
    reuse.refList.walkBack reuse.refList.walkBound (some ref) 0 = some (stop, dist) ∧
      dist ≤ 2 * (distance : Int) - 1
  scans : ∀ tag, ∃ stop count skip, (reuse.refList.withLine tag).scanPlain
      (reuse.refList.withLine tag).walkBound (reuse.refList.withLine tag).head 0 none =
    some (stop, count, skip) ∧ count ≤ 2 * distance - 1

/-- Every node is the node of a tag. -/
theorem Tracks.tag_of_node (tracks : reuse.Tracks history order) {ref : Nat}
    (member : ref ∈ order) : ∃ tag ∈ history, reuse.cacheMap.lookup tag = some ref := by
  have listed : some ref ∈ (recency history).map reuse.cacheMap.lookup := by
    rw [tracks.nodes_eq]
    exact List.mem_map_of_mem member
  obtain ⟨tag, isRecent, found⟩ := List.mem_map.mp listed
  exact ⟨tag, (mem_recency history tag).mp isRecent, found⟩

theorem Tracks.bijOn_lookup (tracks : reuse.Tracks history order) :
    Set.BijOn reuse.cacheMap.lookup {tag | tag ∈ history}
      (some '' Set.Iio reuse.refList.nodes.length) := by
  refine ⟨fun tag seen => ?_, fun tag seen other _ same => ?_, ?_⟩
  · obtain ⟨place, ref, -, atOrder, found⟩ := tracks.node_of_mem seen
    exact ⟨ref, tracks.represents.bound atOrder, found.symm⟩
  · obtain ⟨place, ref, -, -, found⟩ := tracks.node_of_mem seen
    exact tracks.tag_unique found (same.symm.trans found)
  · rintro _ ⟨ref, bound, rfl⟩
    exact tracks.tag_of_node ((tracks.represents.mem_iff ref).mpr bound)

/-- A tracker with falling stamps satisfies the invariant of the stack. -/
theorem StampTracks.stackInvariant {trace : List Address}
    (tracks : StampTracks distance reuse trace.reverse order) :
    reuse.StackInvariant distance trace := by
  obtain rfl := tracks.distance_eq
  have represents := tracks.represents
  have threads := represents.toThreads
  have nodeAt := LineRefList.nodeAt_eq threads
  have positive : 0 < reuse.refList.skipDistance := by
    have := tracks.spaced
    omega
  have length : order.length = trace.toFinset.card := by
    rw [tracks.length_order, List.toFinset_reverse]
  have places : ∀ place,
      LineRefList.IsSkipPosition reuse.refList.skipDistance trace.toFinset.card place ↔
        LineRefList.IsSkipPlace reuse.refList.skipDistance order.length place := by
    intro place
    rw [LineRefList.isSkipPlace_iff positive, length]
  have bijective := tracks.bijOn_lookup
  simp only [List.mem_reverse] at bijective
  exact {
    bijective := bijective
    unseen := fun tag unseen => tracks.lookup_eq_none (mt List.mem_reverse.mp unseen)
    count_eq := threads.length_eq.symm.trans length
    visits := ⟨order, threads.perm_range, tracks.nodes_eq.symm, nodeAt⟩
    inverse := threads.nextOf_eq_some_iff
    stamps_fall := by
      intro earlier later newer older before held heldLater
      rw [nodeAt] at held heldLater
      exact tracks.stamps.lt_of_lt held heldLater before
    skip := by
      intro place ref held isSkip
      rw [nodeAt] at held
      rw [places] at isSkip
      refine ⟨represents.skips.depth_of_skip held isSkip, fun other => ?_, fun other => ?_⟩
      · rw [places, nodeAt]
        exact LineRefList.nextSkipOf_eq_some_iff represents positive held isSkip other
      · simp only [places, nodeAt]
        exact LineRefList.prevSkipOf_eq_some_iff represents positive held isSkip other
    plain := by
      intro place ref held isPlain
      rw [nodeAt] at held
      rw [places] at isPlain
      have outside := mt (LineRefList.isSkipPlace_of_mem threads.distinct positive held) isPlain
      obtain ⟨noPrev, noNext, depth⟩ :=
        represents.skips.plain ref (represents.bound held) outside
      exact ⟨depth, noNext, noPrev⟩
    walks := by
      intro ref bound
      obtain ⟨place, held⟩ := List.getElem?_of_mem ((threads.mem_iff ref).mpr bound)
      exact LineRefList.walkBack_le represents positive held
    scans := LineRefList.scanPlain_le represents tracks.spaced }

/-- After every run of lookups on a fresh tracker, for every skip distance from two on and every
threshold, the invariant of the stack holds. Every prefix of a run is a run, so it holds after each
lookup. -/
theorem lookupDistances_stackInvariant (skipDist reuseThreshold : Nat)
    (verify debugVerbose : Bool) (spaced : 2 ≤ skipDist) (trace : List Address) :
    ∃ final, (new skipDist verify debugVerbose reuseThreshold).lookupDistances trace =
      some (final, stackDistances [] trace) ∧ final.StackInvariant skipDist trace := by
  obtain ⟨final, order, finalEq, tracks⟩ := lookup_run_of_step (StampTracks skipDist)
    (fun known tag => known.lookup_step tag) trace
    (stampTracks_new spaced verify debugVerbose reuseThreshold)
  rw [List.append_nil] at tracks
  exact ⟨final, finalEq, tracks.stackInvariant⟩

/-- Four lines under a skip distance of two, and a return to the first. -/
theorem lookupDistances_stackInvariant_return : 2 ≤ 2 ∧ ∃ final,
    (new 2 true true 1).lookupDistances [0x40, 0x80, 0xc0, 0x100, 0x40] =
      some (final, [-1, -1, -1, -1, 3]) ∧
    final.StackInvariant 2 [0x40, 0x80, 0xc0, 0x100, 0x40] :=
  ⟨by decide, lookupDistances_stackInvariant 2 1 true true (by decide)
    [0x40, 0x80, 0xc0, 0x100, 0x40]⟩

end ReuseDistance

end BarrierPoint
