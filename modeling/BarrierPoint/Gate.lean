/-
This file proves what the gate of the recency list stands for. After any run
of lookups the gate is the line at the reuse threshold, or the last line while
there are fewer; so the lines further back than the threshold are those with
an older stamp than the gate, and the distant references of a line count its
accesses from there. The argument is a refinement: on the view of the list the
two operations bring a line to the front and put the gate at its place, and
the pointer moves of the source come down to that.
-/

import BarrierPoint.GateView
import BarrierPoint.ReuseRun

namespace BarrierPoint

open Library

namespace GateView

/-! ### The gate over a sequence of lines -/

/-- A line comes in front of the others with the present time as its stamp, and the gate is the
line at the threshold, or the last one. -/
def bring (view : GateView) (ref : Nat) (others : List Nat) : GateView :=
  { view.stamp ref with
    gate := (ref :: others)[min others.length view.threshold]?
    uniqueLines := others.length + 1 }

/-- A reference to the line at a place counts as distant when the place is behind the threshold. -/
def countAt (view : GateView) (ref place : Nat) : GateView :=
  if view.threshold < place then view.count ref else view

/-- The view fits a sequence of lines: it counts them, the gate is the line at the threshold or
the last one, and the stamps fall along the sequence. -/
structure Gated (view : GateView) (order : List Nat) : Prop where
  count_eq : view.uniqueLines = order.length
  gate_eq : view.gate = order[min (order.length - 1) view.threshold]?
  stamps : FallingStamps view.timeOf view.curTime order

variable {view : GateView} {order : List Nat}

theorem Gated.bring (gated : view.Gated order) {ref : Nat} {others : List Nat}
    (part : others.Sublist order) (fresh : ref ∉ others) :
    (view.bring ref others).Gated (ref :: others) where
  count_eq := rfl
  gate_eq := rfl
  stamps := (gated.stamps.sublist part).renew fresh (Nat.lt_succ_self _)

theorem countAt_of_lt {ref place : Nat} (distant : view.threshold < place) :
    view.countAt ref place = view.count ref := if_pos distant

theorem countAt_of_not_lt {ref place : Nat} (near : ¬ view.threshold < place) :
    view.countAt ref place = view := if_neg near

theorem threshold_countAt (view : GateView) (ref place : Nat) :
    (view.countAt ref place).threshold = view.threshold := by
  unfold countAt
  split <;> rfl

theorem distantOf_countAt (view : GateView) (ref place other : Nat) :
    (view.countAt ref place).distantOf other =
      view.distantOf other + if other = ref ∧ view.threshold < place then 1 else 0 := by
  by_cases distant : view.threshold < place
  · rw [countAt_of_lt distant]
    show Function.update view.distantOf ref (view.distantOf ref + 1) other = _
    rw [Function.update_apply]
    by_cases here : other = ref
    · subst here
      rw [if_pos rfl, if_pos ⟨rfl, distant⟩]
    · rw [if_neg here, if_neg fun both => here both.1, Nat.add_zero]
  · rw [countAt_of_not_lt distant, if_neg fun both => distant both.2, Nat.add_zero]

/-- Counting a reference leaves gate, lines and stamps alone. -/
theorem Gated.countAt (gated : view.Gated order) (ref place : Nat) :
    (view.countAt ref place).Gated order := by
  by_cases distant : view.threshold < place
  · rw [countAt_of_lt distant]
    exact ⟨gated.count_eq, gated.gate_eq, gated.stamps⟩
  · rwa [countAt_of_not_lt distant]

/-- When the number of lines stays the same, a line is brought in front by a move of the gate and
a stamp. -/
theorem bring_of_uniqueLines_eq {ref : Nat} {others : List Nat}
    (same : view.uniqueLines = others.length + 1) : view.bring ref others =
      (view.setGate (ref :: others)[min others.length view.threshold]?).stamp ref := by
  rw [bring, ← same]
  rfl

end GateView

namespace LineRefList

open GateView

/-! ### The operations move the gate to its place -/

section Operations

variable {list moved : LineRefList} {order : List Nat} {place ref : Nat}

theorem gated_new (reuseThreshold skipDist : Nat) (verify debugVerbose : Bool) :
    (new reuseThreshold skipDist verify debugVerbose).gateView.Gated [] :=
  ⟨rfl, rfl, FallingStamps.nil _ _⟩

/-- Pushing a line changes the view of the gate only. -/
theorem gateView_pushed (list : LineRefList) (ref : Nat) : (list.pushed ref).gateView =
    list.gateView.setGate (if list.gate.isNone then some ref else list.gate) := by
  have next : (list.write ref (.setNext list.head)).gateView = list.gateView :=
    gateView_write _ _ fun _ => ⟨rfl, rfl⟩
  have same : ((list.write ref (.setNext list.head)).writeAt list.head
      (.setPrev (some ref))).gateView = list.gateView := by
    rw [← next]
    exact gateView_writeAt _ _ fun _ => ⟨rfl, rfl⟩
  rw [← same]
  rfl

/-- Pushing a line in front moves the gate, counts the line and stamps it. -/
theorem gateView_pushedFront {list : LineRefList} {ref : Nat} (bound : ref < list.nodes.length) :
    (list.pushedFront ref).gateView =
      { list.gateView with
        gate := (list.pushedFront ref).gate
        uniqueLines := list.uniqueLines + 1 }.stamp ref := by
  refine (gateView_stamped rfl ((pushed_length list ref).symm ▸ bound)).trans ?_
  exact congrArg (fun view : GateView => { view with
    gate := (list.pushedFront ref).gate
    uniqueLines := list.uniqueLines + 1 }.stamp ref) (gateView_pushed list ref)

/-- Adding a line leaves the gate where it is while there are few lines, and then takes it one
step to the front: that is the place it has to have. -/
theorem gate_withLine (represents : list.Represents order) (gated : list.gateView.Gated order)
    (tag : Address) : (list.withLine tag).gate =
      (list.nodes.length :: order)[min order.length list.threshold]? := by
  have counted : list.uniqueLines = order.length := gated.count_eq
  have atGate : list.gate = order[min (order.length - 1) list.threshold]? := gated.gate_eq
  have linked := (threads_withLine represents tag).linked
  show (if list.threshold < list.uniqueLines then
    (if list.gate.isNone then some list.nodes.length else list.gate).bind
      ((list.allocate tag).1.pushed list.nodes.length).prevOf
    else if list.gate.isNone then some list.nodes.length else list.gate) = _
  rw [← prevOf_pushedFront, counted, atGate]
  rcases Nat.eq_zero_or_pos order.length with empty | filled
  · obtain rfl := List.length_eq_zero_iff.mp empty
    rfl
  · have held := List.getElem?_eq_getElem
      (show min (order.length - 1) list.threshold < order.length by omega)
    rw [held]
    show (if list.threshold < order.length then
      (list.withLine tag).prevOf order[min (order.length - 1) list.threshold]
      else some order[min (order.length - 1) list.threshold]) = _
    rw [← held]
    by_cases passed : list.threshold < order.length
    · rw [if_pos passed, linked.prev_eq (min (order.length - 1) list.threshold + 1) _ held,
        predecessor_succ]
      exact congrArg _ (by omega)
    · rw [if_neg passed, show min order.length list.threshold =
        min (order.length - 1) list.threshold + 1 by omega, List.getElem?_cons_succ]

/-- Adding a line brings it in front of the others. -/
theorem gateView_withLine (represents : list.Represents order)
    (gated : list.gateView.Gated order) (tag : Address) :
    (list.withLine tag).gateView = list.gateView.bring list.nodes.length order := by
  have counted : list.uniqueLines = order.length := gated.count_eq
  rw [gateView_pushedFront (lt_allocate_length list tag), gateView_allocate, bring,
    show ((list.allocate tag).1.pushedFront list.nodes.length).gate = _ from
      gate_withLine represents gated tag, ← counted]
  rfl

/-- A line is distant exactly when it is behind the threshold. -/
theorem refIsDistant_eq (threads : list.Threads order) (gated : list.gateView.Gated order)
    (held : order[place]? = some ref) :
    list.refIsDistant ref = some (decide (list.threshold < place)) := by
  have inside := (List.getElem?_eq_some_iff.mp held).1
  have gateHeld := List.getElem?_eq_getElem
    (show min (order.length - 1) list.threshold < order.length by omega)
  rw [refIsDistant_of_gate (gated.gate_eq.trans gateHeld) (threads.bound held)
    (threads.bound gateHeld)]
  have older := gated.stamps.lt_iff gateHeld held
  exact congrArg some (decide_eq_decide.mpr (older.trans (by omega)))

/-- Releasing the gate counts a distant reference, and takes a gate at or in front of the line one
step to the front: that is the place it has once the line is in front. -/
theorem gateView_releaseGate (represents : list.Represents order)
    (gated : list.gateView.Gated order) (limited : 1 ≤ list.threshold)
    (held : order[place + 1]? = some ref) : ∃ released, list.releaseGate ref = some released ∧
      released.gateView = (list.gateView.countAt ref (place + 1)).setGate
        (ref :: order.eraseIdx (place + 1))[min (order.length - 1) list.threshold]? := by
  have inside := (List.getElem?_eq_some_iff.mp held).1
  have bound := represents.bound held
  obtain ⟨before, beforeEq⟩ := Nat.exists_eq_add_of_le'
    (show 1 ≤ min (order.length - 1) list.threshold by omega)
  have gateHeld := List.getElem?_eq_getElem (show before + 1 < order.length by omega)
  have atGate : list.gate = some order[before + 1] :=
    gated.gate_eq.trans ((congrArg (order[·]?) beforeEq).trans gateHeld)
  have gateBound := represents.bound gateHeld
  have stepped : list.prevOf order[before + 1] = order[before]? :=
    represents.linked.prev_eq _ _ gateHeld
  have place_eq : (ref :: order.eraseIdx (place + 1))[min (order.length - 1) list.threshold]? =
      if before < place + 1 then order[before]? else order[before + 1]? := by
    rw [beforeEq, List.getElem?_cons_succ, List.getElem?_eraseIdx]
  rw [place_eq, releaseGate, refIsDistant_eq represents.toThreads gated held,
    Option.bind_eq_bind, Option.bind_some]
  by_cases distant : list.threshold < place + 1
  · have counted : (list.write ref .countDistantRef).prevOf = list.prevOf :=
      prevOf_writeAt list (some ref) fun _ => rfl
    rw [if_pos (decide_eq_true distant), store_some bound, Option.bind_eq_bind, Option.bind_some,
      @stepGate_eq (list.write ref .countDistantRef) _ atGate ((write_length ..).symm ▸ gateBound),
      counted, stepped, if_pos (show before < place + 1 by omega)]
    refine ⟨_, rfl, ?_⟩
    rw [countAt_of_lt distant, ← gateView_countDistantRef bound]
    rfl
  · rw [if_neg (by simpa using distant), atGate, countAt_of_not_lt distant]
    by_cases onGate : before = place
    · subst onGate
      rw [if_pos (gateHeld.symm.trans held), stepGate_eq atGate gateBound, stepped,
        if_pos (Nat.lt_succ_self _)]
      exact ⟨_, rfl, rfl⟩
    · have other : some order[before + 1] ≠ some ref := by
        rw [← gateHeld, Ne, getElem?_eq_some_iff_eq represents.distinct held]
        omega
      rw [if_neg other, if_neg (show ¬ before < place + 1 by omega), gateHeld, ← atGate]
      exact ⟨list, rfl, rfl⟩

/-- Moving a line to the front counts its reference and brings it in front, unless it is there. -/
theorem gateView_moveToFront (represents : list.Represents order)
    (gated : list.gateView.Gated order) (limited : 1 ≤ list.threshold)
    (held : order[place]? = some ref) {dist : Int}
    (movedEq : list.moveToFront ref = some (moved, dist)) :
    moved.gateView = if place = 0 then list.gateView
      else (list.gateView.countAt ref place).bring ref (order.eraseIdx place) := by
  have counted : (list.write ref .countRef).Represents order :=
    represents.write_count ref (fun _ => ⟨rfl, rfl⟩) fun _ => rfl
  have same : (list.write ref .countRef).gateView = list.gateView :=
    gateView_write list ref fun _ => ⟨rfl, rfl⟩
  rw [moveToFront, store_some (represents.bound held), Option.bind_eq_bind, Option.bind_some]
    at movedEq
  cases place with
  | zero =>
    rw [if_pos (counted.head_eq.trans held)] at movedEq
    cases movedEq
    rw [if_pos rfl, same]
  | succ place =>
    have notHead : (list.write ref .countRef).head ≠ some ref := by
      rw [counted.head_eq, Ne, getElem?_eq_some_iff_eq counted.distinct held]
      omega
    rw [if_neg notHead] at movedEq
    obtain ⟨released, releasedEq, stampedEq⟩ := gateView_moveLine movedEq
    obtain ⟨known, knownEq, knownView⟩ :=
      gateView_releaseGate counted (same.symm ▸ gated) limited held
    obtain rfl : known = released := Option.some_inj.mp (knownEq.symm.trans releasedEq)
    have inside := (List.getElem?_eq_some_iff.mp held).1
    have length : (order.eraseIdx (place + 1)).length = order.length - 1 :=
      List.length_eraseIdx_of_lt inside
    have lines := (gated.countAt ref (place + 1)).count_eq
    rw [if_neg (Nat.succ_ne_zero place), bring_of_uniqueLines_eq (by omega), stampedEq, knownView,
      same, length, threshold_countAt]
    rfl

/-- Moving a line to the front keeps the gate at its place. -/
theorem gated_moveToFront (represents : list.Represents order)
    (gated : list.gateView.Gated order) (limited : 1 ≤ list.threshold)
    (held : order[place]? = some ref) {dist : Int}
    (movedEq : list.moveToFront ref = some (moved, dist)) :
    moved.gateView.Gated (ref :: order.eraseIdx place) ∧ moved.threshold = list.threshold ∧
      ∀ other, moved.distantOf other =
        list.distantOf other + if other = ref ∧ list.threshold < place then 1 else 0 := by
  have view := gateView_moveToFront represents gated limited held movedEq
  cases place with
  | zero =>
    rw [if_pos rfl] at view
    cases order with
    | nil => cases held
    | cons first rest =>
      obtain rfl : first = ref := Option.some_inj.mp held
      refine ⟨view.symm ▸ gated, congrArg GateView.threshold view, fun other => ?_⟩
      rw [if_neg fun both => Nat.not_lt_zero _ both.2]
      exact congrFun (congrArg GateView.distantOf view) other
  | succ place =>
    rw [if_neg (Nat.succ_ne_zero place)] at view
    refine ⟨?_, ?_, fun other => ?_⟩
    · rw [view]
      refine (gated.countAt ref (place + 1)).bring (List.eraseIdx_sublist ..) ?_
      rw [eraseIdx_eq_erase represents.distinct held]
      exact represents.distinct.not_mem_erase
    · exact (congrArg GateView.threshold view).trans (threshold_countAt ..)
    · exact (congrFun (congrArg GateView.distantOf view) other).trans (distantOf_countAt ..)

end Operations

/-! ### The sequence seen from the head -/

/-- The node at a place, counted along the links from the head. -/
def nodeAt (list : LineRefList) : Nat → Pointer
  | 0 => list.head
  | place + 1 => (list.nodeAt place).bind list.nextOf

theorem nodeAt_eq {list : LineRefList} {order : List Nat} (threads : list.Threads order)
    (place : Nat) : list.nodeAt place = order[place]? := by
  induction place with
  | zero => exact threads.head_eq
  | succ place inductionHypothesis =>
    rw [nodeAt, inductionHypothesis]
    cases held : order[place]? with
    | none =>
      have beyond := List.getElem?_eq_none_iff.mp held
      exact (List.getElem?_eq_none (beyond.trans (Nat.le_succ place))).symm
    | some address => exact threads.linked.next_eq place address held

end LineRefList

/-! ### The gate after a run of lookups -/

/-- The accesses of a tag whose distance was behind the threshold. -/
def distantAccesses (threshold : Nat) (trace : List Address) (distances : List Int)
    (tag : Address) : Nat :=
  (trace.zip distances).countP fun access => access.1 = tag ∧ (threshold : Int) < access.2

theorem distantAccesses_cons (threshold : Nat) (tag : Address) (trace : List Address)
    (distance : Int) (distances : List Int) (other : Address) :
    distantAccesses threshold (tag :: trace) (distance :: distances) other =
      (if tag = other ∧ (threshold : Int) < distance then 1 else 0) +
        distantAccesses threshold trace distances other := by
  rw [distantAccesses, List.zip_cons_cons, List.countP_cons, Nat.add_comm]
  simp only [decide_eq_true_eq]
  rfl

namespace ReuseDistance

/-- The list tracks the history with its gate in place, and every line has the given number of
distant references. -/
structure GateTracks (reuse : ReuseDistance) (history : List Address) (order : List Nat)
    (threshold : Nat) (distant : Address → Nat) : Prop extends reuse.Tracks history order where
  gated : reuse.refList.gateView.Gated order
  threshold_eq : reuse.refList.threshold = threshold
  distant_eq : ∀ tag,
    (reuse.cacheMap.lookup tag).elim 0 reuse.refList.distantOf = distant tag

theorem gateTracks_new {skipDist : Nat} (spaced : 2 ≤ skipDist) (verify debugVerbose : Bool)
    (reuseThreshold : Nat) :
    (new skipDist verify debugVerbose reuseThreshold).GateTracks [] [] reuseThreshold
      fun _ => 0 where
  toTracks := tracks_new spaced verify debugVerbose reuseThreshold
  gated := LineRefList.gated_new reuseThreshold skipDist verify debugVerbose
  threshold_eq := rfl
  distant_eq := by
    intro tag
    rw [cacheMap_new]
    rfl

variable {reuse : ReuseDistance} {history : List Address} {order : List Nat} {threshold : Nat}
  {distant : Address → Nat}

/-- Different tags have different nodes. -/
theorem Tracks.tag_unique (tracks : reuse.Tracks history order) {tag other : Address} {ref : Nat}
    (found : reuse.cacheMap.lookup tag = some ref)
    (again : reuse.cacheMap.lookup other = some ref) : tag = other := by
  have seen : ∀ {known}, reuse.cacheMap.lookup known = some ref → known ∈ recency history :=
    fun isKnown => (mem_recency history _).mpr (tracks.known _ (isKnown ▸ rfl))
  have distinct : ((recency history).map reuse.cacheMap.lookup).Nodup := by
    rw [tracks.nodes_eq]
    exact tracks.represents.distinct.map (Option.some_injective _)
  exact List.inj_on_of_nodup_map distinct (seen found) (seen again) (found.trans again.symm)

namespace GateTracks

/-- A first access adds no distant reference. -/
theorem lookup_fresh (tracks : reuse.GateTracks history order threshold distant) {tag : Address}
    (fresh : tag ∉ history) : ∃ next order', reuse.lookupDistance tag = some (next, -1) ∧
      next.GateTracks (tag :: history) order' threshold distant := by
  obtain ⟨next, lookupEq, nextTracks, mapEq, same⟩ := tracks.toTracks.lookup_fresh fresh
  have view : next.refList.gateView =
      reuse.refList.gateView.bring reuse.refList.nodes.length order := by
    rw [LineRefList.gateView_of_eraseSkips_eq same]
    exact LineRefList.gateView_withLine tracks.represents tracks.gated tag
  have unused := LineRefList.length_notMem tracks.represents
  have counts : next.refList.distantOf = reuse.refList.distantOf :=
    congrArg GateView.distantOf view
  refine ⟨next, _, lookupEq, ⟨nextTracks, ?_, ?_, fun other => ?_⟩⟩
  · rw [view]
    exact tracks.gated.bring (List.Sublist.refl order) unused
  · exact (congrArg GateView.threshold view).trans tracks.threshold_eq
  · rw [← tracks.distant_eq other, counts, mapEq]
    by_cases here : other = tag
    · subst here
      rw [AList.lookup_insert, tracks.lookup_eq_none fresh]
      show (reuse.refList.nodes[reuse.refList.nodes.length]?.map _).getD 0 = 0
      rw [List.getElem?_eq_none le_rfl]
      rfl
    · rw [AList.lookup_insert_ne here]

/-- A repeated access counts for its line when the line is behind the threshold. -/
theorem lookup_seen (tracks : reuse.GateTracks history order threshold distant)
    (limited : 1 ≤ threshold) {tag : Address} (seen : tag ∈ history) :
    ∃ (next : ReuseDistance) (order' : List Nat) (place : Nat),
      reuse.lookupDistance tag = some (next, (place : Int)) ∧
      next.GateTracks (tag :: history) order' threshold fun other =>
        distant other + if tag = other ∧ threshold < place then 1 else 0 := by
  obtain ⟨place, ref, atPlace, atOrder, found⟩ := tracks.node_of_mem seen
  obtain ⟨moved, movedEq, lookupEq, nextTracks⟩ :=
    tracks.toTracks.lookup_seen atPlace atOrder found
  obtain ⟨gated, thresholdEq, counts⟩ := LineRefList.gated_moveToFront tracks.represents
    tracks.gated (tracks.threshold_eq.symm ▸ limited) atOrder movedEq
  refine ⟨_, _, place, lookupEq, ⟨nextTracks, gated, thresholdEq.trans tracks.threshold_eq,
    fun other => ?_⟩⟩
  rw [← tracks.distant_eq other]
  cases known : reuse.cacheMap.lookup other with
  | none =>
    have unknown : tag ≠ other := by
      rintro rfl
      rw [found] at known
      cases known
    rw [if_neg fun both => unknown both.1]
    rfl
  | some node =>
    have same : node = ref ↔ tag = other := by
      constructor
      · rintro rfl
        exact tracks.tag_unique found known
      · rintro rfl
        exact Option.some_inj.mp (known.symm.trans found)
    show moved.distantOf node = reuse.refList.distantOf node + _
    rw [counts, tracks.threshold_eq]
    exact congrArg _ (if_congr (and_congr_left' same) rfl rfl)

/-- One lookup keeps the gate in place and counts the access when it was distant. -/
theorem lookup_step (tracks : reuse.GateTracks history order threshold distant)
    (limited : 1 ≤ threshold) (tag : Address) : ∃ next order' distance,
      reuse.lookupDistance tag = some (next, distance) ∧
      next.GateTracks (tag :: history) order' threshold fun other =>
        distant other + if tag = other ∧ (threshold : Int) < distance then 1 else 0 := by
  by_cases seen : tag ∈ history
  · obtain ⟨next, order', place, lookupEq, nextTracks⟩ := tracks.lookup_seen limited seen
    refine ⟨next, order', place, lookupEq, ?_⟩
    simpa only [Nat.cast_lt] using nextTracks
  · obtain ⟨next, order', lookupEq, nextTracks⟩ := tracks.lookup_fresh seen
    have near : ¬ (threshold : Int) < -1 := by omega
    refine ⟨next, order', -1, lookupEq, ?_⟩
    simpa only [near, and_false, if_false, Nat.add_zero] using nextTracks

/-- A run of lookups keeps the gate in place and counts the distant accesses of every line. -/
theorem lookup_run (limited : 1 ≤ threshold) (trace : List Address) :
    ∀ {reuse : ReuseDistance} {history : List Address} {order : List Nat}
      {distant : Address → Nat}, reuse.GateTracks history order threshold distant →
      ∃ final order' distances, reuse.lookupDistances trace = some (final, distances) ∧
        final.GateTracks (trace.reverse ++ history) order' threshold fun tag =>
          distant tag + distantAccesses threshold trace distances tag := by
  induction trace with
  | nil =>
    intro reuse history order distant tracks
    exact ⟨reuse, order, [], rfl, tracks⟩
  | cons tag trace inductionHypothesis =>
    intro reuse history order distant tracks
    obtain ⟨next, nextOrder, distance, nextEq, nextTracks⟩ := tracks.lookup_step limited tag
    obtain ⟨final, finalOrder, distances, finalEq, finalTracks⟩ := inductionHypothesis nextTracks
    refine ⟨final, finalOrder, distance :: distances, lookupDistances_cons nextEq finalEq, ?_⟩
    simp only [distantAccesses_cons, ← Nat.add_assoc, List.reverse_cons, List.append_assoc]
    exact finalTracks

end GateTracks

/-- The list of a tracker holds one node for every distinct tag. -/
theorem Tracks.length_order (tracks : reuse.Tracks history order) :
    order.length = history.toFinset.card := by
  have lengths := congrArg List.length tracks.nodes_eq
  rw [List.length_map, List.length_map] at lengths
  rw [← lengths, ← List.toFinset_card_of_nodup (nodup_recency history)]
  refine congrArg Finset.card (Finset.ext fun tag => ?_)
  rw [List.mem_toFinset, List.mem_toFinset, mem_recency]

/-- After every run of lookups on a fresh tracker, for every skip distance from two on and every
threshold from one on: the gate is the node at the threshold, or the last node while there are
fewer, and never null once a line is known; the distant lines are exactly those behind the
threshold; and the distant references of a line count its accesses with a larger distance. Every
prefix of a run is a run, so this holds after each lookup. -/
theorem lookupDistances_gate (skipDist reuseThreshold : Nat) (verify debugVerbose : Bool)
    (spaced : 2 ≤ skipDist) (limited : 1 ≤ reuseThreshold) (trace : List Address) :
    ∃ final distances,
      (new skipDist verify debugVerbose reuseThreshold).lookupDistances trace =
        some (final, distances) ∧
      (trace ≠ [] → ∃ gate, final.refList.gate = some gate ∧
        final.refList.nodeAt (min (trace.toFinset.card - 1) reuseThreshold) = some gate) ∧
      (∀ place ref, final.refList.nodeAt place = some ref →
        final.refList.refIsDistant ref = some (decide (reuseThreshold < place))) ∧
      ∀ tag ref, final.cacheMap.lookup tag = some ref → ∃ line,
        final.refList.load (some ref) = some line ∧
        line.distantRefs = distantAccesses reuseThreshold trace distances tag := by
  obtain ⟨final, order, distances, finalEq, tracks⟩ := GateTracks.lookup_run limited trace
    (gateTracks_new spaced verify debugVerbose reuseThreshold)
  have threads := tracks.represents.toThreads
  have length : order.length = trace.toFinset.card := by
    rw [tracks.length_order, List.append_nil, List.toFinset_reverse]
  refine ⟨final, distances, finalEq, fun started => ?_, fun place ref held => ?_,
    fun tag ref found => ?_⟩
  · have filled : 0 < order.length := by
      rw [length, Finset.card_pos, List.toFinset_nonempty_iff]
      exact started
    have gateHeld := List.getElem?_eq_getElem
      (show min (order.length - 1) reuseThreshold < order.length by omega)
    have atGate : final.refList.gate = order[min (order.length - 1) reuseThreshold]? :=
      tracks.threshold_eq ▸ tracks.gated.gate_eq
    rw [← length, LineRefList.nodeAt_eq threads]
    exact ⟨_, atGate.trans gateHeld, gateHeld⟩
  · rw [LineRefList.nodeAt_eq threads] at held
    rw [LineRefList.refIsDistant_eq threads tracks.gated held, tracks.threshold_eq]
  · obtain ⟨place, node, -, atOrder, known⟩ := tracks.node_of_mem (tracks.known tag (found ▸ rfl))
    obtain rfl : node = ref := Option.some_inj.mp (known.symm.trans found)
    have atNode := List.getElem?_eq_getElem (threads.bound atOrder)
    have counted := tracks.distant_eq tag
    rw [found] at counted
    change (final.refList.nodes[node]?.map LineRef.distantRefs).getD 0 = _ at counted
    rw [atNode, Nat.zero_add] at counted
    exact ⟨_, atNode, counted⟩

/-- A threshold of one on a trace that comes back to its first line behind two others. -/
theorem lookupDistances_gate_return :
    2 ≤ 2 ∧ 1 ≤ 1 ∧ ∃ final distances,
      (new 2 true true 1).lookupDistances [0x40, 0x80, 0xc0, 0x40] = some (final, distances) ∧
      (∃ gate, final.refList.gate = some gate ∧ final.refList.nodeAt 1 = some gate) ∧
      (∀ place ref, final.refList.nodeAt place = some ref →
        final.refList.refIsDistant ref = some (decide (1 < place))) ∧
      ∀ tag ref, final.cacheMap.lookup tag = some ref → ∃ line,
        final.refList.load (some ref) = some line ∧
        line.distantRefs = distantAccesses 1 [0x40, 0x80, 0xc0, 0x40] distances tag := by
  obtain ⟨final, distances, finalEq, gate, distant, counts⟩ :=
    lookupDistances_gate 2 1 true true (by decide) (by decide) [0x40, 0x80, 0xc0, 0x40]
  exact ⟨by decide, by decide, final, distances, finalEq, gate (by decide), distant, counts⟩

end ReuseDistance

end BarrierPoint
