/-
This file proves the reuse distance tracker correct on whole traces. One
lookup is a step of the tracker from the history so far to the history with
one more access, and it returns the stack distance of the access. So a trace
of lookups on a fresh tracker returns the stack distances of the trace, and
the skip list never leads past its end.
-/

import BarrierPoint.Library.Recency
import BarrierPoint.MoveLine
import Mathlib.Data.List.InsertIdx

namespace BarrierPoint

open Library

/-! ### What a lookup has to return -/

/-- The reuse distance of an access after a history, most recent access first: `-1` for a first
access, else the number of distinct other tags since the previous access to the tag. -/
def stackDistance (history : List Address) (tag : Address) : Int :=
  if tag ∈ history then usedSince history tag else -1

/-- The reuse distances of a trace that follows a history. -/
def stackDistances (history : List Address) : List Address → List Int
  | [] => []
  | tag :: trace => stackDistance history tag :: stackDistances (tag :: history) trace

namespace ReuseDistance

/-! ### The tracker after a history -/

/-- The recency list holds the nodes of the history's tags in their recency order, and the map
leads from each of these tags to its node. -/
structure Tracks (reuse : ReuseDistance) (history : List Address) (order : List Nat) : Prop where
  represents : reuse.refList.Represents order
  spaced : 2 ≤ reuse.refList.skipDistance
  nodes_eq : (recency history).map reuse.cacheMap.lookup = order.map some
  known : ∀ tag, (reuse.cacheMap.lookup tag).isSome → tag ∈ history

/-- A fresh tracker knows no tag. -/
theorem cacheMap_new (skipDist : Nat) (verify debugVerbose : Bool) (reuseThreshold : Nat)
    (tag : Address) :
    (new skipDist verify debugVerbose reuseThreshold).cacheMap.lookup tag = none :=
  AList.lookup_empty tag

theorem tracks_new {skipDist : Nat} (spaced : 2 ≤ skipDist) (verify debugVerbose : Bool)
    (reuseThreshold : Nat) :
    (new skipDist verify debugVerbose reuseThreshold).Tracks [] [] where
  represents := LineRefList.represents_new reuseThreshold skipDist verify debugVerbose
  spaced := spaced
  nodes_eq := rfl
  known := by
    intro tag found
    rw [cacheMap_new] at found
    cases found

variable {reuse : ReuseDistance} {history : List Address} {order : List Nat}

/-- The first lookup of a trace, and the others. -/
theorem lookupDistances_cons {next final : ReuseDistance} {tag : Address} {trace : List Address}
    {distance : Int} {distances : List Int}
    (first : reuse.lookupDistance tag = some (next, distance))
    (others : next.lookupDistances trace = some (final, distances)) :
    reuse.lookupDistances (tag :: trace) = some (final, distance :: distances) := by
  show (reuse.lookupDistance tag).bind _ = _
  rw [first, Option.bind_some]
  show (next.lookupDistances trace).bind _ = _
  rw [others]
  rfl

/-- What one lookup preserves, while it returns the stack distance of the access, the lookups of a
trace preserve. -/
theorem lookup_run_of_step (Inv : ReuseDistance → List Address → List Nat → Prop)
    (step : ∀ {reuse history order}, Inv reuse history order → ∀ tag, ∃ next order',
      reuse.lookupDistance tag = some (next, stackDistance history tag) ∧
        Inv next (tag :: history) order') (trace : List Address) :
    ∀ {reuse : ReuseDistance} {history : List Address} {order : List Nat},
      Inv reuse history order → ∃ final order',
        reuse.lookupDistances trace = some (final, stackDistances history trace) ∧
          Inv final (trace.reverse ++ history) order' := by
  induction trace with
  | nil =>
    intro reuse history order holds
    exact ⟨reuse, order, rfl, holds⟩
  | cons tag trace inductionHypothesis =>
    intro reuse history order holds
    obtain ⟨next, nextOrder, nextEq, nextHolds⟩ := step holds tag
    obtain ⟨final, finalOrder, finalEq, finalHolds⟩ := inductionHypothesis nextHolds
    exact ⟨final, finalOrder, lookupDistances_cons nextEq finalEq, by simpa using finalHolds⟩

namespace Tracks

/-- A tag of the history stands at the place of its node. -/
theorem node_of_mem (tracks : reuse.Tracks history order) {tag : Address}
    (seen : tag ∈ history) : ∃ place ref : Nat, (recency history)[place]? = some tag ∧
      order[place]? = some ref ∧ reuse.cacheMap.lookup tag = some ref := by
  obtain ⟨place, atPlace⟩ := List.getElem?_of_mem ((mem_recency history tag).mpr seen)
  have entry : (order.map some)[place]? = some (reuse.cacheMap.lookup tag) := by
    rw [← tracks.nodes_eq, List.getElem?_map, atPlace]
    rfl
  rw [List.getElem?_map] at entry
  obtain ⟨ref, atOrder, found⟩ := Option.map_eq_some_iff.mp entry
  exact ⟨place, ref, atPlace, atOrder, found.symm⟩

theorem lookup_eq_none (tracks : reuse.Tracks history order) {tag : Address}
    (fresh : tag ∉ history) : reuse.cacheMap.lookup tag = none :=
  Option.not_isSome_iff_eq_none.mp fun found => fresh (tracks.known tag found)

/-- A first access adds a node in front. -/
theorem lookup_fresh (tracks : reuse.Tracks history order) {tag : Address}
    (fresh : tag ∉ history) : ∃ next, reuse.lookupDistance tag = some (next, -1) ∧
      next.Tracks (tag :: history) (reuse.refList.nodes.length :: order) ∧
      next.cacheMap = reuse.cacheMap.insert tag reuse.refList.nodes.length ∧
      next.refList.eraseSkips = (reuse.refList.withLine tag).eraseSkips := by
  obtain ⟨added, addedEq, represents, same⟩ :=
    LineRefList.addToFront_spec tracks.represents tracks.spaced tag
  have others : ∀ other ∈ recency history,
      (reuse.cacheMap.insert tag reuse.refList.nodes.length).lookup other =
        reuse.cacheMap.lookup other := by
    intro other member
    refine AList.lookup_insert_ne ?_
    rintro rfl
    exact fresh ((mem_recency history other).mp member)
  refine ⟨{ refList := added
            cacheMap := reuse.cacheMap.insert tag reuse.refList.nodes.length }, ?_,
    ⟨represents, ?_, ?_, ?_⟩, rfl, same⟩
  · rw [lookupDistance, tracks.lookup_eq_none fresh]
    show ((reuse.refList.allocate tag).1.addToFront reuse.refList.nodes.length).bind _ = _
    rw [addedEq]
    rfl
  · rw [LineRefList.skipDistance_of_eraseSkips_eq same]
    exact tracks.spaced
  · rw [recency_cons_of_notMem fresh, List.map_cons, List.map_cons, AList.lookup_insert,
      List.map_congr_left others, tracks.nodes_eq]
  · intro other found
    by_cases same : other = tag
    · subst same
      exact List.mem_cons_self
    · rw [AList.lookup_insert_ne same] at found
      exact List.mem_cons_of_mem _ (tracks.known other found)

/-- A repeated access returns the place of the line and moves it to the front. -/
theorem lookup_seen (tracks : reuse.Tracks history order) {tag : Address} {place ref : Nat}
    (atPlace : (recency history)[place]? = some tag) (atOrder : order[place]? = some ref)
    (found : reuse.cacheMap.lookup tag = some ref) : ∃ moved,
      reuse.refList.moveToFront ref = some (moved, (place : Int)) ∧
      reuse.lookupDistance tag = some ({ reuse with refList := moved }, (place : Int)) ∧
      { reuse with refList := moved }.Tracks (tag :: history) (ref :: order.eraseIdx place) := by
  obtain ⟨moved, movedEq, represents, sameDistance⟩ :=
    LineRefList.moveToFront_spec tracks.represents tracks.spaced atOrder
  refine ⟨moved, movedEq, ?_, ⟨represents, ?_, ?_, ?_⟩⟩
  · rw [lookupDistance, found]
    show (reuse.refList.moveToFront ref).bind _ = _
    rw [movedEq]
    rfl
  · rw [sameDistance]
    exact tracks.spaced
  · rw [recency_cons_of_getElem? atPlace, List.map_cons, List.map_cons, ← List.eraseIdx_map,
      ← List.eraseIdx_map, tracks.nodes_eq, found]
  · intro other known
    exact List.mem_cons_of_mem _ (tracks.known other known)

/-- One lookup returns the stack distance of the access. -/
theorem lookup_step (tracks : reuse.Tracks history order) (tag : Address) :
    ∃ next order', reuse.lookupDistance tag = some (next, stackDistance history tag) ∧
      next.Tracks (tag :: history) order' := by
  unfold stackDistance
  split
  · rename_i seen
    obtain ⟨place, ref, atPlace, atOrder, found⟩ := tracks.node_of_mem seen
    obtain ⟨moved, -, lookupEq, nextTracks⟩ := tracks.lookup_seen atPlace atOrder found
    rw [usedSince_of_getElem? atPlace]
    exact ⟨_, _, lookupEq, nextTracks⟩
  · rename_i fresh
    obtain ⟨next, lookupEq, nextTracks, -, -⟩ := tracks.lookup_fresh fresh
    exact ⟨next, _, lookupEq, nextTracks⟩

/-- The lookups of a trace return its stack distances. -/
theorem lookup_run (trace : List Address) (tracks : reuse.Tracks history order) :
    ∃ final order', reuse.lookupDistances trace = some (final, stackDistances history trace) ∧
      final.Tracks (trace.reverse ++ history) order' :=
  lookup_run_of_step Tracks (fun known tag => known.lookup_step tag) trace tracks

end Tracks

/-- Every trace of lookups on a fresh tracker returns the stack distances of the trace, for every
skip distance from two on and every threshold, also with the debug walk from the head enabled:
no pointer followed on the way is null, and no assertion fails. -/
theorem lookupDistances_eq_stackDistances (skipDist reuseThreshold : Nat)
    (verify debugVerbose : Bool) (spaced : 2 ≤ skipDist) (trace : List Address) :
    ∃ final, (new skipDist verify debugVerbose reuseThreshold).lookupDistances trace =
      some (final, stackDistances [] trace) := by
  obtain ⟨final, order, finalEq, -⟩ :=
    Tracks.lookup_run trace (tracks_new spaced verify debugVerbose reuseThreshold)
  exact ⟨final, finalEq⟩

/-- With a skip distance of two, the third line brings in the first skip node and the fifth one the
second; the lookups of older lines move them, or pass them on the way to the front. -/
theorem lookupDistances_skipNodes :
    2 ≤ 2 ∧ ∃ final, (new 2 true true 1).lookupDistances
        [0x40, 0x80, 0xc0, 0x100, 0x40, 0x140, 0x80, 0x100] =
      some (final, [-1, -1, -1, -1, 3, -1, 4, 3]) :=
  ⟨by decide, lookupDistances_eq_stackDistances 2 1 true true (by decide)
    [0x40, 0x80, 0xc0, 0x100, 0x40, 0x140, 0x80, 0x100]⟩

end ReuseDistance

end BarrierPoint
