/-
This file proves that moving a known line returns its place in the recency
list and puts its node in front. The nearest skip node at or before the line
splits the skip list: the slots up to it move one node earlier, and the slots
behind it stay. That is the skip list of the new sequence, since everything in
front of the line moves one place back.
-/

import BarrierPoint.AddLine

namespace BarrierPoint

open Library

namespace LineRefList

/-! ### The skip nodes at or before a place -/

/-- The slot of the skip node with the given index. -/
def slotAt (distance : Nat) (order : List Nat) (index : Nat) : Nat × Nat :=
  (order.getD (skipPlace distance order.length index) 0, skipPlace distance order.length index)

theorem skipSlots_eq_map (distance : Nat) (order : List Nat) :
    skipSlots distance order =
      (List.range (skipCount distance order.length)).map (slotAt distance order) := rfl

/-- The skip nodes at or before a place are those with the smallest indices. -/
theorem exists_passed {distance : Nat} (length place : Nat) (positive : 0 < distance) :
    ∃ passed rest, skipCount distance length = passed + rest ∧
      ∀ index < skipCount distance length,
        skipPlace distance length index ≤ place ↔ index < passed := by
  by_cases none : place < distance - 1 + (length + 1) % distance
  · refine ⟨0, skipCount distance length, (Nat.zero_add _).symm, fun index _ => ?_⟩
    unfold skipPlace
    omega
  · obtain ⟨beyond, rfl⟩ := Nat.exists_eq_add_of_le (Nat.not_lt.mp none)
    refine ⟨min (skipCount distance length) (beyond / distance + 1),
      skipCount distance length - (beyond / distance + 1), by omega, fun index counted => ?_⟩
    have steps : index * distance ≤ beyond ↔ index ≤ beyond / distance :=
      (Nat.le_div_iff_mul_le positive).symm
    unfold skipPlace
    omega

/-- When no skip node is passed, all of them are behind the place. -/
theorem lt_skipPlace_of_none {distance length place : Nat}
    (split : ∀ index < skipCount distance length,
      skipPlace distance length index ≤ place ↔ index < 0) :
    ∀ index < skipCount distance length, place < skipPlace distance length index :=
  fun index counted => Nat.not_le.mp fun reached =>
    Nat.not_lt_zero _ ((split index counted).mp reached)

/-- The slots at or before a place come before those behind it. -/
theorem skipSlots_split {distance passed rest : Nat} {order : List Nat}
    (count : skipCount distance order.length = passed + rest) :
    skipSlots distance order = (List.range passed).map (slotAt distance order) ++
      (List.range rest).map fun index => slotAt distance order (passed + index) := by
  rw [skipSlots_eq_map, count, List.range_add, List.map_append, List.map_map]
  rfl

/-- Moving the line at a place to the front takes the skip nodes at or before the place one node
earlier and leaves those behind it. -/
theorem skipSlots_moved {distance passed rest place ref : Nat} {order : List Nat}
    (spaced : 2 ≤ distance) (count : skipCount distance order.length = passed + rest)
    (split : ∀ index < skipCount distance order.length,
      skipPlace distance order.length index ≤ place ↔ index < passed)
    (inside : place < order.length) :
    skipSlots distance (ref :: order.eraseIdx place) =
      (List.range passed).map (fun index =>
        (order.getD (skipPlace distance order.length index - 1) 0,
          skipPlace distance order.length index)) ++
      (List.range rest).map fun index => slotAt distance order (passed + index) := by
  have length : (ref :: order.eraseIdx place).length = order.length := by
    rw [List.length_cons, List.length_eraseIdx_of_lt inside]
    omega
  have later : ∀ index, 1 ≤ skipPlace distance order.length index := by
    intro index
    unfold skipPlace
    omega
  have slot : ∀ index, slotAt distance (ref :: order.eraseIdx place) index =
      ((if skipPlace distance order.length index - 1 < place
          then order[skipPlace distance order.length index - 1]?
          else order[skipPlace distance order.length index]?).getD 0,
        skipPlace distance order.length index) := by
    intro index
    have positive := later index
    obtain ⟨before, beforeEq⟩ :=
      Nat.exists_eq_add_of_le' (show 1 ≤ skipPlace distance order.length index from positive)
    rw [slotAt, length, List.getD_eq_getElem?_getD, beforeEq, List.getElem?_cons_succ,
      List.getElem?_eraseIdx, Nat.add_sub_cancel]
  rw [skipSlots_split (length ▸ count)]
  refine congrArg₂ (· ++ ·) ?_ ?_
  · refine List.map_congr_left fun index member => ?_
    have before := List.mem_range.mp member
    have atMost := (split index (by omega)).mpr before
    have positive := later index
    rw [slot, if_pos (by omega), List.getD_eq_getElem?_getD]
  · refine List.map_congr_left fun index member => ?_
    have behind := List.mem_range.mp member
    have above := mt (split (passed + index) (by omega)).mp (by omega)
    rw [slot, if_neg (by omega), slotAt, List.getD_eq_getElem?_getD]

/-! ### Counting the reference and releasing the gate -/

/-- Stores outside head and links leave the threads alone. -/
theorem Threads.of_links_eq {first second : LineRefList} {order : List Nat}
    (threads : first.Threads order) (length : second.nodes.length = first.nodes.length)
    (head : second.head = first.head) (prev : second.prevOf = first.prevOf)
    (next : second.nextOf = first.nextOf)
    (gate : ∀ address, second.gate = some address → address < second.nodes.length) :
    second.Threads order := by
  constructor
  · exact threads.distinct
  · rw [length]
    exact threads.mem_iff
  · rw [head]
    exact threads.head_eq
  · rw [prev, next]
    exact threads.linked
  · exact gate

/-- Counting a reference changes neither links nor skip fields. -/
theorem Represents.write_count {list : LineRefList} {order : List Nat}
    (represents : list.Represents order) (ref : Nat) {change : LineRef → LineRef}
    (links : ∀ node, (change node).prev = node.prev ∧ (change node).next = node.next)
    (skips : ∀ node, ((change node).prevSkip, (change node).nextSkip, (change node).depth) =
      (node.prevSkip, node.nextSkip, node.depth)) :
    (list.write ref change).Represents order := by
  refine ⟨represents.toThreads.of_links_eq (write_length ..) rfl ?_ ?_ fun address atGate => ?_,
    represents.skips.of_skipFields_eq (skipFields_write list ref skips)⟩
  · exact prevOf_writeAt list (some ref) fun node => (links node).1
  · exact nextOf_writeAt list (some ref) fun node => (links node).2
  · rw [write_length]
    exact represents.gate_valid address atGate

/-- Moving the gate changes nothing else. -/
theorem Represents.set_gate {list : LineRefList} {order : List Nat}
    (represents : list.Represents order) {gate : Pointer}
    (valid : ∀ address, gate = some address → address < list.nodes.length) :
    { list with gate := gate }.Represents order :=
  ⟨represents.toThreads.of_links_eq rfl rfl rfl rfl valid,
    represents.skips.of_skipFields_eq rfl⟩

theorem refIsDistant_ne_none {list : LineRefList} {order : List Nat}
    (represents : list.Represents order) {ref : Nat} (bound : ref < list.nodes.length) :
    ∃ distant, list.refIsDistant ref = some distant ∧
      (distant = true → ∃ gate, list.gate = some gate) := by
  unfold refIsDistant
  cases atGate : list.gate with
  | none => exact ⟨false, rfl, nofun⟩
  | some gate =>
    simp only [load_some, List.getElem?_eq_getElem bound,
      List.getElem?_eq_getElem (represents.gate_valid gate atGate)]
    exact ⟨_, rfl, fun _ => ⟨gate, rfl⟩⟩

/-- Releasing the gate keeps the sequence and all skip nodes. -/
theorem releaseGate_spec {list : LineRefList} {order : List Nat}
    (represents : list.Represents order) {ref : Nat} (bound : ref < list.nodes.length) :
    ∃ released, list.releaseGate ref = some released ∧ released.Represents order ∧
      released.skipDistance = list.skipDistance := by
  have step : ∀ {start : LineRefList} {gate : Nat}, start.Represents order →
      start.gate = some gate → ∃ released, start.stepGate = some released ∧
        released.Represents order ∧ released.skipDistance = start.skipDistance := by
    intro start gate known atGate
    have valid := known.gate_valid gate atGate
    exact ⟨_, stepGate_eq atGate valid,
      known.set_gate fun _ points => known.prevOf_valid valid points, rfl⟩
  obtain ⟨distant, distantEq, gated⟩ := refIsDistant_ne_none represents bound
  rw [releaseGate, distantEq, Option.bind_eq_bind, Option.bind_some]
  cases distant with
  | true =>
    obtain ⟨gate, atGate⟩ := gated rfl
    have counted : (list.write ref .countDistantRef).Represents order :=
      represents.write_count ref (fun _ => ⟨rfl, rfl⟩) fun _ => rfl
    rw [if_pos rfl, store_some bound, Option.bind_eq_bind, Option.bind_some]
    exact step counted atGate
  | false =>
    rw [if_neg Bool.false_ne_true]
    by_cases onGate : list.gate = some ref
    · rw [if_pos onGate]
      exact step represents onGate
    · rw [if_neg onGate]
      exact ⟨list, rfl, represents, rfl⟩

/-! ### Measuring the distance and shifting the skip nodes -/

section MoveLine

variable {list : LineRefList} {order : List Nat} {place ref passed rest : Nat}

/-- The last of the slots at or before the place, which the walk back ends at. -/
theorem getLast?_passed (distance : Nat) (order : List Nat) (passed : Nat) :
    (((List.range (passed + 1)).map (slotAt distance order)).getLast?).map Prod.fst =
      some (slotAt distance order passed).1 := by
  rw [List.range_succ, List.map_append, List.map_singleton, List.getLast?_concat]
  rfl

/-- Outside the places of the skip nodes no node has a depth. -/
theorem plain_of_notSkipPlace (represents : list.Represents order)
    (positive : 0 < list.skipDistance) (held : order[place]? = some ref)
    (plain : ¬IsSkipPlace list.skipDistance order.length place) :
    list.depthOf ref = some (-1) :=
  represents.skips.depth_of_not_skip represents.distinct positive (represents.bound held) held plain

/-- The walk bound is not reached on the way from a place to the front. -/
theorem lt_walkBound (represents : list.Represents order) (held : order[place]? = some ref) :
    place + 1 < list.walkBound := by
  have inside := (List.getElem?_eq_some_iff.mp held).1
  rw [represents.length_eq] at inside
  unfold walkBound
  omega

/-- With no skip node at or before the place, the walk back passes the head. -/
theorem walkBack_passesHead (represents : list.Represents order) (positive : 0 < list.skipDistance)
    (held : order[place]? = some ref)
    (ahead : ∀ index < skipCount list.skipDistance order.length,
      place < skipPlace list.skipDistance order.length index) :
    list.walkBack list.walkBound (some ref) 0 = some (none, (place : Int) + 1) := by
  have plain : ∀ other address, other ≤ place → order[other]? = some address →
      list.depthOf address = some (-1) := by
    intro other address upTo held'
    refine plain_of_notSkipPlace represents positive held' ?_
    rintro ⟨index, counted, rfl⟩
    exact absurd upTo (Nat.not_le.mpr (ahead index counted))
  rw [walkBack_of_plain represents.linked.prev_eq place 0 (lt_walkBound represents held) held plain,
    zero_add]

/-- The walk back ends at the last skip node at or before the place. -/
theorem walkBack_reachesSkip (represents : list.Represents order)
    (positive : 0 < list.skipDistance) (held : order[place]? = some ref)
    (count : skipCount list.skipDistance order.length = passed + 1 + rest)
    (split : ∀ index < skipCount list.skipDistance order.length,
      skipPlace list.skipDistance order.length index ≤ place ↔ index < passed + 1) :
    ∃ steps, place = skipPlace list.skipDistance order.length passed + steps ∧
      list.depthOf (slotAt list.skipDistance order passed).1 =
        some (skipPlace list.skipDistance order.length passed : Int) ∧
      list.walkBack list.walkBound (some ref) 0 =
        some (some (slotAt list.skipDistance order passed).1, (steps : Int)) := by
  have counted : passed < skipCount list.skipDistance order.length := by omega
  obtain ⟨steps, stepsEq⟩ :=
    Nat.exists_eq_add_of_le ((split passed counted).mpr (Nat.lt_succ_self _))
  obtain ⟨target, atStop⟩ : ∃ target,
      order[skipPlace list.skipDistance order.length passed]? = some target :=
    ⟨_, List.getElem?_eq_getElem (skipPlace_lt counted positive)⟩
  have slotEq : (slotAt list.skipDistance order passed).1 = target := getD_eq atStop
  have known := represents.skips.depth_of_skip atStop ⟨passed, counted, rfl⟩
  have plain : ∀ other address, skipPlace list.skipDistance order.length passed < other →
      other ≤ skipPlace list.skipDistance order.length passed + steps →
      order[other]? = some address → list.depthOf address = some (-1) := by
    intro other address after within held'
    refine plain_of_notSkipPlace represents positive held' ?_
    rintro ⟨index, countedIndex, rfl⟩
    have earlier := (split index countedIndex).mp (by omega)
    have ordered : skipPlace list.skipDistance order.length index ≤
      skipPlace list.skipDistance order.length passed := skipPlace_le_skipPlace (by omega)
    omega
  have enough := lt_walkBound represents held
  rw [slotEq]
  refine ⟨steps, stepsEq, known, ?_⟩
  rw [walkBack_of_stop represents.linked.prev_eq atStop known (by omega) steps 0
    (show steps < list.walkBound by omega) (stepsEq ▸ held) plain, zero_add]

/-- The walk back and the depth found there give the place. -/
theorem skipDist_spec (represents : list.Represents order) (spaced : 2 ≤ list.skipDistance)
    (held : order[place]? = some ref)
    (count : skipCount list.skipDistance order.length = passed + rest)
    (split : ∀ index < skipCount list.skipDistance order.length,
      skipPlace list.skipDistance order.length index ≤ place ↔ index < passed) :
    list.skipDist ref =
      some (((List.range passed).map (slotAt list.skipDistance order)).getLast?.map Prod.fst,
        (place : Int)) := by
  have positive : 0 < list.skipDistance := by omega
  cases passed with
  | zero =>
    rw [skipDist, walkBack_passesHead represents positive held (lt_skipPlace_of_none split)]
    simp
  | succ passed =>
    obtain ⟨steps, stepsEq, known, walked⟩ :=
      walkBack_reachesSkip represents positive held count split
    obtain ⟨node, atNode, depthEq, -, -⟩ := node_of_depthOf known
    have total : (steps : Int) + skipPlace list.skipDistance order.length passed = place := by
      omega
    rw [skipDist, walked, getLast?_passed]
    simp only [Option.bind_eq_bind, Option.bind_some, Option.isSome_some, if_true, load_some,
      atNode, depthEq, total]
    rfl

/-- The walk from the head of a debug build agrees with the place. -/
theorem verifyDist_spec (represents : list.Represents order) (held : order[place]? = some ref) :
    list.verifyDist ref place = some () := by
  unfold verifyDist
  split
  · have inside := (List.getElem?_eq_some_iff.mp held).1
    rw [represents.length_eq] at inside
    have brute := bruteDist_spec represents.distinct
      (fun address member => (represents.mem_iff address).mp member) represents.linked.next_eq
      place 0 (show place < list.walkBound by unfold walkBound; omega)
      (show order[0 + place]? = some ref by rwa [Nat.zero_add])
    rw [zero_add, ← represents.head_eq] at brute
    rw [brute, Option.bind_eq_bind, Option.bind_some]
    exact if_pos rfl
  · rfl

/-- The node before a node that is not the head. -/
def nodeBefore (list : LineRefList) (address : Nat) : Nat := (list.prevOf address).getD 0

/-- A skip node is never the head, so there is a node before it. -/
theorem prevOf_slotAt (represents : list.Represents order) (spaced : 2 ≤ list.skipDistance)
    {index : Nat} (counted : index < skipCount list.skipDistance order.length) :
    list.prevOf (slotAt list.skipDistance order index).1 =
        some (list.nodeBefore (slotAt list.skipDistance order index).1) ∧
      order[skipPlace list.skipDistance order.length index - 1]? =
        some (list.nodeBefore (slotAt list.skipDistance order index).1) := by
  have bound := skipPlace_lt counted (show 0 < list.skipDistance by omega)
  have atSkip := List.getElem?_eq_getElem bound
  have later : 1 ≤ skipPlace list.skipDistance order.length index := by
    unfold skipPlace
    omega
  have atBefore := List.getElem?_eq_getElem
    (show skipPlace list.skipDistance order.length index - 1 < order.length by omega)
  have points : list.prevOf (slotAt list.skipDistance order index).1 =
      order[skipPlace list.skipDistance order.length index - 1]? := by
    rw [slotAt, getD_eq atSkip, represents.linked.prev_eq _ _ atSkip, predecessor,
      if_neg (by omega)]
  have value : list.nodeBefore (slotAt list.skipDistance order index).1 =
      order[skipPlace list.skipDistance order.length index - 1] := by
    rw [nodeBefore, points, atBefore]
    rfl
  rw [points, value]
  exact ⟨atBefore, atBefore⟩

/-- The node before a skip node is no skip node. -/
theorem nodeBefore_notMem_skipSlots (represents : list.Represents order)
    (spaced : 2 ≤ list.skipDistance) {index : Nat}
    (counted : index < skipCount list.skipDistance order.length) :
    list.nodeBefore (slotAt list.skipDistance order index).1 ∉
      (skipSlots list.skipDistance order).map Prod.fst := by
  have positive : 0 < list.skipDistance := by omega
  intro again
  obtain ⟨other, -, otherEq⟩ := isSkipPlace_of_mem represents.distinct positive
    (prevOf_slotAt represents spaced counted).2 again
  have apart : skipPlace list.skipDistance order.length index ≠
      skipPlace list.skipDistance order.length other + 1 := skipPlace_ne_succ spaced
  unfold skipPlace at otherEq apart
  omega

/-- Different skip nodes have different nodes before them. -/
theorem nodup_nodeBefore (represents : list.Represents order) (spaced : 2 ≤ list.skipDistance)
    (within : passed ≤ skipCount list.skipDistance order.length) :
    (((List.range passed).map (slotAt list.skipDistance order)).map
      fun slot => list.nodeBefore slot.1).Nodup := by
  rw [List.map_map]
  refine List.Nodup.map_on (fun first memberFirst second memberSecond sameBefore => ?_)
    List.nodup_range
  have firstEq := (prevOf_slotAt represents spaced
    ((List.mem_range.mp memberFirst).trans_le within)).2
  have secondEq := (prevOf_slotAt represents spaced
    ((List.mem_range.mp memberSecond).trans_le within)).2
  have samePlace := (getElem?_eq_some_iff_eq represents.distinct secondEq _).mp
    (firstEq.trans (congrArg some sameBefore))
  have same : skipPlace list.skipDistance order.length first =
      skipPlace list.skipDistance order.length second := by
    unfold skipPlace at samePlace ⊢
    omega
  exact skipPlace_injective (show 0 < list.skipDistance by omega) same

/-- Without a skip node at or before the line nothing is shifted. -/
theorem shiftSkipNodes_none (represents : list.Represents order) (positive : 0 < list.skipDistance)
    (held : order[place]? = some ref)
    (plain : ¬IsSkipPlace list.skipDistance order.length place) :
    list.shiftSkipNodes ref none = some list := by
  obtain ⟨node, atNode, depthEq, -, -⟩ :=
    node_of_depthOf (plain_of_notSkipPlace represents positive held plain)
  simp only [shiftSkipNodes, Option.isSome_none, Bool.false_eq_true, if_false, load_some, atNode,
    Option.bind_eq_bind, Option.bind_some, depthEq, guard_true]
  rfl

/-- Shifting hands every skip node at or before the place to its predecessor. -/
theorem shiftSkipNodes_spec (represents : list.Represents order) (spaced : 2 ≤ list.skipDistance)
    (held : order[place]? = some ref)
    (count : skipCount list.skipDistance order.length = passed + rest)
    (split : ∀ index < skipCount list.skipDistance order.length,
      skipPlace list.skipDistance order.length index ≤ place ↔ index < passed) :
    ∃ shifted, list.shiftSkipNodes ref
        (((List.range passed).map (slotAt list.skipDistance order)).getLast?.map Prod.fst) =
          some shifted ∧
      shifted.SkipLayout (skipSlots list.skipDistance (ref :: order.eraseIdx place)) ∧
      shifted.eraseSkips = list.eraseSkips := by
  have positive : 0 < list.skipDistance := by omega
  have within : passed ≤ skipCount list.skipDistance order.length := by omega
  have inside := (List.getElem?_eq_some_iff.mp held).1
  have layout := represents.skips
  rw [skipSlots_split count] at layout
  have placed : ∀ slot ∈ (List.range passed).map (slotAt list.skipDistance order), ∃ index,
      index < skipCount list.skipDistance order.length ∧
        slotAt list.skipDistance order index = slot := by
    intro slot member
    obtain ⟨index, inRange, rfl⟩ := List.mem_map.mp member
    exact ⟨index, (List.mem_range.mp inRange).trans_le within, rfl⟩
  have shiftedSlots : ((List.range passed).map (slotAt list.skipDistance order)).map
        (fun slot => (list.nodeBefore slot.1, slot.2)) ++
      (List.range rest).map (fun index => slotAt list.skipDistance order (passed + index)) =
      skipSlots list.skipDistance (ref :: order.eraseIdx place) := by
    rw [skipSlots_moved spaced count split inside, List.map_map]
    refine congrArg (· ++ _) (List.map_congr_left fun index member => ?_)
    rw [getD_eq (prevOf_slotAt represents spaced ((List.mem_range.mp member).trans_le within)).2]
    rfl
  have enough : ((List.range passed).map (slotAt list.skipDistance order)).length <
      list.walkBound := by
    have short := skipSlots_length_le list.skipDistance order
    rw [skipSlots_split count, List.length_append, represents.length_eq] at short
    unfold walkBound
    omega
  have points : ∀ slot ∈ (List.range passed).map (slotAt list.skipDistance order),
      list.prevOf slot.1 = some (list.nodeBefore slot.1) := by
    intro slot member
    obtain ⟨index, counted, rfl⟩ := placed slot member
    exact (prevOf_slotAt represents spaced counted).1
  have bounds : ∀ slot ∈ (List.range passed).map (slotAt list.skipDistance order),
      list.nodeBefore slot.1 < list.nodes.length := by
    intro slot member
    obtain ⟨index, counted, rfl⟩ := placed slot member
    exact represents.bound (prevOf_slotAt represents spaced counted).2
  have fresh : ∀ slot ∈ (List.range passed).map (slotAt list.skipDistance order),
      list.nodeBefore slot.1 ∉ (skipSlots list.skipDistance order).map Prod.fst := by
    intro slot member
    obtain ⟨index, counted, rfl⟩ := placed slot member
    exact nodeBefore_notMem_skipSlots represents spaced counted
  rw [skipSlots_split count] at fresh
  obtain ⟨shifted, shiftedEq, shiftedLayout, same⟩ := shiftSkips_spec list.nodeBefore _ layout enough
    points bounds fresh (nodup_nodeBefore represents spaced within)
  cases passed with
  | zero =>
    have plain : ¬IsSkipPlace list.skipDistance order.length place := by
      rintro ⟨index, counted, reached⟩
      exact absurd reached (lt_skipPlace_of_none split index counted).ne'
    exact ⟨list, shiftSkipNodes_none represents positive held plain, shiftedSlots ▸ layout, rfl⟩
  | succ passed =>
    refine ⟨shifted, ?_, shiftedSlots ▸ shiftedLayout, same⟩
    rw [getLast?_passed] at shiftedEq ⊢
    exact shiftedEq

/-! ### Relinking the line -/

/-- The memory after `relink`, for a node with the given neighbours. -/
def relinked (list : LineRefList) (ref : Nat) (prev next : Pointer) : LineRefList :=
  { ((((list.writeAt prev (.setNext next)).writeAt next (.setPrev prev)).write ref
      (.setPrev none)).write ref (.setNext list.head)).writeAt list.head (.setPrev (some ref)) with
    head := some ref }

theorem relink_eq {list : LineRefList} {ref before head : Nat} {next : Pointer}
    (bound : ref < list.nodes.length) (prevEq : list.prevOf ref = some before)
    (nextEq : list.nextOf ref = next) (headEq : list.head = some head)
    (beforeBound : before < list.nodes.length) (headBound : head < list.nodes.length)
    (nextValid : ∀ address, next = some address → address < list.nodes.length) :
    list.relink ref = some (list.relinked ref (some before) next) := by
  have atRef := List.getElem?_eq_getElem bound
  rw [prevOf, atRef, Option.bind_some] at prevEq
  rw [nextOf, atRef, Option.bind_some] at nextEq
  simp only [relink, load_some, atRef, Option.bind_eq_bind, Option.bind_some, prevEq, nextEq]
  rw [store_some beforeBound, Option.bind_some, storeIfSet_eq (by simpa using nextValid),
    Option.bind_some, store_some (by simpa using bound), Option.bind_some,
    store_some (by simpa using bound), Option.bind_some]
  show (((((list.write before (.setNext next)).writeAt next (.setPrev (some before))).write ref
    (.setPrev none)).write ref (.setNext list.head)).store list.head (.setPrev (some ref))).bind _
      = _
  rw [relinked, headEq, store_some (by simpa using headBound), Option.bind_some]
  rfl

theorem relinked_length (list : LineRefList) (ref : Nat) (prev next : Pointer) :
    (list.relinked ref prev next).nodes.length = list.nodes.length := by
  refine (writeAt_length ..).trans ?_
  rw [write_length, write_length, writeAt_length, writeAt_length]

theorem skipFields_relinked (list : LineRefList) (ref : Nat) (prev next : Pointer) :
    (list.relinked ref prev next).skipFields = list.skipFields := by
  show (((((list.writeAt prev (.setNext next)).writeAt next (.setPrev prev)).write ref
    (.setPrev none)).write ref (.setNext list.head)).writeAt list.head
      (.setPrev (some ref))).skipFields = list.skipFields
  rw [skipFields_writeAt, skipFields_write, skipFields_write, skipFields_writeAt,
    skipFields_writeAt] <;> exact fun _ => rfl

theorem prevOf_relinked {list : LineRefList} {ref address : Nat} {prev next : Pointer}
    (bound : address < list.nodes.length) :
    (list.relinked ref prev next).prevOf address =
      if list.head = some address then some ref else if address = ref then none
      else if next = some address then prev else list.prevOf address := by
  simp only [prevOf, relinked, writeAt_getElem?, write_getElem?, eq_comm (a := ref),
    List.getElem?_eq_getElem bound]
  split_ifs <;> rfl

theorem nextOf_relinked {list : LineRefList} {ref address : Nat} {prev next : Pointer}
    (bound : address < list.nodes.length) :
    (list.relinked ref prev next).nextOf address =
      if address = ref then list.head else if prev = some address then next
      else list.nextOf address := by
  simp only [nextOf, relinked, writeAt_getElem?, write_getElem?, eq_comm (a := ref),
    List.getElem?_eq_getElem bound]
  split_ifs <;> rfl

/-- Relinking moves the node at a place behind the head to the front. -/
theorem relink_spec (threads : list.Threads order) (held : order[place + 1]? = some ref) :
    ∃ moved, list.relink ref = some moved ∧ moved.Threads (ref :: order.eraseIdx (place + 1)) ∧
      moved.head = some ref ∧ moved.skipFields = list.skipFields ∧
      moved.skipDistance = list.skipDistance := by
  have inside := (List.getElem?_eq_some_iff.mp held).1
  have refMember := List.mem_of_getElem? held
  have valid : ∀ address ∈ order, address < list.nodes.length :=
    fun address member => (threads.mem_iff address).mp member
  have atBefore := List.getElem?_eq_getElem (show place < order.length by omega)
  have atHead := List.getElem?_eq_getElem (show 0 < order.length by omega)
  have prevEq : list.prevOf ref = some order[place] :=
    (threads.linked.prev_eq _ _ held).trans atBefore
  have nextEq : list.nextOf ref = order[place + 2]? := threads.linked.next_eq _ _ held
  have notHead : list.head ≠ some ref := by
    rw [threads.head_eq, Ne, getElem?_eq_some_iff_eq threads.distinct held]
    omega
  refine ⟨_, relink_eq (valid ref refMember) prevEq nextEq (threads.head_eq.trans atHead)
    (threads.bound atBefore) (threads.bound atHead) fun address points => threads.bound points,
    ?_, rfl, skipFields_relinked .., rfl⟩
  have erased := eraseIdx_eq_erase threads.distinct held
  constructor
  · rw [erased]
    exact List.nodup_cons.mpr ⟨threads.distinct.not_mem_erase, threads.distinct.erase ref⟩
  · intro address
    rw [erased, relinked_length, ← threads.mem_iff, ← (List.perm_cons_erase refMember).mem_iff]
  · rfl
  · refine threads.linked.moveToFront threads.distinct held ?_ ?_ ?_ ?_
    · rw [prevOf_relinked (valid ref refMember), if_neg notHead, if_pos rfl]
    · rw [nextOf_relinked (valid ref refMember), if_pos rfl, threads.head_eq]
    · intro address member other
      rw [prevOf_relinked (valid address member), if_neg other, threads.head_eq, ← atBefore]
    · intro address member other
      rw [nextOf_relinked (valid address member), if_neg other, ← atBefore]
  · intro address atGate
    rw [relinked_length]
    exact threads.gate_valid address atGate

/-! ### Moving a line to the front -/

/-- A line behind the head is moved to the front, and the distance is its place. -/
theorem moveLine_spec (represents : list.Represents order) (spaced : 2 ≤ list.skipDistance)
    (held : order[place + 1]? = some ref) :
    ∃ moved, list.moveLine ref = some (moved, ((place + 1 : Nat) : Int)) ∧
      moved.Represents (ref :: order.eraseIdx (place + 1)) ∧
      moved.skipDistance = list.skipDistance := by
  obtain ⟨released, releasedEq, known, sameDistance⟩ :=
    releaseGate_spec represents (represents.bound held)
  rw [← sameDistance] at spaced
  obtain ⟨passed, rest, count, split⟩ :=
    exists_passed order.length (place + 1) (show 0 < released.skipDistance by omega)
  obtain ⟨shifted, shiftedEq, layout, sameShifted⟩ :=
    shiftSkipNodes_spec known spaced held count split
  obtain ⟨relinked, relinkedEq, threads, atHead, sameSkips, sameRelinked⟩ :=
    relink_spec (known.toThreads.of_eraseSkips_eq sameShifted) held
  have distanceEq : relinked.skipDistance = list.skipDistance := by
    rw [sameRelinked, skipDistance_of_eraseSkips_eq sameShifted, sameDistance]
  refine ⟨relinked.stamped, ?_, ⟨threads.of_links_eq (stamped_length _) rfl (prevOf_stamped _)
    (nextOf_stamped _) fun address atGate => ?_, ?_⟩, distanceEq⟩
  · rw [moveLine, releasedEq, Option.bind_eq_bind, Option.bind_some,
      skipDist_spec known spaced held count split, Option.bind_eq_bind, Option.bind_some]
    simp only [verifyDist_spec known held, Option.bind_some, shiftedEq, relinkedEq,
      stampHead_eq atHead (threads.head_valid atHead)]
    rfl
  · rw [stamped_length]
    exact threads.gate_valid address atGate
  · show relinked.stamped.SkipLayout (skipSlots relinked.skipDistance _)
    rw [distanceEq, ← sameDistance]
    exact layout.of_skipFields_eq ((skipFields_stamped _).trans sameSkips)

/-- Referencing a known line returns its place and moves it to the front. -/
theorem moveToFront_spec (represents : list.Represents order) (spaced : 2 ≤ list.skipDistance)
    (held : order[place]? = some ref) :
    ∃ moved, list.moveToFront ref = some (moved, (place : Int)) ∧
      moved.Represents (ref :: order.eraseIdx place) ∧
      moved.skipDistance = list.skipDistance := by
  have counted : (list.write ref .countRef).Represents order :=
    represents.write_count ref (fun _ => ⟨rfl, rfl⟩) fun _ => rfl
  rw [moveToFront, store_some (represents.bound held), Option.bind_eq_bind, Option.bind_some]
  cases place with
  | zero =>
    have atHead : (list.write ref .countRef).head = some ref := counted.head_eq.trans held
    rw [if_pos atHead]
    refine ⟨_, rfl, ?_, rfl⟩
    cases order with
    | nil => cases held
    | cons first order =>
      obtain rfl : first = ref := Option.some_inj.mp held
      exact counted
  | succ place =>
    have notHead : (list.write ref .countRef).head ≠ some ref := by
      rw [counted.head_eq, Ne, getElem?_eq_some_iff_eq counted.distinct held]
      omega
    rw [if_neg notHead]
    exact moveLine_spec counted spaced held

end MoveLine

end LineRefList

end BarrierPoint
