/-
This file proves that adding a line puts its node in front of the recency
list. The operation starts with stores to fields outside the skip list, which
leave the skip list as it stands, and ends with work on the skip list, which
leaves the other fields as they stand. So the memory is followed in two
halves, links and time stamps through the lists without skip fields, and the
skip list through its slots.
-/

import BarrierPoint.RecencyList

namespace BarrierPoint

open Library

namespace LineRefList

/-! ### Stores outside the skip list -/

/-- The skip fields of all nodes. -/
def skipFields (list : LineRefList) : List (Pointer × Pointer × Int) :=
  list.nodes.map fun node => (node.prevSkip, node.nextSkip, node.depth)

theorem skipFields_write (list : LineRefList) (address : Nat) {change : LineRef → LineRef}
    (kept : ∀ node, ((change node).prevSkip, (change node).nextSkip, (change node).depth) =
      (node.prevSkip, node.nextSkip, node.depth)) :
    (list.write address change).skipFields = list.skipFields := by
  refine List.ext_getElem? fun other => ?_
  rw [skipFields, skipFields, List.getElem?_map, List.getElem?_map, write_getElem?]
  cases list.nodes[other]? with
  | none => split <;> rfl
  | some node =>
    by_cases here : address = other
    · rw [if_pos here]
      exact congrArg some (kept node)
    · rw [if_neg here]

theorem skipFields_writeAt (list : LineRefList) (pointer : Pointer) {change : LineRef → LineRef}
    (kept : ∀ node, ((change node).prevSkip, (change node).nextSkip, (change node).depth) =
      (node.prevSkip, node.nextSkip, node.depth)) :
    (list.writeAt pointer change).skipFields = list.skipFields := by
  cases pointer with
  | none => rfl
  | some address => exact skipFields_write list address kept

/-- A layout speaks of the skip fields only. -/
theorem SkipLayout.of_skipFields_eq {first second : LineRefList} {slots : List (Nat × Nat)}
    (layout : first.SkipLayout slots) (same : second.skipFields = first.skipFields) :
    second.SkipLayout slots := by
  have length : second.nodes.length = first.nodes.length := by
    simpa [skipFields] using congrArg List.length same
  have entry : ∀ address : Nat,
      second.nodes[address]?.map (fun node => (node.prevSkip, node.nextSkip, node.depth)) =
        first.nodes[address]?.map fun node => (node.prevSkip, node.nextSkip, node.depth) := by
    intro address
    rw [← List.getElem?_map, ← List.getElem?_map]
    exact congrArg (·[address]?) same
  have prevSame : second.prevSkipOf = first.prevSkipOf := by
    funext address
    have fields := congrArg (fun entry => entry.bind Prod.fst) (entry address)
    simpa [prevSkipOf, Option.bind_map, Function.comp_def] using fields
  have nextSame : second.nextSkipOf = first.nextSkipOf := by
    funext address
    have fields := congrArg (fun entry => entry.bind fun fields => fields.2.1) (entry address)
    simpa [nextSkipOf, Option.bind_map, Function.comp_def] using fields
  have depthSame : second.depthOf = first.depthOf := by
    funext address
    have fields := congrArg (fun entry => entry.map fun fields => fields.2.2) (entry address)
    simpa [depthOf, Option.map_map, Function.comp_def] using fields
  constructor
  · exact layout.distinct
  · rw [length]
    exact layout.valid
  · rw [prevSame, nextSame]
    exact layout.linked
  · rw [depthSame]
    exact layout.depth_eq
  · rw [length, prevSame, nextSame, depthSame]
    exact layout.plain

/-- A new node is outside the skip list. -/
theorem SkipLayout.allocate {list : LineRefList} {slots : List (Nat × Nat)}
    (layout : list.SkipLayout slots) (tag : Address) :
    (list.allocate tag).1.SkipLayout slots := by
  have old : ∀ address, address < list.nodes.length →
      (list.allocate tag).1.nodes[address]? = list.nodes[address]? :=
    fun address bound => List.getElem?_append_left bound
  have length : (list.allocate tag).1.nodes.length = list.nodes.length + 1 :=
    List.length_append
  constructor
  · exact layout.distinct
  · intro address member
    have bound := layout.valid address member
    omega
  · refine layout.linked.congr (fun address member => ?_) fun address member => ?_
    · rw [prevSkipOf, prevSkipOf, old address (layout.valid address member)]
    · rw [nextSkipOf, nextSkipOf, old address (layout.valid address member)]
  · intro slot member
    have bound := layout.valid slot.1 (List.mem_map_of_mem member)
    rw [depthOf, old slot.1 bound]
    exact layout.depth_eq slot member
  · intro address bound outside
    by_cases fresh : address = list.nodes.length
    · have atFresh : (list.allocate tag).1.nodes[address]? = some (LineRef.new tag) := by
        subst fresh
        exact List.getElem?_concat_length
      rw [prevSkipOf, nextSkipOf, depthOf, atFresh]
      exact ⟨rfl, rfl, rfl⟩
    · have inside : address < list.nodes.length := by omega
      rw [prevSkipOf, nextSkipOf, depthOf, old address inside]
      exact layout.plain address inside outside

/-! ### The gate and the time stamp -/

theorem stepGate_eq {list : LineRefList} {gate : Nat} (atGate : list.gate = some gate)
    (valid : gate < list.nodes.length) :
    list.stepGate = some { list with gate := list.prevOf gate } := by
  rw [stepGate, atGate, load_some, List.getElem?_eq_getElem valid, Option.bind_eq_bind,
    Option.bind_some, prevOf, List.getElem?_eq_getElem valid]
  rfl

/-- The memory after `stampHead`. -/
def stamped (list : LineRefList) : LineRefList :=
  { list.writeAt list.head (.setTimeStamp list.curTime) with curTime := list.curTime + 1 }

theorem stampHead_eq {list : LineRefList} {head : Nat} (atHead : list.head = some head)
    (valid : head < list.nodes.length) : list.stampHead = some list.stamped := by
  rw [stampHead, stamped, atHead, store_some valid]
  rfl

theorem prevOf_writeAt (list : LineRefList) (pointer : Pointer) {change : LineRef → LineRef}
    (kept : ∀ node, (change node).prev = node.prev) :
    (list.writeAt pointer change).prevOf = list.prevOf := by
  funext address
  rw [prevOf, prevOf, writeAt_getElem?]
  cases list.nodes[address]? <;> split <;> simp [kept]

theorem nextOf_writeAt (list : LineRefList) (pointer : Pointer) {change : LineRef → LineRef}
    (kept : ∀ node, (change node).next = node.next) :
    (list.writeAt pointer change).nextOf = list.nextOf := by
  funext address
  rw [nextOf, nextOf, writeAt_getElem?]
  cases list.nodes[address]? <;> split <;> simp [kept]

theorem stamped_length (list : LineRefList) : list.stamped.nodes.length = list.nodes.length :=
  writeAt_length ..

theorem skipFields_stamped (list : LineRefList) : list.stamped.skipFields = list.skipFields :=
  skipFields_writeAt list list.head fun _ => rfl

theorem prevOf_stamped (list : LineRefList) : list.stamped.prevOf = list.prevOf :=
  prevOf_writeAt list list.head fun _ => rfl

theorem nextOf_stamped (list : LineRefList) : list.stamped.nextOf = list.nextOf :=
  nextOf_writeAt list list.head fun _ => rfl

/-! ### Adding a line -/

/-- The memory after `updateHead`. -/
def pushed (list : LineRefList) (ref : Nat) : LineRefList :=
  { (list.write ref (.setNext list.head)).writeAt list.head (.setPrev (some ref)) with
    head := some ref
    gate := if list.gate.isNone then some ref else list.gate }

theorem updateHead_eq {list : LineRefList} {ref : Nat} (bound : ref < list.nodes.length)
    (headValid : ∀ address, list.head = some address → address < list.nodes.length) :
    list.updateHead ref = some (list.pushed ref) := by
  have writtenValid : ∀ address, (list.write ref (.setNext list.head)).head = some address →
      address < (list.write ref (.setNext list.head)).nodes.length := by
    intro address atHead
    rw [write_length]
    exact headValid address atHead
  simp only [updateHead, store_some bound, Option.bind_eq_bind, Option.bind_some,
    storeIfSet_eq writtenValid, pushed]
  refine congrArg some ?_
  show (if list.gate.isNone then _ else _) = _
  by_cases noGate : list.gate.isNone
  · rw [if_pos noGate, if_pos noGate]
    rfl
  · rw [if_neg noGate, if_neg noGate]
    rfl

theorem pushed_length (list : LineRefList) (ref : Nat) :
    (list.pushed ref).nodes.length = list.nodes.length :=
  (writeAt_length ..).trans (write_length ..)

theorem skipFields_pushed (list : LineRefList) (ref : Nat) :
    (list.pushed ref).skipFields = list.skipFields := by
  show ((list.write ref (.setNext list.head)).writeAt list.head (.setPrev (some ref))).skipFields
    = list.skipFields
  rw [skipFields_writeAt, skipFields_write] <;> exact fun _ => rfl

theorem prevOf_pushed {list : LineRefList} {ref address : Nat}
    (bound : address < list.nodes.length) :
    (list.pushed ref).prevOf address =
      if list.head = some address then some ref else list.prevOf address := by
  simp only [prevOf, pushed, writeAt_getElem?, write_getElem?, List.getElem?_eq_getElem bound]
  split_ifs <;> rfl

theorem nextOf_pushed {list : LineRefList} {ref address : Nat}
    (bound : address < list.nodes.length) :
    (list.pushed ref).nextOf address =
      if address = ref then list.head else list.nextOf address := by
  simp only [nextOf, pushed, writeAt_getElem?, write_getElem?, eq_comm (a := ref),
    List.getElem?_eq_getElem bound]
  split_ifs <;> rfl

/-- The list after a new line has come in front, before the skip list is looked at: the gate
takes a step once enough lines are known. -/
def pushedFront (list : LineRefList) (ref : Nat) : LineRefList :=
  stamped { list.pushed ref with
    gate := if list.threshold < list.uniqueLines
      then (list.pushed ref).gate.bind (list.pushed ref).prevOf else (list.pushed ref).gate
    uniqueLines := list.uniqueLines + 1 }

theorem pushedFront_length (list : LineRefList) (ref : Nat) :
    (list.pushedFront ref).nodes.length = list.nodes.length :=
  (stamped_length _).trans (pushed_length list ref)

theorem skipFields_pushedFront (list : LineRefList) (ref : Nat) :
    (list.pushedFront ref).skipFields = list.skipFields :=
  (skipFields_stamped _).trans (skipFields_pushed list ref)

theorem prevOf_pushedFront (list : LineRefList) (ref : Nat) :
    (list.pushedFront ref).prevOf = (list.pushed ref).prevOf := prevOf_stamped _

theorem nextOf_pushedFront (list : LineRefList) (ref : Nat) :
    (list.pushedFront ref).nextOf = (list.pushed ref).nextOf := nextOf_stamped _

/-- Pushing a node in front of a valid list does what the source's statements do. -/
theorem addToFront_eq {list : LineRefList} {ref : Nat} (bound : ref < list.nodes.length)
    (headValid : ∀ address, list.head = some address → address < list.nodes.length)
    (gateValid : ∀ address, list.gate = some address → address < list.nodes.length) :
    list.addToFront ref = (do
      let front := list.pushedFront ref
      let (node, count, skip) ← front.scanPlain front.walkBound front.head 0 none
      let added ← (if 0 < front.skipDistance ∧ 2 * front.skipDistance - 1 ≤ count then
          front.addSkipNode skip node
        else some front)
      added.updateDepths added.walkBound node) := by
  obtain ⟨gate, atGate, gateBound⟩ : ∃ gate, (list.pushed ref).gate = some gate ∧
      gate < (list.pushed ref).nodes.length := by
    rw [pushed_length]
    show ∃ gate, (if list.gate.isNone then some ref else list.gate) = some gate ∧ _
    cases known : list.gate with
    | none => exact ⟨ref, rfl, bound⟩
    | some gate => exact ⟨gate, rfl, gateValid gate known⟩
  have stepped : (if (list.pushed ref).threshold < (list.pushed ref).uniqueLines
      then (list.pushed ref).stepGate else some (list.pushed ref)) =
      some { list.pushed ref with
        gate := if list.threshold < list.uniqueLines
          then (list.pushed ref).gate.bind (list.pushed ref).prevOf
          else (list.pushed ref).gate } := by
    show (if list.threshold < list.uniqueLines then _ else _) = _
    split
    · rw [stepGate_eq atGate gateBound, atGate]
      rfl
    · rfl
  rw [addToFront, updateHead_eq bound headValid, Option.bind_eq_bind, Option.bind_some, stepped,
    Option.bind_some, stampHead_eq rfl ((pushed_length list ref).symm ▸ bound)]
  rfl

section AddLine

variable {list : LineRefList} {order : List Nat}

/-- The list with the new line in front, before the skip list is looked at. -/
abbrev withLine (list : LineRefList) (tag : Address) : LineRefList :=
  (list.allocate tag).1.pushedFront list.nodes.length

theorem withLine_length (list : LineRefList) (tag : Address) :
    (list.withLine tag).nodes.length = list.nodes.length + 1 :=
  (pushedFront_length _ _).trans List.length_append

/-- The address of a new line is not in the sequence. -/
theorem length_notMem (represents : list.Represents order) : list.nodes.length ∉ order :=
  fun member => lt_irrefl _ ((represents.mem_iff _).mp member)

theorem lt_allocate_length (list : LineRefList) (tag : Address) :
    list.nodes.length < (list.allocate tag).1.nodes.length := by
  rw [show (list.allocate tag).1.nodes.length = list.nodes.length + 1 from List.length_append]
  exact Nat.lt_succ_self _

/-- The links lead from the new node to the old head. -/
theorem linked_withLine (represents : list.Represents order) (tag : Address) :
    Linked (list.withLine tag).prevOf (list.withLine tag).nextOf (list.nodes.length :: order) := by
  have atNew : (list.allocate tag).1.nodes[list.nodes.length]? = some (LineRef.new tag) :=
    List.getElem?_concat_length
  have atOld : ∀ address ∈ order,
      (list.allocate tag).1.nodes[address]? = list.nodes[address]? := fun address member =>
    List.getElem?_append_left ((represents.mem_iff address).mp member)
  have newBound := lt_allocate_length list tag
  have oldBound : ∀ address ∈ order, address < (list.allocate tag).1.nodes.length :=
    fun address member => ((represents.mem_iff address).mp member).trans newBound
  have headOther : (list.allocate tag).1.head ≠ some list.nodes.length := fun atHead =>
    lt_irrefl _ (represents.head_valid atHead)
  rw [prevOf_pushedFront, nextOf_pushedFront]
  refine represents.linked.cons represents.distinct ?_ ?_ ?_ ?_
  · rw [prevOf_pushed newBound, if_neg headOther, prevOf, atNew]
    rfl
  · rw [nextOf_pushed newBound, if_pos rfl]
    exact represents.head_eq
  · intro address member
    rw [prevOf_pushed (oldBound address member), ← represents.head_eq, prevOf, prevOf,
      atOld address member]
    rfl
  · intro address member
    rw [nextOf_pushed (oldBound address member),
      if_neg (ne_of_mem_of_not_mem member (length_notMem represents)), nextOf, nextOf,
      atOld address member]

/-- The gate stays in the sequence: it stands still, takes a step, or starts at the new node. -/
theorem mem_of_gate_withLine (represents : list.Represents order) (tag : Address) {gate : Nat}
    (atGate : (list.withLine tag).gate = some gate) : gate ∈ list.nodes.length :: order := by
  have pushedMember : ∀ gate, ((list.allocate tag).1.pushed list.nodes.length).gate = some gate →
      gate ∈ list.nodes.length :: order := by
    intro gate atGate
    change (if list.gate.isNone then some list.nodes.length else list.gate) = some gate at atGate
    split at atGate
    · cases atGate
      exact List.mem_cons_self
    · exact List.mem_cons_of_mem _ ((represents.mem_iff gate).mpr
        (represents.gate_valid gate atGate))
  change (if list.threshold < list.uniqueLines then _ else _) = some gate at atGate
  split at atGate
  · obtain ⟨before, known, points⟩ := Option.bind_eq_some_iff.mp atGate
    rw [← prevOf_pushedFront] at points
    exact (linked_withLine represents tag).mem_of_prev (pushedMember before known) points
  · exact pushedMember gate atGate

/-- The new node in front of the sequence. -/
theorem threads_withLine (represents : list.Represents order) (tag : Address) :
    (list.withLine tag).Threads (list.nodes.length :: order) := by
  have members : ∀ address, address ∈ list.nodes.length :: order ↔
      address < (list.withLine tag).nodes.length := by
    intro address
    rw [List.mem_cons, represents.mem_iff, withLine_length]
    omega
  constructor
  · exact List.nodup_cons.mpr ⟨length_notMem represents, represents.distinct⟩
  · exact members
  · rfl
  · exact linked_withLine represents tag
  · exact fun gate atGate => (members gate).mp (mem_of_gate_withLine represents tag atGate)

/-- The skip list stands as it is when a line comes in front. -/
theorem layout_withLine (represents : list.Represents order) (tag : Address) :
    (list.withLine tag).SkipLayout (skipSlots list.skipDistance order) :=
  (represents.skips.allocate tag).of_skipFields_eq (skipFields_pushedFront _ _)

/-- Counting the nodes in front of the first skip node of the list with the new line. -/
theorem scanPlain_withLine (represents : list.Represents order) (spaced : 2 ≤ list.skipDistance)
    (tag : Address) : (list.withLine tag).scanPlain (list.withLine tag).walkBound
        (list.withLine tag).head 0 none =
      some (((skipSlots list.skipDistance order).map Prod.fst)[0]?,
        firstSkip list.skipDistance order.length + 1,
        if list.skipDistance ≤ firstSkip list.skipDistance order.length + 1
          then (list.nodes.length :: order)[list.skipDistance - 1]? else none) := by
  have positive : 0 < list.skipDistance := by omega
  have threads := threads_withLine represents tag
  have layout := layout_withLine represents tag
  have fresh : list.nodes.length ∉ (skipSlots list.skipDistance order).map Prod.fst :=
    fun member => lt_irrefl _ (represents.skips.valid _ member)
  have notYet : ¬ (list.withLine tag).skipDistance ≤ 0 := Nat.not_le.mpr positive
  have scan := scanPlain_spec (firstSkip list.skipDistance order.length + 1)
    (Nat.succ_le_succ (firstSkip_le positive)) threads.linked.next_eq ?_ ?_
    (list.withLine tag).walkBound 0 (Nat.zero_le _) ?_
  · rw [if_neg notYet] at scan
    rw [skipSlots_first positive]
    exact scan
  · intro place address before held
    cases place with
    | zero =>
      cases held
      exact (layout.plain _ (threads.head_valid rfl) fresh).2.2
    | succ place =>
      exact layout.depth_of_not_skip represents.distinct positive (threads.bound held) held
        (not_isSkipPlace_of_lt (Nat.lt_of_succ_lt_succ before))
  · intro address held
    have atFirst : order[firstSkip list.skipDistance order.length]? = some address := held
    obtain ⟨inside, -⟩ := List.getElem?_eq_some_iff.mp atFirst
    refine ⟨_, ?_, layout.depth_of_skip atFirst (isSkipPlace_firstSkip inside)⟩
    omega
  · have within : firstSkip list.skipDistance order.length ≤ order.length := firstSkip_le positive
    rw [walkBound, withLine_length, ← represents.length_eq]
    omega

/-- With room for it, the node that the count has remembered becomes the first skip node. -/
theorem addSkipNode_withLine (represents : list.Represents order) (spaced : 2 ≤ list.skipDistance)
    (tag : Address)
    (far : 2 * list.skipDistance - 1 ≤ firstSkip list.skipDistance order.length + 1) :
    ∃ skip marked, (list.nodes.length :: order)[list.skipDistance - 1]? = some skip ∧
      (list.withLine tag).addSkipNode (some skip)
          ((skipSlots list.skipDistance order).map Prod.fst)[0]? = some marked ∧
      marked.SkipLayout ((skip, list.skipDistance - 1) :: skipSlots list.skipDistance order) ∧
      marked.eraseSkips = (list.withLine tag).eraseSkips := by
  have positive : 0 < list.skipDistance := by omega
  have within : firstSkip list.skipDistance order.length ≤ order.length := firstSkip_le positive
  obtain ⟨place, spacing⟩ : ∃ place, list.skipDistance = place + 2 :=
    ⟨list.skipDistance - 2, by omega⟩
  have held := List.getElem?_eq_getElem (show place < order.length by omega)
  have outside : order[place] ∉ (skipSlots list.skipDistance order).map Prod.fst :=
    fun member => not_isSkipPlace_of_lt (show place < firstSkip list.skipDistance order.length by
      omega) (isSkipPlace_of_mem represents.distinct positive held member)
  have valid : order[place] < (list.withLine tag).nodes.length := by
    rw [withLine_length]
    exact Nat.lt_succ_of_lt (represents.bound held)
  have distance : (list.withLine tag).skipDistance = place + 1 + 1 := spacing
  obtain ⟨marked, markedEq, layout, same⟩ :=
    addSkipNode_spec (layout_withLine represents tag) valid outside distance
  refine ⟨order[place], marked, ?_, markedEq, ?_, same⟩
  · rw [show list.skipDistance - 1 = place + 1 by omega]
    exact held
  · rw [show list.skipDistance - 1 = place + 1 by omega]
    exact layout

/-- Adding a line puts its node in front of the sequence and follows no null pointer. Outside the
skip list only the head, the gate and the time stamp of the new line change. -/
theorem addToFront_spec (represents : list.Represents order) (spaced : 2 ≤ list.skipDistance)
    (tag : Address) :
    ∃ added, (list.allocate tag).1.addToFront list.nodes.length = some added ∧
      added.Represents (list.nodes.length :: order) ∧
      added.eraseSkips = (list.withLine tag).eraseSkips := by
  have positive : 0 < list.skipDistance := by omega
  have threads := threads_withLine represents tag
  have newBound := lt_allocate_length list tag
  have allocated := addToFront_eq newBound
    (fun address atHead => (represents.head_valid atHead).trans newBound)
    (fun address atGate => (represents.gate_valid address atGate).trans newBound)
  have enough : ∀ added : LineRefList, added.eraseSkips = (list.withLine tag).eraseSkips →
      (skipSlots list.skipDistance order).length < added.walkBound := by
    intro added same
    have short := skipSlots_length_le list.skipDistance order
    rw [represents.length_eq] at short
    rw [walkBound, length_of_eraseSkips_eq same, withLine_length]
    omega
  rw [allocated]
  simp only [scanPlain_withLine represents spaced tag, Option.bind_eq_bind, Option.bind_some]
  have condition : (0 < (list.withLine tag).skipDistance ∧
      2 * (list.withLine tag).skipDistance - 1 ≤ firstSkip list.skipDistance order.length + 1) ↔
      (0 < (order.length + 1) / list.skipDistance ∧
        (order.length + 1) % list.skipDistance + 1 = list.skipDistance) :=
    (and_iff_right positive).trans (firstSkip_ge_iff spaced)
  by_cases room : 0 < (order.length + 1) / list.skipDistance ∧
      (order.length + 1) % list.skipDistance + 1 = list.skipDistance
  · have far := (firstSkip_ge_iff spaced).mpr room
    obtain ⟨skip, marked, skipEq, markedEq, markedLayout, sameMarked⟩ :=
      addSkipNode_withLine represents spaced tag far
    have started : marked.SkipLayout
        ([(skip, list.skipDistance - 1)] ++ skipSlots list.skipDistance order) := markedLayout
    obtain ⟨added, addedEq, addedLayout, sameAdded⟩ :=
      updateDepths_spec _ started (enough marked sameMarked)
    have same := sameAdded.trans sameMarked
    refine ⟨added, ?_, ⟨threads.of_eraseSkips_eq same, ?_⟩, same⟩
    · rw [if_pos (condition.mpr room), if_pos (by omega), skipEq, markedEq, Option.bind_some]
      exact addedEq
    · rw [skipDistance_of_eraseSkips_eq same]
      show added.SkipLayout (skipSlots list.skipDistance _)
      rw [skipSlots_cons_of_room spaced room.1 room.2, List.getD_eq_getElem?_getD, skipEq]
      exact addedLayout
  · have started : (list.withLine tag).SkipLayout ([] ++ skipSlots list.skipDistance order) :=
      layout_withLine represents tag
    obtain ⟨added, addedEq, addedLayout, same⟩ := updateDepths_spec _ started (enough _ rfl)
    refine ⟨added, ?_, ⟨threads.of_eraseSkips_eq same, ?_⟩, same⟩
    · rw [if_neg (mt condition.mp room), Option.bind_some]
      exact addedEq
    · rw [skipDistance_of_eraseSkips_eq same]
      show added.SkipLayout (skipSlots list.skipDistance _)
      rw [skipSlots_cons_of_not spaced room]
      exact addedLayout

end AddLine

end LineRefList

end BarrierPoint
