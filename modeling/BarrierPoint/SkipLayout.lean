/-
This file proves what the operations on the skip list do. The skip fields of
all nodes are described by a list of slots, the address and the stored depth
of every skip node from front to back: the slots are linked, and every other
node has empty skip fields. Handing a skip node's fields to another node
replaces one slot, shifting the skip nodes replaces a prefix of them by their
predecessors, a new skip node is a new first slot, and the depth update adds
one to every depth. None of these touches any other field.
-/

import BarrierPoint.Library.LinkedList
import BarrierPoint.ReuseDistance
import Mathlib.Tactic.SplitIfs

namespace BarrierPoint

open Library

namespace LineRefList

/-! ### Reading and writing nodes -/

theorem load_some (list : LineRefList) (address : Nat) :
    list.load (some address) = list.nodes[address]? := rfl

theorem store_some {list : LineRefList} {address : Nat} (bound : address < list.nodes.length)
    (change : LineRef → LineRef) :
    list.store (some address) change = some (list.write address change) := if_pos bound

@[simp] theorem write_length (list : LineRefList) (address : Nat) (change : LineRef → LineRef) :
    (list.write address change).nodes.length = list.nodes.length := List.length_modify ..

@[simp] theorem write_getElem? (list : LineRefList) (address : Nat) (change : LineRef → LineRef)
    (other : Nat) : (list.write address change).nodes[other]? =
      if address = other then list.nodes[other]?.map change else list.nodes[other]? := by
  rw [write, List.getElem?_modify]
  split <;> simp

/-- Change the node a pointer leads to, if it leads anywhere. -/
def writeAt (list : LineRefList) (pointer : Pointer) (change : LineRef → LineRef) : LineRefList :=
  { list with
    nodes := match pointer with
      | some address => list.nodes.modify address change
      | none => list.nodes }

@[simp] theorem writeAt_length (list : LineRefList) (pointer : Pointer)
    (change : LineRef → LineRef) :
    (list.writeAt pointer change).nodes.length = list.nodes.length := by
  cases pointer with
  | none => rfl
  | some address => exact write_length list address change

@[simp] theorem writeAt_getElem? (list : LineRefList) (pointer : Pointer)
    (change : LineRef → LineRef) (other : Nat) : (list.writeAt pointer change).nodes[other]? =
      if pointer = some other then list.nodes[other]?.map change else list.nodes[other]? := by
  cases pointer with
  | none => rfl
  | some address => exact (write_getElem? list address change other).trans (by simp)

theorem storeIfSet_eq {list : LineRefList} {pointer : Pointer}
    (valid : ∀ address, pointer = some address → address < list.nodes.length)
    (change : LineRef → LineRef) :
    list.storeIfSet pointer change = some (list.writeAt pointer change) := by
  cases pointer with
  | none => rfl
  | some address => exact store_some (valid address rfl) change

/-! ### The fields as functions of the address -/

def prevOf (list : LineRefList) (address : Nat) : Pointer :=
  list.nodes[address]?.bind LineRef.prev

def nextOf (list : LineRefList) (address : Nat) : Pointer :=
  list.nodes[address]?.bind LineRef.next

def prevSkipOf (list : LineRefList) (address : Nat) : Pointer :=
  list.nodes[address]?.bind LineRef.prevSkip

def nextSkipOf (list : LineRefList) (address : Nat) : Pointer :=
  list.nodes[address]?.bind LineRef.nextSkip

def depthOf (list : LineRefList) (address : Nat) : Option Int :=
  list.nodes[address]?.map LineRef.depth

/-- The list with every node outside the skip list. Two lists that agree here differ in skip
fields only. -/
def eraseSkips (list : LineRefList) : LineRefList :=
  { list with nodes := list.nodes.map (LineRef.setSkips none none (-1)) }

theorem eraseSkips_write (list : LineRefList) (address : Nat) {change : LineRef → LineRef}
    (hidden : ∀ node, (change node).setSkips none none (-1) = node.setSkips none none (-1)) :
    (list.write address change).eraseSkips = list.eraseSkips := by
  have same : (list.nodes.modify address change).map (LineRef.setSkips none none (-1)) =
      list.nodes.map (LineRef.setSkips none none (-1)) := by
    refine List.ext_getElem? fun other => ?_
    rw [List.getElem?_map, List.getElem?_map, List.getElem?_modify]
    cases list.nodes[other]? with
    | none => rfl
    | some node =>
      by_cases here : address = other
      · simp [here, hidden]
      · simp [here]
  simp only [eraseSkips, write, same]

theorem eraseSkips_writeAt (list : LineRefList) (pointer : Pointer) {change : LineRef → LineRef}
    (hidden : ∀ node, (change node).setSkips none none (-1) = node.setSkips none none (-1)) :
    (list.writeAt pointer change).eraseSkips = list.eraseSkips := by
  cases pointer with
  | none => rfl
  | some address => exact eraseSkips_write list address hidden

theorem prevOf_eraseSkips (list : LineRefList) : list.eraseSkips.prevOf = list.prevOf := by
  funext address
  rw [prevOf, prevOf, eraseSkips, List.getElem?_map]
  cases list.nodes[address]? <;> rfl

theorem nextOf_eraseSkips (list : LineRefList) : list.eraseSkips.nextOf = list.nextOf := by
  funext address
  rw [nextOf, nextOf, eraseSkips, List.getElem?_map]
  cases list.nodes[address]? <;> rfl

/-- Lists that differ in skip fields only have the same links. -/
theorem prevOf_of_eraseSkips_eq {first second : LineRefList}
    (same : first.eraseSkips = second.eraseSkips) : first.prevOf = second.prevOf := by
  rw [← prevOf_eraseSkips, same, prevOf_eraseSkips]

theorem nextOf_of_eraseSkips_eq {first second : LineRefList}
    (same : first.eraseSkips = second.eraseSkips) : first.nextOf = second.nextOf := by
  rw [← nextOf_eraseSkips, same, nextOf_eraseSkips]

theorem skipDistance_of_eraseSkips_eq {first second : LineRefList}
    (same : first.eraseSkips = second.eraseSkips) : first.skipDistance = second.skipDistance := by
  show first.eraseSkips.skipDistance = second.eraseSkips.skipDistance
  rw [same]

theorem length_of_eraseSkips_eq {first second : LineRefList}
    (same : first.eraseSkips = second.eraseSkips) :
    first.nodes.length = second.nodes.length := by
  have lengths := congrArg (fun list : LineRefList => list.nodes.length) same
  simpa [eraseSkips] using lengths

/-! ### The slots of the skip list -/

/-- The skip fields spell out the slots: the slots are linked in their order, each stores its
depth, and every other node is outside the skip list. -/
structure SkipLayout (list : LineRefList) (slots : List (Nat × Nat)) : Prop where
  distinct : (slots.map Prod.fst).Nodup
  valid : ∀ address ∈ slots.map Prod.fst, address < list.nodes.length
  linked : Linked list.prevSkipOf list.nextSkipOf (slots.map Prod.fst)
  depth_eq : ∀ slot ∈ slots, list.depthOf slot.1 = some (slot.2 : Int)
  plain : ∀ address < list.nodes.length, address ∉ slots.map Prod.fst →
    list.prevSkipOf address = none ∧ list.nextSkipOf address = none ∧
      list.depthOf address = some (-1)

namespace SkipLayout

variable {list : LineRefList} {slots : List (Nat × Nat)}

/-- The node of a slot, as the layout describes it. -/
theorem node_of_slot (layout : list.SkipLayout slots) {place address depth : Nat}
    (found : slots[place]? = some (address, depth)) :
    ∃ node, list.nodes[address]? = some node ∧
      node.prevSkip = predecessor (slots.map Prod.fst) place ∧
      node.nextSkip = (slots.map Prod.fst)[place + 1]? ∧ node.depth = depth := by
  have held : (slots.map Prod.fst)[place]? = some address := by rw [List.getElem?_map, found]; rfl
  have bound := layout.valid address (List.mem_of_getElem? held)
  have atAddress := List.getElem?_eq_getElem bound
  refine ⟨_, atAddress, ?_, ?_, ?_⟩
  · rw [← layout.linked.prev_eq place address held, prevSkipOf, atAddress]
    rfl
  · rw [← layout.linked.next_eq place address held, nextSkipOf, atAddress]
    rfl
  · have depth := layout.depth_eq _ (List.mem_of_getElem? found)
    rw [depthOf, atAddress] at depth
    exact Option.some_inj.mp depth

/-- A pointer of a skip node to its neighbour leads to a slot. -/
theorem mem_of_predecessor {place address : Nat}
    (points : predecessor (slots.map Prod.fst) place = some address) :
    address ∈ slots.map Prod.fst := by
  cases place with
  | zero => cases points
  | succ place => exact List.mem_of_getElem? points

end SkipLayout

/-! ### Handing the skip fields to another node -/

/-- The memory after `moveSkipFields`, when the source's neighbours are other nodes. -/
def movedSkips (list : LineRefList) (source : LineRef) (src dst : Nat) : LineRefList :=
  (((list.write dst (.setSkips source.prevSkip source.nextSkip source.depth)).writeAt
    source.prevSkip (.setNextSkip (some dst))).writeAt
    source.nextSkip (.setPrevSkip (some dst))).write src (.setSkips none none (-1))

theorem moveSkipFields_eq {list : LineRefList} {src dst : Nat} {source : LineRef}
    (atSrc : list.nodes[src]? = some source) (bound : dst < list.nodes.length)
    (different : dst ≠ src) (prevOther : source.prevSkip ≠ some src)
    (prevValid : ∀ address, source.prevSkip = some address → address < list.nodes.length)
    (nextValid : ∀ address, source.nextSkip = some address → address < list.nodes.length) :
    list.moveSkipFields src dst = some (list.movedSkips source src dst) := by
  obtain ⟨srcBound, _⟩ := List.getElem?_eq_some_iff.mp atSrc
  simp only [moveSkipFields, Option.bind_eq_bind, load_some, atSrc, Option.bind_some,
    store_some bound, write_getElem?, if_neg different]
  rw [storeIfSet_eq (by simpa using prevValid)]
  simp only [Option.bind_some, writeAt_getElem?, if_neg prevOther, write_getElem?,
    if_neg different, atSrc]
  rw [storeIfSet_eq (by simpa using nextValid), Option.bind_some]
  exact store_some (by simpa using srcBound) _

theorem eraseSkips_movedSkips (list : LineRefList) (source : LineRef) (src dst : Nat) :
    (list.movedSkips source src dst).eraseSkips = list.eraseSkips := by
  unfold movedSkips
  rw [eraseSkips_write, eraseSkips_writeAt, eraseSkips_writeAt, eraseSkips_write] <;>
    exact fun _ => rfl

theorem prevSkipOf_movedSkips {list : LineRefList} {source : LineRef} {src dst address : Nat}
    (bound : address < list.nodes.length) :
    (list.movedSkips source src dst).prevSkipOf address =
      if address = src then none else if source.nextSkip = some address then some dst
      else if address = dst then source.prevSkip else list.prevSkipOf address := by
  have atAddress := List.getElem?_eq_getElem bound
  simp only [prevSkipOf, movedSkips, write_getElem?, writeAt_getElem?, atAddress, eq_comm (a := src),
    eq_comm (a := dst)]
  split_ifs <;> rfl

theorem nextSkipOf_movedSkips {list : LineRefList} {source : LineRef} {src dst address : Nat}
    (bound : address < list.nodes.length) :
    (list.movedSkips source src dst).nextSkipOf address =
      if address = src then none else if source.prevSkip = some address then some dst
      else if address = dst then source.nextSkip else list.nextSkipOf address := by
  have atAddress := List.getElem?_eq_getElem bound
  simp only [nextSkipOf, movedSkips, write_getElem?, writeAt_getElem?, atAddress, eq_comm (a := src),
    eq_comm (a := dst)]
  split_ifs <;> rfl

theorem depthOf_movedSkips {list : LineRefList} {source : LineRef} {src dst address : Nat}
    (bound : address < list.nodes.length) :
    (list.movedSkips source src dst).depthOf address =
      if address = src then some (-1) else if address = dst then some source.depth
      else list.depthOf address := by
  have atAddress := List.getElem?_eq_getElem bound
  simp only [depthOf, movedSkips, write_getElem?, writeAt_getElem?, atAddress, eq_comm (a := src),
    eq_comm (a := dst)]
  split_ifs <;> rfl

/-- The neighbours of a skip node are skip nodes, and the one in front is another node. -/
theorem SkipLayout.neighbours {list : LineRefList} {slots : List (Nat × Nat)}
    (layout : list.SkipLayout slots) {place src depth : Nat} {source : LineRef}
    (found : slots[place]? = some (src, depth)) (atSrc : list.nodes[src]? = some source) :
    (∀ address, source.prevSkip = some address → address ∈ slots.map Prod.fst) ∧
      (∀ address, source.nextSkip = some address → address ∈ slots.map Prod.fst) ∧
      source.prevSkip ≠ some src := by
  have held : (slots.map Prod.fst)[place]? = some src := by rw [List.getElem?_map, found]; rfl
  obtain ⟨node, atNode, prevEq, nextEq, -⟩ := layout.node_of_slot found
  obtain rfl : node = source := Option.some_inj.mp (atNode.symm.trans atSrc)
  refine ⟨fun address points => SkipLayout.mem_of_predecessor (prevEq ▸ points),
    fun address points => List.mem_of_getElem? (nextEq ▸ points), ?_⟩
  rw [prevEq, Ne, predecessor_eq_some_iff_eq layout.distinct held]
  omega

/-- After the fields of a skip node are handed to a node outside the skip list, that node has its
slot. -/
theorem SkipLayout.movedSkips {list : LineRefList} {slots : List (Nat × Nat)}
    (layout : list.SkipLayout slots) {place src depth dst : Nat} {source : LineRef}
    (found : slots[place]? = some (src, depth)) (atSrc : list.nodes[src]? = some source)
    (fresh : dst ∉ slots.map Prod.fst) (bound : dst < list.nodes.length) :
    (list.movedSkips source src dst).SkipLayout (slots.set place (dst, depth)) := by
  have held : (slots.map Prod.fst)[place]? = some src := by rw [List.getElem?_map, found]; rfl
  have different : dst ≠ src := fun same => fresh (same ▸ List.mem_of_getElem? held)
  obtain ⟨prevMember, nextMember, -⟩ := layout.neighbours found atSrc
  have prevDst : source.prevSkip ≠ some dst := fun points => fresh (prevMember dst points)
  have nextDst : source.nextSkip ≠ some dst := fun points => fresh (nextMember dst points)
  have srcPrev : list.prevSkipOf src = source.prevSkip := by rw [prevSkipOf, atSrc]; rfl
  have srcNext : list.nextSkipOf src = source.nextSkip := by rw [nextSkipOf, atSrc]; rfl
  have srcDepth : source.depth = depth := by
    have known := layout.depth_eq _ (List.mem_of_getElem? found)
    rw [depthOf, atSrc] at known
    exact Option.some_inj.mp known
  have length : (list.movedSkips source src dst).nodes.length = list.nodes.length :=
    length_of_eraseSkips_eq (eraseSkips_movedSkips list source src dst)
  have addresses : (slots.set place (dst, depth)).map Prod.fst =
      (slots.map Prod.fst).set place dst := List.map_set
  constructor
  · rw [addresses]
    exact layout.distinct.set fresh
  · rw [addresses, length]
    intro address member
    rcases List.mem_or_eq_of_mem_set member with old | rfl
    · exact layout.valid address old
    · exact bound
  · rw [addresses]
    refine layout.linked.replace layout.distinct held ?_ ?_ ?_ ?_
    · rw [prevSkipOf_movedSkips bound, if_neg different, if_neg nextDst, if_pos rfl, srcPrev]
    · rw [nextSkipOf_movedSkips bound, if_neg different, if_neg prevDst, if_pos rfl, srcNext]
    · intro address member other
      have notDst : address ≠ dst := fun same => fresh (same ▸ member)
      rw [prevSkipOf_movedSkips (layout.valid address member), if_neg other, if_neg notDst, srcNext]
    · intro address member other
      have notDst : address ≠ dst := fun same => fresh (same ▸ member)
      rw [nextSkipOf_movedSkips (layout.valid address member), if_neg other, if_neg notDst, srcPrev]
  · intro slot member
    obtain ⟨index, at_⟩ := List.getElem?_of_mem member
    by_cases here : place = index
    · subst here
      rw [List.getElem?_set_self (List.getElem?_eq_some_iff.mp found).1] at at_
      cases at_
      rw [depthOf_movedSkips bound, if_neg different, if_pos rfl, srcDepth]
    · rw [List.getElem?_set_ne here] at at_
      have inOrder : (slots.map Prod.fst)[index]? = some slot.1 := by
        rw [List.getElem?_map, at_]
        rfl
      have old := List.mem_of_getElem? inOrder
      have notSrc : slot.1 ≠ src := fun same => here
        ((getElem?_eq_some_iff_eq layout.distinct held index).mp (same ▸ inOrder)).symm
      have notDst : slot.1 ≠ dst := fun same => fresh (same ▸ old)
      rw [depthOf_movedSkips (layout.valid _ old), if_neg notSrc, if_neg notDst]
      exact layout.depth_eq slot (List.mem_of_getElem? at_)
  · rw [addresses, length]
    intro address valid outside
    rw [prevSkipOf_movedSkips valid, nextSkipOf_movedSkips valid, depthOf_movedSkips valid]
    by_cases same : address = src
    · simp only [if_pos same, and_self]
    · have notSlot : address ∉ slots.map Prod.fst :=
        fun member => outside (mem_set_of_ne held member same)
      have notDst : address ≠ dst := by
        rintro rfl
        exact outside (List.mem_set (List.getElem?_eq_some_iff.mp held).1 _)
      have notPrev : source.prevSkip ≠ some address :=
        fun points => notSlot (prevMember address points)
      have notNext : source.nextSkip ≠ some address :=
        fun points => notSlot (nextMember address points)
      simp only [if_neg same, if_neg notDst, if_neg notPrev, if_neg notNext]
      exact layout.plain address valid notSlot

/-- Handing the fields of a skip node to a node outside the skip list replaces its slot. -/
theorem moveSkipFields_spec {list : LineRefList} {slots : List (Nat × Nat)}
    (layout : list.SkipLayout slots) {place src depth dst : Nat}
    (found : slots[place]? = some (src, depth)) (fresh : dst ∉ slots.map Prod.fst)
    (bound : dst < list.nodes.length) :
    ∃ moved, list.moveSkipFields src dst = some moved ∧
      moved.SkipLayout (slots.set place (dst, depth)) ∧ moved.eraseSkips = list.eraseSkips := by
  obtain ⟨source, atSrc, -⟩ := layout.node_of_slot found
  obtain ⟨prevMember, nextMember, prevOther⟩ := layout.neighbours found atSrc
  have member : src ∈ slots.map Prod.fst := List.mem_map_of_mem (List.mem_of_getElem? found)
  have different : dst ≠ src := fun same => fresh (same ▸ member)
  exact ⟨list.movedSkips source src dst, moveSkipFields_eq atSrc bound different prevOther
    (fun address points => layout.valid address (prevMember address points))
    (fun address points => layout.valid address (nextMember address points)),
    layout.movedSkips found atSrc fresh bound, eraseSkips_movedSkips list source src dst⟩

/-! ### Shifting the skip nodes -/

theorem predecessor_append_singleton (front back : List (Nat × Nat)) :
    predecessor ((front ++ back).map Prod.fst) front.length = front.getLast?.map Prod.fst := by
  rcases List.eq_nil_or_concat front with rfl | ⟨rest, slot, rfl⟩
  · rfl
  · rw [List.concat_eq_append, List.length_append, List.length_singleton, predecessor_succ,
      List.getElem?_map, List.getLast?_concat, List.append_assoc, List.singleton_append,
      List.getElem?_append_right le_rfl, Nat.sub_self]
    rfl

/-- Shifting from the last slot of `front` hands every slot of `front` to the predecessor of its
node. The induction goes from the last slot back to the first, as the loop does; the slots
behind are those already shifted. -/
theorem shiftSkips_spec (before : Nat → Nat) (front : List (Nat × Nat)) :
    ∀ {list : LineRefList} {back : List (Nat × Nat)} {fuel : Nat},
      list.SkipLayout (front ++ back) → front.length < fuel →
      (∀ slot ∈ front, list.prevOf slot.1 = some (before slot.1)) →
      (∀ slot ∈ front, before slot.1 < list.nodes.length) →
      (∀ slot ∈ front, before slot.1 ∉ (front ++ back).map Prod.fst) →
      (front.map fun slot => before slot.1).Nodup →
      ∃ shifted, list.shiftSkips fuel (front.getLast?.map Prod.fst) = some shifted ∧
        shifted.SkipLayout (front.map (fun slot => (before slot.1, slot.2)) ++ back) ∧
        shifted.eraseSkips = list.eraseSkips := by
  induction front using List.reverseRecOn with
  | nil =>
    intro list back fuel layout enough _ _ _ _
    obtain ⟨fuel, rfl⟩ : ∃ rest, fuel = rest + 1 := ⟨fuel - 1, by omega⟩
    exact ⟨list, rfl, layout, rfl⟩
  | append_singleton front slot inductionHypothesis =>
    intro list back fuel layout enough points bounds fresh distinct
    obtain ⟨address, depth⟩ := slot
    obtain ⟨fuel, rfl⟩ : ∃ rest, fuel = rest + 1 := ⟨fuel - 1, by omega⟩
    have member : (address, depth) ∈ front ++ [(address, depth)] := by simp
    have found : (front ++ [(address, depth)] ++ back)[front.length]? = some (address, depth) := by
      rw [List.append_assoc, List.getElem?_append_right le_rfl, Nat.sub_self]
      rfl
    obtain ⟨node, atAddress, prevEq, -, -⟩ := layout.node_of_slot found
    have prevNode : node.prev = some (before address) := by
      rw [← points _ member, prevOf, atAddress]
      rfl
    obtain ⟨moved, movedEq, movedLayout, same⟩ :=
      moveSkipFields_spec layout found (fresh _ member) (bounds _ member)
    rw [List.append_assoc, List.set_append_right _ _ le_rfl, Nat.sub_self, List.singleton_append,
      List.set_cons_zero] at movedLayout
    rw [List.append_assoc, predecessor_append_singleton] at prevEq
    rw [List.map_append, List.nodup_append] at distinct
    have later : ∀ slot ∈ front, before slot.1 ≠ before address := fun slot inFront =>
      distinct.2.2 _ (List.mem_map_of_mem inFront) _ (by simp)
    have remaining : front.length < fuel := by
      rw [List.length_append, List.length_singleton] at enough
      omega
    obtain ⟨shifted, shiftedEq, shiftedLayout, sameShifted⟩ :=
      inductionHypothesis movedLayout remaining
        (fun slot inFront => by
          rw [prevOf_of_eraseSkips_eq same]
          exact points slot (List.mem_append_left _ inFront))
        (fun slot inFront => by
          rw [length_of_eraseSkips_eq same]
          exact bounds slot (List.mem_append_left _ inFront))
        (fun slot inFront => by
          have away := fresh slot (List.mem_append_left _ inFront)
          have apart := later slot inFront
          simp only [List.map_append, List.map_cons, List.map_nil, List.mem_append,
            List.mem_cons, List.not_mem_nil, or_false, not_or] at away ⊢
          exact ⟨away.1.1, apart, away.2⟩)
        distinct.1
    refine ⟨shifted, ?_, ?_, sameShifted.trans same⟩
    · rw [List.getLast?_concat, Option.map_some, shiftSkips, load_some, atAddress]
      simp only [Option.bind_eq_bind, Option.bind_some, prevNode, movedEq, prevEq, shiftedEq]
    · simpa using shiftedLayout

/-! ### Making a skip node and updating the depths -/

/-- The memory after `addSkipNode`. -/
def addedSkip (list : LineRefList) (skip : Nat) (node : Pointer) : LineRefList :=
  ((list.write skip (.setDepth ((list.skipDistance : Int) - 1))).writeAt node
    (.setPrevSkip (some skip))).write skip (.setNextSkip node)

theorem linkBehind_eq {list : LineRefList} {node : Pointer} (skip : Pointer)
    (front : ∀ address, node = some address → address < list.nodes.length ∧
      list.prevSkipOf address = none) :
    list.linkBehind skip node = some (list.writeAt node (.setPrevSkip skip)) := by
  cases node with
  | none => rfl
  | some address =>
    obtain ⟨bound, first⟩ := front address rfl
    rw [prevSkipOf, List.getElem?_eq_getElem bound, Option.bind_some] at first
    simp only [linkBehind, load_some, List.getElem?_eq_getElem bound, Option.bind_eq_bind,
      Option.bind_some, first, Option.isNone_none, guard_true]
    exact store_some bound _

theorem addSkipNode_eq {list : LineRefList} {skip : Nat} {node : Pointer}
    (bound : skip < list.nodes.length) (other : node ≠ some skip)
    (outside : list.prevSkipOf skip = none)
    (front : ∀ address, node = some address → address < list.nodes.length ∧
      list.prevSkipOf address = none) :
    list.addSkipNode (some skip) node = some (list.addedSkip skip node) := by
  have atSkip := List.getElem?_eq_getElem bound
  rw [prevSkipOf, atSkip, Option.bind_some] at outside
  have frontWritten : ∀ address, node = some address →
      address < (list.write skip (.setDepth ((list.skipDistance : Int) - 1))).nodes.length ∧
      (list.write skip (.setDepth ((list.skipDistance : Int) - 1))).prevSkipOf address = none := by
    intro address points
    obtain ⟨valid, first⟩ := front address points
    refine ⟨by simpa using valid, ?_⟩
    have elsewhere : skip ≠ address := fun same => other (same ▸ points)
    rw [prevSkipOf, write_getElem?, if_neg elsewhere]
    exact first
  simp only [addSkipNode, Option.isSome_some, guard_true, Option.bind_eq_bind, Option.bind_some,
    store_some bound, linkBehind_eq (some skip) frontWritten]
  rw [store_some (by simpa using bound)]
  simp only [Option.bind_some, load_some, write_getElem?, writeAt_getElem?, if_neg other, atSkip,
    if_true, Option.map_some]
  simp only [LineRef.setNextSkip, LineRef.setDepth, outside, Option.isNone_none, guard_true,
    Option.pure_def, Option.bind_some]
  rfl

theorem eraseSkips_addedSkip (list : LineRefList) (skip : Nat) (node : Pointer) :
    (list.addedSkip skip node).eraseSkips = list.eraseSkips := by
  unfold addedSkip
  rw [eraseSkips_write, eraseSkips_writeAt, eraseSkips_write] <;> exact fun _ => rfl

theorem prevSkipOf_addedSkip {list : LineRefList} {skip address : Nat} {node : Pointer}
    (bound : address < list.nodes.length) :
    (list.addedSkip skip node).prevSkipOf address =
      if node = some address then some skip else list.prevSkipOf address := by
  simp only [prevSkipOf, addedSkip, write_getElem?, writeAt_getElem?,
    List.getElem?_eq_getElem bound]
  split_ifs <;> rfl

theorem nextSkipOf_addedSkip {list : LineRefList} {skip address : Nat} {node : Pointer}
    (bound : address < list.nodes.length) :
    (list.addedSkip skip node).nextSkipOf address =
      if address = skip then node else list.nextSkipOf address := by
  simp only [nextSkipOf, addedSkip, write_getElem?, writeAt_getElem?, eq_comm (a := skip),
    List.getElem?_eq_getElem bound]
  split_ifs <;> rfl

theorem depthOf_addedSkip {list : LineRefList} {skip address : Nat} {node : Pointer}
    (bound : address < list.nodes.length) :
    (list.addedSkip skip node).depthOf address =
      if address = skip then some ((list.skipDistance : Int) - 1) else list.depthOf address := by
  simp only [depthOf, addedSkip, write_getElem?, writeAt_getElem?, eq_comm (a := skip),
    List.getElem?_eq_getElem bound]
  split_ifs <;> rfl

/-- Making a node outside the skip list a skip node in front of the first one puts a new slot in
front. The skip distance is the new slot's depth plus one. -/
theorem addSkipNode_spec {list : LineRefList} {slots : List (Nat × Nat)}
    (layout : list.SkipLayout slots) {skip depth : Nat} (bound : skip < list.nodes.length)
    (fresh : skip ∉ slots.map Prod.fst) (spacing : list.skipDistance = depth + 1) :
    ∃ added, list.addSkipNode (some skip) (slots.map Prod.fst)[0]? = some added ∧
      added.SkipLayout ((skip, depth) :: slots) ∧ added.eraseSkips = list.eraseSkips := by
  have front : ∀ address, (slots.map Prod.fst)[0]? = some address →
      address < list.nodes.length ∧ list.prevSkipOf address = none := fun address held =>
    ⟨layout.valid address (List.mem_of_getElem? held), layout.linked.prev_eq 0 address held⟩
  have other : (slots.map Prod.fst)[0]? ≠ some skip :=
    fun held => fresh (List.mem_of_getElem? held)
  obtain ⟨outsidePrev, -, -⟩ := layout.plain skip bound fresh
  refine ⟨_, addSkipNode_eq bound other outsidePrev front, ?_, eraseSkips_addedSkip ..⟩
  have length := length_of_eraseSkips_eq (eraseSkips_addedSkip list skip (slots.map Prod.fst)[0]?)
  have notSkip : ∀ address ∈ slots.map Prod.fst, address ≠ skip := by
    rintro address member rfl
    exact fresh member
  constructor
  · exact List.nodup_cons.mpr ⟨fresh, layout.distinct⟩
  · rw [length]
    intro address member
    rcases List.mem_cons.mp member with rfl | member
    · exact bound
    · exact layout.valid address member
  · refine layout.linked.cons layout.distinct ?_ ?_ ?_ ?_
    · rw [prevSkipOf_addedSkip bound, if_neg other, outsidePrev]
    · rw [nextSkipOf_addedSkip bound, if_pos rfl]
    · intro address member
      exact prevSkipOf_addedSkip (layout.valid address member)
    · intro address member
      rw [nextSkipOf_addedSkip (layout.valid address member), if_neg (notSkip address member)]
  · intro slot member
    rcases List.mem_cons.mp member with rfl | member
    · rw [depthOf_addedSkip bound, if_pos rfl, spacing]
      simp
    · have old := List.mem_map_of_mem (f := Prod.fst) member
      rw [depthOf_addedSkip (layout.valid _ old), if_neg (notSkip _ old)]
      exact layout.depth_eq slot member
  · rw [length]
    intro address valid outside
    rw [List.map_cons, List.mem_cons, not_or] at outside
    have notFront : (slots.map Prod.fst)[0]? ≠ some address :=
      fun held => outside.2 (List.mem_of_getElem? held)
    rw [prevSkipOf_addedSkip valid, nextSkipOf_addedSkip valid, depthOf_addedSkip valid,
      if_neg notFront, if_neg outside.1, if_neg outside.1]
    exact layout.plain address valid outside.2

/-- Adding one to the depth of a skip node adds one to the depth of its slot. -/
theorem incrDepth_layout {list : LineRefList} {front back : List (Nat × Nat)}
    {address depth : Nat} (layout : list.SkipLayout (front ++ (address, depth) :: back)) :
    (list.write address .incrDepth).SkipLayout (front ++ (address, depth + 1) :: back) := by
  have addresses : (front ++ (address, depth + 1) :: back).map Prod.fst =
      (front ++ (address, depth) :: back).map Prod.fst := by simp
  have prevSame : (list.write address .incrDepth).prevSkipOf = list.prevSkipOf := by
    funext other
    rw [prevSkipOf, prevSkipOf, write_getElem?]
    cases list.nodes[other]? <;> split <;> rfl
  have nextSame : (list.write address .incrDepth).nextSkipOf = list.nextSkipOf := by
    funext other
    rw [nextSkipOf, nextSkipOf, write_getElem?]
    cases list.nodes[other]? <;> split <;> rfl
  have depthOther : ∀ other, other ≠ address →
      (list.write address .incrDepth).depthOf other = list.depthOf other := by
    intro other different
    rw [depthOf, depthOf, write_getElem?, if_neg different.symm]
  have notAddress : ∀ slot ∈ front ++ back, slot.1 ≠ address := by
    intro slot member same
    have distinct := layout.distinct
    rw [List.map_append, List.map_cons, List.nodup_middle, ← List.map_append] at distinct
    have again : slot.1 ∈ (front ++ back).map Prod.fst := List.mem_map_of_mem member
    exact (List.nodup_cons.mp distinct).1 (same ▸ again)
  constructor
  · rw [addresses]
    exact layout.distinct
  · rw [addresses, write_length]
    exact layout.valid
  · rw [addresses, prevSame, nextSame]
    exact layout.linked
  · intro slot member
    rcases List.mem_append.mp member with inFront | inBack
    · rw [depthOther _ (notAddress slot (List.mem_append_left _ inFront))]
      exact layout.depth_eq slot (List.mem_append_left _ inFront)
    rcases List.mem_cons.mp inBack with rfl | inBack
    · have old := layout.depth_eq (address, depth) (by simp)
      rw [depthOf, Option.map_eq_some_iff] at old
      obtain ⟨node, atAddress, depthEq⟩ := old
      rw [depthOf, write_getElem?, if_pos rfl, atAddress]
      simp [LineRef.incrDepth, depthEq]
    · rw [depthOther _ (notAddress slot (List.mem_append_right _ inBack))]
      exact layout.depth_eq slot (List.mem_append_right _ (List.mem_cons_of_mem _ inBack))
  · rw [addresses, write_length, prevSame, nextSame]
    intro other valid outside
    rw [depthOther other]
    · exact layout.plain other valid outside
    · rintro rfl
      exact outside (by simp)

/-- The depth update adds one to the depth of every slot from where it starts. The slots in
front of it are those already updated. -/
theorem updateDepths_spec (back : List (Nat × Nat)) :
    ∀ {list : LineRefList} {front : List (Nat × Nat)} {fuel : Nat},
      list.SkipLayout (front ++ back) → back.length < fuel →
      ∃ updated, list.updateDepths fuel (back.map Prod.fst)[0]? = some updated ∧
        updated.SkipLayout (front ++ back.map fun slot => (slot.1, slot.2 + 1)) ∧
        updated.eraseSkips = list.eraseSkips := by
  induction back with
  | nil =>
    intro list front fuel layout enough
    obtain ⟨fuel, rfl⟩ : ∃ rest, fuel = rest + 1 := ⟨fuel - 1, by omega⟩
    exact ⟨list, rfl, layout, rfl⟩
  | cons slot back inductionHypothesis =>
    intro list front fuel layout enough
    obtain ⟨address, depth⟩ := slot
    obtain ⟨fuel, rfl⟩ : ∃ rest, fuel = rest + 1 := ⟨fuel - 1, by omega⟩
    have next := incrDepth_layout layout
    have found : (front ++ (address, depth + 1) :: back)[front.length]? =
        some (address, depth + 1) := by
      rw [List.getElem?_append_right le_rfl, Nat.sub_self]
      rfl
    obtain ⟨node, atAddress, -, nextEq, -⟩ := next.node_of_slot found
    have following : node.nextSkip = (back.map Prod.fst)[0]? := by
      rw [nextEq, List.map_append, List.getElem?_append_right (by simp), List.length_map,
        Nat.add_sub_cancel_left]
      rfl
    rw [List.append_cons] at next
    have remaining : back.length < fuel := by
      rw [List.length_cons] at enough
      omega
    obtain ⟨updated, updatedEq, updatedLayout, same⟩ := inductionHypothesis next remaining
    refine ⟨updated, ?_, ?_, same.trans (eraseSkips_write list address fun _ => rfl)⟩
    · have bound : address < list.nodes.length := layout.valid address (by simp)
      show (list.store (some address) .incrDepth).bind _ = _
      rw [store_some bound, Option.bind_some, load_some, atAddress, Option.bind_eq_bind,
        Option.bind_some, following]
      exact updatedEq
    · simpa using updatedLayout

end LineRefList

end BarrierPoint
