/-
This file proves that the two operations of the recency list do on the nodes
in memory what they do on the sequence of lines. The invariant `Represents`
ties a memory to the sequence of its nodes from the most recently used on:
head, links and skip list all spell out that sequence, and which places carry
a skip node is a function of the length alone. Adding a line puts its node in
front; moving a line returns its place and puts its node in front. Neither
follows a null pointer or fails an assertion.
-/

import BarrierPoint.SkipLayout
import Mathlib.Tactic.Ring

namespace BarrierPoint

open Library

namespace LineRefList

/-! ### The places of the skip nodes -/

/-- The number of skip nodes in a list of `length` nodes. -/
def skipCount (distance length : Nat) : Nat := (length + 1) / distance - 1

/-- The place of the skip node with the given index, counted from the front. -/
def skipPlace (distance length index : Nat) : Nat :=
  distance - 1 + (length + 1) % distance + index * distance

/-- The slots of the skip list over a sequence of nodes: each skip node stores its place. -/
def skipSlots (distance : Nat) (order : List Nat) : List (Nat × Nat) :=
  (List.range (skipCount distance order.length)).map fun index =>
    (order.getD (skipPlace distance order.length index) 0,
      skipPlace distance order.length index)

/-- A place of the sequence that carries a skip node. -/
def IsSkipPlace (distance length place : Nat) : Prop :=
  ∃ index < skipCount distance length, skipPlace distance length index = place

theorem skipPlace_add_distance_le {distance length index : Nat}
    (counted : index < skipCount distance length) :
    skipPlace distance length index + distance ≤ length := by
  unfold skipCount at counted
  have whole := Nat.div_add_mod (length + 1) distance
  have steps : distance * (index + 2) ≤ distance * ((length + 1) / distance) :=
    Nat.mul_le_mul_left distance (by omega)
  have expand : distance * (index + 2) = index * distance + 2 * distance := by ring
  have positive : 0 < distance := by
    rcases Nat.eq_zero_or_pos distance with rfl | positive
    · simp at counted
    · exact positive
  unfold skipPlace
  omega

theorem skipPlace_lt {distance length index : Nat} (counted : index < skipCount distance length)
    (positive : 0 < distance) : skipPlace distance length index < length := by
  have bound := skipPlace_add_distance_le counted
  omega

theorem skipPlace_injective {distance length first second : Nat} (positive : 0 < distance)
    (same : skipPlace distance length first = skipPlace distance length second) :
    first = second :=
  Nat.eq_of_mul_eq_mul_right positive (Nat.add_left_cancel same)

/-- No two skip nodes are neighbours. -/
theorem skipPlace_ne_succ {distance length first second : Nat} (spaced : 2 ≤ distance) :
    skipPlace distance length first ≠ skipPlace distance length second + 1 := by
  unfold skipPlace
  intro same
  have apart : first * distance = second * distance + 1 := by omega
  have left : first * distance % distance = 0 := Nat.mul_mod_left first distance
  rw [apart, Nat.mul_add_mod_self_right, Nat.mod_eq_of_lt spaced] at left
  omega

theorem skipPlace_le_skipPlace {distance length first second : Nat} (ordered : first ≤ second) :
    skipPlace distance length first ≤ skipPlace distance length second := by
  unfold skipPlace
  have := Nat.mul_le_mul_right distance ordered
  omega

/-- The place of the first skip node, or the length when there is none. -/
def firstSkip (distance length : Nat) : Nat :=
  if skipCount distance length = 0 then length else skipPlace distance length 0

/-- One more line leaves room for a new skip node in front exactly when it completes a stretch. -/
theorem firstSkip_ge_iff {distance length : Nat} (spaced : 2 ≤ distance) :
    2 * distance - 1 ≤ firstSkip distance length + 1 ↔
      0 < (length + 1) / distance ∧ (length + 1) % distance + 1 = distance := by
  have whole := Nat.div_add_mod (length + 1) distance
  have small := Nat.mod_lt (length + 1) (show 0 < distance by omega)
  unfold firstSkip skipCount skipPlace
  split
  · rename_i few
    rcases Nat.le_one_iff_eq_zero_or_eq_one.mp (show (length + 1) / distance ≤ 1 by omega) with
      none | one
    · rw [none] at whole ⊢
      omega
    · rw [one] at whole ⊢
      omega
  · omega

theorem mod_succ_of_lt {distance length : Nat}
    (room : (length + 1) % distance + 1 < distance) :
    (length + 1 + 1) / distance = (length + 1) / distance ∧
      (length + 1 + 1) % distance = (length + 1) % distance + 1 := by
  have whole := Nat.div_add_mod (length + 1) distance
  refine Nat.div_mod_unique (by omega) |>.mpr ⟨?_, room⟩
  omega

theorem mod_succ_of_eq {distance length : Nat} (positive : 0 < distance)
    (full : (length + 1) % distance + 1 = distance) :
    (length + 1 + 1) / distance = (length + 1) / distance + 1 ∧
      (length + 1 + 1) % distance = 0 := by
  have whole := Nat.div_add_mod (length + 1) distance
  refine Nat.div_mod_unique positive |>.mpr ⟨?_, positive⟩
  rw [Nat.mul_succ]
  omega

/-- Without room for a new skip node, one more line in front moves every skip node back. -/
theorem skipSlots_cons_of_not {distance ref : Nat} {order : List Nat} (spaced : 2 ≤ distance)
    (room : ¬ (0 < (order.length + 1) / distance ∧
      (order.length + 1) % distance + 1 = distance)) :
    skipSlots distance (ref :: order) =
      (skipSlots distance order).map fun slot => (slot.1, slot.2 + 1) := by
  have small := Nat.mod_lt (order.length + 1) (show 0 < distance by omega)
  by_cases full : (order.length + 1) % distance + 1 = distance
  · have few : (order.length + 1) / distance = 0 :=
      Nat.eq_zero_of_not_pos fun many => room ⟨many, full⟩
    have next := (mod_succ_of_eq (by omega) full).1
    simp only [skipSlots, skipCount, List.length_cons, next, few]
    rfl
  · obtain ⟨sameCount, shifted⟩ :=
      mod_succ_of_lt (show (order.length + 1) % distance + 1 < distance by omega)
    have places : ∀ index, skipPlace distance (order.length + 1) index =
        skipPlace distance order.length index + 1 := by
      intro index
      unfold skipPlace
      rw [shifted]
      omega
    simp only [skipSlots, skipCount, List.length_cons, sameCount, places, List.map_map]
    rfl

/-- With room for it, one more line in front adds a skip node and moves the others back. -/
theorem skipSlots_cons_of_room {distance ref : Nat} {order : List Nat} (spaced : 2 ≤ distance)
    (many : 0 < (order.length + 1) / distance)
    (full : (order.length + 1) % distance + 1 = distance) :
    skipSlots distance (ref :: order) =
      ((ref :: order).getD (distance - 1) 0, distance - 1) ::
        (skipSlots distance order).map fun slot => (slot.1, slot.2 + 1) := by
  obtain ⟨nextCount, nextMod⟩ := mod_succ_of_eq (by omega) full
  obtain ⟨count, countEq⟩ : ∃ count, (order.length + 1) / distance = count + 1 :=
    ⟨(order.length + 1) / distance - 1, by omega⟩
  have first : skipPlace distance (order.length + 1) 0 = distance - 1 := by
    simp [skipPlace, nextMod]
  have places : ∀ index, skipPlace distance (order.length + 1) (index + 1) =
      skipPlace distance order.length index + 1 := by
    intro index
    unfold skipPlace
    rw [nextMod, Nat.succ_mul]
    omega
  simp only [skipSlots, skipCount, List.length_cons, nextCount, countEq, Nat.add_sub_cancel,
    List.range_succ_eq_map, List.map_cons, List.map_map, first]
  refine congrArg _ (List.map_congr_left fun index _ => ?_)
  show ((ref :: order).getD (skipPlace distance (order.length + 1) (index + 1)) 0,
    skipPlace distance (order.length + 1) (index + 1)) = _
  rw [places]
  rfl

theorem getD_eq {order : List Nat} {place address : Nat} (held : order[place]? = some address) :
    order.getD place 0 = address := by
  rw [List.getD_eq_getElem?_getD, held]
  rfl

/-- The first slot is the node at the place of the first skip node. -/
theorem skipSlots_first {distance : Nat} {order : List Nat} (positive : 0 < distance) :
    ((skipSlots distance order).map Prod.fst)[0]? = order[firstSkip distance order.length]? := by
  unfold firstSkip
  split
  · rename_i none
    rw [skipSlots, none, List.getElem?_eq_none le_rfl]
    rfl
  · rename_i some_
    have counted : 0 < skipCount distance order.length := Nat.pos_of_ne_zero some_
    have held := List.getElem?_eq_getElem (skipPlace_lt counted positive)
    rw [held, skipSlots, List.map_map, List.getElem?_map, List.getElem?_range counted]
    exact congrArg some (getD_eq held)

theorem skipSlots_length_le (distance : Nat) (order : List Nat) :
    (skipSlots distance order).length ≤ order.length := by
  rw [skipSlots, List.length_map, List.length_range, skipCount]
  have := Nat.div_le_self (order.length + 1) distance
  omega

theorem firstSkip_le {distance length : Nat} (positive : 0 < distance) :
    firstSkip distance length ≤ length := by
  unfold firstSkip
  split
  · exact le_rfl
  · rename_i some_
    exact (skipPlace_lt (Nat.pos_of_ne_zero some_) positive).le

/-- No place before the first skip node carries one. -/
theorem not_isSkipPlace_of_lt {distance length place : Nat}
    (before : place < firstSkip distance length) : ¬ IsSkipPlace distance length place := by
  rintro ⟨index, counted, rfl⟩
  unfold firstSkip at before
  rw [if_neg (by omega)] at before
  have first : skipPlace distance length 0 ≤ skipPlace distance length index :=
    skipPlace_le_skipPlace (Nat.zero_le index)
  omega

theorem isSkipPlace_firstSkip {distance length : Nat}
    (inside : firstSkip distance length < length) :
    IsSkipPlace distance length (firstSkip distance length) := by
  unfold firstSkip at inside ⊢
  split at inside
  · omega
  · rename_i some_
    rw [if_neg some_]
    exact ⟨0, Nat.pos_of_ne_zero some_, rfl⟩

/-- A node of the skip list stands at a place that carries a skip node. -/
theorem isSkipPlace_of_mem {distance : Nat} {order : List Nat} (distinct : order.Nodup)
    (positive : 0 < distance) {place address : Nat} (held : order[place]? = some address)
    (member : address ∈ (skipSlots distance order).map Prod.fst) :
    IsSkipPlace distance order.length place := by
  simp only [skipSlots, List.map_map, List.mem_map, List.mem_range] at member
  obtain ⟨index, counted, same⟩ := member
  have inRange := skipPlace_lt counted positive
  have heldSkip : order[skipPlace distance order.length index]? = some address := by
    rw [List.getElem?_eq_getElem inRange, ← same]
    exact congrArg some (getD_eq (List.getElem?_eq_getElem inRange)).symm
  exact ⟨index, counted, (getElem?_eq_some_iff_eq distinct held _).mp heldSkip⟩

/-- At a place with a skip node the stored depth is the place. -/
theorem SkipLayout.depth_of_skip {list : LineRefList} {distance : Nat} {order : List Nat}
    (layout : list.SkipLayout (skipSlots distance order)) {place address : Nat}
    (held : order[place]? = some address) (skip : IsSkipPlace distance order.length place) :
    list.depthOf address = some (place : Int) := by
  obtain ⟨index, counted, rfl⟩ := skip
  rw [← getD_eq held]
  exact layout.depth_eq _ (List.mem_map_of_mem (List.mem_range.mpr counted))

/-- At any other place the node is outside the skip list. -/
theorem SkipLayout.depth_of_not_skip {list : LineRefList} {distance : Nat} {order : List Nat}
    (layout : list.SkipLayout (skipSlots distance order)) (distinct : order.Nodup)
    (positive : 0 < distance) {place address : Nat} (bound : address < list.nodes.length)
    (held : order[place]? = some address) (plain : ¬ IsSkipPlace distance order.length place) :
    list.depthOf address = some (-1) :=
  (layout.plain address bound
    fun member => plain (isSkipPlace_of_mem distinct positive held member)).2.2

/-! ### The invariant -/

/-- Head and links spell out the sequence of all nodes, and the gate is one of them. -/
structure Threads (list : LineRefList) (order : List Nat) : Prop where
  distinct : order.Nodup
  mem_iff : ∀ address, address ∈ order ↔ address < list.nodes.length
  head_eq : list.head = order[0]?
  linked : Linked list.prevOf list.nextOf order
  gate_valid : ∀ address, list.gate = some address → address < list.nodes.length

/-- The memory spells out the sequence of its nodes, most recently used first, with the skip
nodes at their places. -/
structure Represents (list : LineRefList) (order : List Nat) : Prop extends
    list.Threads order where
  skips : list.SkipLayout (skipSlots list.skipDistance order)

theorem represents_new (reuseThreshold skipDist : Nat) (verify debugVerbose : Bool) :
    (new reuseThreshold skipDist verify debugVerbose).Represents [] := by
  have noSlots : skipSlots (new reuseThreshold skipDist verify debugVerbose).skipDistance [] =
      [] := by
    have none : skipCount skipDist 0 = 0 := by
      unfold skipCount
      have := Nat.div_le_self (0 + 1) skipDist
      omega
    simp only [skipSlots, List.length_nil, new, none]
    rfl
  refine ⟨⟨List.nodup_nil, by simp [new], rfl, linked_nil _ _, by simp [new]⟩, ?_⟩
  rw [noSlots]
  exact ⟨List.nodup_nil, by simp, linked_nil _ _, by simp, by simp [new]⟩

namespace Threads

variable {list : LineRefList} {order : List Nat}

/-- The sequence has every node of the memory once. -/
theorem perm_range (threads : list.Threads order) :
    order.Perm (List.range list.nodes.length) := by
  refine (List.perm_ext_iff_of_nodup threads.distinct List.nodup_range).mpr fun address => ?_
  rw [threads.mem_iff, List.mem_range]

theorem length_eq (threads : list.Threads order) : order.length = list.nodes.length := by
  rw [threads.perm_range.length_eq, List.length_range]

theorem bound (threads : list.Threads order) {place address : Nat}
    (held : order[place]? = some address) : address < list.nodes.length :=
  (threads.mem_iff address).mp (List.mem_of_getElem? held)

theorem head_valid (threads : list.Threads order) {address : Nat}
    (atHead : list.head = some address) : address < list.nodes.length :=
  threads.bound (threads.head_eq.symm.trans atHead)

/-- The predecessor of a node is a node. -/
theorem prevOf_valid (threads : list.Threads order) {address other : Nat}
    (valid : address < list.nodes.length) (points : list.prevOf address = some other) :
    other < list.nodes.length :=
  (threads.mem_iff other).mp
    (threads.linked.mem_of_prev ((threads.mem_iff address).mpr valid) points)

/-- Threads are no matter of the skip fields. -/
theorem of_eraseSkips_eq {other : LineRefList} (threads : list.Threads order)
    (same : other.eraseSkips = list.eraseSkips) : other.Threads order := by
  have headSame : other.head = list.head := by
    show other.eraseSkips.head = list.eraseSkips.head
    rw [same]
  have gateSame : other.gate = list.gate := by
    show other.eraseSkips.gate = list.eraseSkips.gate
    rw [same]
  constructor
  · exact threads.distinct
  · rw [length_of_eraseSkips_eq same]
    exact threads.mem_iff
  · rw [headSame]
    exact threads.head_eq
  · rw [prevOf_of_eraseSkips_eq same, nextOf_of_eraseSkips_eq same]
    exact threads.linked
  · rw [gateSame, length_of_eraseSkips_eq same]
    exact threads.gate_valid

end Threads

/-! ### The walks -/

section Walks

variable {list : LineRefList} {order : List Nat}

/-- Stepping over a node whose depth is known. -/
theorem node_of_depthOf {address : Nat} {depth : Int} (known : list.depthOf address = some depth) :
    ∃ node, list.nodes[address]? = some node ∧ node.depth = depth ∧
      node.prev = list.prevOf address ∧ node.next = list.nextOf address := by
  obtain ⟨node, atAddress, depthEq⟩ := Option.map_eq_some_iff.mp known
  refine ⟨node, atAddress, depthEq, ?_, ?_⟩
  · rw [prevOf, atAddress]
    rfl
  · rw [nextOf, atAddress]
    rfl

/-- Counting from the head stops at the first node with a depth, having remembered the node at
the skip distance. -/
theorem scanPlain_spec (limit : Nat) (within : limit ≤ order.length)
    (linked : ∀ place address, order[place]? = some address →
      list.nextOf address = order[place + 1]?)
    (plain : ∀ place address, place < limit → order[place]? = some address →
      list.depthOf address = some (-1))
    (stop : ∀ address, order[limit]? = some address →
      ∃ depth : Int, depth ≠ -1 ∧ list.depthOf address = some depth)
    (fuel : Nat) : ∀ place, place ≤ limit → limit - place < fuel →
      list.scanPlain fuel order[place]? place
          (if list.skipDistance ≤ place then order[list.skipDistance - 1]? else none) =
        some (order[limit]?, limit,
          if list.skipDistance ≤ limit then order[list.skipDistance - 1]? else none) := by
  induction fuel with
  | zero => intro place _ enough; omega
  | succ fuel inductionHypothesis =>
    intro place before enough
    by_cases here : place = limit
    · subst here
      cases held : order[place]? with
      | none => rfl
      | some address =>
        obtain ⟨depth, notPlain, known⟩ := stop address held
        obtain ⟨node, atAddress, depthEq, -, -⟩ := node_of_depthOf known
        rw [scanPlain, load_some, atAddress, Option.bind_eq_bind, Option.bind_some, depthEq,
          if_neg notPlain]
    · have inRange : place < order.length := by omega
      have held := List.getElem?_eq_getElem inRange
      obtain ⟨node, atAddress, depthEq, -, nextEq⟩ :=
        node_of_depthOf (plain place _ (by omega) held)
      rw [held, scanPlain, load_some, atAddress, Option.bind_eq_bind, Option.bind_some, depthEq,
        if_pos rfl, nextEq, linked place _ held,
        ← inductionHypothesis (place + 1) (by omega) (by omega)]
      refine congrArg _ ?_
      by_cases reached : place + 1 = list.skipDistance
      · rw [if_pos reached, if_pos (by omega), ← held,
          show list.skipDistance - 1 = place by omega]
      · rw [if_neg reached]
        by_cases passed : list.skipDistance ≤ place
        · rw [if_pos passed, if_pos (by omega)]
        · rw [if_neg passed, if_neg (by omega)]

/-- Walking back from a place stops at the nearest node with a depth. -/
theorem walkBack_of_stop {stop : Nat} {target : Nat} {depth : Int}
    (linked : ∀ place address, order[place]? = some address →
      list.prevOf address = predecessor order place)
    (atStop : order[stop]? = some target) (known : list.depthOf target = some depth)
    (marked : depth ≠ -1) (steps : Nat) : ∀ {fuel : Nat} {address : Nat} (dist : Int),
      steps < fuel → order[stop + steps]? = some address →
      (∀ place address, stop < place → place ≤ stop + steps → order[place]? = some address →
        list.depthOf address = some (-1)) →
      list.walkBack fuel (some address) dist = some (some target, dist + steps) := by
  induction steps with
  | zero =>
    intro fuel address dist enough held _
    obtain ⟨fuel, rfl⟩ : ∃ rest, fuel = rest + 1 := ⟨fuel - 1, by omega⟩
    obtain rfl : target = address := Option.some_inj.mp (atStop.symm.trans held)
    obtain ⟨node, atAddress, depthEq, -, -⟩ := node_of_depthOf known
    rw [walkBack, load_some, atAddress, Option.bind_eq_bind, Option.bind_some, depthEq,
      if_neg marked]
    simp
  | succ steps inductionHypothesis =>
    intro fuel address dist enough held plain
    obtain ⟨fuel, rfl⟩ : ∃ rest, fuel = rest + 1 := ⟨fuel - 1, by omega⟩
    obtain ⟨node, atAddress, depthEq, prevEq, -⟩ :=
      node_of_depthOf (plain _ _ (by omega) (by omega) held)
    have inRange : stop + steps < order.length := by
      have := (List.getElem?_eq_some_iff.mp held).1
      omega
    rw [walkBack, load_some, atAddress, Option.bind_eq_bind, Option.bind_some, depthEq,
      if_pos rfl, prevEq, linked _ _ held, ← Nat.add_assoc, predecessor_succ,
      List.getElem?_eq_getElem inRange,
      inductionHypothesis (dist + 1) (by omega) (List.getElem?_eq_getElem inRange)
        (fun place address after upTo => plain place address after (by omega))]
    push_cast
    rw [add_assoc, add_comm 1]

/-- Walking back past the front, when no node on the way has a depth. -/
theorem walkBack_of_plain (linked : ∀ place address, order[place]? = some address →
      list.prevOf address = predecessor order place) (place : Nat) :
    ∀ {fuel : Nat} {address : Nat} (dist : Int), place + 1 < fuel →
      order[place]? = some address →
      (∀ other address, other ≤ place → order[other]? = some address →
        list.depthOf address = some (-1)) →
      list.walkBack fuel (some address) dist = some (none, dist + (place + 1)) := by
  induction place with
  | zero =>
    intro fuel address dist enough held plain
    obtain ⟨fuel, rfl⟩ : ∃ rest, fuel = rest + 2 := ⟨fuel - 2, by omega⟩
    obtain ⟨node, atAddress, depthEq, prevEq, -⟩ := node_of_depthOf (plain 0 address le_rfl held)
    rw [walkBack, load_some, atAddress, Option.bind_eq_bind, Option.bind_some, depthEq,
      if_pos rfl, prevEq, linked 0 _ held, predecessor_zero, walkBack]
    simp
  | succ place inductionHypothesis =>
    intro fuel address dist enough held plain
    obtain ⟨fuel, rfl⟩ : ∃ rest, fuel = rest + 1 := ⟨fuel - 1, by omega⟩
    obtain ⟨node, atAddress, depthEq, prevEq, -⟩ :=
      node_of_depthOf (plain _ address le_rfl held)
    have inRange : place < order.length := by
      have := (List.getElem?_eq_some_iff.mp held).1
      omega
    rw [walkBack, load_some, atAddress, Option.bind_eq_bind, Option.bind_some, depthEq,
      if_pos rfl, prevEq, linked _ _ held, predecessor_succ, List.getElem?_eq_getElem inRange,
      inductionHypothesis (dist + 1) (by omega) (List.getElem?_eq_getElem inRange)
        (fun other address upTo => plain other address (by omega))]
    push_cast
    rw [add_assoc, add_comm 1]

/-- The walk from the head counts the steps to a place. -/
theorem bruteDist_spec (distinct : order.Nodup)
    (valid : ∀ address ∈ order, address < list.nodes.length)
    (linked : ∀ place address, order[place]? = some address →
      list.nextOf address = order[place + 1]?)
    {target : Nat} (steps : Nat) : ∀ {fuel place : Nat} (dist : Int), steps < fuel →
      order[place + steps]? = some target →
      list.bruteDist target fuel order[place]? dist = some (dist + steps) := by
  induction steps with
  | zero =>
    intro fuel place dist enough held
    obtain ⟨fuel, rfl⟩ : ∃ rest, fuel = rest + 1 := ⟨fuel - 1, by omega⟩
    rw [Nat.add_zero] at held
    rw [held, bruteDist, if_pos rfl]
    simp
  | succ steps inductionHypothesis =>
    intro fuel place dist enough held
    obtain ⟨fuel, rfl⟩ : ∃ rest, fuel = rest + 1 := ⟨fuel - 1, by omega⟩
    have inRange : place < order.length := by
      have := (List.getElem?_eq_some_iff.mp held).1
      omega
    have here := List.getElem?_eq_getElem inRange
    have notYet : (some order[place] : Pointer) ≠ some target := by
      rw [← here, Ne, getElem?_eq_some_iff_eq distinct held]
      omega
    have atPlace := List.getElem?_eq_getElem (valid _ (List.getElem_mem inRange))
    have nextEq := linked place _ here
    rw [nextOf, atPlace, Option.bind_some] at nextEq
    rw [here, bruteDist, if_neg notYet, load_some, atPlace, Option.bind_eq_bind, Option.bind_some,
      nextEq, inductionHypothesis (dist + 1) (by omega)
        (by rw [show place + 1 + steps = place + (steps + 1) by omega]; exact held)]
    push_cast
    rw [add_assoc, add_comm 1]

end Walks

end LineRefList

end BarrierPoint
