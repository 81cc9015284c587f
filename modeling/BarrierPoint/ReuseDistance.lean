/-
This file models the reuse distance tracker of the client: the recency list of
cache lines with its one-layer skip list, and the lookup that feeds it. The
list nodes live in a memory of line references addressed by pointers, every
field of `line_ref_t` is one field of a node, and every pointer of the source
is an optional address. Following a null or dangling pointer and failing one
of the source's assertions both end a run (`none`), so a lookup that returns
has done neither.
-/

import Mathlib.Data.List.AList
import Mathlib.Data.BitVec

namespace BarrierPoint

/-- `addr_t`: a memory address of the instrumented application. -/
abbrev Address := BitVec 64

/-- `std::unordered_map`. The iteration order of the source's maps is unspecified; here it is
the order of the entries, so a statement about every map covers every iteration order. -/
abbrev UnorderedMap (Key Value : Type) := AList fun _ : Key => Value

/-- `line_ref_t *`: the place of a node in the memory of line references, or `NULL`. -/
abbrev Pointer := Option Nat

/-- A doubly linked list node for the cache line reference info. The time stamp and the
reference counts count calls; no run makes enough of them to wrap a 64-bit counter. -/
structure LineRef where
  prev : Pointer
  next : Pointer
  timeStamp : Nat
  totalRefs : Nat
  distantRefs : Nat
  tag : Address
  prevSkip : Pointer
  nextSkip : Pointer
  depth : Int
  deriving DecidableEq, Repr

namespace LineRef

/-- The constructor of `line_ref_t`. The source leaves the time stamp to `add_to_front`. -/
def new (tag : Address) : LineRef where
  prev := none
  next := none
  timeStamp := 0
  totalRefs := 1
  distantRefs := 0
  tag := tag
  prevSkip := none
  nextSkip := none
  depth := -1

def setPrev (value : Pointer) (node : LineRef) : LineRef := { node with prev := value }

def setNext (value : Pointer) (node : LineRef) : LineRef := { node with next := value }

def setTimeStamp (value : Nat) (node : LineRef) : LineRef := { node with timeStamp := value }

def countRef (node : LineRef) : LineRef := { node with totalRefs := node.totalRefs + 1 }

def countDistantRef (node : LineRef) : LineRef :=
  { node with distantRefs := node.distantRefs + 1 }

def setPrevSkip (value : Pointer) (node : LineRef) : LineRef := { node with prevSkip := value }

def setNextSkip (value : Pointer) (node : LineRef) : LineRef := { node with nextSkip := value }

def setDepth (value : Int) (node : LineRef) : LineRef := { node with depth := value }

def incrDepth (node : LineRef) : LineRef := { node with depth := node.depth + 1 }

/-- Set the three fields of the skip list. -/
def setSkips (prevSkip nextSkip : Pointer) (depth : Int) (node : LineRef) : LineRef :=
  { node with prevSkip, nextSkip, depth }

end LineRef

/-- `line_ref_list_t`, with the memory its pointers lead into. `debugVerbose` is the value of
`DEBUG_VERBOSE(0)`, which release builds fix to `false`. -/
structure LineRefList where
  nodes : List LineRef
  head : Pointer
  gate : Pointer
  curTime : Nat
  uniqueLines : Nat
  threshold : Nat
  skipDistance : Nat
  verifySkip : Bool
  debugVerbose : Bool
  deriving DecidableEq, Repr

namespace LineRefList

/-! ### The memory -/

def new (reuseThreshold skipDist : Nat) (verify debugVerbose : Bool) : LineRefList where
  nodes := []
  head := none
  gate := none
  curTime := 0
  uniqueLines := 0
  threshold := reuseThreshold
  skipDistance := skipDist
  verifySkip := verify
  debugVerbose := debugVerbose

/-- Follow a pointer to the node it leads to. -/
def load (list : LineRefList) (pointer : Pointer) : Option LineRef :=
  pointer.bind fun address => list.nodes[address]?

/-- Change the node at an address. -/
def write (list : LineRefList) (address : Nat) (change : LineRef → LineRef) : LineRefList :=
  { list with nodes := list.nodes.modify address change }

/-- Assign through a pointer. -/
def store (list : LineRefList) (pointer : Pointer) (change : LineRef → LineRef) :
    Option LineRefList :=
  match pointer with
  | some address =>
      if address < list.nodes.length then some (list.write address change) else none
  | none => none

/-- `if (p != NULL) p->field = value;`. -/
def storeIfSet (list : LineRefList) (pointer : Pointer) (change : LineRef → LineRef) :
    Option LineRefList :=
  if pointer.isSome then list.store pointer change else some list

/-- `new line_ref_t(tag)`: the new node and its address. -/
def allocate (list : LineRefList) (tag : Address) : LineRefList × Nat :=
  ({ list with nodes := list.nodes ++ [LineRef.new tag] }, list.nodes.length)

/-- A loop that follows one link field meets every node at most once. Longer walks run in a
cycle; they count as not returning. -/
def walkBound (list : LineRefList) : Nat := list.nodes.length + 1

/-! ### The recency list and its skip list -/

def refIsDistant (list : LineRefList) (ref : Nat) : Option Bool :=
  match list.gate with
  | none => some false
  | some gate => do
      let line ← list.load (some ref)
      let limit ← list.load (some gate)
      return !(limit.timeStamp ≤ line.timeStamp)

/-- `gate = gate->prev`. -/
def stepGate (list : LineRefList) : Option LineRefList := do
  let gate ← list.load list.gate
  return { list with gate := gate.prev }

def moveSkipFields (list : LineRefList) (src dst : Nat) : Option LineRefList := do
  let source ← list.load (some src)
  let list ← list.store (some dst) (.setSkips source.prevSkip source.nextSkip source.depth)
  let source ← list.load (some src)
  let list ← list.storeIfSet source.prevSkip (.setNextSkip (some dst))
  let source ← list.load (some src)
  let list ← list.storeIfSet source.nextSkip (.setPrevSkip (some dst))
  list.store (some src) (.setSkips none none (-1))

/-- The part of `add_to_front` that updates the head. -/
def updateHead (list : LineRefList) (ref : Nat) : Option LineRefList := do
  let list ← list.store (some ref) (.setNext list.head)
  let list ← list.storeIfSet list.head (.setPrev (some ref))
  let list := { list with head := some ref }
  return if list.gate.isNone then { list with gate := list.head } else list

/-- `head->time_stamp = cur_time++`. -/
def stampHead (list : LineRefList) : Option LineRefList := do
  let stamped ← list.store list.head (.setTimeStamp list.curTime)
  return { stamped with curTime := list.curTime + 1 }

/-- The loop of `add_to_front` that counts the nodes in front of the first skip node and
remembers the one at the skip distance. -/
def scanPlain (list : LineRefList) : Nat → Pointer → Nat → Pointer → Option (Pointer × Nat × Pointer)
  | 0, _, _, _ => none
  | _ + 1, none, count, skip => some (none, count, skip)
  | fuel + 1, some address, count, skip => do
      let node ← list.load (some address)
      if node.depth = -1 then
        list.scanPlain fuel node.next (count + 1)
          (if count + 1 = list.skipDistance then some address else skip)
      else some (some address, count, skip)

/-- `if (node != NULL) { assert(node->prev_skip == NULL); node->prev_skip = skip; }`. -/
def linkBehind (list : LineRefList) (skip node : Pointer) : Option LineRefList :=
  match node with
  | none => some list
  | some _ => do
      let behind ← list.load node
      guard behind.prevSkip.isNone
      list.store node (.setPrevSkip skip)

/-- The part of `add_to_front` that makes `skip` a skip node in front of `node`. -/
def addSkipNode (list : LineRefList) (skip node : Pointer) : Option LineRefList := do
  guard skip.isSome
  let list ← list.store skip (.setDepth ((list.skipDistance : Int) - 1))
  let list ← list.linkBehind skip node
  let list ← list.store skip (.setNextSkip node)
  let added ← list.load skip
  guard added.prevSkip.isNone
  return list

/-- The loop of `add_to_front` that updates the skip list depths. -/
def updateDepths (list : LineRefList) : Nat → Pointer → Option LineRefList
  | 0, _ => none
  | _ + 1, none => some list
  | fuel + 1, some address => do
      let list ← list.store (some address) .incrDepth
      let node ← list.load (some address)
      list.updateDepths fuel node.nextSkip

/-- Add a new cache line to the front of the list. In the source's 64-bit arithmetic a skip
distance of zero makes `2 * skip_distance - 1` unreachable. -/
def addToFront (list : LineRefList) (ref : Nat) : Option LineRefList := do
  let list ← list.updateHead ref
  let list ← (if list.threshold < list.uniqueLines then list.stepGate else some list)
  let list ← { list with uniqueLines := list.uniqueLines + 1 }.stampHead
  let (node, count, skip) ← list.scanPlain list.walkBound list.head 0 none
  let list ← (if 0 < list.skipDistance ∧ 2 * list.skipDistance - 1 ≤ count then
      list.addSkipNode skip node
    else some list)
  list.updateDepths list.walkBound node

/-- The loop of `move_to_front` that walks back to the nearest skip node. -/
def walkBack (list : LineRefList) : Nat → Pointer → Int → Option (Pointer × Int)
  | 0, _, _ => none
  | _ + 1, none, dist => some (none, dist)
  | fuel + 1, some address, dist => do
      let node ← list.load (some address)
      if node.depth = -1 then list.walkBack fuel node.prev (dist + 1)
      else some (some address, dist)

/-- The walk from the head that checks the result when `verify_skip` is set. -/
def bruteDist (list : LineRefList) (ref : Nat) : Nat → Pointer → Int → Option Int
  | 0, _, _ => none
  | fuel + 1, pointer, dist =>
      if pointer = some ref then some dist
      else do
        let node ← list.load pointer
        list.bruteDist ref fuel node.next (dist + 1)

/-- The loop of `move_to_front` that shifts the skip nodes one node earlier. -/
def shiftSkips (list : LineRefList) : Nat → Pointer → Option LineRefList
  | 0, _ => none
  | _ + 1, none => some list
  | fuel + 1, some skip => do
      let node ← list.load (some skip)
      let dst ← node.prev
      let list ← list.moveSkipFields skip dst
      list.shiftSkips fuel node.prevSkip

/-- The part of `move_to_front` that removes the line from the list and puts it in front. -/
def relink (list : LineRefList) (ref : Nat) : Option LineRefList := do
  let node ← list.load (some ref)
  let list ← list.store node.prev (.setNext node.next)
  let list ← list.storeIfSet node.next (.setPrev node.prev)
  let list ← list.store (some ref) (.setPrev none)
  let list ← list.store (some ref) (.setNext list.head)
  let list ← list.store list.head (.setPrev (some ref))
  return { list with head := some ref }

/-- The part of `move_to_front` that moves the gate off a line at or behind it. -/
def releaseGate (list : LineRefList) (ref : Nat) : Option LineRefList := do
  if ← list.refIsDistant ref then
    let list ← list.store (some ref) .countDistantRef
    list.stepGate
  else if list.gate = some ref then list.stepGate
  else some list

/-- The reuse distance of a line that is not the head: the steps back to the nearest skip node
and its depth, or the steps to the head. -/
def skipDist (list : LineRefList) (ref : Nat) : Option (Pointer × Int) := do
  let (skip, dist) ← list.walkBack list.walkBound (some ref) 0
  if skip.isSome then
    let node ← list.load skip
    return (skip, dist + node.depth)
  else return (skip, dist - 1)

/-- The sanity check of a debug build: the walk from the head finds the same distance. -/
def verifyDist (list : LineRefList) (ref : Nat) (dist : Int) : Option Unit :=
  if list.debugVerbose && list.verifySkip then do
    let brute ← list.bruteDist ref list.walkBound list.head 0
    guard (brute = dist)
  else some ()

/-- `if (skip != NULL)` shift the skip nodes `else assert(ref->depth == -1);`. -/
def shiftSkipNodes (list : LineRefList) (ref : Nat) (skip : Pointer) : Option LineRefList :=
  if skip.isSome then list.shiftSkips list.walkBound skip
  else do
    let line ← list.load (some ref)
    guard (line.depth = -1)
    return list

/-- The part of `move_to_front` for a line that is not the head. -/
def moveLine (list : LineRefList) (ref : Nat) : Option (LineRefList × Int) := do
  let list ← list.releaseGate ref
  let (skip, dist) ← list.skipDist ref
  list.verifyDist ref dist
  let list ← list.shiftSkipNodes ref skip
  let list ← list.relink ref
  let list ← list.stampHead
  return (list, dist)

/-- Move a referenced cache line to the front of the list and return its reuse distance. -/
def moveToFront (list : LineRefList) (ref : Nat) : Option (LineRefList × Int) := do
  let list ← list.store (some ref) .countRef
  if list.head = some ref then some (list, 0) else list.moveLine ref

end LineRefList

/-! ### The tracker -/

/-- `ReuseDistance`: the recency list and the map from a tag to its node. -/
structure ReuseDistance where
  refList : LineRefList
  cacheMap : UnorderedMap Address Nat
  deriving DecidableEq

namespace ReuseDistance

def new (skipDist : Nat) (verify debugVerbose : Bool) (reuseThreshold : Nat) : ReuseDistance where
  refList := LineRefList.new reuseThreshold skipDist verify debugVerbose
  cacheMap := ∅

/-- Given a memory address, return the LRU stack distance, or `-1` if it is the first time the
address has been used. -/
def lookupDistance (reuse : ReuseDistance) (tag : Address) : Option (ReuseDistance × Int) :=
  match reuse.cacheMap.lookup tag with
  | none => do
      let (list, ref) := reuse.refList.allocate tag
      let list ← list.addToFront ref
      return ({ refList := list, cacheMap := reuse.cacheMap.insert tag ref }, -1)
  | some ref => do
      let (list, dist) ← reuse.refList.moveToFront ref
      return ({ reuse with refList := list }, dist)

/-- The lookups of a whole trace, in order. -/
def lookupDistances (reuse : ReuseDistance) : List Address → Option (ReuseDistance × List Int)
  | [] => some (reuse, [])
  | tag :: trace => do
      let (reuse, dist) ← reuse.lookupDistance tag
      let (reuse, dists) ← reuse.lookupDistances trace
      return (reuse, dist :: dists)

end ReuseDistance

end BarrierPoint
