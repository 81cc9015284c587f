/-
This file models what the client keeps for each thread: the region that is
being executed -- its instruction count, its basic block vector and its reuse
distance histogram -- and the regions that synchronisation points have ended.
Memory references wait in a buffer until the next basic block drains them.
-/

import BarrierPoint.Library.Machine
import BarrierPoint.ReuseDistance

namespace BarrierPoint

/-- `Region`: what a thread did between two synchronisation points. The histogram entries count
references; no run makes enough of them to wrap a 64-bit counter. -/
structure Region where
  synchName : String
  instrCount : UInt64
  bbv : UnorderedMap Address UInt32
  lruHist : List Nat
  deriving DecidableEq

/-- `ThreadData`. The buffer holds the references between the buffer base and the buffer pointer,
oldest first. Region ids count synchronisation points; no run reaches `2^32` of them. -/
structure ThreadData where
  tid : UInt32
  fakeTid : UInt32
  isMaster : Bool
  inSingle : Bool
  reuseDist : ReuseDistance
  regions : UnorderedMap Nat Region
  curInstrCount : UInt64
  curSynchId : Nat
  curBbv : UnorderedMap Address UInt32
  curLruHist : List Nat
  buffer : List Address
  deriving DecidableEq

/-- `std::unordered_map::insert`: an entry that has the key already stays as it is. -/
def UnorderedMap.insertNew {Key Value : Type} [DecidableEq Key] (map : UnorderedMap Key Value)
    (key : Key) (value : Value) : UnorderedMap Key Value :=
  if (map.lookup key).isSome then map else map.insert key value

/-- Count a reference in a bucket of the histogram, growing the histogram on demand. -/
def countBucket (hist : List Nat) (bucket : Nat) : List Nat :=
  let grown := if hist.length ≤ bucket
    then hist ++ List.replicate (bucket + 1 - hist.length) 0 else hist
  grown.modify bucket (· + 1)

/-- The bucket of a reuse distance: `63 - __builtin_clzll(d)` is the floor of the binary logarithm
of a positive distance, and a distance of zero goes to bucket zero. -/
def log2Rd (distance : Int) : Nat := if distance ≠ 0 then distance.toNat.log2 else 0

namespace ThreadData

/-- The constructor of `ThreadData`. -/
def new (threadId : UInt32) (isMasterThread : Bool) (regionId : Nat) : ThreadData where
  tid := threadId
  fakeTid := 0
  isMaster := isMasterThread
  inSingle := false
  reuseDist := ReuseDistance.new 500 false false 100
  regions := ∅
  curInstrCount := 0
  curSynchId := regionId
  curBbv := ∅
  curLruHist := []
  buffer := []

/-- Add the basic block to the current region. The map holds 32-bit counts, the region total is a
64-bit one. -/
def addBb (data : ThreadData) (key : Address) (instN : UInt64) : ThreadData :=
  let count := match data.curBbv.lookup key with
    | some held => (held.toUInt64 + instN).toUInt32
    | none => instN.toUInt32
  { data with
    curBbv := data.curBbv.insert key count
    curInstrCount := data.curInstrCount + instN }

/-- The region a synchronisation point would store now. -/
def currentRegion (data : ThreadData) (synchPointName : String) : Region where
  synchName := synchPointName
  instrCount := data.curInstrCount
  bbv := data.curBbv
  lruHist := data.curLruHist

/-- Save the inter-barrier information and start the next region. The assertion of the source that
the regions are not empty follows an insertion. -/
def saveBarrier (data : ThreadData) (synchPointName : String) : ThreadData :=
  { data with
    regions := data.regions.insertNew data.curSynchId (data.currentRegion synchPointName)
    curSynchId := data.curSynchId + 1
    curInstrCount := 0
    curBbv := ∅
    curLruHist := [] }

/-- The instruction count for the given synchronisation id, zero when there is no region. -/
def getInstrCount (data : ThreadData) (synchId : Nat) : UInt64 :=
  match data.regions.lookup synchId with
  | some region => region.instrCount
  | none => 0

/-- Look up the reuse distance of one reference and count it unless it is the first to its line. -/
def addReference (data : ThreadData) (address : Address) : Option ThreadData := do
  let (reuseDist, distance) ← data.reuseDist.lookupDistance address
  return { data with
    reuseDist
    curLruHist := if distance ≠ -1 then countBucket data.curLruHist (log2Rd distance)
      else data.curLruHist }

/-- Drain the buffer into the reuse distance tracker. The mask is all ones in a build without
`MASK_ADDRESSES`. -/
def addAddress (data : ThreadData) (mask : Address) : Option ThreadData := do
  let drained ← Library.run (fun data address => addReference data (address &&& mask)) data
    data.buffer
  return { drained with buffer := [] }

/-- Discard the buffer. -/
def cleanBuffer (data : ThreadData) : ThreadData := { data with buffer := [] }

/-- The inline code of a memory instruction: append the address to the buffer. -/
def record (data : ThreadData) (address : Address) : ThreadData :=
  { data with buffer := data.buffer ++ [address] }

end ThreadData

end BarrierPoint
