/-
This file models the callbacks of the DynamoRIO client as a machine. Its state
holds the thread-local slots, the flags of the region of interest and the data
gathered for the output files; its events are the callbacks DynamoRIO invokes
and the inline code of memory instructions. Every callback runs in the context
of the thread that reached it. Reading an empty slot and failing one of the
client's assertions both end the run.
-/

import BarrierPoint.Library.Machine
import BarrierPoint.ThreadData

namespace BarrierPoint

/-- The options of the client and of its build, and `parallel_omp_f`, the names of the parallel
functions by address. The defaults are those of the option parser and the build files. -/
structure Config where
  cacheLineSizeBytes : Address := 64
  ignoreSingle : Bool := false
  maskAddresses : Bool := true
  traceMemBeforeRoi : Bool := true
  parallelOmpF : UnorderedMap Address String

namespace Config

def cacheLineMask (config : Config) : Address := ~~~(config.cacheLineSizeBytes - 1)

/-- What `add_address` masks an address with. -/
def addressMask (config : Config) : Address :=
  if config.maskAddresses then config.cacheLineMask else BitVec.allOnes 64

end Config

/-- The class `BarrierPoint`: the data of the threads that have exited, and the count of
synchronisation points, of which no run reaches `2^32`. -/
structure BarrierPointData where
  synchCount : Nat
  threads : List ThreadData
  deriving DecidableEq

namespace BarrierPointData

def new : BarrierPointData where
  synchCount := 0
  threads := []

def incrSynchCount (barrierPoint : BarrierPointData) : BarrierPointData :=
  { barrierPoint with synchCount := barrierPoint.synchCount + 1 }

def addThreadData (barrierPoint : BarrierPointData) (data : ThreadData) : BarrierPointData :=
  { barrierPoint with threads := barrierPoint.threads ++ [data] }

end BarrierPointData

/-- `drcontext`: the identity of a thread of the application. -/
abbrev DrContext := Nat

/-- The state of the client. The slot of a thread that has exited stays behind; the thread runs no
more callbacks. -/
structure Client where
  slots : UnorderedMap DrContext ThreadData
  barrierPoint : BarrierPointData
  inRoi : Bool
  roiHasEnded : Bool
  roiStartDetected : Bool
  roiEndDetected : Bool
  roiInitOnlyOnce : Bool
  roiEndOnlyOnce : Bool
  firstTimeCalled : Bool
  threadInitRegistered : Bool
  threadExitRegistered : Bool
  deriving DecidableEq

/-- What makes the client act. -/
inductive Event where
  | threadInit (context : DrContext) (threadId : UInt32)
  | threadExit (context : DrContext)
  | roiInit (context : DrContext)
  | roiEnd (context : DrContext)
  | ompParallel (context : DrContext) (fAddr : Address)
  | barrier (context : DrContext)
  | single (context : DrContext)
  | cleanCall (context : DrContext) (instCount : UInt64) (address : Address)
  | memRef (context : DrContext) (address : Address)
  deriving DecidableEq, Repr

namespace Client

/-- The state after `dr_client_main`. -/
def new : Client where
  slots := ∅
  barrierPoint := BarrierPointData.new
  inRoi := false
  roiHasEnded := false
  roiStartDetected := false
  roiEndDetected := false
  roiInitOnlyOnce := true
  roiEndOnlyOnce := true
  firstTimeCalled := true
  threadInitRegistered := true
  threadExitRegistered := false

/-- `drmgr_set_tls_field`. -/
def setSlot (client : Client) (context : DrContext) (data : ThreadData) : Client :=
  { client with slots := client.slots.insert context data }

def registerTraceEvents (client : Client) : Client := { client with threadExitRegistered := true }

def unregisterTraceEvents (client : Client) : Client :=
  { client with threadInitRegistered := false }

/-- Save the intra-barrier region information; the master updates the synchronisation count. -/
def saveData (client : Client) (context : DrContext) (ompName : String) : Option Client := do
  let data ← client.slots.lookup context
  let client := client.setSlot context (data.saveBarrier ompName)
  return if data.isMaster then
    { client with barrierPoint := client.barrierPoint.incrSynchCount }
  else client

def eventRoiInit (client : Client) : Option Client := do
  let client := { client with roiStartDetected := true }
  guard client.roiInitOnlyOnce
  return { client.registerTraceEvents with inRoi := true, roiInitOnlyOnce := false }

def eventRoiEnd (client : Client) (context : DrContext) : Option Client := do
  let client := { client with roiEndDetected := true }
  guard client.roiEndOnlyOnce
  let client := { client.unregisterTraceEvents with
    inRoi := false
    roiHasEnded := true
    roiEndOnlyOnce := false }
  let data ← client.slots.lookup context
  guard data.isMaster
  client.saveData context "thread_exit"

def eventOmpParallel (config : Config) (client : Client) (context : DrContext)
    (fAddr : Address) : Option Client :=
  match config.parallelOmpF.lookup fAddr with
  | some fName => if client.inRoi then client.saveData context fName else some client
  | none => none

def eventBarrier (client : Client) (context : DrContext) : Option Client :=
  if client.inRoi then do
    let data ← client.slots.lookup context
    if !data.inSingle then client.saveData context "GOMP_barrier"
    else some (client.setSlot context { data with inSingle := false })
  else some client

def eventSingle (config : Config) (client : Client) (context : DrContext) : Option Client :=
  if client.inRoi && config.ignoreSingle then do
    let data ← client.slots.lookup context
    return client.setSlot context { data with inSingle := true }
  else some client

/-- Allocate the data of a new thread. The first thread is the master. -/
def eventThreadInit (client : Client) (context : DrContext) (threadId : UInt32) : Client :=
  if client.threadInitRegistered then
    { client.setSlot context
        (ThreadData.new threadId client.firstTimeCalled client.barrierPoint.synchCount) with
      firstTimeCalled := false }
  else client

/-- Keep the data of an exiting thread. The master saved its last region at the end of the region
of interest. -/
def eventThreadExit (client : Client) (context : DrContext) : Option Client :=
  if client.threadExitRegistered then do
    let data ← client.slots.lookup context
    let client ← (if !data.isMaster then client.saveData context "thread_exit" else some client)
    let data ← client.slots.lookup context
    return { client with barrierPoint := client.barrierPoint.addThreadData data }
  else some client

/-- What the call at the start of a basic block does to the data of its thread. -/
def blockData (config : Config) (client : Client) (data : ThreadData) (instCount : UInt64)
    (address : Address) : Option ThreadData :=
  if config.traceMemBeforeRoi then
    let data := if client.inRoi then data.addBb address instCount else data
    if !client.roiHasEnded then data.addAddress config.addressMask else some data.cleanBuffer
  else if client.inRoi then (data.addBb address instCount).addAddress config.addressMask
  else some data.cleanBuffer

/-- The call inserted at the start of every basic block. -/
def cleanCall (config : Config) (client : Client) (context : DrContext) (instCount : UInt64)
    (address : Address) : Option Client := do
  let data ← client.slots.lookup context
  let data ← client.blockData config data instCount address
  return client.setSlot context data

/-- The inline code of a memory instruction. -/
def memRef (client : Client) (context : DrContext) (address : Address) : Option Client := do
  let data ← client.slots.lookup context
  return client.setSlot context (data.record address)

def step (config : Config) (client : Client) : Event → Option Client
  | .threadInit context threadId => some (client.eventThreadInit context threadId)
  | .threadExit context => client.eventThreadExit context
  | .roiInit _ => client.eventRoiInit
  | .roiEnd context => client.eventRoiEnd context
  | .ompParallel context fAddr => client.eventOmpParallel config context fAddr
  | .barrier context => client.eventBarrier context
  | .single context => client.eventSingle config context
  | .cleanCall context instCount address => client.cleanCall config context instCount address
  | .memRef context address => client.memRef context address

end Client

end BarrierPoint
