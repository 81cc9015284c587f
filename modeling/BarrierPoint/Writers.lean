/-
This file models what the client does with the gathered data when the
application ends: the alignment of the parallel functions' entry blocks, and
the five output files. The source looks up the regions of a thread by id with
`find`; where it follows the result without a check, a missing region ends the
run (`none`). The compressed files are modelled by the text that is
compressed.
-/

import BarrierPoint.Client
import BarrierPoint.Library.Numeral
import Mathlib.Data.List.Sort

namespace BarrierPoint

open Library

/-! ### Aligning the entry blocks -/

/-- One parallel function in one region: its block, if the region has it, is erased, its count
becomes the balance, and the region's instruction count is reduced by it, down to zero. The source
reads the count through an iterator to the erased entry; the value it held is what is read. -/
def alignBlock (state : Region × UInt64) (bbAddr : Address) : Region × UInt64 :=
  let (region, balance) := state
  match region.bbv.lookup bbAddr with
  | some found =>
      let balance := found.toUInt64
      ({ region with
          bbv := region.bbv.erase bbAddr
          instrCount := if balance ≤ region.instrCount then region.instrCount - balance else 0 },
        balance)
  | none => (region, balance)

/-- One region: the balance of the region before is added, then the blocks are taken out. -/
def alignRegion (parallelOmpF : UnorderedMap Address String) (region : Region)
    (bbCountBalance : UInt64) : Region × UInt64 :=
  parallelOmpF.keys.foldl alignBlock
    ({ region with instrCount := region.instrCount + bbCountBalance }, 0)

/-- The regions of one thread, in the order of their ids. -/
def alignThread (parallelOmpF : UnorderedMap Address String) (ids : List Nat)
    (regions : UnorderedMap Nat Region) (bbCountBalance : UInt64) :
    Option (UnorderedMap Nat Region × UInt64) :=
  match ids with
  | [] => some (regions, bbCountBalance)
  | id :: ids => do
      let region ← regions.lookup id
      let (region, bbCountBalance) := alignRegion parallelOmpF region bbCountBalance
      alignThread parallelOmpF ids (regions.insert id region) bbCountBalance

/-- All threads, in their order. The balance is carried from one thread to the next. -/
def alignThreads (parallelOmpF : UnorderedMap Address String) (synchCount : Nat)
    (threads : List ThreadData) (bbCountBalance : UInt64) : Option (List ThreadData) :=
  match threads with
  | [] => some []
  | data :: threads => do
      let (regions, bbCountBalance) ←
        alignThread parallelOmpF (List.range synchCount) data.regions bbCountBalance
      let threads ← alignThreads parallelOmpF synchCount threads bbCountBalance
      return { data with regions } :: threads

namespace BarrierPointData

/-- Move the entry blocks of the parallel functions from the region being ended to the next. -/
def alignSynchBb (parallelOmpF : UnorderedMap Address String) (barrierPoint : BarrierPointData) :
    Option BarrierPointData := do
  let threads ← alignThreads parallelOmpF barrierPoint.synchCount barrierPoint.threads 0
  return { barrierPoint with threads }

/-- Order the threads by their id and number them. Threads of equal id may come in any order; here
they keep the one they have. -/
def generateFakeTid (barrierPoint : BarrierPointData) : BarrierPointData :=
  { barrierPoint with
    threads := (barrierPoint.threads.insertionSort fun first second =>
      first.tid ≤ second.tid).mapIdx fun index data => { data with fakeTid := index.toUInt32 } }

/-! ### The output files -/

/-- `.ldv_hist`: one line for each thread and region. The histogram of a synchronisation point the
thread has not seen is empty. -/
def saveLdvHist (barrierPoint : BarrierPointData) : Text :=
  barrierPoint.threads.flatMap fun data =>
    (List.range barrierPoint.synchCount).flatMap fun id =>
      "Th:".toList ++ padLeft 3 (decimal data.fakeTid.toNat) ++ " b:".toList ++
        padLeft 4 (decimal id) ++
        (match data.regions.lookup id with
          | some region => region.lruHist.flatMap fun ent => ' ' :: padLeft 10 (decimal ent)
          | none => []) ++ ['\n']

/-- The largest histogram size among the regions. -/
def maxHistSize (barrierPoint : BarrierPointData) : Nat :=
  barrierPoint.threads.foldl (fun maxSize data =>
    (List.range barrierPoint.synchCount).foldl (fun maxSize id =>
      match data.regions.lookup id with
      | some region => max maxSize region.lruHist.length
      | none => maxSize) maxSize) 0

/-- The mark at the start of a vector line: `W` on the first line, `T` on the others. -/
def vectorDelim (synchId : Nat) : Char := if synchId = 0 then 'W' else 'T'

/-- `.ldv_bb`: one line for each region with the non-zero histogram entries of all threads. -/
def saveLdvBb (barrierPoint : BarrierPointData) : Text :=
  (List.range barrierPoint.synchCount).flatMap fun synchId =>
    vectorDelim synchId ::
      (barrierPoint.threads.flatMap fun data =>
        match data.regions.lookup synchId with
        | some region => (region.lruHist.mapIdx fun entryCount ent =>
            if ent ≠ 0 then
              ':' :: decimal (1 + entryCount + data.fakeTid.toNat * barrierPoint.maxHistSize) ++
                ':' :: decimal ent ++ [' ']
            else []).flatten
        | none => []) ++ ['\n']

/-- `.bbv_inscount`: one line for each region with the instruction counts of all threads. -/
def saveBbvInstCount (barrierPoint : BarrierPointData) : Text :=
  (List.range barrierPoint.synchCount).flatMap fun synchId =>
    [','].intercalate (barrierPoint.threads.map fun data =>
      decimal (data.getInstrCount synchId).toNat) ++ ['\n']

/-- The rows of `.bp_id` for the synchronisation points seen by the master thread, with the number
of times each routine has been seen so far. -/
def bpIdRows (regions : UnorderedMap Nat Region) :
    List Nat → UnorderedMap String Nat → Option (Text × UnorderedMap String Nat)
  | [], synchTimes => some ([], synchTimes)
  | id :: ids, synchTimes => do
      let region ← regions.lookup id
      let fName := region.synchName
      let times := match synchTimes.lookup fName with
        | some times => times + 1
        | none => 0
      let row := if fName ≠ "thread_exit" then
          decimal (id + 1) ++ ',' :: decimal times ++ ',' :: fName.toList ++ ['\n']
        else []
      let (rows, synchTimes) ← bpIdRows regions ids (synchTimes.insert fName times)
      return (row ++ rows, synchTimes)

/-- The part of `.bp_id` for each master among the threads. -/
def bpIdThreads (synchCount : Nat) :
    List ThreadData → UnorderedMap String Nat → Option Text
  | [], _ => some []
  | data :: threads, synchTimes =>
      if data.isMaster then do
        let (rows, synchTimes) ← bpIdRows data.regions (List.range synchCount) synchTimes
        let rest ← bpIdThreads synchCount threads synchTimes
        return "0,0,ROI_Start\n".toList ++ rows ++ rest
      else bpIdThreads synchCount threads synchTimes

/-- `.bp_id`: the synchronisation points seen by the master thread. -/
def saveBpId (barrierPoint : BarrierPointData) : Option Text := do
  let rows ← bpIdThreads barrierPoint.synchCount barrierPoint.threads ∅
  return "BarrierPoint,Iteration,Routine\n".toList ++ rows

/-- The identifiers of the basic blocks, given in the order the blocks are met, and the next free
identifier. -/
def bbIds (barrierPoint : BarrierPointData) : UnorderedMap Address UInt32 × Nat :=
  barrierPoint.threads.foldl (fun state data =>
    (List.range barrierPoint.synchCount).foldl (fun state synchId =>
      match data.regions.lookup synchId with
      | some region => region.bbv.entries.foldl (fun (ids, id) bb =>
          if (ids.lookup bb.1).isSome then (ids, id)
          else (ids.insert bb.1 id.toUInt32, id + 1)) state
      | none => state) state) (∅, 1)

/-- `.bbv_count`: one line for each region with the basic block vectors of all threads. -/
def saveBbvCount (barrierPoint : BarrierPointData) : Text :=
  let (ids, id) := barrierPoint.bbIds
  let bbTotalNumber := (id - 1).toUInt32
  (List.range barrierPoint.synchCount).flatMap fun synchId =>
    vectorDelim synchId ::
      (barrierPoint.threads.flatMap fun data =>
        match data.regions.lookup synchId with
        | some region => region.bbv.entries.flatMap fun bb =>
            ':' :: decimal ((ids.lookup bb.1).getD 0 + data.fakeTid * bbTotalNumber).toNat ++
              ':' :: decimal bb.2.toNat ++ [' ']
        | none => []) ++ ['\n']

/-- The output files of the client. -/
structure Files where
  bbvInscount : Text
  bpId : Text
  bbvCount : Text
  ldvHist : Text
  ldvBb : Text
  deriving DecidableEq

/-- Save all the gathered data into files. -/
def save (parallelOmpF : UnorderedMap Address String) (barrierPoint : BarrierPointData) :
    Option Files := do
  let barrierPoint ← barrierPoint.generateFakeTid.alignSynchBb parallelOmpF
  let bbvInscount := barrierPoint.saveBbvInstCount
  let bpId ← barrierPoint.saveBpId
  return {
    bbvInscount
    bpId
    bbvCount := barrierPoint.saveBbvCount
    ldvHist := barrierPoint.saveLdvHist
    ldvBb := barrierPoint.saveLdvBb }

end BarrierPointData

/-- The end of the process: the region of interest must have been seen, then the data is saved. -/
def Client.eventExit (config : Config) (client : Client) : Option BarrierPointData.Files := do
  guard client.roiStartDetected
  guard client.roiEndDetected
  client.barrierPoint.save config.parallelOmpF

end BarrierPoint
