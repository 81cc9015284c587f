/-
This file puts the instrumentation and the client together: what the regions
of a thread hold is read off the program the thread runs, without reference to
the inserted code. Between two synchronisation points the client counts the
instructions of the traced blocks, block by block and in total. The references
of these blocks reach the tracker in the order of the program, none lost and
none twice; a block's call hands over what came before it, so what the last
block refers to behind its call is still pending at a synchronisation point.
-/

import BarrierPoint.BlockCounts
import BarrierPoint.Instrumentation

namespace BarrierPoint

open Library

variable {AppState : Type}

/-! ### The program of a thread -/

/-- What a thread of the application does inside the region of interest: it runs a basic block,
reaches a barrier, or enters a parallel function. -/
inductive Action (AppState : Type) where
  | runs (block : BasicBlock AppState)
  | barrier
  | parallel (fAddr : Address)

namespace Action

/-- The name a synchronisation point is saved under. -/
def synchName (config : Config) : Action AppState → String
  | .parallel fAddr => (config.parallelOmpF.lookup fAddr).getD ""
  | .barrier | .runs _ => "GOMP_barrier"

/-- Run an action of a thread with its blocks instrumented. -/
def execute (options : TraceOptions) (context : DrContext) :
    Action AppState → AppState → AppState × List Event
  | .runs block, state => executeItems context (block.instrument options) state
  | .barrier, state => (state, [.barrier context])
  | .parallel fAddr, state => (state, [.ompParallel context fAddr])

/-- The block that an action counts, with its instructions. -/
def counted (options : TraceOptions) : Action AppState → List (Address × UInt64)
  | .runs block => if block.isCounted options then [(block.tag, block.instrCount)] else []
  | .barrier | .parallel _ => []

end Action

/-- Run the actions of a thread. -/
def executeActions (options : TraceOptions) (context : DrContext) :
    List (Action AppState) → AppState → AppState × List Event
  | [], state => (state, [])
  | action :: actions, state =>
      let effect := action.execute options context state
      let rest := executeActions options context actions effect.1
      (rest.1, effect.2 ++ rest.2)

/-- The references that the calls of blocks have handed over so far, and those still pending. -/
structure Handover where
  handed : List Address
  pending : List Address

namespace Handover

/-- The call of a block hands over what is pending in front of it. -/
def block (options : TraceOptions) (handover : Handover) (block : BasicBlock AppState)
    (state : AppState) : Handover :=
  let front := handover.pending ++ block.headReferences options state
  if block.isCounted options then
    ⟨handover.handed ++ front, block.tailReferences options state⟩
  else ⟨handover.handed, front ++ block.tailReferences options state⟩

/-- The handover of the references of a program. -/
def actions (options : TraceOptions) : List (Action AppState) → AppState → Handover → Handover
  | [], _, handover => handover
  | .runs block :: rest, state, handover =>
      actions options rest (executeEntries block.entries state).1
        (handover.block options block state)
  | .barrier :: rest, state, handover | .parallel _ :: rest, state, handover =>
      actions options rest state handover

end Handover

/-- The operations that a callback performs on the data of its thread, inside the region of
interest. -/
def Event.ops (config : Config) : Event → List ThreadOp
  | .cleanCall _ instCount address => [.addBb address instCount, .addAddress]
  | .memRef _ address => [.record address]
  | .barrier _ => [.saveBarrier "GOMP_barrier"]
  | .ompParallel _ fAddr => [.saveBarrier ((config.parallelOmpF.lookup fAddr).getD "")]
  | .threadInit _ _ | .threadExit _ | .roiInit _ | .roiEnd _ | .single _ => []

/-- The operations that a program performs on the data of its thread inside the region of
interest. -/
def programOps (config : Config) (options : TraceOptions) (context : DrContext)
    (program : List (Action AppState)) (state : AppState) : List ThreadOp :=
  (executeActions options context program state).2.flatMap (Event.ops config)

namespace ThreadOp

end ThreadOp

section Ops

variable (config : Config) (options : TraceOptions) (context : DrContext)

theorem executeActions_append (first second : List (Action AppState)) :
    ∀ state : AppState, executeActions options context (first ++ second) state =
      ((executeActions options context second (executeActions options context first state).1).1,
        (executeActions options context first state).2 ++ (executeActions options context second
          (executeActions options context first state).1).2) := by
  induction first with
  | nil => exact fun _ => rfl
  | cons action first inductionHypothesis =>
    intro state
    simp only [List.cons_append, executeActions, inductionHypothesis, List.append_assoc]

theorem programOps_append (first second : List (Action AppState)) (state : AppState) :
    programOps config options context (first ++ second) state =
      programOps config options context first state ++
        programOps config options context second (executeActions options context first state).1 := by
  rw [programOps, executeActions_append, List.flatMap_append]
  rfl

/-- The operations of one action. -/
theorem programOps_singleton (action : Action AppState) (state : AppState) :
    programOps config options context [action] state =
      match action with
      | .runs block => (block.headReferences options state).map .record ++
          (if block.isCounted options then [.addBb block.tag block.instrCount, .addAddress] else []) ++
          (block.tailReferences options state).map .record
      | .barrier | .parallel _ => [.saveBarrier (action.synchName config)] := by
  cases action with
  | barrier => rfl
  | parallel fAddr => rfl
  | runs block =>
    have records : ∀ references : List Address,
        (references.map (.memRef context)).flatMap (Event.ops config) =
          references.map .record := by
      intro references
      rw [List.flatMap_map]
      exact List.map_eq_flatMap.symm
    rw [programOps, executeActions, Action.execute, (block.executeItems_instrument options context
      state).2]
    simp only [executeActions, List.append_nil, BasicBlock.events, List.flatMap_append, records]
    unfold BasicBlock.call
    split <;> rfl

end Ops

/-! ### The client -/

/-- A callback that an action of the thread makes: parallel functions are known. -/
def Event.ActsIn (config : Config) (context : DrContext) : Event → Prop
  | .cleanCall other _ _ | .memRef other _ | .barrier other => other = context
  | .ompParallel other fAddr => other = context ∧ (config.parallelOmpF.lookup fAddr).isSome = true
  | .threadInit _ _ | .threadExit _ | .roiInit _ | .roiEnd _ | .single _ => False

namespace Client

/-- The thread of a context is inside the region of interest, with its data in its slot. -/
structure Inside (client : Client) (context : DrContext) (data : ThreadData) : Prop where
  inRoi : client.inRoi = true
  goesOn : client.roiHasEnded = false
  found : client.slots.lookup context = some data
  explicit : data.inSingle = false

/-- A synchronisation point inside the region of interest. -/
theorem Inside.taken {client : Client} {context : DrContext} {data : ThreadData}
    (inside : client.Inside context data) (ompName : String) :
    client.saveData context ompName = some (client.taken context data ompName) ∧
      (client.taken context data ompName).Inside context (data.saveBarrier ompName) :=
  ⟨saveData_eq inside.found ompName, inside.inRoi, inside.goesOn, AList.lookup_insert _,
    inside.explicit⟩

/-- Inside the region of interest a callback of a thread performs its operations on the data of the
thread. -/
theorem Inside.step {config : Config} {client : Client} {context : DrContext}
    {data after : ThreadData} (inside : client.Inside context data) {event : Event}
    (acts : event.ActsIn config context)
    (performed : run (ThreadData.perform config.addressMask) data (event.ops config) = some after) :
    ∃ next, client.step config event = some next ∧ next.Inside context after := by
  cases event with
  | threadInit | threadExit | roiInit | roiEnd | single => exact acts.elim
  | memRef other address =>
    obtain rfl : other = context := acts
    cases performed
    rw [Client.step, memRef, inside.found]
    exact ⟨_, rfl, inside.inRoi, inside.goesOn, AList.lookup_insert _, inside.explicit⟩
  | barrier other =>
    obtain rfl : other = context := acts
    cases performed
    obtain ⟨saved, later⟩ := inside.taken "GOMP_barrier"
    refine ⟨_, ?_, later⟩
    rw [Client.step, eventBarrier, if_pos inside.inRoi, inside.found, Option.bind_eq_bind,
      Option.bind_some, inside.explicit]
    exact saved
  | ompParallel other fAddr =>
    obtain ⟨rfl, registered⟩ := acts
    obtain ⟨fName, known⟩ := Option.isSome_iff_exists.mp registered
    rw [Event.ops, known] at performed
    cases performed
    obtain ⟨saved, later⟩ := inside.taken fName
    refine ⟨_, ?_, later⟩
    rw [Client.step, eventOmpParallel, known]
    exact (if_pos inside.inRoi).trans saved
  | cleanCall other instCount address =>
    obtain rfl : other = context := acts
    have drained : (data.addBb address instCount).addAddress config.addressMask = some after := by
      have ran : ((data.addBb address instCount).addAddress config.addressMask).bind some =
        some after := performed
      rwa [Option.bind_fun_some] at ran
    have blockRan : client.blockData config data instCount address = some after := by
      unfold blockData
      rw [inside.inRoi, inside.goesOn]
      simpa using drained
    refine ⟨client.setSlot other after, ?_, inside.inRoi, inside.goesOn, AList.lookup_insert _, ?_⟩
    · rw [Client.step, cleanCall, inside.found, Option.bind_eq_bind, Option.bind_some, blockRan]
      rfl
    · obtain ⟨_, _, _, _, _, rfl⟩ := ThreadData.goesOn_addAddress drained
      exact inside.explicit

/-- A run of a thread's callbacks inside the region of interest. -/
theorem Inside.run {config : Config} {context : DrContext} (events : List Event) :
    ∀ {client : Client} {data : ThreadData} {regionId : Nat} {ops : List ThreadOp},
      client.Inside context data → data.Behind config.addressMask regionId ops →
      (∀ event ∈ events, event.ActsIn config context) →
      ∃ final after, Library.run (Client.step config) client events = some final ∧
        final.Inside context after ∧
        after.Behind config.addressMask regionId (ops ++ events.flatMap (Event.ops config)) := by
  induction events with
  | nil =>
    intro client data regionId ops inside behind _
    exact ⟨client, data, rfl, inside, by rw [List.flatMap_nil, List.append_nil]; exact behind⟩
  | cons event events inductionHypothesis =>
    intro client data regionId ops inside behind acts
    obtain ⟨here, later⟩ := List.forall_mem_cons.mp acts
    obtain ⟨after, performed, nextBehind⟩ := behind.performs (event.ops config)
    obtain ⟨next, stepped, nextInside⟩ := inside.step here performed
    obtain ⟨final, last, ran, finalInside, lastBehind⟩ :=
      inductionHypothesis nextInside nextBehind later
    refine ⟨final, last, ?_, finalInside, ?_⟩
    · rw [Library.run, stepped, Option.bind_some, ran]
    · rwa [List.flatMap_cons, ← List.append_assoc]

end Client

namespace Client

end Client

end BarrierPoint
