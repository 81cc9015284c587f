/-
This file models how the client instruments a basic block before the block
runs. In front of every instruction that accesses memory it inserts inline code
for each memory operand, sources first, and in front of the first instruction
it inserts the call that counts the block. What an instruction does and what
its operands refer to are left to the application. That inserted code leaves
the application alone is the work of DynamoRIO and its extensions, and is taken
for granted; a block is the one they have made of it, with string loops
expanded. What is proved is what the client gets to see: the references of a
block in the order of the program, each once, with the call behind those of the
first instruction.
-/

import BarrierPoint.Client

namespace BarrierPoint

variable {AppState : Type}

/-! ### Basic blocks -/

/-- `opnd_t`: the address a memory reference refers to depends on the state of the application. -/
structure Operand (AppState : Type) where
  isMemoryReference : Bool
  address : AppState → Address

/-- `instr_t`, an instruction of the application. -/
structure Instr (AppState : Type) where
  srcs : List (Operand AppState)
  dsts : List (Operand AppState)
  readsMemory : Bool
  writesMemory : Bool
  isExclusiveStore : Bool
  execute : AppState → AppState

/-- An entry of the `instrlist_t` of a basic block: an instruction of the application, or one that is
no instruction of the application, such as a label. -/
inductive Entry (AppState : Type) where
  | app (instr : Instr AppState)
  | label

/-- A basic block: its tag, the start of the module it belongs to, if any, and its entries. -/
structure BasicBlock (AppState : Type) where
  tag : Address
  moduleStart : Option Address
  entries : List (Entry AppState)

namespace Instr

/-- The operands that are memory references, sources first, when the instruction accesses memory. -/
def memoryOperands (instr : Instr AppState) : List (Operand AppState) :=
  if instr.readsMemory || instr.writesMemory then
    instr.srcs.filter (·.isMemoryReference) ++ instr.dsts.filter (·.isMemoryReference)
  else []

end Instr

namespace Entry

def execute : Entry AppState → AppState → AppState
  | .app instr => instr.execute
  | .label => id

/-- The addresses that an entry refers to when it runs in a state. -/
def references : Entry AppState → AppState → List Address
  | .app instr, state => instr.memoryOperands.map (·.address state)
  | .label, _ => []

end Entry

/-- Run some entries: the state they leave, and the addresses they refer to, in order. -/
def executeEntries : List (Entry AppState) → AppState → AppState × List Address
  | [], state => (state, [])
  | entry :: entries, state =>
      let rest := executeEntries entries (entry.execute state)
      (rest.1, entry.references state ++ rest.2)

/-! ### The instrumentation -/

/-- `trace_libraries`, `exe_start` and the architecture the client is built for. -/
structure TraceOptions where
  traceLibraries : Bool := false
  exeStart : Address
  aarchXX : Bool := false

/-- An entry of an instrumented basic block: an entry of the block, the inline code that appends the
address of an operand to the buffer, or the call of `clean_call` with its arguments. -/
inductive Item (AppState : Type) where
  | original (entry : Entry AppState)
  | instrumentMem (ref : Operand AppState)
  | cleanCall (instCount : UInt64) (address : Address)

namespace BasicBlock

/-- The instructions of the application in the block, the number of them passed to the call. -/
def instrCount (block : BasicBlock AppState) : UInt64 :=
  (block.entries.countP fun entry => match entry with
    | .app _ => true
    | .label => false).toUInt64

/-- Blocks of dynamic libraries are instrumented on demand only. Code outside of every module is
always instrumented. -/
def isTraced (options : TraceOptions) (block : BasicBlock AppState) : Bool :=
  options.traceLibraries || match block.moduleStart with
    | some start => start = options.exeStart
    | none => true

/-- What is inserted in front of an entry, in the order in which it runs. An exclusive store gets no
call. -/
def eventAppInstruction (options : TraceOptions) (block : BasicBlock AppState) (isFirst : Bool) :
    Entry AppState → List (Item AppState)
  | .app instr =>
      if block.isTraced options then
        (if instr.readsMemory || instr.writesMemory then
          (instr.srcs.filter (·.isMemoryReference)).map .instrumentMem ++
            (instr.dsts.filter (·.isMemoryReference)).map .instrumentMem
        else []) ++
        (if isFirst && !(options.aarchXX && instr.isExclusiveStore) then
          [.cleanCall block.instrCount block.tag]
        else [])
      else []
  | .label => []

/-- The instrumented block. -/
def instrument (options : TraceOptions) (block : BasicBlock AppState) : List (Item AppState) :=
  (block.entries.mapIdx fun index entry =>
    block.eventAppInstruction options (index == 0) entry ++ [.original entry]).flatten

end BasicBlock

namespace Item

/-- The entry of the block that an item is, unless it was inserted. -/
def original? : Item AppState → Option (Entry AppState)
  | .original entry => some entry
  | .instrumentMem _ | .cleanCall _ _ => none

/-- Run one item in a thread: the state it leaves, and the callback it makes, if any. The registers
that inserted code needs are saved and restored around it, so that it leaves the state alone. -/
def execute (context : DrContext) : Item AppState → AppState → AppState × List Event
  | .original entry, state => (entry.execute state, [])
  | .instrumentMem ref, state => (state, [.memRef context (ref.address state)])
  | .cleanCall instCount address, state => (state, [.cleanCall context instCount address])

end Item

/-- Run some items in a thread. -/
def executeItems (context : DrContext) : List (Item AppState) → AppState → AppState × List Event
  | [], state => (state, [])
  | item :: items, state =>
      let effect := item.execute context state
      let rest := executeItems context items effect.1
      (rest.1, effect.2 ++ rest.2)

/-! ### What an instrumented block does -/

theorem executeItems_append (context : DrContext) (first second : List (Item AppState)) :
    ∀ state : AppState, executeItems context (first ++ second) state =
      ((executeItems context second (executeItems context first state).1).1,
        (executeItems context first state).2 ++
          (executeItems context second (executeItems context first state).1).2) := by
  induction first with
  | nil => exact fun _ => rfl
  | cons item first inductionHypothesis =>
    intro state
    simp only [List.cons_append, executeItems, inductionHypothesis, List.append_assoc]

/-- The inline code of operands leaves the state as it is, and makes a reference to each. -/
theorem executeItems_instrumentMem (context : DrContext) (state : AppState)
    (operands : List (Operand AppState)) :
    executeItems context (operands.map .instrumentMem) state =
      (state, operands.map fun ref => .memRef context (ref.address state)) := by
  induction operands with
  | nil => rfl
  | cons ref operands inductionHypothesis =>
    rw [List.map_cons, executeItems, Item.execute, inductionHypothesis]
    rfl

namespace BasicBlock

/-- The call that counts a block is made: the block is traced, and its first entry is an instruction
in front of which a call can be inserted. -/
def isCounted (options : TraceOptions) (block : BasicBlock AppState) : Bool :=
  block.isTraced options && match block.entries with
    | .app instr :: _ => !(options.aarchXX && instr.isExclusiveStore)
    | _ => false

/-- The addresses that the first entry refers to, in front of the call. -/
def headReferences (options : TraceOptions) (block : BasicBlock AppState) (state : AppState) :
    List Address :=
  if block.isTraced options then
    match block.entries with
    | entry :: _ => entry.references state
    | [] => []
  else []

/-- The addresses that the other entries refer to, behind the call. -/
def tailReferences (options : TraceOptions) (block : BasicBlock AppState) (state : AppState) :
    List Address :=
  if block.isTraced options then
    match block.entries with
    | entry :: entries => (executeEntries entries (entry.execute state)).2
    | [] => []
  else []

/-- The call that counts the block, if it is made. -/
def call (options : TraceOptions) (context : DrContext) (block : BasicBlock AppState) :
    List Event :=
  if block.isCounted options then [.cleanCall context block.instrCount block.tag] else []

variable (options : TraceOptions) (context : DrContext) (block : BasicBlock AppState)

/-- The inline code inserted in front of an instruction is that of its memory operands. -/
theorem instrumentMem_eq (instr : Instr AppState) :
    (if instr.readsMemory || instr.writesMemory then
      (instr.srcs.filter (·.isMemoryReference)).map Item.instrumentMem ++
        (instr.dsts.filter (·.isMemoryReference)).map .instrumentMem
    else []) = instr.memoryOperands.map .instrumentMem := by
  unfold Instr.memoryOperands
  split
  · rw [List.map_append]
  · rfl

/-- An instrumented entry does what the entry does, behind its references and the call, if it is the
first entry of its block. -/
theorem executeItems_entry (isFirst : Bool) (entry : Entry AppState) (state : AppState) :
    executeItems context (block.eventAppInstruction options isFirst entry ++ [.original entry])
        state =
      (entry.execute state,
        if block.isTraced options then
          (entry.references state).map (.memRef context) ++
            match entry with
            | .app instr => if isFirst && !(options.aarchXX && instr.isExclusiveStore) then
                [.cleanCall context block.instrCount block.tag] else []
            | .label => []
        else []) := by
  cases entry with
  | label => cases block.isTraced options <;> rfl
  | app instr =>
    rw [eventAppInstruction, instrumentMem_eq]
    cases block.isTraced options with
    | false => rfl
    | true =>
      rw [if_pos rfl, if_pos rfl, executeItems_append, executeItems_append,
        executeItems_instrumentMem, Entry.references, List.map_map]
      dsimp only
      split <;> exact Prod.ext rfl (List.append_nil _)

/-- The entries behind the first one. -/
theorem executeItems_entries (entries : List (Entry AppState)) : ∀ state : AppState,
    executeItems context
      (entries.flatMap fun entry =>
        block.eventAppInstruction options false entry ++ [.original entry]) state =
      ((executeEntries entries state).1,
        if block.isTraced options then
          (executeEntries entries state).2.map (.memRef context) else []) := by
  induction entries with
  | nil =>
    intro state
    cases block.isTraced options <;> rfl
  | cons entry entries inductionHypothesis =>
    intro state
    rw [List.flatMap_cons, executeItems_append, executeItems_entry, inductionHypothesis]
    cases entry <;> cases block.isTraced options <;> simp [executeEntries]

theorem instrument_cons (entry : Entry AppState) (entries : List (Entry AppState))
    (whole : block.entries = entry :: entries) : block.instrument options =
      (block.eventAppInstruction options true entry ++ [.original entry]) ++
        entries.flatMap fun entry =>
          block.eventAppInstruction options false entry ++ [.original entry] := by
  rw [instrument, whole, List.mapIdx_cons, List.flatten_cons, List.flatMap]
  congr 2
  refine List.ext_getElem (by simp) fun index _ _ => ?_
  simp

/-- What is inserted in front of an entry is no entry of the block. -/
theorem filterMap_original?_inserted (isFirst : Bool) (entry : Entry AppState) :
    (block.eventAppInstruction options isFirst entry).filterMap Item.original? = [] := by
  refine List.filterMap_eq_nil_iff.mpr fun item member => ?_
  cases entry with
  | label => cases member
  | app instr =>
    rw [eventAppInstruction, instrumentMem_eq] at member
    split at member
    · rcases List.mem_append.mp member with inline | call
      · obtain ⟨ref, -, rfl⟩ := List.mem_map.mp inline
        rfl
      · split at call
        · rw [List.mem_singleton.mp call]
          rfl
        · cases call
    · cases member

/-- Without what was inserted an instrumented block is the block. -/
theorem filterMap_original?_instrument :
    (block.instrument options).filterMap Item.original? = block.entries := by
  have behind : ∀ entries : List (Entry AppState),
      (entries.flatMap fun entry =>
        block.eventAppInstruction options false entry ++ [.original entry]).filterMap
          Item.original? = entries := by
    intro entries
    induction entries with
    | nil => rfl
    | cons entry entries inductionHypothesis =>
      rw [List.flatMap_cons, List.filterMap_append, List.filterMap_append,
        filterMap_original?_inserted, inductionHypothesis]
      rfl
  cases whole : block.entries with
  | nil =>
    rw [instrument, whole]
    rfl
  | cons entry entries =>
    rw [instrument_cons options block entry entries whole, List.filterMap_append,
      List.filterMap_append, filterMap_original?_inserted, behind]
    rfl

/-- The references that the client is made to see. -/
def references (state : AppState) : List Address :=
  if block.isTraced options then (executeEntries block.entries state).2 else []

/-- What the callbacks of an instrumented block are: those of the first entry's references, the call
that counts the block, and those of the other references. -/
def events (state : AppState) : List Event :=
  (block.headReferences options state).map (.memRef context) ++ block.call options context ++
    (block.tailReferences options state).map (.memRef context)

theorem headReferences_append_tailReferences (state : AppState) :
    block.headReferences options state ++ block.tailReferences options state =
      block.references options state := by
  unfold headReferences tailReferences references
  cases block.isTraced options with
  | false => rfl
  | true => cases block.entries <;> rfl

/-- Instrumenting a block only inserts into it: without what was inserted the items are its entries.
When the items run, the client sees each reference of a traced block once, in the order of the
program, and the call that counts the block once, with the number of its instructions, behind the
references of its first instruction and in front of all others. A block that is not traced makes no
callback. -/
theorem executeItems_instrument (state : AppState) :
    (block.instrument options).filterMap Item.original? = block.entries ∧
      executeItems context (block.instrument options) state =
        ((executeEntries block.entries state).1, block.events options context state) := by
  refine ⟨block.filterMap_original?_instrument options, ?_⟩
  unfold events headReferences tailReferences call isCounted
  cases whole : block.entries with
  | nil =>
    rw [instrument, whole]
    cases block.isTraced options <;> rfl
  | cons entry entries =>
    rw [instrument_cons options block entry entries whole, executeItems_append, executeItems_entry,
      executeItems_entries]
    cases entry <;> cases block.isTraced options <;> simp [executeEntries]

end BasicBlock

/-! ### A whole thread -/

/-- The next block of a thread: control flow depends on the state of the application. -/
abbrev Fetch (AppState : Type) := AppState → Option (BasicBlock AppState)

/-- The blocks that a thread runs, each with the state it starts in, and the state it comes to. -/
def visits (fetch : Fetch AppState) :
    Nat → AppState → List (BasicBlock AppState × AppState) × AppState
  | 0, state => ([], state)
  | count + 1, state => match fetch state with
      | none => ([], state)
      | some block =>
          let rest := visits fetch count (executeEntries block.entries state).1
          ((block, state) :: rest.1, rest.2)

/-- The same thread under the client: every block is instrumented before it runs. -/
def runInstrumented (options : TraceOptions) (context : DrContext) (fetch : Fetch AppState) :
    Nat → AppState → AppState × List Event
  | 0, state => (state, [])
  | count + 1, state => match fetch state with
      | none => (state, [])
      | some block =>
          let effect := executeItems context (block.instrument options) state
          let rest := runInstrumented options context fetch count effect.1
          (rest.1, effect.2 ++ rest.2)

/-- The address of a reference that the client is made to see. -/
def Event.reference? : Event → Option Address
  | .memRef _ address => some address
  | _ => none

/-- The number of instructions and the tag of the block that a call counts. -/
def Event.counted? : Event → Option (UInt64 × Address)
  | .cleanCall _ instCount address => some (instCount, address)
  | _ => none

namespace BasicBlock

theorem filterMap_reference?_events (options : TraceOptions) (context : DrContext)
    (block : BasicBlock AppState) (state : AppState) :
    (block.events options context state).filterMap Event.reference? =
      block.references options state := by
  have seen : ∀ addresses : List Address,
      (addresses.map (Event.memRef context)).filterMap Event.reference? = addresses := by
    intro addresses
    rw [List.filterMap_map]
    exact List.filterMap_some
  have silent : (block.call options context).filterMap Event.reference? = [] := by
    unfold call
    split <;> rfl
  rw [events, List.filterMap_append, List.filterMap_append, seen, seen, silent, List.append_nil,
    headReferences_append_tailReferences]

theorem filterMap_counted?_events (options : TraceOptions) (context : DrContext)
    (block : BasicBlock AppState) (state : AppState) :
    (block.events options context state).filterMap Event.counted? =
      if block.isCounted options then [(block.instrCount, block.tag)] else [] := by
  have silent : ∀ addresses : List Address,
      (addresses.map (Event.memRef context)).filterMap Event.counted? = [] := by
    intro addresses
    refine List.filterMap_eq_nil_iff.mpr fun event member => ?_
    obtain ⟨address, -, rfl⟩ := List.mem_map.mp member
    rfl
  rw [events, List.filterMap_append, List.filterMap_append, silent, silent, List.append_nil,
    List.nil_append, call]
  split <;> rfl

end BasicBlock

/-- What the client gets to see of a thread, whatever its control flow: the callbacks are those of
the blocks it runs, in turn. The references among them are those of the traced blocks, each once and
in the order of the program, and the calls that count are one for each run of a block that is
counted. -/
theorem runInstrumented_callbacks (options : TraceOptions) (context : DrContext)
    (fetch : Fetch AppState) (count : Nat) : ∀ state : AppState,
    let callbacks := (runInstrumented options context fetch count state).2
    let blocks := (visits fetch count state).1
    callbacks = blocks.flatMap (fun visit => visit.1.events options context visit.2) ∧
      callbacks.filterMap Event.reference? =
        blocks.flatMap (fun visit => visit.1.references options visit.2) ∧
      callbacks.filterMap Event.counted? =
        (blocks.filter (·.1.isCounted options)).map
          fun visit => (visit.1.instrCount, visit.1.tag) := by
  induction count with
  | zero => exact fun _ => ⟨rfl, rfl, rfl⟩
  | succ count inductionHypothesis =>
    intro state
    dsimp only
    rw [runInstrumented, visits]
    cases fetch state with
    | none => exact ⟨rfl, rfl, rfl⟩
    | some block =>
      dsimp only
      rw [(block.executeItems_instrument options context state).2]
      obtain ⟨events, references, counted⟩ :=
        inductionHypothesis (executeEntries block.entries state).1
      refine ⟨congrArg (block.events options context state ++ ·) events, ?_, ?_⟩
      · rw [List.filterMap_append, block.filterMap_reference?_events, references]
        rfl
      · rw [List.filterMap_append, block.filterMap_counted?_events, counted, List.filter_cons]
        dsimp only
        cases block.isCounted options <;> rfl

end BarrierPoint
