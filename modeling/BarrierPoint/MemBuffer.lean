/-
This file models the memory in which the references of a thread wait, with its
fixed size and its pointer. The inline code of a memory operand stores through
the pointer and moves it on without comparing it to the end of the buffer; only
the call of a basic block puts it back. A thread stays inside its buffer
exactly when no more references than the buffer holds come between two calls,
and then what waits in it is what the list model of the buffer says.
-/

import BarrierPoint.ThreadProfile

namespace BarrierPoint

open Library

variable {AppState : Type}

/-- `MAX_NUM_MEM_REFS`. -/
def maxNumMemRefs : Nat := 4096

/-- The buffer of a thread, `MEM_BUF_SIZE` bytes from `buf_base` on, and the number of entries in
front of its pointer. -/
structure MemBuffer where
  slots : List Address
  size_eq : slots.length = maxNumMemRefs
  ptr : Nat

namespace MemBuffer

/-- Store an address through the pointer. A store behind the end of the buffer ends the run. -/
def insertSaveAddr (buffer : MemBuffer) (address : Address) : Option MemBuffer :=
  if buffer.ptr < maxNumMemRefs then
    some { buffer with
      slots := buffer.slots.set buffer.ptr address
      size_eq := List.length_set.trans buffer.size_eq }
  else none

/-- Move the pointer on by one entry. -/
def insertUpdateBufPtr (buffer : MemBuffer) : MemBuffer := { buffer with ptr := buffer.ptr + 1 }

/-- Put the pointer back to the start, where it is in a new buffer too, whatever it contains. -/
def reset (buffer : MemBuffer) : MemBuffer := { buffer with ptr := 0 }

/-- The entries from `buf_base` up to the pointer, which `add_address` walks through. -/
def entries (buffer : MemBuffer) : List Address := buffer.slots.take buffer.ptr

/-- What an operation on the data of a thread does to its buffer. -/
def perform (buffer : MemBuffer) : ThreadOp → Option MemBuffer
  | .record address => do
      let stored ← buffer.insertSaveAddr address
      return stored.insertUpdateBufPtr
  | .addAddress | .cleanBuffer => some buffer.reset
  | .addBb _ _ | .saveBarrier _ => some buffer

/-- The pointer is in the buffer, behind these entries. -/
structure Holds (buffer : MemBuffer) (waiting : List Address) : Prop where
  ptr_eq : buffer.ptr = waiting.length
  fits : waiting.length ≤ maxNumMemRefs
  entries_eq : buffer.entries = waiting

variable {buffer : MemBuffer} {waiting : List Address}

theorem holds_reset (buffer : MemBuffer) : buffer.reset.Holds [] :=
  ⟨rfl, Nat.zero_le _, List.take_zero⟩

/-- One more reference fits when the buffer is not full, and comes last. -/
theorem Holds.record (holds : buffer.Holds waiting) (address : Address)
    (room : (waiting ++ [address]).length ≤ maxNumMemRefs) :
    ∃ next, buffer.perform (.record address) = some next ∧ next.Holds (waiting ++ [address]) := by
  have inside : buffer.ptr < maxNumMemRefs := by
    rw [List.length_append] at room
    rw [holds.ptr_eq]
    exact room
  rw [perform, insertSaveAddr, if_pos inside]
  refine ⟨_, rfl, ⟨?_, room, ?_⟩⟩
  · rw [List.length_append]
    exact congrArg (· + 1) holds.ptr_eq
  · have place : buffer.ptr < (buffer.slots.set buffer.ptr address).length := by
      rwa [List.length_set, buffer.size_eq]
    show (buffer.slots.set buffer.ptr address).take (buffer.ptr + 1) = _
    rw [List.take_succ_eq_append_getElem place, List.take_set_of_le (Nat.le_refl _),
      List.getElem_set_self]
    exact congrArg (· ++ [address]) holds.entries_eq

/-- A full buffer has no room. -/
theorem Holds.overflows (holds : buffer.Holds waiting) (address : Address)
    (full : maxNumMemRefs < (waiting ++ [address]).length) :
    buffer.perform (.record address) = none := by
  rw [List.length_append, List.length_singleton] at full
  have full : ¬buffer.ptr < maxNumMemRefs := by
    rw [holds.ptr_eq]
    omega
  rw [perform, insertSaveAddr, if_neg full]
  rfl

/-- The operations go through and leave these references waiting when a condition holds, and store
behind the end of the buffer otherwise. -/
def Reaches (buffer : MemBuffer) (ops : List ThreadOp) (condition : Prop)
    (waiting : List Address) : Prop :=
  (condition → ∃ next, run perform buffer ops = some next ∧ next.Holds waiting) ∧
    (¬condition → run perform buffer ops = none)

theorem Reaches.append {first second : List ThreadOp} {condition more : Prop}
    {between : List Address} (begins : buffer.Reaches first condition between)
    (continues : ∀ next : MemBuffer, next.Holds between → next.Reaches second more waiting) :
    buffer.Reaches (first ++ second) (condition ∧ more) waiting := by
  unfold Reaches
  rw [run_append]
  by_cases holds : condition
  · obtain ⟨next, ran, nextHolds⟩ := begins.1 holds
    rw [ran, Option.bind_some]
    obtain ⟨fits, overflows⟩ := continues next nextHolds
    exact ⟨fun both => fits both.2, fun neither => overflows fun later => neither ⟨holds, later⟩⟩
  · rw [begins.2 holds]
    exact ⟨fun both => absurd both.1 holds, fun _ => rfl⟩

theorem Reaches.congr {ops : List ThreadOp} {condition other : Prop}
    (reaches : buffer.Reaches ops condition waiting) (same : condition ↔ other) :
    buffer.Reaches ops other waiting := by
  rwa [propext same] at reaches

/-- The references between two calls fit when all of them together do, and overflow the buffer
otherwise. -/
theorem Holds.records (references : List Address) : ∀ {buffer : MemBuffer} {waiting : List Address},
    buffer.Holds waiting → buffer.Reaches (references.map .record)
      ((waiting ++ references).length ≤ maxNumMemRefs) (waiting ++ references) := by
  induction references with
  | nil =>
    intro buffer waiting holds
    rw [List.append_nil]
    exact ⟨fun _ => ⟨buffer, rfl, holds⟩, fun full => absurd holds.fits full⟩
  | cons address references inductionHypothesis =>
    intro buffer waiting holds
    have recorded : buffer.Reaches [.record address]
        ((waiting ++ [address]).length ≤ maxNumMemRefs) (waiting ++ [address]) := by
      refine ⟨fun room => ?_, fun full => ?_⟩
      · obtain ⟨next, recorded, nextHolds⟩ := holds.record address room
        exact ⟨next, by rw [run, recorded]; rfl, nextHolds⟩
      · rw [run, holds.overflows address (by omega)]
        rfl
    rw [List.append_cons, List.map_cons, ← List.singleton_append]
    refine (recorded.append fun next nextHolds => inductionHypothesis nextHolds).congr ?_
    rw [and_iff_right_iff_imp, List.length_append]
    omega

/-! ### The buffer under a program -/

end MemBuffer

namespace Handover

/-- Between two calls of a program no more references come than the buffer holds. -/
def Fits (options : TraceOptions) : List (Action AppState) → AppState → Handover → Prop
  | [], _, _ => True
  | .runs block :: rest, state, handover =>
      (handover.pending ++ block.headReferences options state).length ≤ maxNumMemRefs ∧
      (handover.block options block state).pending.length ≤ maxNumMemRefs ∧
      Fits options rest (executeEntries block.entries state).1
        (handover.block options block state)
  | .barrier :: rest, state, handover | .parallel _ :: rest, state, handover =>
      Fits options rest state handover

end Handover

namespace MemBuffer

/-- What a block does to the buffer. -/
theorem Holds.block (options : TraceOptions) (block : BasicBlock AppState) (state : AppState)
    (handover : Handover) {buffer : MemBuffer} (holds : buffer.Holds handover.pending) :
    buffer.Reaches ((block.headReferences options state).map .record ++
        (if block.isCounted options then [.addBb block.tag block.instrCount, .addAddress] else []) ++
        (block.tailReferences options state).map .record)
      ((handover.pending ++ block.headReferences options state).length ≤ maxNumMemRefs ∧
        (handover.block options block state).pending.length ≤ maxNumMemRefs)
      (handover.block options block state).pending := by
  rw [List.append_assoc]
  refine (holds.records (block.headReferences options state)).append fun next nextHolds => ?_
  unfold Handover.block
  split
  · have emptied : next.Reaches [.addBb block.tag block.instrCount, .addAddress] True [] :=
      ⟨fun _ => ⟨next.reset, rfl, holds_reset next⟩, fun never => absurd trivial never⟩
    exact (emptied.append fun last lastHolds =>
      lastHolds.records (block.tailReferences options state)).congr (iff_of_eq (true_and _))
  · exact nextHolds.records (block.tailReferences options state)

/-- What a program does to the buffer. -/
theorem Holds.program (config : Config) (options : TraceOptions) (context : DrContext)
    (program : List (Action AppState)) : ∀ (state : AppState) (handover : Handover)
      {buffer : MemBuffer}, buffer.Holds handover.pending →
      buffer.Reaches (programOps config options context program state)
        (Handover.Fits options program state handover)
        (Handover.actions options program state handover).pending := by
  induction program with
  | nil =>
    exact fun _ _ buffer holds =>
      ⟨fun _ => ⟨buffer, rfl, holds⟩, fun never => absurd trivial never⟩
  | cons action program inductionHypothesis =>
    intro state handover buffer holds
    rw [← List.singleton_append, programOps_append, programOps_singleton]
    have saved : ∀ name, buffer.Reaches [.saveBarrier name] True handover.pending := fun _ =>
      ⟨fun _ => ⟨buffer, rfl, holds⟩, fun never => absurd trivial never⟩
    cases action with
    | barrier =>
      exact ((saved _).append fun next nextHolds =>
        inductionHypothesis state handover nextHolds).congr (iff_of_eq (true_and _))
    | parallel fAddr =>
      exact ((saved _).append fun next nextHolds =>
        inductionHypothesis state handover nextHolds).congr (iff_of_eq (true_and _))
    | runs block =>
      have moves : (executeActions options context [.runs block] state).1 =
          (executeEntries block.entries state).1 :=
        congrArg Prod.fst (block.executeItems_instrument options context state).2
      rw [moves]
      refine ((holds.block options block state handover).append fun next nextHolds =>
        inductionHypothesis _ _ nextHolds).congr ?_
      exact and_assoc

/-- A thread stays inside its buffer exactly when no more references than the buffer holds come
between two calls of its program. The buffer then holds the references that are pending. The program
runs inside the region of interest; outside of it too, whatever is traced there, every call of a block
puts the pointer back. -/
theorem run_isSome_iff_fits (config : Config) (options : TraceOptions) (context : DrContext)
    (buffer : MemBuffer) (program : List (Action AppState)) (state : AppState) :
    ((run perform buffer.reset
        (programOps config options context program state)).isSome = true ↔
      Handover.Fits options program state ⟨[], []⟩) ∧
    ∀ final, run perform buffer.reset
        (programOps config options context program state) = some final →
      final.entries = (Handover.actions options program state ⟨[], []⟩).pending := by
  obtain ⟨fits, overflows⟩ := Holds.program config options context program state ⟨[], []⟩
    buffer.holds_reset
  by_cases condition : Handover.Fits options program state ⟨[], []⟩
  · obtain ⟨next, ran, nextHolds⟩ := fits condition
    rw [ran]
    exact ⟨iff_of_true rfl condition, fun final same => Option.some.inj same ▸ nextHolds.entries_eq⟩
  · rw [overflows condition]
    exact ⟨iff_of_false Bool.false_ne_true condition, fun final reached => by cases reached⟩

end MemBuffer

/-- Blocks that are all counted and refer to at most half of the buffer each never fill it. -/
theorem Handover.fits_of_half (options : TraceOptions) (program : List (Action AppState))
    (small : ∀ block, .runs block ∈ program → block.isCounted options = true ∧
      ∀ state, 2 * (block.references options state).length ≤ maxNumMemRefs) :
    ∀ (state : AppState) (handover : Handover), 2 * handover.pending.length ≤ maxNumMemRefs →
      Handover.Fits options program state handover := by
  induction program with
  | nil => exact fun _ _ _ => trivial
  | cons action program inductionHypothesis =>
    intro state handover half
    have later := inductionHypothesis fun block member => small block (List.mem_cons_of_mem _ member)
    cases action with
    | barrier => exact later state handover half
    | parallel fAddr => exact later state handover half
    | runs block =>
      obtain ⟨counted, bounded⟩ := small block List.mem_cons_self
      have whole := bounded state
      rw [← block.headReferences_append_tailReferences, List.length_append] at whole
      have pending : (handover.block options block state).pending =
          block.tailReferences options state := by
        rw [Handover.block, if_pos counted]
      refine ⟨?_, ?_, later _ _ ?_⟩
      · rw [List.length_append]
        omega
      · rw [pending]
        omega
      · rw [pending]
        omega

end BarrierPoint
