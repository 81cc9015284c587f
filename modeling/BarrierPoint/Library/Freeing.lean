/-
This file develops memories whose cells are freed. A cell that was freed can
neither be read nor be freed again, so a run of deletes goes through exactly
when it frees allocated cells, each once. A linked structure that is deleted
from its head, reading the link of a cell before the cell is freed, frees the
cells that it links.
-/

import BarrierPoint.Library.LinkedList
import BarrierPoint.Library.Machine
import Mathlib.Logic.Function.Basic

namespace Library

variable {Address Cell : Type} [DecidableEq Address]

/-- The cells that are allocated. -/
abbrev Memory (Address Cell : Type) : Type := Address → Option Cell

namespace Memory

/-- Free an allocated cell. -/
def delete (memory : Memory Address Cell) (address : Address) : Option (Memory Address Cell) :=
  if (memory address).isSome then some (Function.update memory address none) else none

/-- The memory without some cells. -/
def without (memory : Memory Address Cell) (addresses : List Address) : Memory Address Cell :=
  fun address => if address ∈ addresses then none else memory address

variable {memory : Memory Address Cell} {address : Address} {addresses : List Address}

theorem without_nil : memory.without [] = memory := funext fun _ => if_neg List.not_mem_nil

theorem update_without (memory : Memory Address Cell) (address : Address)
    (addresses : List Address) : without (Function.update memory address none) addresses =
      memory.without (address :: addresses) := by
  funext other
  unfold without
  by_cases here : other = address
  · subst here
    rw [Function.update_self, ite_self, if_pos List.mem_cons_self]
  · rw [Function.update_of_ne here]
    simp only [List.mem_cons, here, false_or]

/-- A memory without all of its cells is empty. -/
theorem without_eq_empty (all : ∀ address, (memory address).isSome = true → address ∈ addresses) :
    memory.without addresses = fun _ => none := by
  funext address
  unfold without
  split
  · rfl
  · rename_i outside
    exact Option.not_isSome_iff_eq_none.mp fun allocated => outside (all address allocated)

/-- Deletes go through exactly when they free allocated cells, each once. -/
theorem isSome_run_delete_iff (addresses : List Address) : ∀ memory : Memory Address Cell,
    (run delete memory addresses).isSome = true ↔
      addresses.Nodup ∧ ∀ address ∈ addresses, (memory address).isSome = true := by
  induction addresses with
  | nil => exact fun memory => iff_of_true rfl ⟨List.nodup_nil, nofun⟩
  | cons address addresses inductionHypothesis =>
    intro memory
    rw [run, delete, List.nodup_cons, List.forall_mem_cons]
    by_cases allocated : (memory address).isSome = true
    · rw [if_pos allocated, Option.bind_some, inductionHypothesis]
      constructor
      · rintro ⟨distinct, live⟩
        have fresh : address ∉ addresses := fun member => by
          have freed := live address member
          rw [Function.update_self] at freed
          cases freed
        refine ⟨⟨fresh, distinct⟩, allocated, fun other member => ?_⟩
        rw [← live other member, Function.update_of_ne (ne_of_mem_of_not_mem member fresh)]
      · rintro ⟨⟨fresh, distinct⟩, -, live⟩
        refine ⟨distinct, fun other member => ?_⟩
        rw [Function.update_of_ne (ne_of_mem_of_not_mem member fresh)]
        exact live other member
    · rw [if_neg allocated]
      exact iff_of_false Bool.false_ne_true fun holds => allocated holds.2.1

/-- What deletes leave. -/
theorem run_delete_eq (addresses : List Address) : ∀ {memory final : Memory Address Cell},
    run delete memory addresses = some final → final = memory.without addresses := by
  induction addresses with
  | nil =>
    intro memory final ran
    cases ran
    exact without_nil.symm
  | cons address addresses inductionHypothesis =>
    intro memory final ran
    obtain ⟨next, deleted, rest⟩ := Option.bind_eq_some_iff.mp ran
    unfold delete at deleted
    split at deleted
    · cases deleted
      rw [inductionHypothesis rest, update_without]
    · cases deleted

/-- Deleting distinct allocated cells leaves the others. -/
theorem run_delete_of_nodup (distinct : addresses.Nodup)
    (allocated : ∀ address ∈ addresses, (memory address).isSome = true) :
    run delete memory addresses = some (memory.without addresses) := by
  obtain ⟨final, ran⟩ :=
    Option.isSome_iff_exists.mp ((isSome_run_delete_iff addresses memory).mpr ⟨distinct, allocated⟩)
  rw [ran, run_delete_eq addresses ran]

/-- Delete a linked structure from its head: the link of a cell is read before the cell is freed. -/
def deleteChain (next : Cell → Option Address) :
    Nat → Memory Address Cell → Option Address → Option (Memory Address Cell)
  | _, memory, none => some memory
  | 0, _, some _ => none
  | fuel + 1, memory, some address => do
      let cell ← memory address
      let memory ← memory.delete address
      deleteChain next fuel memory (next cell)

/-- A linked structure that is deleted frees the cells that it links. -/
theorem deleteChain_eq {next : Cell → Option Address} {prevOf nextOf : Address → Option Address}
    (order : List Address) : ∀ {done : List Address} (fuel : Nat) {memory : Memory Address Cell},
      (done ++ order).Nodup → Linked prevOf nextOf (done ++ order) →
      (∀ address ∈ order, ∃ cell, memory address = some cell ∧ next cell = nextOf address) →
      order.length ≤ fuel →
        deleteChain next fuel memory order.head? = run delete memory order := by
  induction order with
  | nil =>
    intro done fuel memory _ _ _ _
    rw [List.head?_nil, deleteChain]
    rfl
  | cons address order inductionHypothesis =>
    intro done fuel memory distinct linked cells enough
    obtain ⟨fuel, rfl⟩ : ∃ rest, fuel = rest + 1 :=
      ⟨fuel - 1, by rw [List.length_cons] at enough; omega⟩
    rw [List.forall_mem_cons] at cells
    obtain ⟨⟨cell, held, link⟩, cells⟩ := cells
    have fresh : address ∉ order :=
      (List.nodup_cons.mp (List.nodup_append.mp distinct).2.1).1
    have behind : nextOf address = order.head? := by
      have place : (done ++ address :: order)[done.length]? = some address := by
        rw [List.getElem?_append_right (Nat.le_refl _), Nat.sub_self]
        rfl
      rw [linked.next_eq done.length address place,
        List.getElem?_append_right (Nat.le_add_right _ 1), Nat.add_sub_cancel_left,
        List.getElem?_cons_succ, List.head?_eq_getElem?]
    rw [← List.singleton_append, ← List.append_assoc] at distinct linked
    have rest := @inductionHypothesis (done ++ [address]) fuel (Function.update memory address none)
      distinct linked (fun other member => by
        rw [Function.update_of_ne (ne_of_mem_of_not_mem member fresh)]
        exact cells other member) (Nat.le_of_succ_le_succ enough)
    rw [List.head?_cons, deleteChain, held, Option.bind_eq_bind, Option.bind_some, run, delete, held,
      if_pos Option.isSome_some, Option.bind_eq_bind, Option.bind_some, Option.bind_some, link, behind]
    exact rest

end Memory

end Library
