/-
This file develops lists that consist of rows. In a table, it says what a cell
holds and how it changes when a blank row is appended or one cell is written.
In a list that several parts have written one after the other, it says what a
single part contributes and which part an index falls into.
-/

import Mathlib.Data.List.Basic
import Mathlib.Tactic.Common

namespace Library

variable {Item : Type}

/-! ### Tables -/

/-- What a table holds in a row and a column. -/
def cell (table : List (List Item)) (row column : Nat) : Option Item :=
  table[row]?.bind fun items => items[column]?

theorem cell_eq_some {table : List (List Item)} {row column : Nat} {items : List Item} {item : Item}
    (heldRow : table[row]? = some items) (held : items[column]? = some item) :
    cell table row column = some item := by
  rw [cell, heldRow]
  exact held

/-- A blank row leaves every cell as it is, where a missing cell counts as blank. -/
theorem getD_cell_append_replicate (table : List (List Item)) (width : Nat) (blank : Item)
    (row column : Nat) : (cell (table ++ [List.replicate width blank]) row column).getD blank =
      (cell table row column).getD blank := by
  rw [cell, cell]
  rcases Nat.lt_or_ge row table.length with old | new
  · rw [List.getElem?_append_left old]
  · rw [List.getElem?_append_right new, List.getElem?_eq_none new]
    cases row - table.length with
    | zero =>
      show (List.replicate width blank)[column]?.getD blank = blank
      rw [List.getElem?_replicate]
      split <;> rfl
    | succ beyond => rfl

/-- Writing a cell changes that cell only. -/
theorem cell_set {table : List (List Item)} {row column : Nat} {items : List Item}
    (heldRow : table[row]? = some items) (inside : column < items.length) (item : Item)
    (otherRow otherColumn : Nat) :
    cell (table.set row (items.set column item)) otherRow otherColumn =
      if row = otherRow ∧ column = otherColumn then some item
      else cell table otherRow otherColumn := by
  rw [cell, cell]
  by_cases sameRow : row = otherRow
  · subst sameRow
    rw [List.getElem?_set_self (List.getElem?_eq_some_iff.mp heldRow).1, heldRow]
    show (items.set column item)[otherColumn]? = if _ then some item else items[otherColumn]?
    by_cases sameColumn : column = otherColumn
    · subst sameColumn
      rw [if_pos ⟨rfl, rfl⟩, List.getElem?_set_self inside]
    · rw [if_neg fun same => sameColumn same.2, List.getElem?_set_ne sameColumn]
  · rw [if_neg fun same => sameRow same.1, List.getElem?_set_ne sameRow]

/-! ### Concatenations -/

variable {Part : Type} {parts : List Part} {write : Part → List Item}

/-- A concatenation over distinct parts is that of the only part that contributes. -/
theorem flatMap_eq_of_only {parts : List Part} {write : Part → List Item}
    {here : Part} (distinct : parts.Nodup) (member : here ∈ parts)
    (only : ∀ part ∈ parts, part ≠ here → write part = []) : parts.flatMap write = write here := by
  induction parts with
  | nil => cases member
  | cons part parts inductionHypothesis =>
    rw [List.nodup_cons] at distinct
    rw [List.forall_mem_cons] at only
    rw [List.flatMap_cons]
    rcases List.mem_cons.mp member with rfl | later
    · have others : parts.flatMap write = [] :=
        List.flatMap_eq_nil_iff.mpr fun part inside =>
          only.2 part inside fun same => distinct.1 (same ▸ inside)
      rw [others, List.append_nil]
    · rw [only.1 fun same => distinct.1 (same ▸ later), List.nil_append,
        inductionHypothesis distinct.2 later only.2]

/-- Where every item names the part that wrote it, the items of one part are what it wrote. -/
theorem filter_flatMap_eq_of_owner [DecidableEq Part] {owner : Item → Part}
    (distinct : parts.Nodup) (owned : ∀ part, ∀ item ∈ write part, owner item = part)
    (here : Part) : (parts.flatMap write).filter (fun item => owner item = here) =
      if here ∈ parts then write here else [] := by
  have other : ∀ part, part ≠ here →
      (write part).filter (fun item => owner item = here) = [] := by
    intro part different
    refine List.filter_eq_nil_iff.mpr fun item inside chosen => different ?_
    rw [← owned part item inside]
    exact of_decide_eq_true chosen
  rw [List.filter_flatMap]
  split
  · rename_i member
    rw [flatMap_eq_of_only distinct member fun part _ different => other part different]
    exact List.filter_eq_self.mpr fun item inside => decide_eq_true (owned here item inside)
  · rename_i outside
    exact List.flatMap_eq_nil_iff.mpr fun part inside =>
      other part fun same => outside (same ▸ inside)

/-- When only one item of a list has a property, it is the first that has it. -/
theorem exists_filter_eq_cons {items : List Item} {holds : Item → Bool} {item : Item}
    (member : item ∈ items) (here : holds item = true)
    (only : ∀ other ∈ items, holds other = true → other = item) :
    ∃ rest, items.filter holds = item :: rest := by
  obtain ⟨first, rest, found⟩ := List.exists_cons_of_ne_nil
    (List.ne_nil_of_mem (List.mem_filter.mpr ⟨member, here⟩))
  obtain ⟨inside, there⟩ := List.mem_filter.mp (found ▸ List.mem_cons_self : first ∈ _)
  exact ⟨rest, only first inside there ▸ found⟩

/-- Where every part writes the same number of items, an index falls into the part of its
quotient. -/
theorem getElem?_flatMap_const {size : Nat} (filled : 0 < size)
    (uniform : ∀ part ∈ parts, (write part).length = size) : ∀ index : Nat,
    (parts.flatMap write)[index]? =
      parts[index / size]?.bind fun part => (write part)[index % size]? := by
  induction parts with
  | nil => exact fun _ => rfl
  | cons part parts inductionHypothesis =>
    intro index
    rw [List.forall_mem_cons] at uniform
    rw [List.flatMap_cons]
    rcases Nat.lt_or_ge index size with first | later
    · rw [List.getElem?_append_left (uniform.1.symm ▸ first), Nat.div_eq_of_lt first,
        Nat.mod_eq_of_lt first]
      rfl
    · rw [List.getElem?_append_right (uniform.1.symm ▸ later), uniform.1,
        inductionHypothesis uniform.2, Nat.div_eq_sub_div filled later,
        Nat.mod_eq_sub_mod later]
      rfl

/-- What numbered parts write depends on their numbers only, where it does for each of them. -/
theorem flatMap_zipIdx {writeAt : Part × Nat → List Item} {numbered : Nat → List Item}
    (each : ∀ (number : Nat) part, parts[number]? = some part →
      writeAt (part, number) = numbered number) :
    parts.zipIdx.flatMap writeAt = (List.range parts.length).flatMap numbered := by
  rw [List.flatMap_def, List.flatMap_def]
  congr 1
  refine List.ext_getElem? fun number => ?_
  rw [List.getElem?_map, List.getElem?_map, List.getElem?_zipIdx, Nat.zero_add]
  rcases Nat.lt_or_ge number parts.length with inside | beyond
  · rw [List.getElem?_range inside, List.getElem?_eq_getElem inside]
    exact congrArg some (each number _ (List.getElem?_eq_getElem inside))
  · rw [List.getElem?_eq_none beyond, List.getElem?_eq_none (by rw [List.length_range]; exact beyond)]
    rfl

end Library
