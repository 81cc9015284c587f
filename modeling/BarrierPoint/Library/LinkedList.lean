/-
This file develops doubly linked lists as they lie in memory: two link
functions from addresses to optional addresses, and the sequence of addresses
they thread. The operations are the three pointer updates a linked structure
is made of -- pushing an address in front, moving an address to the front, and
letting another address take over the place of one. Each is stated by what the
new link functions say about every address, so that a program's sequence of
stores is compared with it field by field.
-/

import Mathlib.Data.List.Nodup

namespace Library

variable {Address : Type}

/-! ### Places in a sequence without repetition -/

/-- The address before a place of the sequence. -/
def predecessor (order : List Address) (place : Nat) : Option Address :=
  if place = 0 then none else order[place - 1]?

theorem predecessor_zero (order : List Address) : predecessor order 0 = none := rfl

theorem predecessor_succ (order : List Address) (place : Nat) :
    predecessor order (place + 1) = order[place]? := rfl

/-- In a sequence without repetition an address stands at one place only. -/
theorem getElem?_eq_some_iff_eq {order : List Address} (distinct : order.Nodup) {place : Nat}
    {address : Address} (held : order[place]? = some address) (other : Nat) :
    order[other]? = some address ↔ other = place := by
  constructor
  · intro again
    obtain ⟨bound, _⟩ := List.getElem?_eq_some_iff.mp again
    exact (List.getElem?_inj bound distinct).mp (again.trans held.symm)
  · rintro rfl
    exact held

/-- Erasing the address at a place of such a sequence is erasing the place. -/
theorem eraseIdx_eq_erase [DecidableEq Address] {order : List Address} (distinct : order.Nodup)
    {place : Nat} {address : Address} (held : order[place]? = some address) :
    order.eraseIdx place = order.erase address := by
  obtain ⟨bound, rfl⟩ := List.getElem?_eq_some_iff.mp held
  exact (distinct.erase_getElem place bound).symm

/-- Replacing one address of a sequence keeps the others in it. -/
theorem mem_set_of_ne {order : List Address} {place : Nat} {old new address : Address}
    (found : order[place]? = some old) (member : address ∈ order) (other : address ≠ old) :
    address ∈ order.set place new := by
  obtain ⟨index, held⟩ := List.getElem?_of_mem member
  have elsewhere : place ≠ index := by
    rintro rfl
    exact other (Option.some_inj.mp (held.symm.trans found))
  exact List.mem_of_getElem? ((List.getElem?_set_ne elsewhere).trans held)

theorem predecessor_eq_some_iff_eq {order : List Address} (distinct : order.Nodup) {place : Nat}
    {address : Address} (held : order[place]? = some address) (other : Nat) :
    predecessor order other = some address ↔ other = place + 1 := by
  cases other with
  | zero => simp [predecessor_zero]
  | succ other =>
    rw [predecessor_succ, getElem?_eq_some_iff_eq distinct held, Nat.add_right_cancel_iff]

/-! ### Linked sequences -/

/-- The link functions thread the sequence: every address of it points to its neighbours, and
the ends point nowhere. Nothing is said about other addresses. -/
structure Linked (prev next : Address → Option Address) (order : List Address) : Prop where
  prev_eq : ∀ place address, order[place]? = some address →
    prev address = predecessor order place
  next_eq : ∀ place address, order[place]? = some address →
    next address = order[place + 1]?

/-- The links lead from one address of the sequence to another. -/
theorem Linked.mem_of_prev {prev next : Address → Option Address} {order : List Address}
    (linked : Linked prev next order) {address other : Address} (member : address ∈ order)
    (points : prev address = some other) : other ∈ order := by
  obtain ⟨place, held⟩ := List.getElem?_of_mem member
  rw [linked.prev_eq place address held] at points
  cases place with
  | zero => cases points
  | succ place => exact List.mem_of_getElem? points

/-- Within the sequence the two link functions are inverse to each other. -/
theorem Linked.next_eq_some_iff {prev next : Address → Option Address} {order : List Address}
    (linked : Linked prev next order) {address other : Address} (member : address ∈ order)
    (memberOther : other ∈ order) : next address = some other ↔ prev other = some address := by
  constructor
  · intro points
    obtain ⟨place, held⟩ := List.getElem?_of_mem member
    rw [linked.next_eq place address held] at points
    rw [linked.prev_eq (place + 1) other points, predecessor_succ, held]
  · intro points
    obtain ⟨place, held⟩ := List.getElem?_of_mem memberOther
    rw [linked.prev_eq place other held] at points
    cases place with
    | zero => cases points
    | succ place => rw [linked.next_eq place address points, held]

theorem linked_nil (prev next : Address → Option Address) : Linked prev next [] := by
  constructor <;> simp

section Operations

variable [DecidableEq Address] {prev next prev' next' : Address → Option Address}
  {order : List Address}

omit [DecidableEq Address] in
/-- Links that agree on the sequence thread it as well. -/
theorem Linked.congr (linked : Linked prev next order)
    (samePrev : ∀ address ∈ order, prev' address = prev address)
    (sameNext : ∀ address ∈ order, next' address = next address) : Linked prev' next' order := by
  constructor
  · intro place address held
    rw [samePrev address (List.mem_of_getElem? held), linked.prev_eq place address held]
  · intro place address held
    rw [sameNext address (List.mem_of_getElem? held), linked.next_eq place address held]

/-- Pushing an address in front. -/
theorem Linked.cons (linked : Linked prev next order) (distinct : order.Nodup) {new : Address}
    (prevNew : prev' new = none) (nextNew : next' new = order[0]?)
    (prevOther : ∀ address ∈ order,
      prev' address = if order[0]? = some address then some new else prev address)
    (nextOther : ∀ address ∈ order, next' address = next address) :
    Linked prev' next' (new :: order) := by
  constructor
  · intro place address held
    cases place with
    | zero =>
      cases held
      exact prevNew
    | succ place =>
      rw [List.getElem?_cons_succ] at held
      rw [prevOther address (List.mem_of_getElem? held), predecessor_succ,
        linked.prev_eq place address held]
      simp only [getElem?_eq_some_iff_eq distinct held]
      cases place with
      | zero => rfl
      | succ place => rw [if_neg (by omega), predecessor_succ, List.getElem?_cons_succ]
  · intro place address held
    cases place with
    | zero =>
      cases held
      exact nextNew
    | succ place =>
      rw [List.getElem?_cons_succ] at held
      rw [nextOther address (List.mem_of_getElem? held), linked.next_eq place address held,
        List.getElem?_cons_succ]

/-- Moving the address at a later place to the front. Its old neighbours are joined, and the
old front gets it as predecessor. -/
theorem Linked.moveToFront (linked : Linked prev next order) (distinct : order.Nodup)
    {place : Nat} {moved : Address} (found : order[place + 1]? = some moved)
    (prevMoved : prev' moved = none) (nextMoved : next' moved = order[0]?)
    (prevOther : ∀ address ∈ order, address ≠ moved →
      prev' address = if order[0]? = some address then some moved
        else if order[place + 2]? = some address then order[place]? else prev address)
    (nextOther : ∀ address ∈ order, address ≠ moved →
      next' address = if order[place]? = some address then order[place + 2]? else next address) :
    Linked prev' next' (moved :: order.eraseIdx (place + 1)) := by
  have notMoved : ∀ other address, order[other]? = some address → other ≠ place + 1 →
      address ≠ moved := by
    rintro other address held different rfl
    exact different ((getElem?_eq_some_iff_eq distinct found other).mp held)
  constructor
  · intro other address held
    cases other with
    | zero =>
      cases held
      exact prevMoved
    | succ other =>
      rw [List.getElem?_cons_succ, List.getElem?_eraseIdx] at held
      rw [predecessor_succ]
      split at held
      · rename_i before
        rw [prevOther address (List.mem_of_getElem? held) (notMoved other address held (by omega)),
          linked.prev_eq other address held]
        simp only [getElem?_eq_some_iff_eq distinct held]
        cases other with
        | zero => rfl
        | succ other =>
          rw [if_neg (by omega), if_neg (by omega), predecessor_succ, List.getElem?_cons_succ,
            List.getElem?_eraseIdx, if_pos (by omega)]
      · rename_i after
        rw [prevOther address (List.mem_of_getElem? held)
            (notMoved (other + 1) address held (by omega)),
          linked.prev_eq (other + 1) address held]
        simp only [getElem?_eq_some_iff_eq distinct held]
        rw [if_neg (by omega), predecessor_succ]
        obtain ⟨later, rfl⟩ : ∃ later, other = later + 1 := ⟨other - 1, by omega⟩
        rw [List.getElem?_cons_succ, List.getElem?_eraseIdx]
        by_cases joined : later = place
        · subst joined
          rw [if_pos rfl, if_pos (by omega)]
        · rw [if_neg (by omega), if_neg (by omega)]
  · intro other address held
    cases other with
    | zero =>
      cases held
      rw [nextMoved, List.getElem?_cons_succ, List.getElem?_eraseIdx, if_pos (by omega)]
    | succ other =>
      rw [List.getElem?_cons_succ, List.getElem?_eraseIdx] at held
      rw [List.getElem?_cons_succ, List.getElem?_eraseIdx]
      split at held
      · rename_i before
        rw [nextOther address (List.mem_of_getElem? held) (notMoved other address held (by omega)),
          linked.next_eq other address held]
        simp only [getElem?_eq_some_iff_eq distinct held]
        by_cases joined : place = other
        · subst joined
          rw [if_pos rfl, if_neg (by omega)]
        · rw [if_neg joined, if_pos (by omega)]
      · rename_i after
        rw [nextOther address (List.mem_of_getElem? held)
            (notMoved (other + 1) address held (by omega)),
          linked.next_eq (other + 1) address held]
        simp only [getElem?_eq_some_iff_eq distinct held]
        rw [if_neg (by omega), if_neg (by omega)]

/-- A fresh address takes over the place of another one. -/
theorem Linked.replace (linked : Linked prev next order) (distinct : order.Nodup) {place : Nat}
    {old new : Address} (found : order[place]? = some old)
    (prevNew : prev' new = prev old) (nextNew : next' new = next old)
    (prevOther : ∀ address ∈ order, address ≠ old →
      prev' address = if next old = some address then some new else prev address)
    (nextOther : ∀ address ∈ order, address ≠ old →
      next' address = if prev old = some address then some new else next address) :
    Linked prev' next' (order.set place new) := by
  obtain ⟨bound, _⟩ := List.getElem?_eq_some_iff.mp found
  have notOld : ∀ other address, order[other]? = some address → place ≠ other →
      address ≠ old := by
    rintro other address held different rfl
    exact different ((getElem?_eq_some_iff_eq distinct found other).mp held).symm
  rw [linked.prev_eq place old found] at nextOther prevNew
  rw [linked.next_eq place old found] at prevOther nextNew
  constructor
  · intro other address held
    by_cases here : place = other
    · subst here
      rw [List.getElem?_set_self bound] at held
      cases held
      rw [prevNew]
      unfold predecessor
      rw [List.getElem?_set]
      split
      · rfl
      · rw [if_neg (by omega)]
    · rw [List.getElem?_set_ne here] at held
      rw [prevOther address (List.mem_of_getElem? held) (notOld other address held here),
        linked.prev_eq other address held]
      simp only [getElem?_eq_some_iff_eq distinct held]
      cases other with
      | zero => rw [if_neg (by omega), predecessor_zero, predecessor_zero]
      | succ other =>
        rw [predecessor_succ, predecessor_succ, List.getElem?_set]
        by_cases joined : place = other
        · rw [if_pos (by omega), if_pos joined, if_pos bound]
        · rw [if_neg (by omega), if_neg joined]
  · intro other address held
    by_cases here : place = other
    · subst here
      rw [List.getElem?_set_self bound] at held
      cases held
      rw [nextNew, List.getElem?_set_ne (by omega)]
    · rw [List.getElem?_set_ne here] at held
      rw [nextOther address (List.mem_of_getElem? held) (notOld other address held here),
        linked.next_eq other address held, List.getElem?_set]
      simp only [predecessor_eq_some_iff_eq distinct held]
      by_cases joined : place = other + 1
      · rw [if_pos joined, if_pos joined, if_pos bound]
      · rw [if_neg joined, if_neg joined]

end Operations

end Library
