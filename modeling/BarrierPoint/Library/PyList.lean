/-
This file develops the lists of a Python program: items are read and replaced
by an index that may count from the end, and an index outside the list raises
an error. A loop that only goes through indices of the list raises nothing.
-/

import Mathlib.Algebra.BigOperators.Group.List.Basic
import Mathlib.Data.Int.Notation
import Mathlib.Data.List.Induction
import Mathlib.Order.Lattice
import Mathlib.Order.MinMax

namespace Library

/-- What a Python program raises. -/
inductive PyError where
  | indexError
  | keyError
  | typeError
  | valueError
  | zeroDivisionError
  | assertionError
  | stopIteration
  | nameError
  deriving DecidableEq, Repr

variable {Item Image : Type}

/-- The position an index stands for: a negative one counts from the end. -/
def position (length : Nat) (index : Int) : Int := if index < 0 then index + length else index

/-- `items[index]`. -/
def getItem (items : List Item) (index : Int) : Except PyError Item :=
  let place := position items.length index
  if place < 0 then .error .indexError
  else match items[place.toNat]? with
    | some item => .ok item
    | none => .error .indexError

/-- `items[index] = item`. -/
def setItem (items : List Item) (index : Int) (item : Item) : Except PyError (List Item) :=
  let place := position items.length index
  if place < 0 ∨ (items.length : Int) ≤ place then .error .indexError
  else .ok (items.set place.toNat item)

/-- The maximum of a list, `max(items)`. -/
def maximum [Max Item] : List Item → Except PyError Item
  | [] => .error .valueError
  | item :: items => .ok (items.foldl max item)

/-- `functools.reduce(combine, items)`. -/
def reduce (combine : Item → Item → Item) : List Item → Except PyError Item
  | [] => .error .typeError
  | item :: items => .ok (items.foldl combine item)

/-- A statement that raises nothing passes its value on. -/
theorem bind_of_eq_ok {first : Except PyError Item} {item : Item} (ran : first = .ok item)
    (rest : Item → Except PyError Image) : (first >>= rest) = rest item := by
  rw [ran]
  rfl

/-- A program that raises nothing has a first statement that raises nothing. -/
theorem exists_of_bind_eq_ok {first : Except PyError Item} {rest : Item → Except PyError Image}
    {image : Image} (ran : (first >>= rest) = .ok image) :
    ∃ item, first = .ok item ∧ rest item = .ok image := by
  cases first with
  | error raised => cases ran
  | ok item => exact ⟨item, rfl, ran⟩

theorem getItem_of_getElem? {items : List Item} {index : Nat} {item : Item}
    (held : items[index]? = some item) : getItem items index = .ok item := by
  have place : position items.length index = index := if_neg (by omega)
  simp only [getItem, place]
  rw [if_neg (by omega), Int.toNat_natCast, held]

/-- An item that is read stands at the position of the index. -/
theorem getElem?_of_getItem {items : List Item} {index : Int} {item : Item}
    (read : getItem items index = .ok item) : 0 ≤ position items.length index ∧
      items[(position items.length index).toNat]? = some item := by
  simp only [getItem] at read
  split at read
  · cases read
  · rename_i nonneg
    refine ⟨not_lt.mp nonneg, ?_⟩
    cases held : items[(position items.length index).toNat]? with
    | none =>
      rw [held] at read
      cases read
    | some found =>
      rw [held] at read
      cases read
      rfl

theorem getItem_eq_ok_iff {items : List Item} {index : Nat} {item : Item} :
    getItem items index = .ok item ↔ items[index]? = some item := by
  refine ⟨fun read => ?_, getItem_of_getElem?⟩
  have place : position items.length index = index := if_neg (by omega)
  have held := (getElem?_of_getItem read).2
  rwa [place, Int.toNat_natCast] at held

theorem mem_of_setItem {items after : List Item} {index : Int} {item : Item}
    (stored : setItem items index item = .ok after) :
    after.length = items.length ∧ ∀ other ∈ after, other = item ∨ other ∈ items := by
  simp only [setItem] at stored
  split at stored
  · cases stored
  · cases stored
    exact ⟨List.length_set, fun other member => (List.mem_or_eq_of_mem_set member).symm⟩

theorem mem_of_getItem {items : List Item} {index : Int} {item : Item}
    (read : getItem items index = .ok item) : item ∈ items :=
  List.mem_of_getElem? (getElem?_of_getItem read).2

/-- The indices that stand for a position of a list. -/
def InRange (length : Nat) (index : Int) : Prop := -(length : Int) ≤ index ∧ index < length

theorem getItem_of_position {items : List Item} {index : Int} {item : Item}
    (nonneg : 0 ≤ position items.length index)
    (held : items[(position items.length index).toNat]? = some item) :
    getItem items index = .ok item := by
  simp only [getItem]
  rw [if_neg (not_lt.mpr nonneg), held]

theorem getItem_congr {items : List Item} {index other : Int}
    (same : position items.length index = position items.length other) :
    getItem items index = getItem items other := by
  simp only [getItem, same]

theorem getItem_of_inRange {items : List Item} {index : Int} (inside : InRange items.length index)
    (blank : Item) :
    getItem items index = .ok (items.getD (position items.length index).toNat blank) := by
  obtain ⟨above, below⟩ := inside
  have bounds : 0 ≤ position items.length index ∧ position items.length index < items.length := by
    rw [position]
    split <;> omega
  have held := List.getElem?_eq_getElem (l := items)
    (show (position items.length index).toNat < items.length by omega)
  simp only [getItem]
  rw [if_neg (by omega), held, List.getD_eq_getElem?_getD, held]
  rfl

theorem position_nonneg {length : Nat} {index : Int} (inside : InRange length index) :
    0 ≤ position length index := by
  obtain ⟨above, -⟩ := inside
  rw [position]
  split <;> omega

theorem position_toNat_lt {length : Nat} {index : Int} (inside : InRange length index) :
    (position length index).toNat < length := by
  obtain ⟨above, below⟩ := inside
  rw [position]
  split <;> omega

/-- Writing succeeds at the indices that stand for positions. -/
theorem setItem_eq_ok_iff {items after : List Item} {index : Int} {item : Item} :
    setItem items index item = .ok after ↔ InRange items.length index ∧
      after = items.set (position items.length index).toNat item := by
  simp only [setItem]
  constructor
  · intro stored
    split at stored
    · cases stored
    · rename_i inside
      cases stored
      refine ⟨?_, rfl⟩
      rw [position] at inside
      rw [InRange]
      split at inside <;> omega
  · rintro ⟨inside, rfl⟩
    have nonneg := position_nonneg inside
    have within := position_toNat_lt inside
    rw [if_neg (by omega)]

theorem inRange_of_getItem {items : List Item} {index : Int} {item : Item}
    (read : getItem items index = .ok item) : InRange items.length index := by
  obtain ⟨nonneg, held⟩ := getElem?_of_getItem read
  have below := (List.getElem?_eq_some_iff.mp held).1
  rw [InRange]
  rw [position] at nonneg below
  split at nonneg <;> omega

theorem setItem_of_lt {items : List Item} {index : Nat} (inside : index < items.length)
    (item : Item) : setItem items index item = .ok (items.set index item) := by
  have place : position items.length index = index := if_neg (by omega)
  simp only [setItem, place]
  rw [if_neg (by omega), Int.toNat_natCast]

theorem maximum_eq_ok [LinearOrder Item] {items : List Item} (filled : items ≠ []) :
    ∃ largest, maximum items = .ok largest ∧ ∀ item ∈ items, item ≤ largest := by
  cases items with
  | nil => exact (filled rfl).elim
  | cons first items =>
    refine ⟨_, rfl, ?_⟩
    have bound : ∀ (rest : List Item) (start : Item), start ≤ rest.foldl max start ∧
        ∀ item ∈ rest, item ≤ rest.foldl max start := by
      intro rest
      induction rest with
      | nil => exact fun start => ⟨le_refl _, nofun⟩
      | cons next rest inductionHypothesis =>
        intro start
        obtain ⟨above, each⟩ := inductionHypothesis (max start next)
        rw [List.foldl_cons, List.forall_mem_cons]
        exact ⟨(le_max_left _ _).trans above, (le_max_right _ _).trans above, each⟩
    rw [List.forall_mem_cons]
    exact bound items first

/-- Reducing a list by taking one of two items leads to one of its items. -/
theorem mem_of_reduce {combine : Item → Item → Item} {items : List Item} {item : Item}
    (picks : ∀ x y, combine x y = x ∨ combine x y = y) (reduced : reduce combine items = .ok item) :
    item ∈ items := by
  have picked : ∀ (rest : List Item) (start : Item),
      rest.foldl combine start = start ∨ rest.foldl combine start ∈ rest := by
    intro rest
    induction rest with
    | nil => exact fun _ => .inl rfl
    | cons next rest inductionHypothesis =>
      intro start
      rw [List.foldl_cons]
      rcases inductionHypothesis (combine start next) with kept | later
      · rw [kept]
        rcases picks start next with first | second
        · exact .inl first
        · rw [second]
          exact .inr List.mem_cons_self
      · exact .inr (List.mem_cons_of_mem _ later)
  cases items with
  | nil => cases reduced
  | cons first items =>
    cases reduced
    rcases picked items first with same | later
    · rw [same]
      exact List.mem_cons_self
    · exact List.mem_cons_of_mem _ later

theorem mem_of_maximum [LinearOrder Item] {items : List Item} {largest : Item}
    (isLargest : maximum items = .ok largest) : largest ∈ items := by
  cases items with
  | nil => cases isLargest
  | cons first items => exact mem_of_reduce max_choice isLargest

/-- Reducing a list to the smaller of two items, the second where neither is smaller, leads to the
last of the smallest items. It is enough that the items of the list are compared by their keys. -/
theorem reduce_eq_ok_last {Key : Type} [LinearOrder Key] (key : Item → Key)
    {smaller : Item → Item → Prop} [DecidableRel smaller] {items : List Item}
    (byKey : ∀ x ∈ items, ∀ y ∈ items, smaller x y ↔ key x < key y) (filled : items ≠ []) :
    ∃ front least back, items = front ++ least :: back ∧
      reduce (fun x y => if smaller x y then x else y) items = .ok least ∧
      (∀ item ∈ front, key least ≤ key item) ∧ ∀ item ∈ back, key least < key item := by
  cases items with
  | nil => exact (filled rfl).elim
  | cons first items =>
    induction items using List.reverseRecOn with
    | nil => exact ⟨[], first, [], rfl, rfl, nofun, nofun⟩
    | append_singleton items last inductionHypothesis =>
      have inside : ∀ x ∈ first :: items, x ∈ first :: (items ++ [last]) := fun x member =>
        List.mem_append_left [last] member
      obtain ⟨front, least, back, split, reduced, before, behind⟩ := inductionHypothesis
        (fun x isFirst y isSecond => byKey x (inside x isFirst) y (inside y isSecond)) nofun
      have atEnd : reduce (fun x y => if smaller x y then x else y) (first :: (items ++ [last])) =
          .ok (if smaller least last then least else last) := by
        rw [reduce, List.foldl_append, Except.ok.inj reduced]
        rfl
      have compared := byKey least (inside least (by simp [split])) last (by simp)
      by_cases isSmaller : smaller least last
      · refine ⟨front, least, back ++ [last], ?_, ?_, before, ?_⟩
        · rw [← List.cons_append, split, List.append_assoc, List.cons_append]
        · rw [atEnd, if_pos isSmaller]
        · rw [List.forall_mem_append]
          exact ⟨behind, List.forall_mem_singleton.mpr (compared.mp isSmaller)⟩
      · refine ⟨first :: items, last, [], rfl, ?_, ?_, nofun⟩
        · rw [atEnd, if_neg isSmaller]
        · have bound := not_lt.mp fun less => isSmaller (compared.mpr less)
          rw [split, List.forall_mem_append, List.forall_mem_cons]
          exact ⟨fun item member => bound.trans (before item member), bound,
            fun item member => bound.trans (behind item member).le⟩

/-- A loop over a list that computes an item each time. -/
theorem mapM_eq_ok {items : List Item} {compute : Item → Except PyError Image}
    {image : Item → Image} (each : ∀ item ∈ items, compute item = .ok (image item)) :
    items.mapM compute = .ok (items.map image) := by
  induction items with
  | nil => rfl
  | cons item items inductionHypothesis =>
    rw [List.forall_mem_cons] at each
    rw [List.mapM_cons, each.1, inductionHypothesis each.2]
    rfl

/-- What a loop has computed, it has computed for each item. -/
theorem forall₂_of_mapM_eq_ok {compute : Item → Except PyError Image} {items : List Item} :
    ∀ {images : List Image}, items.mapM compute = .ok images →
      List.Forall₂ (fun item image => compute item = .ok image) items images := by
  induction items with
  | nil =>
    intro images ran
    cases ran
    exact .nil
  | cons item items inductionHypothesis =>
    intro images ran
    rw [List.mapM_cons] at ran
    obtain ⟨image, first, ran⟩ := exists_of_bind_eq_ok ran
    obtain ⟨rest, others, ran⟩ := exists_of_bind_eq_ok ran
    cases ran
    exact .cons first (inductionHypothesis others)

theorem length_of_mapM_eq_ok {compute : Item → Except PyError Image} {items : List Item}
    {images : List Image} (ran : items.mapM compute = .ok images) : images.length = items.length :=
  (forall₂_of_mapM_eq_ok ran).length_eq.symm

theorem exists_of_mapM_eq_ok {compute : Item → Except PyError Image} {items : List Item}
    {images : List Image} (ran : items.mapM compute = .ok images) :
    ∀ item ∈ items, ∃ image, compute item = .ok image := by
  intro item member
  obtain ⟨place, held⟩ := List.mem_iff_getElem.mp member
  obtain ⟨inside, rfl⟩ := held
  exact ⟨_, (forall₂_of_mapM_eq_ok ran).get inside (length_of_mapM_eq_ok ran ▸ inside)⟩

theorem getElem?_of_mapM_eq_ok {compute : Item → Except PyError Image} {items : List Item}
    {images : List Image} (ran : items.mapM compute = .ok images) {place : Nat} {image : Image}
    (held : images[place]? = some image) :
    ∃ item, items[place]? = some item ∧ compute item = .ok image := by
  obtain ⟨inside, rfl⟩ := List.getElem?_eq_some_iff.mp held
  have here := length_of_mapM_eq_ok ran ▸ inside
  exact ⟨_, List.getElem?_eq_getElem here, (forall₂_of_mapM_eq_ok ran).get here inside⟩

/-- What every round of a loop keeps holds at its end. -/
theorem foldlM_keeps {State : Type} {step : State → Item → Except PyError State}
    (Inv : State → Prop) {items : List Item}
    (round : ∀ item ∈ items, ∀ state after, Inv state → step state item = .ok after → Inv after) :
    ∀ {state after : State}, Inv state → items.foldlM step state = .ok after → Inv after := by
  induction items with
  | nil =>
    intro state after held ran
    cases ran
    exact held
  | cons item items inductionHypothesis =>
    intro state after held ran
    rw [List.forall_mem_cons] at round
    rw [List.foldlM_cons] at ran
    obtain ⟨next, first, rest⟩ := exists_of_bind_eq_ok ran
    exact inductionHypothesis round.2 (round.1 state next held first) rest

/-- A loop over a range whose rounds go through several items each. What every round preserves holds
at the end. -/
theorem foldlM_flatMap_range {State : Type} {step : State → Item → Except PyError State}
    (Inv : Nat → State → Prop) {items : Nat → List Item} {count : Nat}
    (round : ∀ index < count, ∀ state, Inv index state →
      ∃ after, (items index).foldlM step state = .ok after ∧ Inv (index + 1) after)
    {state : State} (start : Inv 0 state) :
    ∃ after, ((List.range count).flatMap items).foldlM step state = .ok after ∧ Inv count after := by
  induction count with
  | zero => exact ⟨state, rfl, start⟩
  | succ count inductionHypothesis =>
    obtain ⟨before, ran, held⟩ := inductionHypothesis fun index below => round index (by omega)
    obtain ⟨after, last, kept⟩ := round count (by omega) before held
    refine ⟨after, ?_, kept⟩
    rw [List.range_succ, List.flatMap_append, List.foldlM_append, bind_of_eq_ok ran,
      List.flatMap_singleton]
    exact last

/-- A loop that writes under indices goes through when all of them stand for positions. -/
theorem exists_foldlM_setItem (value : Image → Item) (entries : List (Int × Image)) :
    ∀ items : List Item, (∀ entry ∈ entries, InRange items.length entry.1) → ∃ written,
      entries.foldlM (fun items (index, image) => setItem items index (value image)) items =
        .ok written := by
  induction entries with
  | nil => exact fun items _ => ⟨items, rfl⟩
  | cons entry entries inductionHypothesis =>
    intro items inside
    rw [List.forall_mem_cons] at inside
    obtain ⟨written, ran⟩ := inductionHypothesis
      (items.set (position items.length entry.1).toNat (value entry.2))
      (by rw [List.length_set]; exact inside.2)
    refine ⟨written, ?_⟩
    rw [List.foldlM_cons, bind_of_eq_ok (setItem_eq_ok_iff.mpr ⟨inside.1, rfl⟩)]
    exact ran

/-- A loop that writes under indices goes through only when they stand for positions. At the position
of an entry it leaves what a later entry, or this one, has written there. -/
theorem foldlM_setItem (value : Image → Item) (items : List Item) (entries : List (Int × Image)) :
    ∀ {written : List Item},
      entries.foldlM (fun items (index, image) => setItem items index (value image)) items =
        .ok written → written.length = items.length ∧
      ∀ (place : Nat) entry, entries[place]? = some entry → InRange items.length entry.1 ∧
        ∃ latest other, place ≤ latest ∧ entries[latest]? = some other ∧
          position items.length other.1 = position items.length entry.1 ∧
          written[(position items.length entry.1).toNat]? = some (value other.2) := by
  induction entries using List.reverseRecOn with
  | nil =>
    intro written ran
    cases ran
    exact ⟨rfl, nofun⟩
  | append_singleton entries last inductionHypothesis =>
    intro written ran
    rw [List.foldlM_append] at ran
    obtain ⟨before, ranBefore, ran⟩ := exists_of_bind_eq_ok ran
    rw [List.foldlM_cons] at ran
    obtain ⟨after, stored, ran⟩ := exists_of_bind_eq_ok ran
    cases ran
    obtain ⟨sameLength, each⟩ := inductionHypothesis ranBefore
    obtain ⟨inside, rfl⟩ := setItem_eq_ok_iff.mp stored
    rw [sameLength] at inside ⊢
    have atLast : (entries ++ [last])[entries.length]? = some last := by simp
    have within := position_toNat_lt inside
    have written : (before.set (position items.length last.1).toNat (value last.2))[
        (position items.length last.1).toNat]? = some (value last.2) :=
      List.getElem?_set_self (sameLength.symm ▸ within)
    refine ⟨List.length_set.trans sameLength, fun place entry held => ?_⟩
    rcases Nat.lt_or_ge place entries.length with early | late
    · rw [List.getElem?_append_left early] at held
      obtain ⟨inRange, latest, other, behind, heldOther, same, there⟩ := each place entry held
      refine ⟨inRange, ?_⟩
      by_cases again : position items.length last.1 = position items.length entry.1
      · exact ⟨entries.length, last, early.le, atLast, again, again ▸ written⟩
      · refine ⟨latest, other, behind, ?_, same, ?_⟩
        · rwa [List.getElem?_append_left (List.getElem?_eq_some_iff.mp heldOther).1]
        · rwa [List.getElem?_set_ne fun toNat => again ?_]
          have nonneg := position_nonneg inside
          have nonnegEntry := position_nonneg inRange
          omega
    · obtain rfl : place = entries.length := by
        have bound := (List.getElem?_eq_some_iff.mp held).1
        rw [List.length_append, List.length_singleton] at bound
        omega
      obtain rfl := Option.some_inj.mp (atLast.symm.trans held)
      exact ⟨inside, entries.length, last, le_rfl, atLast, rfl, written⟩

end Library
