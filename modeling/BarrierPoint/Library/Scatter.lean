/-
This file develops lists that are changed entry by entry. Entries may add an
amount to the item their key selects: weighing what distinct keys gathered
gives back the weighted total of the entries when no entry has another key. And
entries may replace one item by another, one after the other or all at once: the
two come to the same when no replacement puts in an item that a later one takes
out.
-/

import BarrierPoint.Library.PyList
import Mathlib.Algebra.BigOperators.Ring.List
import Mathlib.Algebra.BigOperators.Group.Finset.Basic
import Mathlib.Algebra.BigOperators.Group.Finset.Piecewise
import Mathlib.Data.List.Nodup

namespace Library

/-! ### Amounts under keys -/

section Amounts

variable {Amount : Type} [Semiring Amount]

/-- Add the amount of an entry to the item its key selects. -/
def addAt (items : List Amount) (entry : Int × Amount) : Except PyError (List Amount) := do
  let held ← getItem items entry.1
  setItem items entry.1 (held + entry.2)

/-- What the entries of a key amount to. -/
def amountAt (entries : List (Nat × Amount)) (key : Nat) : Amount :=
  (entries.map fun entry => if entry.1 = key then entry.2 else 0).sum

theorem addAt_eq {items : List Amount} {key : Nat} {held : Amount} (read : items[key]? = some held)
    (amount : Amount) : addAt items (key, amount) = .ok (items.set key (held + amount)) := by
  obtain ⟨inside, -⟩ := List.getElem?_eq_some_iff.mp read
  show (getItem items (key : Int)).bind _ = _
  rw [getItem_of_getElem? read]
  exact setItem_of_lt inside _

/-- Accumulating entries with keys inside the list adds to every item what the entries of its
position amount to. -/
theorem foldlM_addAt (entries : List (Nat × Amount)) : ∀ items : List Amount,
    (∀ entry ∈ entries, entry.1 < items.length) →
    ∃ gathered : List Amount, (entries.map fun entry => ((entry.1 : Int), entry.2)).foldlM addAt
        items = .ok gathered ∧ gathered.length = items.length ∧
      ∀ (key : Nat) item, items[key]? = some item →
        gathered[key]? = some (item + amountAt entries key) := by
  induction entries with
  | nil =>
    refine fun items _ => ⟨items, rfl, rfl, fun key item read => ?_⟩
    rw [amountAt, List.map_nil, List.sum_nil, add_zero]
    exact read
  | cons entry entries inductionHypothesis =>
    intro items inside
    rw [List.forall_mem_cons] at inside
    have read := List.getElem?_eq_getElem inside.1
    obtain ⟨gathered, ran, sameLength, each⟩ :=
      inductionHypothesis (items.set entry.1 (items[entry.1] + entry.2)) fun other member => by
        rw [List.length_set]
        exact inside.2 other member
    rw [List.length_set] at sameLength
    refine ⟨gathered, ?_, sameLength, fun key item held => ?_⟩
    · rw [List.map_cons, List.foldlM_cons, addAt_eq read]
      exact ran
    · rw [amountAt, List.map_cons, List.sum_cons, ← amountAt, ← add_assoc]
      by_cases here : entry.1 = key
      · subst here
        rw [if_pos rfl]
        obtain rfl := Option.some_inj.mp (read.symm.trans held)
        exact each _ _ (List.getElem?_set_self inside.1)
      · rw [if_neg here, add_zero]
        exact each _ _ ((List.getElem?_set_ne here).trans held)

/-- Distinct keys that cover the entries gather all of them. -/
theorem sum_amountAt (entries : List (Nat × Amount)) (keys : List Nat) (distinct : keys.Nodup)
    (covers : ∀ entry ∈ entries, entry.1 ∈ keys) (weight : Nat → Amount) :
    (keys.map fun key => amountAt entries key * weight key).sum =
      (entries.map fun entry => entry.2 * weight entry.1).sum := by
  induction entries with
  | nil => simp [amountAt]
  | cons entry entries inductionHypothesis =>
    rw [List.forall_mem_cons] at covers
    have one : (keys.map fun key => (if entry.1 = key then entry.2 else 0) * weight key).sum =
        entry.2 * weight entry.1 := by
      rw [← List.sum_toFinset _ distinct]
      simp only [ite_mul, zero_mul]
      rw [Finset.sum_ite_eq, if_pos (List.mem_toFinset.mpr covers.1)]
    have split : ∀ key, amountAt (entry :: entries) key * weight key =
        (if entry.1 = key then entry.2 else 0) * weight key + amountAt entries key * weight key := by
      intro key
      rw [amountAt, List.map_cons, List.sum_cons, add_mul]
      rfl
    rw [List.map_congr_left fun key _ => split key, List.sum_map_add, one,
      inductionHypothesis covers.2, List.map_cons, List.sum_cons]

end Amounts

/-! ### Replacements -/

variable {Item : Type} [DecidableEq Item]

/-- What all replacements at once make of an item: the first that names it counts. -/
def substitute (pairs : List (Item × Item)) (item : Item) : Item := (pairs.lookup item).getD item

/-- The replacements are made one after the other. -/
def replaceInTurn (pairs : List (Item × Item)) (items : List Item) : List Item :=
  pairs.foldl (fun items pair => items.map fun item => if item = pair.1 then pair.2 else item) items

variable {pairs : List (Item × Item)} {item : Item}

theorem substitute_cons (pair : Item × Item) (pairs : List (Item × Item)) (item : Item) :
    substitute (pair :: pairs) item = if item = pair.1 then pair.2 else substitute pairs item := by
  rw [substitute, List.lookup_cons]
  by_cases here : item = pair.1
  · rw [if_pos here, beq_iff_eq.mpr here]
    rfl
  · rw [if_neg here, beq_eq_false_iff_ne.mpr here]
    rfl

/-- An item that no replacement names stays. -/
theorem substitute_of_notMem (unnamed : item ∉ pairs.map Prod.fst) :
    substitute pairs item = item := by
  induction pairs with
  | nil => rfl
  | cons pair pairs inductionHypothesis =>
    rw [List.map_cons, List.mem_cons, not_or] at unnamed
    rw [substitute_cons, if_neg unnamed.1, inductionHypothesis unnamed.2]

/-- Of replacements for different items, each is made. -/
theorem substitute_of_mem (distinct : (pairs.map Prod.fst).Nodup) {other : Item}
    (member : (item, other) ∈ pairs) : substitute pairs item = other := by
  induction pairs with
  | nil => exact absurd member List.not_mem_nil
  | cons pair pairs inductionHypothesis =>
    rw [List.map_cons, List.nodup_cons] at distinct
    rw [substitute_cons]
    rcases List.mem_cons.mp member with rfl | later
    · exact if_pos rfl
    · have different : item ≠ pair.1 :=
        ne_of_mem_of_not_mem (List.mem_map_of_mem later) distinct.1
      rw [if_neg different]
      exact inductionHypothesis distinct.2 later

/-- Replacements in turn come to the same as all at once when none of them puts in an item that a
later one takes out. -/
theorem replaceInTurn_eq_map (apart : pairs.Pairwise fun earlier later => earlier.2 ≠ later.1) :
    ∀ items, replaceInTurn pairs items = items.map (substitute pairs) := by
  induction pairs with
  | nil => exact fun items => (List.map_id items).symm
  | cons pair pairs inductionHypothesis =>
    intro items
    rw [List.pairwise_cons] at apart
    have settled : substitute pairs pair.2 = pair.2 := substitute_of_notMem fun named => by
      obtain ⟨later, member, same⟩ := List.mem_map.mp named
      exact apart.1 later member same.symm
    rw [replaceInTurn, List.foldl_cons]
    refine (inductionHypothesis apart.2 _).trans ?_
    rw [List.map_map]
    refine List.map_congr_left fun item _ => ?_
    rw [substitute_cons]
    show substitute pairs (if item = pair.1 then pair.2 else item) = _
    split
    · exact settled
    · rfl

end Library
