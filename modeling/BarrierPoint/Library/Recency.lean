/-
This file develops the recency order of a history: the items seen so far, each
once, the most recently used first. It is the abstract content of every
least-recently-used stack. The two facts a client needs are that one more
access moves the item to the front, and that the position of an item is the
number of distinct other items used since its previous access -- its stack
distance. Where the items carry time stamps, the latest in front, a comparison
of two stamps is a comparison of two places.
-/

import Mathlib.Data.List.Dedup
import Mathlib.Data.List.Nodup
import Mathlib.Logic.Function.Basic
import Mathlib.Order.Lattice

namespace Library

variable {Item : Type}

section Recency

variable [DecidableEq Item]

/-! ### The recency order -/

/-- The items of a history, each once, most recently used first. The history itself is
listed most recent first. -/
def recency : List Item → List Item
  | [] => []
  | item :: history => item :: (recency history).erase item

theorem mem_recency (history : List Item) (item : Item) :
    item ∈ recency history ↔ item ∈ history := by
  induction history with
  | nil => rfl
  | cons head rest inductionHypothesis =>
    by_cases same : item = head
    · simp [recency, same]
    · simp [recency, same, List.mem_erase_of_ne same, inductionHypothesis]

theorem nodup_recency (history : List Item) : (recency history).Nodup := by
  induction history with
  | nil => exact List.nodup_nil
  | cons head rest inductionHypothesis =>
    exact List.nodup_cons.mpr
      ⟨inductionHypothesis.not_mem_erase, inductionHypothesis.erase head⟩

/-- A first access puts the item in front of an unchanged order. -/
theorem recency_cons_of_notMem {history : List Item} {item : Item} (fresh : item ∉ history) :
    recency (item :: history) = item :: recency history := by
  rw [recency, List.erase_of_not_mem (by rwa [mem_recency])]

/-- A repeated access moves the item from its position to the front. -/
theorem recency_cons_of_getElem? {history : List Item} {item : Item} {position : Nat}
    (found : (recency history)[position]? = some item) :
    recency (item :: history) = item :: (recency history).eraseIdx position := by
  obtain ⟨bound, value⟩ := List.getElem?_eq_some_iff.mp found
  rw [recency, ← value, (nodup_recency history).erase_getElem]

/-! ### The stack distance -/

/-- The number of distinct other items used since the latest use of `item`. -/
def usedSince (history : List Item) (item : Item) : Nat :=
  (history.takeWhile (· ≠ item)).dedup.length

theorem idxOf_eq_length_takeWhile (items : List Item) (item : Item) :
    items.idxOf item = (items.takeWhile (· ≠ item)).length := by
  induction items with
  | nil => rfl
  | cons head rest inductionHypothesis =>
    by_cases same : head = item
    · simp [same]
    · simp [List.idxOf_cons_ne _ same, same, inductionHypothesis]

/-- Erasing another item does not change what stands before `item`. -/
theorem takeWhile_erase_of_ne (items : List Item) {item other : Item} (different : other ≠ item) :
    (items.erase other).takeWhile (· ≠ item) = (items.takeWhile (· ≠ item)).erase other := by
  induction items with
  | nil => rfl
  | cons head rest inductionHypothesis =>
    by_cases same : head = other
    · subst same
      simp [different]
    · by_cases stop : head = item
      · subst stop
        simp [List.erase_cons_tail, same]
      · simp_all [List.erase_cons_tail]

/-- The items in front of `item` in the recency order are those used since its latest use. -/
theorem mem_takeWhile_recency (history : List Item) (item other : Item) :
    other ∈ (recency history).takeWhile (· ≠ item) ↔ other ∈ history.takeWhile (· ≠ item) := by
  induction history with
  | nil => rfl
  | cons head rest inductionHypothesis =>
    by_cases stop : head = item
    · subst stop
      simp [recency]
    · rw [recency, List.takeWhile_cons_of_pos (by simpa using stop),
        List.takeWhile_cons_of_pos (by simpa using stop), takeWhile_erase_of_ne _ stop,
        List.mem_cons, List.mem_cons, ← inductionHypothesis]
      by_cases same : other = head
      · simp [same]
      · simp only [same, false_or]
        exact List.mem_erase_of_ne same

/-- The position of an item in the recency order is its stack distance. -/
theorem idxOf_recency (history : List Item) (item : Item) :
    (recency history).idxOf item = usedSince history item := by
  rw [idxOf_eq_length_takeWhile, usedSince]
  refine List.Perm.length_eq ((List.perm_ext_iff_of_nodup ?_ (List.nodup_dedup _)).mpr ?_)
  · exact (nodup_recency history).sublist (List.takeWhile_sublist _)
  · intro other
    rw [List.mem_dedup]
    exact mem_takeWhile_recency history item other

/-- An item at a position of the recency order has that position as its stack distance. -/
theorem usedSince_of_getElem? {history : List Item} {item : Item} {position : Nat}
    (found : (recency history)[position]? = some item) :
    usedSince history item = position := by
  obtain ⟨bound, value⟩ := List.getElem?_eq_some_iff.mp found
  rw [← idxOf_recency, ← value]
  exact (nodup_recency history).idxOf_getElem position bound

end Recency

/-! ### Time stamps -/

variable {Time : Type} [LinearOrder Time]

/-- The stamps of the items fall along the sequence, and all of them are before `now`. -/
structure FallingStamps (stamp : Item → Time) (now : Time) (items : List Item) : Prop where
  past : ∀ item ∈ items, stamp item < now
  falling : items.Pairwise fun newer older => stamp older < stamp newer

namespace FallingStamps

variable {stamp : Item → Time} {now : Time} {items : List Item}

theorem nil (stamp : Item → Time) (now : Time) : FallingStamps stamp now [] where
  past := nofun
  falling := List.Pairwise.nil

theorem sublist (stamps : FallingStamps stamp now items) {rest : List Item}
    (part : rest.Sublist items) : FallingStamps stamp now rest where
  past := fun item member => stamps.past item (part.mem member)
  falling := stamps.falling.sublist part

/-- An item that gets the present time as its stamp comes in front of the others. -/
theorem renew [DecidableEq Item] (stamps : FallingStamps stamp now items) {item : Item}
    (fresh : item ∉ items) {next : Time} (later : now < next) :
    FallingStamps (Function.update stamp item now) next (item :: items) := by
  have kept : ∀ other ∈ items, Function.update stamp item now other = stamp other :=
    fun other member => Function.update_of_ne (ne_of_mem_of_not_mem member fresh) ..
  constructor
  · intro other member
    rcases List.mem_cons.mp member with rfl | member
    · rwa [Function.update_self]
    · rw [kept other member]
      exact (stamps.past other member).trans later
  · refine List.pairwise_cons.mpr ⟨fun other member => ?_, ?_⟩
    · rw [Function.update_self, kept other member]
      exact stamps.past other member
    · refine stamps.falling.imp_of_mem fun {newer older} memberNewer memberOlder falls => ?_
      rwa [kept newer memberNewer, kept older memberOlder]

/-- The older of two stamps stands further back. -/
theorem lt_of_lt (stamps : FallingStamps stamp now items) {first second : Nat}
    {newer older : Item} (atFirst : items[first]? = some newer)
    (atSecond : items[second]? = some older) (before : first < second) :
    stamp older < stamp newer := by
  obtain ⟨firstBound, rfl⟩ := List.getElem?_eq_some_iff.mp atFirst
  obtain ⟨secondBound, rfl⟩ := List.getElem?_eq_some_iff.mp atSecond
  exact List.pairwise_iff_getElem.mp stamps.falling first second firstBound secondBound before

/-- Comparing the stamps of two items compares their places. -/
theorem lt_iff (stamps : FallingStamps stamp now items) {first second : Nat} {item other : Item}
    (atFirst : items[first]? = some item) (atSecond : items[second]? = some other) :
    stamp other < stamp item ↔ first < second := by
  constructor
  · intro older
    by_contra notBefore
    rcases Nat.lt_or_eq_of_le (Nat.not_lt.mp notBefore) with after | rfl
    · exact lt_asymm older (stamps.lt_of_lt atSecond atFirst after)
    · obtain rfl : item = other := Option.some_inj.mp (atFirst.symm.trans atSecond)
      exact lt_irrefl _ older
  · exact stamps.lt_of_lt atFirst atSecond

end FallingStamps

end Library
