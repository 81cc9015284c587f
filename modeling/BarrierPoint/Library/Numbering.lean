/-
This file compares two numberings of the same entries: the keys the entries
carry, in increasing order from a start, and their positions counted from that
start. Reading the entries by position agrees with their keys exactly when the
keys leave no gap.
-/

import Mathlib.Data.List.Basic

namespace Library

variable {Value : Type}

/-- No key between the start and an entry is missing. -/
def Gapless (start : Nat) (entries : List (Nat × Value)) : Prop :=
  ∀ entry ∈ entries, ∀ key, start ≤ key → key < entry.1 → ∃ value, (key, value) ∈ entries

/-- Every entry carries its position as key. -/
def Numbered (start : Nat) (entries : List (Nat × Value)) : Prop :=
  ∀ (index : Nat) entry, entries[index]? = some entry → entry.1 = start + index

/-- The value read at the position of a key. -/
def readAt (start : Nat) (entries : List (Nat × Value)) (key : Nat) : Option Value :=
  if start ≤ key then entries[key - start]?.map Prod.snd else none

variable {start : Nat} {entries : List (Nat × Value)}

theorem gapless_of_numbered (numbered : Numbered start entries) : Gapless start entries := by
  intro entry member key from_ before
  obtain ⟨index, held⟩ := List.getElem?_of_mem member
  have position := numbered index entry held
  obtain ⟨inside, -⟩ := List.getElem?_eq_some_iff.mp held
  obtain ⟨earlier, heldEarlier⟩ : ∃ earlier, entries[key - start]? = some earlier :=
    ⟨_, List.getElem?_eq_getElem (show key - start < entries.length by omega)⟩
  have same := numbered _ _ heldEarlier
  refine ⟨earlier.2, ?_⟩
  rw [show key = earlier.1 by omega]
  exact List.mem_of_getElem? heldEarlier

/-- Increasing keys are the positions when no position below a key is missing among them. The
induction is on the position; an entry that carries the position can stand neither before it,
where the keys are smaller positions, nor behind it, where they are larger. -/
theorem numbered_of_positions (increasing : entries.Pairwise fun first second => first.1 < second.1)
    (above : ∀ entry ∈ entries, start ≤ entry.1)
    (present : ∀ (index : Nat) entry, entries[index]? = some entry → start + index < entry.1 →
      ∃ value, (start + index, value) ∈ entries) : Numbered start entries := by
  have ordered : ∀ (first second : Nat) entry other, entries[first]? = some entry →
      entries[second]? = some other → first < second → entry.1 < other.1 := by
    intro first second entry other held heldOther before
    obtain ⟨inside, rfl⟩ := List.getElem?_eq_some_iff.mp held
    obtain ⟨insideOther, rfl⟩ := List.getElem?_eq_some_iff.mp heldOther
    exact List.pairwise_iff_getElem.mp increasing first second inside insideOther before
  intro index
  induction index using Nat.strongRecOn with
  | ind index inductionHypothesis =>
    intro entry held
    have lower : start + index ≤ entry.1 := by
      cases index with
      | zero => exact above entry (List.mem_of_getElem? held)
      | succ index =>
        obtain ⟨inside, -⟩ := List.getElem?_eq_some_iff.mp held
        have before := List.getElem?_eq_getElem (show index < entries.length by omega)
        have position := inductionHypothesis index (Nat.lt_succ_self _) _ before
        have less := ordered index (index + 1) _ entry before held (Nat.lt_succ_self _)
        omega
    by_contra different
    obtain ⟨value, member⟩ := present index entry held (by omega)
    obtain ⟨other, heldOther⟩ := List.getElem?_of_mem member
    rcases Nat.lt_trichotomy other index with before | same | behind
    · have position := inductionHypothesis other before _ heldOther
      have keys : start + index = start + other := position
      omega
    · subst same
      obtain rfl := Option.some_inj.mp (held.symm.trans heldOther)
      exact different rfl
    · have less : entry.1 < start + index := ordered index other entry _ held heldOther behind
      omega

/-- Increasing keys without a gap are the positions. -/
theorem numbered_of_gapless (increasing : entries.Pairwise fun first second => first.1 < second.1)
    (above : ∀ entry ∈ entries, start ≤ entry.1) (gapless : Gapless start entries) :
    Numbered start entries :=
  numbered_of_positions increasing above fun index entry held below =>
    gapless entry (List.mem_of_getElem? held) (start + index) (Nat.le_add_right _ _) below

theorem readAt_iff_of_numbered (numbered : Numbered start entries) (key : Nat) (value : Value) :
    readAt start entries key = some value ↔ (key, value) ∈ entries := by
  unfold readAt
  constructor
  · intro read
    split at read
    · rename_i from_
      obtain ⟨entry, held, rfl⟩ := Option.map_eq_some_iff.mp read
      have position := numbered _ _ held
      rw [show key = entry.1 by omega]
      exact List.mem_of_getElem? held
    · cases read
  · intro member
    obtain ⟨index, held⟩ := List.getElem?_of_mem member
    have position : key = start + index := numbered _ _ held
    rw [if_pos (by omega), show key - start = index by omega, held]
    rfl

theorem readAt_nil (start key : Nat) : readAt start ([] : List (Nat × Value)) key = none := by
  unfold readAt
  split <;> rfl

/-- The entry at a position is read there. -/
theorem readAt_of_getElem? {index : Nat} {entry : Nat × Value}
    (held : entries[index]? = some entry) :
    readAt start entries (start + index) = some entry.2 := by
  rw [readAt, if_pos (Nat.le_add_right _ _), Nat.add_sub_cancel_left, held]
  rfl

/-- A value that is read is that of an entry. -/
theorem exists_of_readAt {key : Nat} {value : Value}
    (read : readAt start entries key = some value) : ∃ entry ∈ entries, entry.2 = value := by
  unfold readAt at read
  split at read
  · obtain ⟨entry, held, same⟩ := Option.map_eq_some_iff.mp read
    exact ⟨entry, List.mem_of_getElem? held, same⟩
  · cases read

/-- The position behind the entries is empty, and a further entry is read there. -/
theorem readAt_append (entry : Nat × Value) (key : Nat) :
    readAt start (entries ++ [entry]) key =
      if key = start + entries.length then some entry.2 else readAt start entries key := by
  unfold readAt
  by_cases from_ : start ≤ key
  · rw [if_pos from_, if_pos from_]
    rcases Nat.lt_trichotomy (key - start) entries.length with inside | behind | beyond
    · rw [if_neg (by omega), List.getElem?_append_left inside]
    · rw [if_pos (by omega), behind, List.getElem?_concat_length]
      rfl
    · rw [if_neg (by omega), List.getElem?_eq_none (by simp; omega),
        List.getElem?_eq_none (by omega)]
  · rw [if_neg from_, if_neg from_, if_neg (by omega)]

theorem readAt_length : readAt start entries (start + entries.length) = none := by
  rw [readAt, if_pos (Nat.le_add_right _ _), Nat.add_sub_cancel_left,
    List.getElem?_eq_none (Nat.le_refl _)]
  rfl

/-- Reading by position agrees with the keys exactly when the keys leave no gap. -/
theorem readAt_iff_gapless (increasing : entries.Pairwise fun first second => first.1 < second.1)
    (above : ∀ entry ∈ entries, start ≤ entry.1) :
    (∀ key value, readAt start entries key = some value ↔ (key, value) ∈ entries) ↔
      Gapless start entries := by
  constructor
  · intro agrees
    exact gapless_of_numbered (numbered_of_positions increasing above fun index entry held _ =>
      ⟨entry.2, (agrees _ _).mp (readAt_of_getElem? held)⟩)
  · exact fun gapless => readAt_iff_of_numbered (numbered_of_gapless increasing above gapless)

end Library
