/-
This file relates clearing the low bits of a word to integer division. A word
that is masked with the complement of `low` keeps the bits that `low` does not
have. Two words agree after masking exactly when their quotients by `low + 1`
agree -- but only when `low + 1` is a power of two; for every other `low` the
two ways of cutting the words into blocks differ somewhere.
-/

import Mathlib.Data.Nat.Bitwise

namespace Library

variable {width : Nat} {low : BitVec width}

/-- Masked words are equal exactly when the words agree on the bits that are kept. -/
theorem and_not_eq_iff (first second : BitVec width) :
    first &&& ~~~low = second &&& ~~~low ↔ ∀ bit < width, low.getLsbD bit = false →
      first.getLsbD bit = second.getLsbD bit := by
  rw [BitVec.eq_of_getLsbD_eq_iff]
  refine forall₂_congr fun bit inside => ?_
  rw [BitVec.getLsbD_and, BitVec.getLsbD_and, BitVec.getLsbD_not, decide_eq_true inside]
  cases low.getLsbD bit <;> simp

/-- Quotients by a power of two are equal exactly when the words agree from a bit on. -/
theorem div_two_pow_eq_iff (first second : BitVec width) (exponent : Nat) :
    first.toNat / 2 ^ exponent = second.toNat / 2 ^ exponent ↔
      ∀ bit < width, exponent ≤ bit → first.getLsbD bit = second.getLsbD bit := by
  constructor
  · intro same bit _ above
    have read := congrArg (fun word => word.testBit (bit - exponent)) same
    simp only [Nat.testBit_div_two_pow, Nat.sub_add_cancel above] at read
    exact read
  · intro agree
    refine Nat.eq_of_testBit_eq fun bit => ?_
    rw [Nat.testBit_div_two_pow, Nat.testBit_div_two_pow, BitVec.testBit_toNat,
      BitVec.testBit_toNat]
    by_cases inside : bit + exponent < width
    · exact agree _ inside (Nat.le_add_left _ _)
    · rw [BitVec.getLsbD_of_ge _ _ (Nat.not_lt.mp inside),
        BitVec.getLsbD_of_ge _ _ (Nat.not_lt.mp inside)]

/-- A number whose low bits are all set. -/
theorem mod_two_pow_of_ones {number exponent : Nat}
    (ones : ∀ bit < exponent, number.testBit bit = true) :
    number % 2 ^ exponent = 2 ^ exponent - 1 := by
  refine Nat.eq_of_testBit_eq fun bit => ?_
  rw [Nat.testBit_mod_two_pow, Nat.testBit_two_pow_sub_one]
  by_cases lower : bit < exponent
  · rw [ones bit lower, decide_eq_true lower, Bool.true_and]
  · rw [decide_eq_false lower, Bool.false_and]

/-- When the mask clears every word up to `low`, `low` has a bit wherever a smaller power of two
leaves room for one. -/
theorem getLsbD_of_cleared
    (cleared : ∀ word : BitVec width, word.toNat ≤ low.toNat →
      word &&& ~~~low = BitVec.ofNat width 0 &&& ~~~low)
    {exponent bit : Nat} (atLeast : 2 ^ exponent ≤ low.toNat) (lower : bit < exponent) :
    low.getLsbD bit = true := by
  have fits := atLeast.trans_lt low.isLt
  have inside : bit < width :=
    lower.trans ((Nat.pow_lt_pow_iff_right Nat.one_lt_two).mp fits)
  have ones : (BitVec.ofNat width (2 ^ exponent - 1)).toNat = 2 ^ exponent - 1 := by
    rw [BitVec.toNat_ofNat, Nat.mod_eq_of_lt ((Nat.sub_le _ _).trans_lt fits)]
  have agree := (and_not_eq_iff _ _).mp (cleared (BitVec.ofNat width (2 ^ exponent - 1))
    (by rw [ones]; exact (Nat.sub_le _ _).trans atLeast)) bit inside
  have set : (BitVec.ofNat width (2 ^ exponent - 1)).getLsbD bit = true := by
    rw [← BitVec.testBit_toNat, ones, Nat.testBit_two_pow_sub_one, decide_eq_true lower]
  by_contra clear
  have same := agree (Bool.eq_false_of_not_eq_true clear)
  rw [set, BitVec.getLsbD_zero] at same
  cases same

/-- When the mask clears every word up to `low`, `low` is one less than a power of two. -/
theorem exists_two_pow_of_cleared
    (cleared : ∀ word : BitVec width, word.toNat ≤ low.toNat →
      word &&& ~~~low = BitVec.ofNat width 0 &&& ~~~low) :
    ∃ exponent, low.toNat + 1 = 2 ^ exponent := by
  rcases Nat.eq_zero_or_pos low.toNat with zero | positive
  · exact ⟨0, by rw [zero]; rfl⟩
  · have atLeast := Nat.log2_self_le positive.ne'
    have below : low.toNat < 2 ^ (low.toNat.log2 + 1) := Nat.lt_log2_self
    have full := mod_two_pow_of_ones fun bit lower => (BitVec.testBit_toNat low).trans
      (getLsbD_of_cleared cleared atLeast lower)
    have whole := Nat.div_add_mod low.toNat (2 ^ low.toNat.log2)
    have once : low.toNat / 2 ^ low.toNat.log2 = 1 :=
      Nat.div_eq_of_lt_le (by omega) (by rw [pow_succ] at below; omega)
    refine ⟨low.toNat.log2 + 1, ?_⟩
    rw [once, full] at whole
    rw [pow_succ]
    omega

/-- Masking cuts the words into the blocks of an integer division exactly when the blocks have a
power of two of words. -/
theorem masksBlocks_iff : (∀ first second : BitVec width,
      first &&& ~~~low = second &&& ~~~low ↔
        first.toNat / (low.toNat + 1) = second.toNat / (low.toNat + 1)) ↔
      ∃ exponent, low.toNat + 1 = 2 ^ exponent := by
  constructor
  · intro blocks
    refine exists_two_pow_of_cleared fun word small => (blocks word (BitVec.ofNat width 0)).mpr ?_
    rw [Nat.div_eq_of_lt (Nat.lt_succ_of_le small), BitVec.toNat_ofNat, Nat.zero_mod, Nat.zero_div]
  · rintro ⟨exponent, power⟩ first second
    have lowBits : ∀ bit, low.getLsbD bit = decide (bit < exponent) := by
      intro bit
      rw [← BitVec.testBit_toNat, show low.toNat = 2 ^ exponent - 1 by omega,
        Nat.testBit_two_pow_sub_one]
    rw [power, and_not_eq_iff, div_two_pow_eq_iff]
    refine forall₂_congr fun bit _ => ?_
    rw [lowBits, decide_eq_false_iff_not, Nat.not_lt]

end Library
