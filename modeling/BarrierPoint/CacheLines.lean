/-
This file compares the tags of the reuse distance tracker with the cache lines
of the machine. The client clears the bits of an address that its line size
minus one has. That leaves the same tag to the addresses of one line, and to
no others, when the size is a power of two. The option takes every size.
-/

import BarrierPoint.Client
import BarrierPoint.Library.Masks

namespace BarrierPoint

open Library

namespace Config

/-- The tag that `add_address` looks up for an address. -/
def tagOf (config : Config) (address : Address) : Address := address &&& config.addressMask

/-- The cache line of an address. -/
def lineOf (config : Config) (address : Address) : Nat :=
  address.toNat / config.cacheLineSizeBytes.toNat

/-- Two addresses have the same tag exactly when they lie in the same cache line. -/
def TagsLines (config : Config) : Prop :=
  ∀ first second, config.tagOf first = config.tagOf second ↔
    config.lineOf first = config.lineOf second

variable {config : Config}

theorem tagOf_of_masked (masked : config.maskAddresses = true) (address : Address) :
    config.tagOf address = address &&& ~~~(config.cacheLineSizeBytes - 1) := by
  rw [tagOf, addressMask, if_pos masked, cacheLineMask]

theorem tagOf_of_unmasked (unmasked : config.maskAddresses = false) (address : Address) :
    config.tagOf address = address := by
  rw [tagOf, addressMask, if_neg (by rw [unmasked]; exact Bool.false_ne_true),
    BitVec.and_allOnes]

/-- A build that does not mask addresses tells every address from the others. -/
theorem tagsLines_iff_of_unmasked (unmasked : config.maskAddresses = false)
    (positive : config.cacheLineSizeBytes ≠ 0) :
    config.TagsLines ↔ config.cacheLineSizeBytes.toNat = 1 := by
  have nonzero : config.cacheLineSizeBytes.toNat ≠ 0 := fun zero =>
    positive (BitVec.eq_of_toNat_eq zero)
  simp only [TagsLines, tagOf_of_unmasked unmasked, lineOf]
  constructor
  · intro tags
    by_contra larger
    have apart : (0 : Address) ≠ 1 := by decide
    refine apart ((tags 0 1).mpr ?_)
    rw [show (0 : Address).toNat = 0 from rfl, show (1 : Address).toNat = 1 from rfl,
      Nat.zero_div, Nat.div_eq_of_lt (by omega)]
  · intro single first second
    rw [single, Nat.div_one, Nat.div_one]
    exact BitVec.toNat_inj.symm

/-- The tags are those of the cache lines exactly when the line size is a power of two; in a build
that does not mask addresses, exactly when it is one. -/
theorem tagsLines_iff (config : Config) (positive : config.cacheLineSizeBytes ≠ 0) :
    config.TagsLines ↔ ∃ exponent, config.cacheLineSizeBytes.toNat = 2 ^ exponent ∧
      (config.maskAddresses = false → exponent = 0) := by
  cases build : config.maskAddresses with
  | false =>
    rw [tagsLines_iff_of_unmasked build positive]
    constructor
    · exact fun single => ⟨0, single, fun _ => rfl⟩
    · rintro ⟨exponent, power, zero⟩
      rw [power, zero rfl, pow_zero]
  | true =>
    have size : (config.cacheLineSizeBytes - 1).toNat + 1 = config.cacheLineSizeBytes.toNat := by
      have nonzero : config.cacheLineSizeBytes.toNat ≠ 0 := fun zero =>
        positive (BitVec.eq_of_toNat_eq zero)
      have atLeast : (1 : Address) ≤ config.cacheLineSizeBytes :=
        BitVec.le_def.mpr (Nat.one_le_iff_ne_zero.mpr nonzero)
      rw [BitVec.toNat_sub_of_le atLeast]
      exact Nat.sub_add_cancel (Nat.one_le_iff_ne_zero.mpr nonzero)
    have blocks := @masksBlocks_iff 64 (config.cacheLineSizeBytes - 1)
    rw [size] at blocks
    simp only [TagsLines, tagOf_of_masked build, lineOf]
    rw [blocks]
    exact exists_congr fun exponent => (and_iff_left nofun).symm

/-- The default line size. -/
theorem tagsLines_default : (⟨64, false, true, true, ∅⟩ : Config).TagsLines ↔
    ∃ exponent, (64 : Address).toNat = 2 ^ exponent ∧ (true = false → exponent = 0) :=
  tagsLines_iff ⟨64, false, true, true, ∅⟩ (by decide)

/-- Lines of 96 bytes. The first line has the addresses 0 and 32, which get different tags. -/
theorem not_tagsLines_96 : ¬ (⟨96, false, true, true, ∅⟩ : Config).TagsLines := by
  intro tags
  have apart : (⟨96, false, true, true, ∅⟩ : Config).tagOf 0 ≠
      (⟨96, false, true, true, ∅⟩ : Config).tagOf 32 := by decide
  exact apart ((tags 0 32).mpr rfl)

end Config

/-- The tags are what `add_address` looks up, for the addresses of the buffer in turn. -/
theorem ThreadData.addAddress_eq_tags (config : Config) (data : ThreadData) :
    data.addAddress config.addressMask =
      (run addReference data (data.buffer.map config.tagOf)).map fun drained =>
        { drained with buffer := [] } := by
  rw [← run_map]
  exact (Option.map_eq_bind ..).symm

end BarrierPoint
