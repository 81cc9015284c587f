/-
This file develops the numbers of the type `float` without rounding. Beside the
rational numbers there are two infinities and `nan`, for which every comparison
fails. The other numbers are in a linear order, so what a loop finds by
comparing numbers that are not `nan` is what it finds by comparing their places
in that order. A text may name such a number, or be a numeral with decimals and
a power of ten.
-/

import BarrierPoint.Library.Numeral
import Mathlib.Order.WithBot

namespace Library

/-- A number of the type `float`. -/
inductive PyFloat where
  | finite (value : ℚ)
  | infinite (negative : Bool)
  | nan
  deriving DecidableEq, Repr

namespace PyFloat

def neg : PyFloat → PyFloat
  | finite value => finite (-value)
  | infinite negative => infinite !negative
  | nan => nan

def add : PyFloat → PyFloat → PyFloat
  | finite first, finite second => finite (first + second)
  | infinite first, infinite second => if first = second then infinite first else nan
  | infinite first, finite _ => infinite first
  | finite _, infinite second => infinite second
  | nan, _ | _, nan => nan

/-- The product with a rational number. -/
def scale : PyFloat → ℚ → PyFloat
  | finite value, factor => finite (value * factor)
  | infinite negative, factor =>
      if factor = 0 then nan else infinite (negative != decide (factor < 0))
  | nan, _ => nan

/-- The place of a number among the others. -/
def rank : PyFloat → Option (WithBot (WithTop ℚ))
  | finite value => some ((value : WithTop ℚ) : WithBot (WithTop ℚ))
  | infinite true => some ⊥
  | infinite false => some ((⊤ : WithTop ℚ) : WithBot (WithTop ℚ))
  | nan => none

instance : Neg PyFloat := ⟨neg⟩

instance : Add PyFloat := ⟨add⟩

instance : HMul PyFloat ℚ PyFloat := ⟨scale⟩

instance : LT PyFloat := ⟨fun first second => ∃ a ∈ first.rank, ∃ b ∈ second.rank, a < b⟩

instance : LE PyFloat := ⟨fun first second => ∃ a ∈ first.rank, ∃ b ∈ second.rank, a ≤ b⟩

instance : DecidableLT PyFloat := fun first second =>
  inferInstanceAs (Decidable (∃ a ∈ first.rank, ∃ b ∈ second.rank, a < b))

instance : DecidableLE PyFloat := fun first second =>
  inferInstanceAs (Decidable (∃ a ∈ first.rank, ∃ b ∈ second.rank, a ≤ b))

/-- `max(first, second)`. -/
instance : Max PyFloat := ⟨fun first second => if first < second then second else first⟩

/-- The place of a number that is not `nan`. -/
def key (number : PyFloat) : WithBot (WithTop ℚ) := number.rank.getD ⊥

end PyFloat

/-! ### Reading -/

/-- A numeral without sign that may have decimals and a power of ten. -/
def parseExponent (numeral : Text) : Except PyError ℚ :=
  let mantissa := numeral.takeWhile fun c => c ≠ 'e' ∧ c ≠ 'E'
  match numeral.dropWhile fun c => c ≠ 'e' ∧ c ≠ 'E' with
  | [] => parseDecimal mantissa
  | _ :: exponent => do
    let number ← parseDecimal mantissa
    let power ← parseSigned (fun numeral => do return ((← parseNat numeral : Nat) : Int)) exponent
    return number * (10 : ℚ) ^ power

/-- A number without sign. The names are read in upper and lower case. -/
def parseReal (text : Text) : Except PyError PyFloat :=
  let name := text.map Char.toLower
  if name = "nan".toList then .ok .nan
  else if name = "inf".toList ∨ name = "infinity".toList then .ok (.infinite false)
  else do return .finite (← parseExponent text)

/-- `float(text)`. -/
def parseScientific (text : Text) : Except PyError PyFloat := do
  let numeral ← dropUnderscores false (strip text)
  parseSigned parseReal numeral

example : parseScientific "-1_0.5e-1\n".toList = .ok (.finite (-21 / 20)) ∧
    parseScientific "-Inf".toList = .ok (.infinite true) ∧
    parseScientific "1_".toList = .error .valueError := by decide +kernel

end Library
