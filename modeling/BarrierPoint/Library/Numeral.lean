/-
This file develops texts as lists of characters: the numerals a program prints,
and the reading of numerals back from a text. An integer that was printed is
read as itself, and a number printed with a fixed number of decimals is read as
that number up to half a unit of the last decimal. Underscores between the
digits of a numeral are dropped.
-/

import BarrierPoint.Library.PyList
import Mathlib.Algebra.Group.Nat.Defs
import Mathlib.Data.List.DropRight
import Mathlib.Data.Rat.Defs
import Mathlib.Tactic.FieldSimp
import Mathlib.Tactic.Linarith
import Mathlib.Tactic.NormNum
import Mathlib.Tactic.Positivity
import Mathlib.Tactic.Ring

namespace Library

/-! ### Printing -/

/-- The content of a string or of a text file. -/
abbrev Text := List Char

/-- What holds of all characters of a text is decided along the text, and not for all characters
there are. -/
instance (priority := high) decidableForallMem {p : Char → Prop} [DecidablePred p] (text : Text) :
    Decidable (∀ c ∈ text, p c) := List.decidableBAll p text

/-- The decimal numeral of a number, without sign and without leading zeros. -/
def decimal (number : Nat) : Text := Nat.toDigits 10 number

/-- Pad a field with blanks on the left up to a width. -/
def padLeft (width : Nat) (field : Text) : Text :=
  List.replicate (width - field.length) ' ' ++ field

/-- The decimal numeral of a number with its last digits only, of which there are `digits`. -/
def lastDigits (digits number : Nat) : Text :=
  let numeral := decimal (number % 10 ^ digits)
  List.replicate (digits - numeral.length) '0' ++ numeral

/-- The decimal numeral of an integer. -/
def signedDecimal (number : Int) : Text :=
  if number < 0 then '-' :: decimal number.natAbs else decimal number.natAbs

/-- The nearest number to a quotient, the even one of two. -/
def roundedQuotient (numerator denominator : Nat) : Nat :=
  let quotient := numerator / denominator
  let remainder := numerator % denominator
  if 2 * remainder < denominator ∨ 2 * remainder = denominator ∧ quotient % 2 = 0 then quotient
  else quotient + 1

/-- A number in units of its last decimal digit, without its sign. -/
def roundedUnits (digits : Nat) (number : ℚ) : Nat :=
  roundedQuotient (number.num.natAbs * 10 ^ digits) number.den

/-- The format `{:.4f}` for four digits: a number with a fixed number of decimals, rounded to the
nearest. -/
def fixedPoint (digits : Nat) (number : ℚ) : Text :=
  let units := roundedUnits digits number
  (if number < 0 then ['-'] else []) ++ decimal (units / 10 ^ digits) ++
    '.' :: lastDigits digits units

/-! ### Reading -/

/-- The blanks of `str.isspace`, by their code points. -/
def spaces : List Nat :=
  [9, 10, 11, 12, 13, 28, 29, 30, 31, 32, 133, 160, 5760, 8192, 8193, 8194, 8195, 8196, 8197, 8198,
    8199, 8200, 8201, 8202, 8232, 8233, 8239, 8287, 12288]

def isSpace (c : Char) : Bool := spaces.contains c.toNat

/-- `str.strip()`. -/
def strip (text : Text) : Text := (text.dropWhile isSpace).rdropWhile isSpace

/-- An underscore may stand between two digits of a numeral and is dropped. The first argument says
whether a digit comes before the text. -/
def dropUnderscores : Bool → Text → Except PyError Text
  | _, [] => .ok []
  | digit, c :: text =>
      if c = '_' then
        if digit ∧ text.head?.any Char.isDigit then dropUnderscores false text
        else .error .valueError
      else do return c :: (← dropUnderscores c.isDigit text)

/-- The number a numeral without sign stands for. -/
def parseNat (text : Text) : Except PyError Nat :=
  if text ≠ [] ∧ ∀ c ∈ text, c.isDigit then .ok (Nat.ofDigitChars 10 text 0) else .error .valueError

/-- A numeral without sign that may have decimals. -/
def parseDecimal (text : Text) : Except PyError ℚ :=
  let whole := text.takeWhile (· ≠ '.')
  let decimals := (text.dropWhile (· ≠ '.')).drop 1
  if whole ++ decimals ≠ [] ∧ ∀ c ∈ whole ++ decimals, c.isDigit then
    .ok (Nat.ofDigitChars 10 whole 0 + Nat.ofDigitChars 10 decimals 0 / 10 ^ decimals.length)
  else .error .valueError

/-- A numeral behind an optional sign. -/
def parseSigned {Value : Type} [Neg Value] (parse : Text → Except PyError Value) :
    Text → Except PyError Value
  | '-' :: numeral => do return -(← parse numeral)
  | '+' :: numeral => parse numeral
  | numeral => parse numeral

/-- `int(text)`. -/
def parseInt (text : Text) : Except PyError Int := do
  let numeral ← dropUnderscores false (strip text)
  parseSigned (fun numeral => do return ((← parseNat numeral : Nat) : Int)) numeral

/-- `float(text)` of a numeral without exponent, with exact arithmetic. -/
def parseFloat (text : Text) : Except PyError ℚ := do
  let numeral ← dropUnderscores false (strip text)
  parseSigned parseDecimal numeral

/-! ### Blanks -/

/-- Blanks behind a text without blanks are cut off. -/
theorem strip_blanks {text : Text} (filled : ∀ c ∈ text, isSpace c = false)
    (nonempty : text ≠ []) (blanks : Text) (blank : ∀ c ∈ blanks, isSpace c = true) :
    strip (text ++ blanks) = text := by
  have front : (text ++ blanks).dropWhile isSpace = text ++ blanks := by
    obtain ⟨c, rest, rfl⟩ := List.exists_cons_of_ne_nil nonempty
    rw [List.cons_append, List.dropWhile_cons_of_neg]
    rw [filled c List.mem_cons_self]
    exact Bool.false_ne_true
  rw [strip, front]
  clear front
  induction blanks using List.reverseRecOn with
  | nil =>
    rw [List.append_nil, List.rdropWhile_eq_self_iff]
    intro filledText
    rw [filled _ (List.getLast_mem filledText)]
    exact Bool.false_ne_true
  | append_singleton blanks c inductionHypothesis =>
    rw [← List.append_assoc, List.rdropWhile_concat_pos _ _ _ (blank c (by simp))]
    exact inductionHypothesis fun c member => blank c (List.mem_append_left _ member)

theorem strip_eq {text : Text} (filled : ∀ c ∈ text, isSpace c = false) :
    strip text = text := by
  cases text with
  | nil => rfl
  | cons c text =>
    have plain := strip_blanks filled (List.cons_ne_nil c text) [] nofun
    rw [List.append_nil] at plain
    exact plain

theorem strip_newline {text : Text} (filled : ∀ c ∈ text, isSpace c = false)
    (nonempty : text ≠ []) : strip (text ++ ['\n']) = text :=
  strip_blanks filled nonempty ['\n'] (by decide)

theorem not_isSpace_of_isDigit {c : Char} (digit : c.isDigit) : isSpace c = false := by
  simp only [Char.isDigit, Bool.and_eq_true, decide_eq_true_eq, UInt32.le_iff_toNat_le] at digit
  have above : 48 ≤ c.toNat := digit.1
  have below : c.toNat ≤ 57 := digit.2
  rw [isSpace, List.contains_eq_mem, decide_eq_false_iff_not]
  simp only [spaces, List.mem_cons, List.not_mem_nil, or_false]
  omega

/-- Without underscores a numeral stays as it is. -/
theorem dropUnderscores_eq {text : Text} (plain : '_' ∉ text) :
    ∀ digit, dropUnderscores digit text = .ok text := by
  induction text with
  | nil => exact fun _ => rfl
  | cons c text inductionHypothesis =>
    intro digit
    rw [List.mem_cons, not_or] at plain
    rw [dropUnderscores, if_neg (Ne.symm plain.1), inductionHypothesis plain.2]
    rfl

/-! ### Integers -/

theorem isDigit_of_mem_decimal {number : Nat} {c : Char} (member : c ∈ decimal number) :
    c.isDigit := Nat.isDigit_of_mem_toDigits (by decide) (by decide) member

theorem decimal_ne_nil (number : Nat) : decimal number ≠ [] := Nat.toDigits_ne_nil

theorem parseNat_decimal (number : Nat) : parseNat (decimal number) = .ok number := by
  rw [parseNat, if_pos ⟨decimal_ne_nil number, fun _ => isDigit_of_mem_decimal⟩]
  exact congrArg Except.ok Nat.ofDigitChars_ten_toDigits

/-- A numeral that starts with a digit has no sign. -/
theorem decimal_inj {first second : Nat} : decimal first = decimal second ↔ first = second := by
  refine ⟨fun same => ?_, congrArg decimal⟩
  have read := congrArg parseNat same
  rw [parseNat_decimal, parseNat_decimal] at read
  exact Except.ok.inj read

theorem parseSigned_of_isDigit {Value : Type} [Neg Value] (parse : Text → Except PyError Value)
    {text : Text} (unsigned : ∀ c ∈ text.head?, c.isDigit) :
    parseSigned parse text = parse text := by
  unfold parseSigned
  split
  · exact absurd (unsigned '-' rfl) (by decide)
  · exact absurd (unsigned '+' rfl) (by decide)
  · rfl

theorem isDigit_head?_decimal (number : Nat) : ∀ c ∈ (decimal number).head?, c.isDigit :=
  fun _ member => isDigit_of_mem_decimal (List.mem_of_mem_head? member)

theorem parseSigned_minus {Value : Type} [Neg Value] {parse : Text → Except PyError Value}
    {numeral : Text} {value : Value} (read : parse numeral = .ok value) :
    parseSigned parse ('-' :: numeral) = .ok (-value) := bind_of_eq_ok read _

/-- Without blanks and underscores a text is read as a numeral as it is. -/
theorem parseInt_eq {text : Text} (filled : ∀ c ∈ text, isSpace c = false) (plain : '_' ∉ text) :
    parseInt text =
      parseSigned (fun numeral => do return ((← parseNat numeral : Nat) : Int)) text := by
  rw [parseInt, strip_eq filled, bind_of_eq_ok (dropUnderscores_eq plain false)]

theorem parseFloat_eq {text : Text} (filled : ∀ c ∈ text, isSpace c = false) (plain : '_' ∉ text) :
    parseFloat text = parseSigned parseDecimal text := by
  rw [parseFloat, strip_eq filled, bind_of_eq_ok (dropUnderscores_eq plain false)]

theorem underscore_notMem_decimal (number : Nat) : '_' ∉ decimal number :=
  fun member => absurd (isDigit_of_mem_decimal member) (by decide)

/-- A printed integer is read as itself. -/
theorem parseInt_signedDecimal (number : Int) : parseInt (signedDecimal number) = .ok number := by
  have digits : ∀ c ∈ decimal number.natAbs, isSpace c = false :=
    fun c member => not_isSpace_of_isDigit (isDigit_of_mem_decimal member)
  have read : (fun numeral => do return ((← parseNat numeral : Nat) : Int) :
      Text → Except PyError Int) (decimal number.natAbs) = .ok (number.natAbs : Int) := by
    show (parseNat (decimal number.natAbs) >>= _) = _
    rw [parseNat_decimal]
    rfl
  unfold signedDecimal
  split
  · rename_i negative
    have plain : '_' ∉ '-' :: decimal number.natAbs :=
      List.not_mem_cons_of_ne_of_not_mem (by decide) (underscore_notMem_decimal _)
    rw [parseInt_eq (List.forall_mem_cons.mpr ⟨by decide, digits⟩) plain, parseSigned_minus read]
    congr 1
    omega
  · rename_i nonneg
    rw [parseInt_eq digits (underscore_notMem_decimal _),
      parseSigned_of_isDigit _ (isDigit_head?_decimal _)]
    refine read.trans ?_
    congr 1
    omega

theorem not_isSpace_signedDecimal (number : Int) :
    ∀ c ∈ signedDecimal number, isSpace c = false := by
  have digits : ∀ c ∈ decimal number.natAbs, isSpace c = false :=
    fun c member => not_isSpace_of_isDigit (isDigit_of_mem_decimal member)
  unfold signedDecimal
  split
  · exact List.forall_mem_cons.mpr ⟨by decide, digits⟩
  · exact digits

/-! ### Decimals -/

/-- What a number printed with a fixed number of decimals is read as. -/
def rounded (digits : Nat) (number : ℚ) : ℚ :=
  (if number < 0 then -1 else 1) * (roundedUnits digits number / 10 ^ digits)

theorem isDigit_of_mem_lastDigits {digits number : Nat} {c : Char}
    (member : c ∈ lastDigits digits number) : c.isDigit := by
  rcases List.mem_append.mp member with zero | digit
  · rw [List.eq_of_mem_replicate zero]
    decide
  · exact isDigit_of_mem_decimal digit

theorem length_lastDigits {digits : Nat} (some : 0 < digits) (number : Nat) :
    (lastDigits digits number).length = digits := by
  have short : (decimal (number % 10 ^ digits)).length ≤ digits :=
    (Nat.length_toDigits_le_iff (by decide) some).mpr (Nat.mod_lt _ (by positivity))
  rw [lastDigits, List.length_append, List.length_replicate]
  omega

theorem ofDigitChars_lastDigits (digits number : Nat) :
    Nat.ofDigitChars 10 (lastDigits digits number) 0 = number % 10 ^ digits := by
  rw [lastDigits, Nat.ofDigitChars_append, Nat.ofDigitChars_replicate_zero, Nat.mul_zero]
  exact Nat.ofDigitChars_ten_toDigits

theorem ne_point_of_mem_decimal (number : Nat) :
    ∀ c ∈ decimal number, decide (c ≠ '.') = true := by
  intro c member
  refine decide_eq_true fun point => ?_
  have digit := isDigit_of_mem_decimal member
  rw [point] at digit
  exact absurd digit (by decide)

/-- A printed integer is read as itself where decimals are allowed, too. -/
theorem parseFloat_decimal (number : Nat) : parseFloat (decimal number) = .ok (number : ℚ) := by
  have noPoint := ne_point_of_mem_decimal number
  have whole : (decimal number).takeWhile (· ≠ '.') = decimal number :=
    List.takeWhile_eq_self_iff.mpr noPoint
  have rest : (decimal number).dropWhile (· ≠ '.') = [] := List.dropWhile_eq_nil_iff.mpr noPoint
  have filled : decimal number ++ [] ≠ [] := List.append_ne_nil_of_left_ne_nil (decimal_ne_nil _) _
  have isDigits : ∀ c ∈ decimal number ++ [], c.isDigit := by
    rw [List.append_nil]
    exact fun c => isDigit_of_mem_decimal
  rw [parseFloat_eq (fun c member => not_isSpace_of_isDigit (isDigit_of_mem_decimal member))
      (underscore_notMem_decimal number),
    parseSigned_of_isDigit _ (isDigit_head?_decimal number), parseDecimal, whole, rest, List.drop_nil,
    if_pos ⟨filled, isDigits⟩]
  congr 1
  have read : Nat.ofDigitChars 10 (decimal number) 0 = number := Nat.ofDigitChars_ten_toDigits
  rw [read]
  simp

theorem parseDecimal_units {digits : Nat} (some : 0 < digits) (units : Nat) :
    parseDecimal (decimal (units / 10 ^ digits) ++ '.' :: lastDigits digits units) =
      .ok (units / 10 ^ digits) := by
  have noPoint := ne_point_of_mem_decimal (units / 10 ^ digits)
  have whole : (decimal (units / 10 ^ digits) ++ '.' :: lastDigits digits units).takeWhile
      (· ≠ '.') = decimal (units / 10 ^ digits) := by
    rw [List.takeWhile_append_of_pos noPoint, List.takeWhile_cons_of_neg (by decide),
      List.append_nil]
  have rest : (decimal (units / 10 ^ digits) ++ '.' :: lastDigits digits units).dropWhile
      (· ≠ '.') = '.' :: lastDigits digits units := by
    rw [List.dropWhile_append_of_pos noPoint, List.dropWhile_cons_of_neg (by decide)]
  have isDigits : ∀ c ∈ decimal (units / 10 ^ digits) ++ lastDigits digits units, c.isDigit := by
    intro c member
    rcases List.mem_append.mp member with front | back
    · exact isDigit_of_mem_decimal front
    · exact isDigit_of_mem_lastDigits back
  have filled : decimal (units / 10 ^ digits) ++ lastDigits digits units ≠ [] :=
    List.append_ne_nil_of_left_ne_nil (decimal_ne_nil _) _
  rw [parseDecimal, whole, rest, List.drop_one, List.tail_cons, if_pos ⟨filled, isDigits⟩,
    ofDigitChars_lastDigits, length_lastDigits some]
  congr 1
  have wholeRead : Nat.ofDigitChars 10 (decimal (units / 10 ^ digits)) 0 = units / 10 ^ digits :=
    Nat.ofDigitChars_ten_toDigits
  have parts : (units : ℚ) = 10 ^ digits * (units / 10 ^ digits : Nat) + (units % 10 ^ digits : Nat) := by
    exact_mod_cast (Nat.div_add_mod units (10 ^ digits)).symm
  rw [wholeRead]
  have scale : (10 : ℚ) ^ digits ≠ 0 := by positivity
  rw [eq_div_iff scale, add_mul, div_mul_cancel₀ _ scale]
  linarith

theorem fixedPoint_chars (digits : Nat) (number : ℚ) :
    ∀ c ∈ fixedPoint digits number, c = '-' ∨ c = '.' ∨ c.isDigit = true := by
  intro c member
  simp only [fixedPoint, List.mem_append, List.mem_cons] at member
  rcases member with (sign | front) | point | back
  · split at sign
    · exact .inl (List.mem_singleton.mp sign)
    · cases sign
  · exact .inr (.inr (isDigit_of_mem_decimal front))
  · exact .inr (.inl point)
  · exact .inr (.inr (isDigit_of_mem_lastDigits back))

theorem not_isSpace_fixedPoint (digits : Nat) (number : ℚ) :
    ∀ c ∈ fixedPoint digits number, isSpace c = false := by
  intro c member
  rcases fixedPoint_chars digits number c member with rfl | rfl | digit
  · decide
  · decide
  · exact not_isSpace_of_isDigit digit

/-- A number printed with a fixed number of decimals is read back rounded. -/
theorem parseFloat_fixedPoint {digits : Nat} (some : 0 < digits) (number : ℚ) :
    parseFloat (fixedPoint digits number) = .ok (rounded digits number) := by
  have units := parseDecimal_units some (roundedUnits digits number)
  have plain : '_' ∉ fixedPoint digits number := fun member =>
    absurd (fixedPoint_chars digits number _ member) (by decide)
  rw [parseFloat_eq (not_isSpace_fixedPoint digits number) plain, fixedPoint, rounded]
  by_cases negative : number < 0
  · rw [if_pos negative, if_pos negative, List.append_assoc]
    refine (parseSigned_minus units).trans ?_
    rw [neg_one_mul]
  · rw [if_neg negative, if_neg negative, List.nil_append, one_mul, parseSigned_of_isDigit, units]
    intro c member
    refine isDigit_head?_decimal (roundedUnits digits number / 10 ^ digits) c ?_
    rwa [List.head?_append_of_ne_nil _ (decimal_ne_nil _)] at member

theorem fixedPoint_ne_nil (digits : Nat) (number : ℚ) : fixedPoint digits number ≠ [] := by
  rw [fixedPoint]
  exact List.append_ne_nil_of_right_ne_nil _ nofun

/-- The nearest number to a quotient is at most half a unit away from it. -/
theorem abs_roundedQuotient_sub_le (numerator : Nat) {denominator : Nat}
    (positive : 0 < denominator) :
    |(roundedQuotient numerator denominator : ℚ) - numerator / denominator| ≤ 1 / 2 := by
  have scale : (0 : ℚ) < denominator := by exact_mod_cast positive
  have parts : (numerator : ℚ) =
      denominator * (numerator / denominator : Nat) + (numerator % denominator : Nat) := by
    exact_mod_cast (Nat.div_add_mod numerator denominator).symm
  have quotient : (numerator : ℚ) / denominator =
      (numerator / denominator : Nat) + (numerator % denominator : Nat) / denominator := by
    rw [parts]
    field_simp
  have less : ((numerator % denominator : Nat) : ℚ) < denominator := by
    exact_mod_cast Nat.mod_lt numerator positive
  have nonneg : (0 : ℚ) ≤ (numerator % denominator : Nat) / denominator := by positivity
  have below : ((numerator % denominator : Nat) : ℚ) / denominator ≤ 1 :=
    (div_le_one scale).mpr less.le
  simp only [roundedQuotient]
  split
  · rename_i down
    have half : ((numerator % denominator : Nat) : ℚ) / denominator ≤ 1 / 2 := by
      rw [div_le_iff₀ scale]
      have twice : 2 * (numerator % denominator) ≤ denominator := by omega
      have twiceCast : 2 * ((numerator % denominator : Nat) : ℚ) ≤ denominator := by
        exact_mod_cast twice
      linarith
    rw [quotient, abs_le]
    constructor <;> linarith
  · rename_i up
    have half : 1 / 2 ≤ ((numerator % denominator : Nat) : ℚ) / denominator := by
      rw [le_div_iff₀ scale]
      have twice : denominator ≤ 2 * (numerator % denominator) := by omega
      have twiceCast : (denominator : ℚ) ≤ 2 * ((numerator % denominator : Nat) : ℚ) := by
        exact_mod_cast twice
      linarith
    rw [quotient, Nat.cast_succ, abs_le]
    constructor <;> linarith

/-- Rounding moves a number by half a unit of its last decimal at most. -/
theorem abs_rounded_sub_le (digits : Nat) (number : ℚ) :
    |rounded digits number - number| ≤ 1 / (2 * 10 ^ digits) := by
  have scale : (0 : ℚ) < 10 ^ digits := by positivity
  have nearest := abs_roundedQuotient_sub_le (number.num.natAbs * 10 ^ digits) number.pos
  have size : ((number.num.natAbs * 10 ^ digits : Nat) : ℚ) / number.den =
      |number| * 10 ^ digits := by
    rw [Rat.abs_def, Rat.divInt_eq_div, Nat.cast_mul, Nat.cast_pow, Nat.cast_ofNat, Int.cast_natCast,
      Int.cast_natCast]
    ring
  rw [size, ← roundedUnits] at nearest
  have unsigned : abs ((roundedUnits digits number : ℚ) / 10 ^ digits - |number|) ≤
      1 / (2 * 10 ^ digits) := by
    have scaled : (roundedUnits digits number : ℚ) / 10 ^ digits - |number| =
        ((roundedUnits digits number : ℚ) - |number| * 10 ^ digits) / 10 ^ digits := by
      field_simp
    rw [scaled, abs_div, abs_of_pos scale, div_le_iff₀ scale]
    have half : 1 / (2 * 10 ^ digits) * 10 ^ digits = (1 / 2 : ℚ) := by field_simp
    rw [half]
    exact nearest
  unfold rounded
  split
  · rename_i negative
    rw [abs_of_neg negative] at unsigned
    have opposite : -1 * ((roundedUnits digits number : ℚ) / 10 ^ digits) - number =
        -((roundedUnits digits number : ℚ) / 10 ^ digits - -number) := by ring
    rw [opposite, abs_neg]
    exact unsigned
  · rename_i nonneg
    rw [abs_of_nonneg (not_lt.mp nonneg)] at unsigned
    rw [one_mul]
    exact unsigned

end Library
