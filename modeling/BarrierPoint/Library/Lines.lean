/-
This file develops texts that are read line by line: the lines of a file, lines
that consist of numbers between colons, and the pairs of every other item of a
list. Lines that were printed one after the other are read back one by one.
What a text is made of decides whether it contains a word, as long as the word
has no character that separates the parts.
-/

import BarrierPoint.Library.Numeral
import Mathlib.Data.List.Infix
import Mathlib.Tactic.Common

namespace Library

variable {Item : Type}

/-! ### The lines of a file -/

/-- The lines of a text file, each with its line break. -/
def fileLines : Text → List Text
  | [] => []
  | c :: text =>
      if c = '\n' then ['\n'] :: fileLines text
      else match fileLines text with
        | [] => [[c]]
        | line :: lines => (c :: line) :: lines

theorem fileLines_append {row : Text} (solid : '\n' ∉ row) (text : Text) :
    fileLines (row ++ '\n' :: text) = (row ++ ['\n']) :: fileLines text := by
  induction row with
  | nil => rw [List.nil_append, fileLines, if_pos rfl, List.nil_append]
  | cons c row inductionHypothesis =>
    rw [List.mem_cons, not_or] at solid
    rw [List.cons_append, fileLines, if_neg (Ne.symm solid.1), inductionHypothesis solid.2]
    rfl

/-- Rows that are printed one after the other are the lines of the file. -/
theorem fileLines_flatMap {Row : Type} (print : Row → Text) (rows : List Row)
    (solid : ∀ row ∈ rows, '\n' ∉ print row) :
    fileLines (rows.flatMap fun row => print row ++ ['\n']) =
      rows.map fun row => print row ++ ['\n'] := by
  induction rows with
  | nil => rfl
  | cons row rows inductionHypothesis =>
    rw [List.forall_mem_cons] at solid
    rw [List.flatMap_cons, List.append_assoc, List.singleton_append, fileLines_append solid.1,
      inductionHypothesis solid.2, List.map_cons]

/-! ### Every other item -/

/-- `items[::2]`. -/
def everyOther : List Item → List Item
  | [] => []
  | [item] => [item]
  | item :: _ :: items => item :: everyOther items

/-- `zip(items[::2], items[1::2])`. -/
def inPairs (items : List Item) : List (Item × Item) :=
  (everyOther items).zip (everyOther (items.drop 1))

theorem everyOther_flatMap (pairs : List (Item × Item)) :
    everyOther (pairs.flatMap fun pair => [pair.1, pair.2]) = pairs.map Prod.fst := by
  induction pairs with
  | nil => rfl
  | cons pair pairs inductionHypothesis => exact congrArg (pair.1 :: ·) inductionHypothesis

theorem everyOther_drop_flatMap (pairs : List (Item × Item)) :
    everyOther ((pairs.flatMap fun pair => [pair.1, pair.2]).drop 1) = pairs.map Prod.snd := by
  induction pairs with
  | nil => rfl
  | cons pair pairs inductionHypothesis =>
    refine Eq.trans ?_ (congrArg (pair.2 :: ·) inductionHypothesis)
    cases pairs with
    | nil => rfl
    | cons next pairs => rfl

theorem inPairs_flatMap (pairs : List (Item × Item)) :
    inPairs (pairs.flatMap fun pair => [pair.1, pair.2]) = pairs := by
  rw [inPairs, everyOther_flatMap, everyOther_drop_flatMap, ← List.unzip_fst, ← List.unzip_snd,
    List.zip_unzip]

/-- What a list of keys and values holds under a key is found there. -/
theorem lookup_eq_of_mem_iff {Key Value : Type} [BEq Key] [LawfulBEq Key]
    {entries : List (Key × Value)}
    {key : Key} {held : Option Value} (each : ∀ value, (key, value) ∈ entries ↔ held = some value) :
    entries.lookup key = held := by
  cases found : entries.lookup key with
  | none =>
    cases held with
    | none => rfl
    | some value =>
      have missing := List.lookup_eq_none_iff.mp found _ ((each value).mpr rfl)
      exact absurd missing (by simp)
  | some value =>
    obtain ⟨before, after, rfl, -⟩ := List.lookup_eq_some_iff.mp found
    exact ((each value).mp (by simp)).symm

/-! ### Fields with something between them -/

theorem notMem_intercalate {c : Char} {between : Text} (outside : c ∉ between) {fields : List Text}
    (each : ∀ field ∈ fields, c ∉ field) : c ∉ between.intercalate fields := by
  induction fields with
  | nil => exact List.not_mem_nil
  | cons field fields inductionHypothesis =>
    rw [List.forall_mem_cons] at each
    cases fields with
    | nil =>
      rw [List.intercalate_singleton]
      exact each.1
    | cons next fields =>
      rw [List.intercalate_cons_cons]
      intro member
      rcases List.mem_append.mp member with first | later
      · exact (List.mem_append.mp first).elim each.1 outside
      · exact inductionHypothesis each.2 later

/-- The text in front of the first of a character, and what is behind it. -/
theorem takeWhile_ne_append {c : Char} {before : Text} (outside : c ∉ before) (after : Text) :
    (before ++ c :: after).takeWhile (· ≠ c) = before ∧
      (before ++ c :: after).dropWhile (· ≠ c) = c :: after := by
  have passes : ∀ d ∈ before, decide (d ≠ c) = true :=
    fun d member => decide_eq_true (ne_of_mem_of_not_mem member outside)
  constructor
  · rw [List.takeWhile_append_of_pos passes, List.takeWhile_cons_of_neg (by simp), List.append_nil]
  · rw [List.dropWhile_append_of_pos passes, List.dropWhile_cons_of_neg (by simp)]

/-- A text is split in one way only at the last of a character. -/
theorem eq_of_append_cons {c : Char} {first second after rest : Text} (outside : c ∉ after)
    (apart : c ∉ rest) (same : first ++ c :: after = second ++ c :: rest) :
    first = second ∧ after = rest := by
  have turned : after.reverse ++ c :: first.reverse = rest.reverse ++ c :: second.reverse := by
    have reversed := congrArg List.reverse same
    simpa using reversed
  have split := takeWhile_ne_append (by simpa using outside : c ∉ after.reverse) first.reverse
  have other := takeWhile_ne_append (by simpa using apart : c ∉ rest.reverse) second.reverse
  rw [turned] at split
  constructor
  · exact List.reverse_injective (List.cons.inj (split.2.symm.trans other.2)).2
  · exact List.reverse_injective (split.1.symm.trans other.1)

/-! ### Numbers between colons -/

/-- The numbers of a line behind its first field, `list(map(int, line.split(':')[1:]))`. -/
def colonNumbers (line : Text) : Except PyError (List Int) :=
  ((line.splitOn ':').drop 1).mapM parseInt

/-- A line with a mark and pairs of numbers, each pair with a blank behind it. -/
def colonPairs (mark : Char) (pairs : List (Nat × Nat)) : Text :=
  mark :: pairs.flatMap fun pair => ':' :: decimal pair.1 ++ ':' :: decimal pair.2 ++ [' ']

/-- A number with blanks behind it is read as itself. -/
theorem parseInt_blanks (number : Nat) (blanks : Text) (blank : ∀ c ∈ blanks, isSpace c = true) :
    parseInt (decimal number ++ blanks) = .ok number := by
  have solid : ∀ c ∈ decimal number, isSpace c = false :=
    fun c member => not_isSpace_of_isDigit (isDigit_of_mem_decimal member)
  rw [parseInt, strip_blanks solid (decimal_ne_nil number) blanks blank,
    bind_of_eq_ok (dropUnderscores_eq (underscore_notMem_decimal number) false),
    parseSigned_of_isDigit _ (isDigit_head?_decimal _), parseNat_decimal]
  rfl

theorem parseInt_decimal (number : Nat) : parseInt (decimal number) = .ok number := by
  have plain := parseInt_blanks number [] nofun
  rw [List.append_nil] at plain
  exact plain

theorem notMem_decimal {c : Char} (noDigit : c.isDigit = false) (number : Nat) : c ∉ decimal number :=
  fun member => absurd (isDigit_of_mem_decimal member) (by rw [noDigit]; exact Bool.false_ne_true)

/-- The fields of pairs between colons are their numbers, with blanks behind some of them. -/
theorem splitOn_colonPairs (pairs : List (Nat × Nat)) : ∀ before : Text, ':' ∉ before →
    ∃ blanks fields, (∀ c ∈ blanks, isSpace c = true) ∧
      (before ++ ((pairs.flatMap fun pair => ':' :: decimal pair.1 ++ ':' :: decimal pair.2 ++ [' ']) ++
        ['\n'])).splitOn ':' = (before ++ blanks) :: fields ∧
      fields.mapM parseInt = .ok (pairs.flatMap fun pair => [(pair.1 : Int), (pair.2 : Int)]) := by
  induction pairs with
  | nil =>
    intro before solid
    refine ⟨['\n'], [], by decide, List.splitOn_eq_singleton ?_, rfl⟩
    intro member
    rcases List.mem_append.mp member with inside | last
    · exact solid inside
    · exact absurd (List.mem_singleton.mp last) (by decide)
  | cons pair pairs inductionHypothesis =>
    intro before solid
    have solidCount : ':' ∉ decimal pair.2 ++ [' '] := by
      intro member
      rcases List.mem_append.mp member with inside | last
      · exact notMem_decimal (by decide) _ inside
      · exact absurd (List.mem_singleton.mp last) (by decide)
    obtain ⟨blanks, fields, blank, split, read⟩ := inductionHypothesis _ solidCount
    refine ⟨[], decimal pair.1 :: (decimal pair.2 ++ [' '] ++ blanks) :: fields, nofun, ?_, ?_⟩
    · rw [List.append_nil, ← split, ← List.splitOn_append_cons_self_of_not_mem
        (notMem_decimal (by decide) pair.1), ← List.splitOn_append_cons_self_of_not_mem solid]
      simp only [List.flatMap_cons, List.append_assoc, List.cons_append]
    · have readCount : parseInt (decimal pair.2 ++ [' '] ++ blanks) = .ok (pair.2 : Int) := by
        rw [List.append_assoc]
        exact parseInt_blanks _ _ (List.forall_mem_cons.mpr ⟨by decide, blank⟩)
      rw [List.mapM_cons, parseInt_decimal, List.mapM_cons, readCount, read]
      rfl

/-- Pairs between colons are read as their numbers. -/
theorem colonNumbers_colonPairs {mark : Char} (named : mark ≠ ':') (pairs : List (Nat × Nat)) :
    colonNumbers (colonPairs mark pairs ++ ['\n']) =
      .ok (pairs.flatMap fun pair => [(pair.1 : Int), (pair.2 : Int)]) := by
  obtain ⟨blanks, fields, -, split, read⟩ := splitOn_colonPairs pairs [mark]
    fun member => named (List.mem_singleton.mp member).symm
  rw [colonNumbers, colonPairs, List.cons_append, ← List.singleton_append, split]
  exact read

/-- Numbers between commas are read as themselves. -/
theorem commaNumbers_intercalate (number : Nat) (numbers : List Nat) :
    (([','].intercalate ((number :: numbers).map decimal) ++ ['\n']).splitOn ',').mapM parseInt =
      .ok (List.map (fun number : Nat => (number : Int)) (number :: numbers)) := by
  induction numbers generalizing number with
  | nil =>
    have solid : ',' ∉ decimal number ++ ['\n'] := by
      intro member
      rcases List.mem_append.mp member with inside | last
      · exact notMem_decimal (by decide) _ inside
      · exact absurd (List.mem_singleton.mp last) (by decide)
    rw [List.map_singleton, List.intercalate_singleton, List.splitOn_eq_singleton solid,
      List.mapM_cons, parseInt_blanks number ['\n'] (by decide)]
    rfl
  | cons next numbers inductionHypothesis =>
    rw [List.map_cons, List.map_cons, List.intercalate_cons_cons, ← List.map_cons,
      List.append_assoc, List.append_assoc, List.singleton_append,
      List.splitOn_append_cons_self_of_not_mem (notMem_decimal (by decide) number),
      List.mapM_cons, inductionHypothesis next, parseInt_decimal]
    rfl

theorem newline_notMem_colonPairs {mark : Char} (named : mark ≠ '\n') (pairs : List (Nat × Nat)) :
    '\n' ∉ colonPairs mark pairs := by
  intro member
  rcases List.mem_cons.mp member with here | inside
  · exact named here.symm
  · obtain ⟨pair, -, inside⟩ := List.mem_flatMap.mp inside
    simp only [List.mem_append, List.mem_cons, List.not_mem_nil, or_false, List.cons_append] at inside
    have solid := notMem_decimal (show ('\n').isDigit = false from by decide)
    rcases inside with colon | (inside | colon | inside) | blank
    · exact absurd colon (by decide)
    · exact solid _ inside
    · exact absurd colon (by decide)
    · exact solid _ inside
    · exact absurd blank (by decide)

/-! ### Words without the separator -/

variable {word items first rest : List Item} {separator : Item}

/-- A word without the separator lies on one side of it. -/
theorem infix_append_cons_iff (free : separator ∉ word) :
    word <:+: first ++ separator :: rest ↔ word <:+: first ∨ word <:+: rest := by
  have empty : ∀ {part : List Item}, part <+: separator :: rest → separator ∉ part → part = [] := by
    intro part begins absent
    cases part with
    | nil => rfl
    | cons item part =>
      obtain ⟨rfl, -⟩ := List.cons_prefix_cons.mp begins
      exact absurd List.mem_cons_self absent
  constructor
  · intro inside
    rcases List.infix_append_iff.mp inside with before | behind | ⟨left, right, rfl, ends, begins⟩
    · exact .inl before
    · rcases List.infix_cons_iff.mp behind with begins | later
      · rw [empty begins free]
        exact .inl List.nil_infix
      · exact .inr later
    · rw [List.mem_append, not_or] at free
      rw [empty begins free.2, List.append_nil]
      exact .inl ends.isInfix
  · rintro (before | behind)
    · exact before.trans (List.prefix_append _ _).isInfix
    · exact behind.trans ((List.suffix_cons _ _).trans (List.suffix_append _ _)).isInfix

theorem not_infix_of_notMem {item : Item} (inWord : item ∈ word) (absent : item ∉ items) :
    ¬word <:+: items := fun inside => absent (inside.subset inWord)

/-- The fields between separators are parts of the whole. -/
theorem infix_of_mem_intercalate {fields : List (List Item)} {field : List Item} :
    field ∈ fields → field <:+: [separator].intercalate fields := by
  induction fields with
  | nil => exact fun member => absurd member List.not_mem_nil
  | cons head fields inductionHypothesis =>
    intro member
    cases fields with
    | nil =>
      rw [List.mem_singleton.mp member]
      simp
    | cons next fields =>
      rw [List.intercalate_cons_cons, List.append_assoc]
      rcases List.mem_cons.mp member with rfl | later
      · exact (List.prefix_append _ _).isInfix
      · exact (inductionHypothesis later).trans
          ((List.suffix_append _ _).trans (List.suffix_append _ _)).isInfix

theorem infix_of_mem_splitOn [BEq Item] [LawfulBEq Item] {field : List Item}
    (member : field ∈ items.splitOn separator) : field <:+: items := by
  have inside := @infix_of_mem_intercalate _ separator _ _ member
  rwa [List.intercalate_splitOn] at inside

/-! ### Words in texts -/

/-- `word in text`. -/
def contains (word text : Text) : Bool := text.tails.any word.isPrefixOf

theorem contains_iff {word text : Text} : contains word text = true ↔ word <:+: text := by
  simp only [contains, List.any_eq_true, List.mem_tails, List.isPrefixOf_iff_prefix,
    List.infix_iff_prefix_suffix, and_comm]

end Library
