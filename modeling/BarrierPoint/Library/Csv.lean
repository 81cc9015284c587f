/-
This file develops the reading of a file of comma-separated records, as a
machine that takes one character at a time. A quote opens a field that may
contain commas and line breaks only at the start of the field, and two quotes
stand for one inside such a field. Records that were printed with a comma
between two fields are read back when the fields contain none of these
characters. There is no limit on the size of a field here.
-/

import BarrierPoint.Library.Lines

namespace Library

/-- Every line break of a text file is read as `\n`. -/
def universalNewlines : Text → Text
  | [] => []
  | '\r' :: '\n' :: text => '\n' :: universalNewlines text
  | '\r' :: text => '\n' :: universalNewlines text
  | c :: text => c :: universalNewlines text

/-- A text without carriage returns is read as it is. -/
theorem universalNewlines_eq {text : Text} (solid : '\r' ∉ text) : universalNewlines text = text := by
  fun_induction universalNewlines text with
  | case1 => rfl
  | case2 text inductionHypothesis => exact (solid List.mem_cons_self).elim
  | case3 text other inductionHypothesis => exact (solid List.mem_cons_self).elim
  | case4 c text notPair notReturn inductionHypothesis =>
    rw [inductionHypothesis fun member => solid (List.mem_cons_of_mem _ member)]

/-! ### The machine -/

/-- Where a reader stands in a record. -/
inductive CsvState where
  | startRecord
  | startField
  | inField
  | inQuotedField
  | quoteInQuotedField
  deriving DecidableEq, Repr

/-- `csv.reader`: the field being read, the fields before it in the record, and the records read. -/
structure CsvReader where
  state : CsvState
  field : Text
  fields : List Text
  records : List (List Text)
  deriving DecidableEq, Repr

namespace CsvReader

/-- A reader before the first character. -/
def start : CsvReader where
  state := .startRecord
  field := []
  fields := []
  records := []

/-- `parse_add_char`. -/
def addChar (reader : CsvReader) (c : Char) : CsvReader :=
  { reader with field := reader.field ++ [c] }

/-- `parse_save_field`. -/
def saveField (reader : CsvReader) : CsvReader :=
  { reader with field := [], fields := reader.fields ++ [reader.field] }

/-- Save the last field and the record. -/
def endRecord (reader : CsvReader) : CsvReader where
  state := .startRecord
  field := []
  fields := []
  records := reader.records ++ [reader.saveField.fields]

/-- The first character of a field. -/
def beginField (reader : CsvReader) (c : Char) : CsvReader :=
  if c = '"' then { reader with state := .inQuotedField }
  else if c = ',' then { reader.saveField with state := .startField }
  else { reader.addChar c with state := .inField }

/-- `parse_process_char`. A blank line is a record without fields. -/
def step (reader : CsvReader) (c : Char) : CsvReader :=
  match reader.state with
  | .startRecord =>
      if c = '\n' then { reader with records := reader.records ++ [[]] } else reader.beginField c
  | .startField => if c = '\n' then reader.endRecord else reader.beginField c
  | .inField =>
      if c = '\n' then reader.endRecord
      else if c = ',' then { reader.saveField with state := .startField }
      else reader.addChar c
  | .inQuotedField =>
      if c = '"' then { reader with state := .quoteInQuotedField } else reader.addChar c
  | .quoteInQuotedField =>
      if c = '\n' then reader.endRecord
      else if c = ',' then { reader.saveField with state := .startField }
      else { reader.addChar c with state := if c = '"' then .inQuotedField else .inField }

/-- The records at the end of the file, the last one of which may lack its line break. -/
def finish (reader : CsvReader) : List (List Text) :=
  match reader.state with
  | .startRecord => reader.records
  | _ => reader.endRecord.records

end CsvReader

/-- The records of a file that is opened as a text. -/
def csvRecords (file : Text) : List (List Text) :=
  ((universalNewlines file).foldl CsvReader.step .start).finish

/-! ### Reading what was printed -/

/-- A character that means itself in every field. -/
def PlainField (field : Text) : Prop := ∀ c ∈ field, c ≠ ',' ∧ c ≠ '"' ∧ c ≠ '\n' ∧ c ≠ '\r'

instance (field : Text) : Decidable (PlainField field) :=
  inferInstanceAs (Decidable (∀ c ∈ field, c ≠ ',' ∧ c ≠ '"' ∧ c ≠ '\n' ∧ c ≠ '\r'))

/-- A record with a comma between two fields and its line break. -/
def csvLine (fields : List Text) : Text := [','].intercalate fields ++ ['\n']

theorem return_notMem_csvLine {fields : List Text} (plain : ∀ field ∈ fields, PlainField field) :
    '\r' ∉ csvLine fields := by
  intro member
  rcases List.mem_append.mp member with inside | last
  · exact notMem_intercalate (by decide)
      (fun field known member => (plain field known _ member).2.2.2 rfl) inside
  · exact absurd (List.mem_singleton.mp last) (by decide)

theorem csvLine_cons_cons (first second : Text) (fields : List Text) :
    csvLine (first :: second :: fields) = first ++ ',' :: csvLine (second :: fields) := by
  rw [csvLine, csvLine, List.intercalate_cons_cons, List.append_assoc, List.append_assoc,
    List.singleton_append]

namespace CsvReader

/-- The states outside of quotes. -/
def Unquoted (state : CsvState) : Prop :=
  state = .startRecord ∨ state = .startField ∨ state = .inField

theorem Unquoted.afterField {state : CsvState} (unquoted : Unquoted state) (field : Text) :
    Unquoted (if field = [] then state else .inField) := by
  by_cases none : field = []
  · rw [if_pos none]
    exact unquoted
  · rw [if_neg none]
    exact Or.inr (Or.inr rfl)

theorem step_plain {reader : CsvReader} (unquoted : Unquoted reader.state) {c : Char}
    (plain : c ≠ ',' ∧ c ≠ '"' ∧ c ≠ '\n' ∧ c ≠ '\r') :
    reader.step c = { reader.addChar c with state := .inField } := by
  obtain ⟨comma, quote, newline, -⟩ := plain
  rw [step]
  rcases unquoted with started | fresh | inside
  · rw [started]
    simp only [if_neg newline, beginField, if_neg quote, if_neg comma]
  · rw [fresh]
    simp only [if_neg newline, beginField, if_neg quote, if_neg comma]
  · rw [inside]
    simp only [if_neg newline, if_neg comma]
    rw [← inside]
    rfl

theorem step_comma {reader : CsvReader} (unquoted : Unquoted reader.state) :
    reader.step ',' = { reader.saveField with state := .startField } := by
  rw [step]
  rcases unquoted with started | fresh | inside
  · rw [started]
    rfl
  · rw [fresh]
    rfl
  · rw [inside]
    rfl

theorem step_newline {reader : CsvReader}
    (inRecord : reader.state = .startField ∨ reader.state = .inField) :
    reader.step '\n' = reader.endRecord := by
  rw [step]
  rcases inRecord with fresh | inside
  · rw [fresh]
    rfl
  · rw [inside]
    rfl

/-- The characters of a plain field are kept. The state says whether there were any. -/
theorem foldl_plainField {field : Text} (plain : PlainField field) :
    ∀ reader : CsvReader, Unquoted reader.state → field.foldl step reader = { reader with
      state := if field = [] then reader.state else .inField
      field := reader.field ++ field } := by
  induction field with
  | nil =>
    intro reader unquoted
    rw [List.foldl_nil, if_pos rfl, List.append_nil]
  | cons c field inductionHypothesis =>
    intro reader unquoted
    rw [PlainField, List.forall_mem_cons] at plain
    rw [List.foldl_cons, step_plain unquoted plain.1,
      inductionHypothesis plain.2 _ (Or.inr (Or.inr rfl)), if_neg (List.cons_ne_nil _ _)]
    simp only [addChar, ite_self, List.append_assoc, List.singleton_append]

/-- What is left of a record, from the start of a field that is not the first one. -/
theorem foldl_csvLine (fields : List Text) : ∀ (field : Text) (reader : CsvReader),
    PlainField field → (∀ other ∈ fields, PlainField other) → reader.state = .startField →
    reader.field = [] → (csvLine (field :: fields)).foldl step reader = {
      state := .startRecord
      field := []
      fields := []
      records := reader.records ++ [reader.fields ++ field :: fields] } := by
  induction fields with
  | nil =>
    intro field reader plain _ fresh blank
    rw [csvLine, List.intercalate_singleton, List.foldl_append,
      foldl_plainField plain reader (Or.inr (Or.inl fresh)), List.foldl_cons, List.foldl_nil,
      step_newline]
    · simp only [endRecord, saveField, blank, List.nil_append]
    · by_cases none : field = []
      · exact Or.inl ((if_pos none).trans fresh)
      · exact Or.inr (if_neg none)
  | cons next fields inductionHypothesis =>
    intro field reader plain others fresh blank
    rw [List.forall_mem_cons] at others
    have unquoted : Unquoted reader.state := Or.inr (Or.inl fresh)
    rw [csvLine_cons_cons, List.foldl_append, foldl_plainField plain reader unquoted,
      List.foldl_cons, step_comma (unquoted.afterField field),
      inductionHypothesis _ _ others.1 others.2 rfl rfl]
    simp only [saveField, blank, List.nil_append, List.append_assoc, List.singleton_append]

/-- A record of several fields. -/
theorem foldl_record {first second : Text} {fields : List Text} (plainFirst : PlainField first)
    (plainSecond : PlainField second) (others : ∀ field ∈ fields, PlainField field)
    (records : List (List Text)) :
    (csvLine (first :: second :: fields)).foldl step { start with records := records } =
      { start with records := records ++ [first :: second :: fields] } := by
  have unquoted : Unquoted .startRecord := Or.inl rfl
  rw [csvLine_cons_cons, List.foldl_append, foldl_plainField plainFirst _ unquoted, List.foldl_cons,
    step_comma (unquoted.afterField first), foldl_csvLine fields second _ plainSecond others rfl rfl]
  rfl

end CsvReader

/-- Records of several plain fields each are read as they were printed. -/
theorem csvRecords_flatMap (records : List (List Text))
    (several : ∀ fields ∈ records, 2 ≤ fields.length)
    (plain : ∀ fields ∈ records, ∀ field ∈ fields, PlainField field) :
    csvRecords (records.flatMap csvLine) = records := by
  have run : ∀ (rest before : List (List Text)), (∀ fields ∈ rest, 2 ≤ fields.length) →
      (∀ fields ∈ rest, ∀ field ∈ fields, PlainField field) →
      (rest.flatMap csvLine).foldl CsvReader.step { CsvReader.start with records := before } =
        { CsvReader.start with records := before ++ rest } := by
    intro rest
    induction rest with
    | nil =>
      intro before _ _
      rw [List.append_nil]
      rfl
    | cons fields rest inductionHypothesis =>
      intro before several plain
      rw [List.forall_mem_cons] at several plain
      obtain ⟨long, several⟩ := several
      obtain ⟨plainFields, plain⟩ := plain
      match fields, long, plainFields with
      | first :: second :: others, _, plainFields =>
        rw [List.forall_mem_cons, List.forall_mem_cons] at plainFields
        rw [List.flatMap_cons, List.foldl_append, CsvReader.foldl_record plainFields.1
          plainFields.2.1 plainFields.2.2, inductionHypothesis _ several plain, List.append_assoc,
          List.singleton_append]
  have solid : '\r' ∉ records.flatMap csvLine := by
    intro member
    obtain ⟨fields, known, member⟩ := List.mem_flatMap.mp member
    exact return_notMem_csvLine (plain fields known) member
  rw [csvRecords, universalNewlines_eq solid]
  have whole := run records [] several plain
  rw [List.nil_append] at whole
  exact congrArg CsvReader.finish whole

end Library
