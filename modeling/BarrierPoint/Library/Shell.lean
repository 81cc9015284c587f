/-
This file develops the shell scripts that a program writes for another process
to run: exports, removals by pattern, loops over numbers, and the programs a
script starts. A script is written as text, and the text is read back as the
script. Running a script changes the files and the environment that the
programs see; what a program does is left open.
-/

import BarrierPoint.Library.Lines

namespace Library

/-! ### Words and patterns -/

/-- A part of a word. `value` stands for `$((name))`. -/
inductive Piece where
  | character (c : Char)
  | value (name : Text)
  | star
  deriving DecidableEq, Repr

abbrev Word := List Piece

/-- A text as a word. -/
def plainWord (text : Text) : Word := text.map .character

/-- A word once the values of the variables are in it. A star becomes `none`. -/
def expand (values : Text → Text) : Word → List (Option Char)
  | [] => []
  | .character c :: word => some c :: expand values word
  | .value name :: word => (values name).map some ++ expand values word
  | .star :: word => none :: expand values word

/-- The text of a word where no file names are looked for. -/
def wordText (values : Text → Text) (word : Word) : Text :=
  (expand values word).map fun c => c.getD '*'

/-- What is left of a text behind each of its beginnings without a slash. -/
def skips : Text → List Text
  | [] => [[]]
  | c :: text => (c :: text) :: if c = '/' then [] else skips text

/-- The names that a pattern matches. A star stands for any text without a slash; the rule that one
at the start of a name leaves out hidden files is left out. -/
def globMatches : List (Option Char) → Text → Bool
  | [], text => text = []
  | some c :: pattern, d :: text => c = d && globMatches pattern text
  | some _ :: _, [] => false
  | none :: pattern, text => (skips text).any (globMatches pattern)

theorem mem_skips (text rest : Text) :
    rest ∈ skips text ↔ ∃ skipped, '/' ∉ skipped ∧ text = skipped ++ rest := by
  induction text with
  | nil =>
    rw [skips, List.mem_singleton]
    constructor
    · rintro rfl
      exact ⟨[], List.not_mem_nil, rfl⟩
    · rintro ⟨skipped, -, whole⟩
      exact (List.append_eq_nil_iff.mp whole.symm).2
  | cons c text inductionHypothesis =>
    rw [skips, List.mem_cons]
    constructor
    · rintro (rfl | later)
      · exact ⟨[], List.not_mem_nil, rfl⟩
      · split at later
        · cases later
        · rename_i solid
          obtain ⟨skipped, outside, rfl⟩ := inductionHypothesis.mp later
          refine ⟨c :: skipped, fun member => ?_, rfl⟩
          exact (List.mem_cons.mp member).elim (fun same => solid same.symm) outside
    · rintro ⟨skipped, outside, whole⟩
      cases skipped with
      | nil => exact .inl whole.symm
      | cons d skipped =>
        obtain ⟨rfl, rfl⟩ := List.cons.inj whole
        rw [List.mem_cons, not_or] at outside
        rw [if_neg (Ne.symm outside.1)]
        exact .inr (inductionHypothesis.mpr ⟨skipped, outside.2, rfl⟩)

/-- Characters match themselves. -/
theorem globMatches_append (before : Text) (pattern : List (Option Char)) (text : Text) :
    globMatches (before.map some ++ pattern) text = true ↔
      ∃ rest, text = before ++ rest ∧ globMatches pattern rest = true := by
  induction before generalizing text with
  | nil => exact ⟨fun holds => ⟨text, rfl, holds⟩, fun ⟨_, rfl, holds⟩ => holds⟩
  | cons c before inductionHypothesis =>
    cases text with
    | nil =>
      constructor
      · exact fun holds => absurd holds Bool.false_ne_true
      · rintro ⟨rest, whole, -⟩
        cases whole
    | cons d text =>
      rw [List.map_cons, List.cons_append, globMatches, Bool.and_eq_true, decide_eq_true_eq,
        inductionHypothesis]
      constructor
      · rintro ⟨rfl, rest, rfl, holds⟩
        exact ⟨rest, rfl, holds⟩
      · rintro ⟨rest, whole, holds⟩
        obtain ⟨rfl, rfl⟩ := List.cons.inj whole
        exact ⟨rfl, rest, rfl, holds⟩

theorem globMatches_text (name text : Text) :
    globMatches (name.map some) text = true ↔ text = name := by
  have same := globMatches_append name [] text
  rw [List.append_nil] at same
  rw [same]
  constructor
  · rintro ⟨rest, rfl, empty⟩
    rw [of_decide_eq_true empty, List.append_nil]
  · rintro rfl
    exact ⟨[], (List.append_nil _).symm, rfl⟩

/-- A pattern with one star matches the names between whose ends there is no slash. -/
theorem globMatches_star (before after text : Text) :
    globMatches (before.map some ++ none :: after.map some) text = true ↔
      ∃ middle, '/' ∉ middle ∧ text = before ++ (middle ++ after) := by
  rw [globMatches_append]
  constructor
  · rintro ⟨rest, rfl, found⟩
    obtain ⟨left, among, holds⟩ := List.any_eq_true.mp found
    obtain ⟨middle, outside, rfl⟩ := (mem_skips rest left).mp among
    obtain rfl := (globMatches_text after left).mp holds
    exact ⟨middle, outside, rfl⟩
  · rintro ⟨middle, outside, rfl⟩
    exact ⟨_, rfl, List.any_eq_true.mpr ⟨after, (mem_skips _ _).mpr ⟨middle, outside, rfl⟩,
      (globMatches_text after after).mpr rfl⟩⟩

section Expand

variable (values : Text → Text)

theorem expand_append (first second : Word) :
    expand values (first ++ second) = expand values first ++ expand values second := by
  induction first with
  | nil => rfl
  | cons piece first inductionHypothesis =>
    cases piece with
    | character c => exact congrArg (some c :: ·) inductionHypothesis
    | value name =>
      rw [List.cons_append, expand, inductionHypothesis, expand, List.append_assoc]
    | star => exact congrArg (none :: ·) inductionHypothesis

@[simp] theorem expand_plainWord (text : Text) : expand values (plainWord text) = text.map some := by
  induction text with
  | nil => rfl
  | cons c text inductionHypothesis => exact congrArg (some c :: ·) inductionHypothesis

@[simp] theorem wordText_plainWord (text : Text) : wordText values (plainWord text) = text := by
  rw [wordText, expand_plainWord, List.map_map]
  exact List.map_id text

end Expand

/-! ### Scripts -/

/-- A line of a script. The word of an export may stand in quotes. -/
inductive Line where
  | blank
  | comment (text : Text)
  | assign (name : Text) (quoted : Bool) (word : Word)
  | remove (pattern : Word)
  | execute (command : Text)
  deriving DecidableEq, Repr

/-- A line, or a loop over the numbers from zero. -/
inductive Statement where
  | single (line : Line)
  | loop (name : Text) (last : Int) (body : List Line)
  deriving DecidableEq, Repr

/-- The files there are, by their names. -/
abbrev Files := Text → Option Text

/-- The state of a shell: the files, the variables that are exported and those of loops, how many
programs ran so far, and the status of the last command. -/
structure Shell where
  files : Files
  environment : Text → Option Text
  values : Text → Text
  runs : Nat
  status : Nat

/-- What programs do: the files and the status they leave, given how many programs ran before, the
environment, the command and the files. -/
abbrev Program := Nat → (Text → Option Text) → Text → Files → Files × Nat

/-- `rm -f`. -/
def Files.remove (files : Files) (pattern : List (Option Char)) : Files :=
  fun name => if globMatches pattern name then none else files name

/-- Replace a file. -/
def Files.write (files : Files) (name content : Text) : Files :=
  fun other => if other = name then some content else files other

def Shell.assign (shell : Shell) (name value : Text) : Shell :=
  { shell with
    environment := fun other => if other = name then some value else shell.environment other
    status := 0 }

def Shell.bind (shell : Shell) (name value : Text) : Shell :=
  { shell with values := fun other => if other = name then value else shell.values other }

/-- Start a program. -/
def Shell.execute (program : Program) (shell : Shell) (command : Text) : Shell :=
  let (files, status) := program shell.runs shell.environment command shell.files
  { shell with files, status, runs := shell.runs + 1 }

def Line.run (program : Program) (shell : Shell) : Line → Shell
  | .blank | .comment _ => shell
  | .assign name _ word => shell.assign name (wordText shell.values word)
  | .remove pattern =>
      { shell with files := shell.files.remove (expand shell.values pattern), status := 0 }
  | .execute command => shell.execute program command

def runLines (program : Program) (shell : Shell) (lines : List Line) : Shell :=
  lines.foldl (fun shell line => line.run program shell) shell

def Statement.run (program : Program) (shell : Shell) : Statement → Shell
  | .single line => line.run program shell
  | .loop name last body => (List.range (last + 1).toNat).foldl
      (fun shell number => runLines program (shell.bind name (decimal number)) body)
      { shell with status := 0 }

def runScript (program : Program) (shell : Shell) (script : List Statement) : Shell :=
  script.foldl (fun shell statement => statement.run program shell) shell

@[simp] theorem Shell.bind_values (shell : Shell) (name value : Text) :
    (shell.bind name value).values name = value := if_pos rfl

@[simp] theorem Shell.assign_self (shell : Shell) (name value : Text) :
    (shell.assign name value).environment name = some value := if_pos rfl

theorem Shell.assign_of_ne (shell : Shell) {name other : Text} (value : Text) (apart : other ≠ name) :
    (shell.assign name value).environment other = shell.environment other := if_neg apart

/-- Without a star, one file is removed. -/
theorem Files.remove_text (files : Files) (name : Text) :
    files.remove (name.map some) = fun other => if other = name then none else files other := by
  funext other
  by_cases same : other = name
  · rw [if_pos same]
    exact if_pos ((globMatches_text name other).mpr same)
  · rw [if_neg same]
    exact if_neg fun holds => same ((globMatches_text name other).mp holds)

/-- What the rounds of a loop keep up holds behind the loop. -/
theorem run_loop (program : Program) (name : Text) (last : Int) (body : List Line) (shell : Shell)
    {holds : Nat → Shell → Prop} (begins : holds 0 { shell with status := 0 })
    (goesOn : ∀ number < (last + 1).toNat, ∀ shell, holds number shell →
      holds (number + 1) (runLines program (shell.bind name (decimal number)) body)) :
    holds (last + 1).toNat ((Statement.loop name last body).run program shell) := by
  have rounds : ∀ count ≤ (last + 1).toNat, holds count ((List.range count).foldl
      (fun shell number => runLines program (shell.bind name (decimal number)) body)
      { shell with status := 0 }) := by
    intro count
    induction count with
    | zero => exact fun _ => begins
    | succ count inductionHypothesis =>
      intro bound
      rw [List.range_succ, List.foldl_concat]
      exact goesOn count bound _ (inductionHypothesis (by omega))
  exact rounds _ le_rfl

theorem runLines_append (program : Program) (shell : Shell) (first second : List Line) :
    runLines program shell (first ++ second) =
      runLines program (runLines program shell first) second := List.foldl_append

/-- Single lines run one after the other. -/
theorem runScript_singles (program : Program) (shell : Shell) (lines : List Line)
    (rest : List Statement) : runScript program shell (lines.map .single ++ rest) =
      runScript program (runLines program shell lines) rest := by
  rw [runScript, List.foldl_append, List.foldl_map]
  rfl

/-! ### Scripts as text -/

/-- How a word is written. -/
def wordRow : Word → Text
  | [] => []
  | .character c :: word => c :: wordRow word
  | .value name :: word => '$' :: '(' :: '(' :: name ++ ')' :: ')' :: wordRow word
  | .star :: word => '*' :: wordRow word

/-- How a line is written. -/
def Line.row : Line → Text
  | .blank => []
  | .comment text => '#' :: text
  | .assign name quoted word => "export ".toList ++ name ++ '=' ::
      if quoted then '"' :: wordRow word ++ ['"'] else wordRow word
  | .remove pattern => "rm -f ".toList ++ wordRow pattern
  | .execute command => command

/-- How a line of a loop is written. -/
def Line.indented (line : Line) : Text := if line = .blank then [] else '\t' :: line.row

def Statement.rows : Statement → List Text
  | .single line => [line.row]
  | .loop name last body =>
      ("for ".toList ++ name ++ " in $(seq 0 ".toList ++ signedDecimal last ++ [')']) ::
        "do".toList :: body.map Line.indented ++ ["done".toList]

/-- The text of a script. -/
def scriptText (script : List Statement) : Text :=
  (script.flatMap Statement.rows).flatMap fun row => row ++ ['\n']

/-! ### Reading a script -/

/-- Read a word. The name of a variable may have begun already. -/
def readWord : Option Text → Text → Word
  | none, '$' :: '(' :: '(' :: text => readWord (some []) text
  | none, '*' :: text => .star :: readWord none text
  | none, c :: text => .character c :: readWord none text
  | some name, ')' :: ')' :: text => .value name :: readWord none text
  | some name, c :: text => readWord (some (name ++ [c])) text
  | _, [] => []

def firstWord (row : Text) : Text := row.takeWhile (· ≠ ' ')

def afterWord (row : Text) : Text := (row.dropWhile (· ≠ ' ')).drop 1

def unindented (row : Text) : Text := row.dropWhile (· = '\t')

/-- Read what is exported. -/
def readAssign (rest : Text) : Line :=
  let name := rest.takeWhile (· ≠ '=')
  match (rest.dropWhile (· ≠ '=')).drop 1 with
  | '"' :: quoted => .assign name true (readWord none quoted.dropLast)
  | word => .assign name false (readWord none word)

/-- Read a line without its indentation. -/
def readLine (row : Text) : Line :=
  if row = [] then .blank
  else if row.head? = some '#' then .comment (row.drop 1)
  else if firstWord row = "export".toList then readAssign (afterWord row)
  else if firstWord row = "rm".toList then .remove (readWord none ((afterWord row).drop 3))
  else .execute row

/-- Read the name and the last number of a loop. -/
def readHeader (rest : Text) : Option (Text × Int) :=
  (parseInt ((afterWord rest).drop "in $(seq 0 ".length).dropLast).toOption.map fun last =>
    (firstWord rest, last)

/-- The statements that were read, and the loop that is being read. -/
structure ScriptReader where
  finished : List Statement
  opened : Option (Text × Int × List Line)

def readRow (reader : ScriptReader) (row : Text) : Option ScriptReader :=
  let row := unindented row
  match reader.opened with
  | none =>
      if firstWord row = "for".toList then
        (readHeader (afterWord row)).map fun header =>
          { reader with opened := some (header.1, header.2, []) }
      else some { reader with finished := reader.finished ++ [.single (readLine row)] }
  | some (name, last, body) =>
      if firstWord row = "do".toList then some reader
      else if firstWord row = "done".toList then
        some { finished := reader.finished ++ [.loop name last body], opened := none }
      else some { reader with opened := some (name, last, body ++ [readLine row]) }

/-- Read a script. A loop that is left open cannot be read. -/
def readScript (text : Text) : Option (List Statement) := do
  let reader ← ((fileLines text).map fun line => line.filter (· ≠ '\n')).foldlM readRow
    { finished := [], opened := none }
  guard reader.opened.isNone
  return reader.finished

/-! ### Scripts that are read back -/

/-- What a word may hold without being read differently. -/
def Piece.Plain : Piece → Prop
  | .character c => c ≠ '$' ∧ c ≠ '*' ∧ c ≠ '"' ∧ c ≠ '\n'
  | .value name => ')' ∉ name ∧ '\n' ∉ name
  | .star => True

/-- The words that begin no command. -/
def keywords : List Text :=
  ["export".toList, "rm".toList, "for".toList, "do".toList, "done".toList]

/-- What a line may hold without being read differently. -/
def Line.Plain : Line → Prop
  | .blank => True
  | .comment text => '\n' ∉ text
  | .assign name _ word => ('=' ∉ name ∧ '\n' ∉ name) ∧ ∀ piece ∈ word, piece.Plain
  | .remove pattern => ∀ piece ∈ pattern, piece.Plain
  | .execute command => '\n' ∉ command ∧ command ≠ [] ∧
      (∀ c ∈ command.head?, c ≠ '\t' ∧ c ≠ '#') ∧ firstWord command ∉ keywords

def Statement.Plain : Statement → Prop
  | .single line => line.Plain
  | .loop name _ body => (' ' ∉ name ∧ '\n' ∉ name) ∧ ∀ line ∈ body, line.Plain

theorem firstWord_append {word : Text} (solid : ' ' ∉ word) (rest : Text) :
    firstWord (word ++ ' ' :: rest) = word := (takeWhile_ne_append solid rest).1

theorem afterWord_append {word : Text} (solid : ' ' ∉ word) (rest : Text) :
    afterWord (word ++ ' ' :: rest) = rest := by
  rw [afterWord, (takeWhile_ne_append solid rest).2, List.drop_one, List.tail_cons]

/-- The name of a variable is read up to its end. -/
theorem readWord_name {name : Text} (solid : ')' ∉ name) (rest : Text) : ∀ read,
    readWord (some read) (name ++ ')' :: ')' :: rest) =
      .value (read ++ name) :: readWord none rest := by
  induction name with
  | nil =>
    intro read
    rw [List.nil_append, readWord, List.append_nil]
  | cons c name inductionHypothesis =>
    intro read
    rw [List.mem_cons, not_or] at solid
    rw [List.cons_append, readWord, inductionHypothesis solid.2, List.append_assoc,
      List.singleton_append]
    intro _ here _
    exact solid.1 here.symm

/-- A plain word is read back. -/
theorem readWord_wordRow {word : Word} (plain : ∀ piece ∈ word, piece.Plain) :
    readWord none (wordRow word) = word := by
  induction word with
  | nil => rfl
  | cons piece word inductionHypothesis =>
    rw [List.forall_mem_cons] at plain
    cases piece with
    | character c =>
      obtain ⟨noValue, noStar, -, -⟩ := plain.1
      rw [wordRow, readWord, inductionHypothesis plain.2]
      · exact fun _ here => absurd here noValue
      · exact noStar
    | value name =>
      rw [wordRow, List.cons_append, List.cons_append, List.cons_append, readWord,
        readWord_name plain.1.1, inductionHypothesis plain.2, List.nil_append]
    | star => rw [wordRow, readWord, inductionHypothesis plain.2]

theorem notMem_wordRow {word : Word} (plain : ∀ piece ∈ word, piece.Plain) :
    '\n' ∉ wordRow word := by
  induction word with
  | nil => exact List.not_mem_nil
  | cons piece word inductionHypothesis =>
    rw [List.forall_mem_cons] at plain
    have rest := inductionHypothesis plain.2
    cases piece with
    | character c => simp [wordRow, rest, Ne.symm plain.1.2.2.2]
    | value name => simp [wordRow, rest, plain.1.2]
    | star => simp [wordRow, rest]

/-- A word that is not quoted does not begin with a quote. -/
theorem head?_wordRow {word : Word} (plain : ∀ piece ∈ word, piece.Plain) :
    ∀ rest, wordRow word ≠ '"' :: rest := by
  intro rest same
  cases word with
  | nil => cases same
  | cons piece word =>
    cases piece with
    | character c => exact (plain _ List.mem_cons_self).2.2.1 (List.cons.inj same).1
    | value name => exact absurd (List.cons.inj same).1 (by decide)
    | star => exact absurd (List.cons.inj same).1 (by decide)

theorem readAssign_row {name : Text} (solid : '=' ∉ name) (quoted : Bool) {word : Word}
    (plain : ∀ piece ∈ word, piece.Plain) :
    readAssign (name ++ '=' :: if quoted then '"' :: wordRow word ++ ['"'] else wordRow word) =
      .assign name quoted word := by
  rw [readAssign, (takeWhile_ne_append solid _).1, (takeWhile_ne_append solid _).2, List.drop_one,
    List.tail_cons]
  cases quoted with
  | true =>
    have read : readWord none (wordRow word ++ ['"']).dropLast = word := by
      rw [List.dropLast_concat, readWord_wordRow plain]
    exact congrArg (Line.assign name true) read
  | false =>
    rw [if_neg Bool.false_ne_true]
    split
    · rename_i rest same
      exact absurd same (head?_wordRow plain rest)
    · rw [readWord_wordRow plain]

/-- An export and a removal begin with their words. -/
theorem row_assign (name : Text) (quoted : Bool) (word : Word) :
    Line.row (.assign name quoted word) = "export".toList ++ ' ' :: (name ++ '=' ::
      if quoted then '"' :: wordRow word ++ ['"'] else wordRow word) := rfl

theorem row_remove (pattern : Word) :
    Line.row (.remove pattern) = "rm".toList ++ ' ' :: ("-f ".toList ++ wordRow pattern) := rfl

/-- A plain line is read back. -/
theorem readLine_row {line : Line} (plain : line.Plain) : readLine line.row = line := by
  have exportSolid : ' ' ∉ "export".toList := by decide
  have rmSolid : ' ' ∉ "rm".toList := by decide
  cases line with
  | blank => rfl
  | comment text => rfl
  | assign name quoted word =>
    rw [row_assign, readLine, if_neg (by simp), if_neg (by simp), if_pos (firstWord_append exportSolid _),
      afterWord_append exportSolid, readAssign_row plain.1.1 quoted plain.2]
  | remove pattern =>
    have word := firstWord_append rmSolid ("-f ".toList ++ wordRow pattern)
    have pieces : ∀ piece ∈ pattern, piece.Plain := plain
    rw [row_remove, readLine, if_neg (by simp), if_neg (by simp), if_neg (by rw [word]; decide),
      if_pos word, afterWord_append rmSolid, List.drop_left' (by decide), readWord_wordRow pieces]
  | execute command =>
    obtain ⟨-, filled, begins, free⟩ := plain
    have noExport : firstWord command ≠ "export".toList := by
      intro same
      rw [same] at free
      exact free List.mem_cons_self
    have noRm : firstWord command ≠ "rm".toList := by
      intro same
      rw [same] at free
      exact free (List.mem_cons_of_mem _ List.mem_cons_self)
    have noComment : command.head? ≠ some '#' := fun head => (begins '#' head).2 rfl
    show readLine command = _
    rw [readLine, if_neg filled, if_neg noComment, if_neg noExport, if_neg noRm]

/-- The first word of a plain line begins no loop and ends none. -/
theorem firstWord_row {line : Line} (plain : line.Plain) :
    firstWord line.row ∉ ["for".toList, "do".toList, "done".toList] := by
  cases line with
  | blank => decide
  | comment text =>
    intro member
    have heads : ∀ word ∈ ["for".toList, "do".toList, "done".toList], word.head? ≠ some '#' := by
      decide
    exact heads (firstWord ('#' :: text)) member rfl
  | assign name quoted word =>
    rw [row_assign, firstWord_append (by decide)]
    decide
  | remove pattern =>
    rw [row_remove, firstWord_append (by decide)]
    decide
  | execute command =>
    exact fun member => plain.2.2.2 (by simp only [keywords, List.mem_cons] at member ⊢; tauto)

theorem unindented_row {line : Line} (plain : line.Plain) : unindented line.row = line.row := by
  have kept : ∀ {c : Char} (text : Text), c ≠ '\t' → unindented (c :: text) = c :: text :=
    fun text noTab => List.dropWhile_cons_of_neg (by simpa using noTab)
  cases line with
  | blank => rfl
  | comment text => exact kept text (by decide)
  | assign name quoted word => exact kept _ (by decide)
  | remove pattern => exact kept _ (by decide)
  | execute command =>
    cases command with
    | nil => rfl
    | cons c command => exact kept command (plain.2.2.1 c rfl).1

theorem unindented_indented {line : Line} (plain : line.Plain) :
    unindented line.indented = line.row := by
  unfold Line.indented
  split
  · rename_i blank
    rw [blank]
    rfl
  · exact (List.dropWhile_cons_of_pos (by decide)).trans (unindented_row plain)

/-- The lines of a loop are read one after the other. -/
theorem readRow_body (finished : List Statement) (name : Text) (last : Int) {lines : List Line}
    (plain : ∀ line ∈ lines, line.Plain) : ∀ body,
    (lines.map Line.indented).foldlM readRow
        { finished, opened := some (name, last, body) } =
      some { finished, opened := some (name, last, body ++ lines) } := by
  induction lines with
  | nil =>
    intro body
    rw [List.append_nil]
    rfl
  | cons line lines inductionHypothesis =>
    intro body
    rw [List.forall_mem_cons] at plain
    have word := firstWord_row plain.1
    simp only [List.mem_cons, List.not_mem_nil, or_false, not_or] at word
    have read : readRow { finished, opened := some (name, last, body) } line.indented =
        some { finished, opened := some (name, last, body ++ [line]) } := by
      rw [readRow, unindented_indented plain.1]
      dsimp only
      rw [if_neg word.2.1, if_neg word.2.2, readLine_row plain.1]
    rw [List.map_cons, List.foldlM_cons, read]
    exact (inductionHypothesis plain.2 (body ++ [line])).trans (by rw [List.append_assoc]; rfl)

/-- A plain statement is read back. -/
theorem readRow_statement (finished : List Statement) {statement : Statement}
    (plain : statement.Plain) :
    statement.rows.foldlM readRow { finished, opened := none } =
      some { finished := finished ++ [statement], opened := none } := by
  cases statement with
  | single line =>
    have word := firstWord_row plain
    simp only [List.mem_cons, List.not_mem_nil, or_false, not_or] at word
    have read : readRow { finished, opened := none } line.row =
        some { finished := finished ++ [.single line], opened := none } := by
      rw [readRow, unindented_row plain]
      dsimp only
      rw [if_neg word.1, readLine_row plain]
    rw [Statement.rows, List.foldlM_cons, read]
    rfl
  | loop name last body =>
    obtain ⟨⟨solid, -⟩, lines⟩ := plain
    have header : Statement.rows (.loop name last body) =
        ("for".toList ++ ' ' :: (name ++ ' ' :: ("in $(seq 0 ".toList ++
          (signedDecimal last ++ [')'])))) :: "do".toList :: (body.map Line.indented ++
            ["done".toList]) := by
      simp [Statement.rows]
    have opens : readRow { finished, opened := none } ("for".toList ++ ' ' :: (name ++ ' ' ::
        ("in $(seq 0 ".toList ++ (signedDecimal last ++ [')'])))) =
          some { finished, opened := some (name, last, []) } := by
      have kept : ∀ rest, unindented ("for".toList ++ ' ' :: rest) = "for".toList ++ ' ' :: rest :=
        fun _ => rfl
      have number : (parseInt (signedDecimal last)).toOption = some last := by
        rw [parseInt_signedDecimal]
        rfl
      rw [readRow, kept, firstWord_append (by decide), afterWord_append (by decide), if_pos rfl,
        readHeader, firstWord_append solid, afterWord_append solid, List.drop_left' (by decide),
        List.dropLast_concat, number]
      rfl
    have goesOn : readRow { finished, opened := some (name, last, []) } "do".toList =
        some { finished, opened := some (name, last, []) } := rfl
    have closes : readRow { finished, opened := some (name, last, body) } "done".toList =
        some { finished := finished ++ [.loop name last body], opened := none } := rfl
    rw [header, List.foldlM_cons, opens, Option.bind_eq_bind, Option.bind_some, List.foldlM_cons,
      goesOn, Option.bind_eq_bind, Option.bind_some, List.foldlM_append,
      readRow_body finished name last lines [], List.nil_append, Option.bind_eq_bind,
      Option.bind_some, List.foldlM_cons, closes]
    rfl

/-- What is written of a plain script has no line breaks in its rows. -/
theorem newline_notMem_rows {statement : Statement} (plain : statement.Plain) :
    ∀ row ∈ statement.rows, '\n' ∉ row := by
  have lineSolid : ∀ {line : Line}, line.Plain → '\n' ∉ line.row := by
    intro line plain
    cases line with
    | blank => exact List.not_mem_nil
    | comment text => exact List.not_mem_cons_of_ne_of_not_mem (by decide) plain
    | assign name quoted word =>
      have word := notMem_wordRow plain.2
      rw [row_assign]
      cases quoted <;> simp [plain.1.2, word]
    | remove pattern =>
      have pieces : ∀ piece ∈ pattern, piece.Plain := plain
      rw [row_remove]
      simp [notMem_wordRow pieces]
    | execute command => exact plain.1
  cases statement with
  | single line =>
    intro row member
    rw [Statement.rows, List.mem_singleton] at member
    exact member ▸ lineSolid plain
  | loop name last body =>
    have number : '\n' ∉ signedDecimal last := fun member =>
      absurd (not_isSpace_signedDecimal last _ member) (by decide)
    intro row member
    rw [Statement.rows, List.cons_append, List.cons_append, List.mem_cons, List.mem_cons,
      List.mem_append, List.mem_map, List.mem_singleton] at member
    rcases member with rfl | rfl | ⟨line, among, rfl⟩ | rfl
    · simp [plain.1.2, number]
    · decide
    · unfold Line.indented
      split
      · exact List.not_mem_nil
      · simpa using lineSolid (plain.2 line among)
    · decide

/-- The text of a plain script is read back as the script. -/
theorem readScript_scriptText {script : List Statement}
    (plain : ∀ statement ∈ script, statement.Plain) : readScript (scriptText script) = some script := by
  have solid : ∀ row ∈ script.flatMap Statement.rows, '\n' ∉ row := by
    intro row member
    obtain ⟨statement, among, held⟩ := List.mem_flatMap.mp member
    exact newline_notMem_rows (plain statement among) row held
  have rows : (fileLines (scriptText script)).map (fun line => line.filter (· ≠ '\n')) =
      script.flatMap Statement.rows := by
    rw [scriptText, fileLines_flatMap (fun row => row) _ solid, List.map_map]
    refine (List.map_congr_left fun row member => ?_).trans (List.map_id _)
    have kept : row.filter (· ≠ '\n') = row := List.filter_eq_self.mpr fun c among =>
      decide_eq_true (ne_of_mem_of_not_mem among (solid row member))
    show (row ++ ['\n']).filter (· ≠ '\n') = row
    rw [List.filter_append, kept]
    exact List.append_nil row
  have reads : ∀ finished, (script.flatMap Statement.rows).foldlM readRow
      { finished, opened := none } = some { finished := finished ++ script, opened := none } := by
    clear rows solid
    induction script with
    | nil =>
      intro finished
      rw [List.append_nil]
      rfl
    | cons statement script inductionHypothesis =>
      intro finished
      rw [List.forall_mem_cons] at plain
      rw [List.flatMap_cons, List.foldlM_append, readRow_statement finished plain.1]
      exact (inductionHypothesis plain.2 (finished ++ [statement])).trans
        (by rw [List.append_assoc]; rfl)
  rw [readScript, rows, reads []]
  rfl

end Library
