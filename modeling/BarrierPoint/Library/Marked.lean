/-
This file develops files that several threads write to. Every character is
marked with the thread that wrote it. The lines of such a file are unbroken
exactly when the thread changes behind line breaks only.
-/

import BarrierPoint.Library.Lines

namespace Library

/-- A file whose characters are marked with the threads that wrote them. -/
abbrev MarkedFile : Type := List (Nat × Char)

/-- A text written by a thread. -/
def mark (thread : Nat) (text : Text) : MarkedFile := text.map fun c => (thread, c)

/-- What a thread has written to a file. -/
def textOf (thread : Nat) (file : MarkedFile) : Text :=
  (file.filter fun entry => entry.1 = thread).map Prod.snd

/-- The thread changes behind line breaks only. -/
def ChangesAtBreaks (file : MarkedFile) : Prop :=
  file.IsChain fun first second => first.1 ≠ second.1 → first.2 = '\n'

/-- A line: characters other than the line break, and a line break. -/
def IsLine (line : Text) : Prop := ∃ row, '\n' ∉ row ∧ line = row ++ ['\n']

/-- The file is a concatenation of complete lines, each written by one thread: the lines of every
thread occur once each, and unbroken. -/
def Unbroken (lines : Nat → List Text) (file : MarkedFile) : Prop :=
  ∃ order : List (Nat × Text), file = order.flatMap (fun entry => mark entry.1 entry.2) ∧
    ∀ thread, ((order.filter fun entry => entry.1 = thread).map Prod.snd).Perm (lines thread)

theorem mark_append (thread : Nat) (first second : Text) :
    mark thread (first ++ second) = mark thread first ++ mark thread second := List.map_append

theorem textOf_append (thread : Nat) (first second : MarkedFile) :
    textOf thread (first ++ second) = textOf thread first ++ textOf thread second := by
  rw [textOf, List.filter_append, List.map_append]
  rfl

theorem textOf_mark_self (thread : Nat) (text : Text) : textOf thread (mark thread text) = text := by
  rw [textOf, mark, List.filter_map, List.filter_eq_self.mpr, List.map_map]
  · exact List.map_id text
  · intro c _
    exact decide_eq_true rfl

theorem textOf_mark_of_ne {thread other : Nat} (different : other ≠ thread) (text : Text) :
    textOf thread (mark other text) = [] := by
  rw [textOf, mark, List.filter_map, List.filter_eq_nil_iff.mpr]
  · rfl
  · intro c _
    simpa using different

/-! ### The lines of a marked file -/

/-- The lines of a file, each with the thread of its first character. -/
def markedLines : MarkedFile → List (Nat × Text)
  | [] => []
  | (thread, c) :: file =>
      if c = '\n' then (thread, ['\n']) :: markedLines file
      else match markedLines file with
        | [] => [(thread, [c])]
        | (_, line) :: lines => (thread, c :: line) :: lines

theorem markedLines_eq_nil {file : MarkedFile} (none : markedLines file = []) : file = [] := by
  cases file with
  | nil => rfl
  | cons entry file =>
    obtain ⟨thread, c⟩ := entry
    rw [markedLines] at none
    split at none
    · cases none
    · split at none <;> cases none

/-- The first line is that of the first character. -/
theorem markedLines_head {file : MarkedFile} {thread : Nat} {line : Text}
    {lines : List (Nat × Text)} (held : markedLines file = (thread, line) :: lines) :
    ∃ c rest, file = (thread, c) :: rest := by
  cases file with
  | nil => cases held
  | cons entry file =>
    obtain ⟨writer, c⟩ := entry
    rw [markedLines] at held
    refine ⟨c, file, ?_⟩
    split at held
    · cases held
      rfl
    · split at held <;> cases held <;> rfl

/-- Where the thread changes behind line breaks only, the lines make up the file. -/
theorem flatMap_markedLines {file : MarkedFile} (changes : ChangesAtBreaks file) :
    (markedLines file).flatMap (fun entry => mark entry.1 entry.2) = file := by
  induction file with
  | nil => rfl
  | cons entry file inductionHypothesis =>
    obtain ⟨thread, c⟩ := entry
    have later := inductionHypothesis (List.IsChain.tail changes)
    rw [markedLines]
    split
    · rename_i lineBreak
      rw [List.flatMap_cons, later, lineBreak]
      rfl
    · rename_i inside
      cases held : markedLines file with
      | nil =>
        rw [markedLines_eq_nil held]
        rfl
      | cons first lines =>
        obtain ⟨writer, line⟩ := first
        obtain ⟨next, rest, rfl⟩ := markedLines_head held
        have same : thread = writer := by
          by_contra different
          exact inside ((List.isChain_cons_cons.mp changes).1 different)
        rw [held] at later
        subst same
        exact congrArg ((thread, c) :: ·) later

/-- Where the thread changes behind line breaks only, the lines of a thread are those of its
text. -/
theorem filter_markedLines {file : MarkedFile} (changes : ChangesAtBreaks file) (wanted : Nat) :
    ((markedLines file).filter fun entry => entry.1 = wanted).map Prod.snd =
      fileLines (textOf wanted file) := by
  induction file with
  | nil => rfl
  | cons entry file inductionHypothesis =>
    obtain ⟨thread, c⟩ := entry
    have later := inductionHypothesis (List.IsChain.tail changes)
    have text : textOf wanted ((thread, c) :: file) =
        if thread = wanted then c :: textOf wanted file else textOf wanted file := by
      rw [textOf, List.filter_cons]
      by_cases own : thread = wanted
      · rw [if_pos own, if_pos (decide_eq_true own)]
        rfl
      · rw [if_neg own, if_neg (by simpa using own)]
        rfl
    rw [text, markedLines]
    by_cases lineBreak : c = '\n'
    · rw [if_pos lineBreak, List.filter_cons]
      by_cases own : thread = wanted
      · rw [if_pos own, if_pos (decide_eq_true own), fileLines, if_pos lineBreak, ← later]
        rfl
      · rw [if_neg own, if_neg (by simpa using own), later]
    · rw [if_neg lineBreak]
      cases held : markedLines file with
      | nil =>
        obtain rfl := markedLines_eq_nil held
        by_cases own : thread = wanted
        · rw [if_pos own, fileLines, if_neg lineBreak]
          simp [own, textOf, fileLines]
        · rw [if_neg own]
          simp [own, textOf, fileLines]
      | cons first lines =>
        obtain ⟨writer, line⟩ := first
        obtain ⟨next, rest, rfl⟩ := markedLines_head held
        obtain rfl : thread = writer := by
          by_contra different
          exact lineBreak ((List.isChain_cons_cons.mp changes).1 different)
        rw [held, List.filter_cons] at later
        rw [List.filter_cons]
        by_cases own : thread = wanted
        · rw [if_pos (decide_eq_true own)] at later
          rw [if_pos own, if_pos (decide_eq_true own), fileLines, if_neg lineBreak, ← later]
          rfl
        · rw [if_neg (by simpa using own)] at later
          rw [if_neg own, if_neg (by simpa using own), later]

/-! ### Unbroken lines -/

theorem IsLine.getLast? {line : Text} (isLine : IsLine line) : line.getLast? = some '\n' := by
  obtain ⟨row, -, rfl⟩ := isLine
  exact List.getLast?_concat

/-- A text made of lines ends with a line break. -/
theorem getLast?_flatten {lines : List Text} (solid : ∀ line ∈ lines, IsLine line) :
    ∀ c ∈ lines.flatten.getLast?, c = '\n' := by
  induction lines with
  | nil => exact nofun
  | cons line lines inductionHypothesis =>
    rw [List.forall_mem_cons] at solid
    intro c last
    rw [List.flatten_cons, List.getLast?_append, solid.1.getLast?] at last
    cases held : lines.flatten.getLast? with
    | none =>
      rw [held] at last
      exact (Option.some_inj.mp last).symm
    | some next =>
      rw [held] at last
      exact inductionHypothesis solid.2 c (held.trans last)

/-- The lines of a text made of lines. -/
theorem fileLines_flatten {lines : List Text} (solid : ∀ line ∈ lines, IsLine line) :
    fileLines lines.flatten = lines := by
  induction lines with
  | nil => rfl
  | cons line lines inductionHypothesis =>
    rw [List.forall_mem_cons] at solid
    obtain ⟨⟨row, noBreak, rfl⟩, others⟩ := solid
    rw [List.flatten_cons, List.append_assoc, List.singleton_append, fileLines_append noBreak,
      inductionHypothesis others]

theorem changesAtBreaks_mark (thread : Nat) (text : Text) : ChangesAtBreaks (mark thread text) := by
  induction text with
  | nil => exact List.isChain_nil
  | cons c text inductionHypothesis =>
    cases text with
    | nil => exact List.isChain_singleton _
    | cons next text =>
      exact List.isChain_cons_cons.mpr ⟨fun different => (different rfl).elim, inductionHypothesis⟩

/-- A text may be appended behind a line break, or behind what its own thread wrote. -/
theorem changesAtBreaks_append {file : MarkedFile} (changes : ChangesAtBreaks file) {thread : Nat}
    {text : Text} (behind : text ≠ [] → ∀ before other c, file = before ++ [(other, c)] →
      other ≠ thread → c = '\n') : ChangesAtBreaks (file ++ mark thread text) := by
  refine List.isChain_append.mpr ⟨changes, changesAtBreaks_mark thread text,
    fun last isLast next isNext different => ?_⟩
  obtain ⟨before, rfl⟩ := List.getLast?_eq_some_iff.mp isLast
  have filled : text ≠ [] := by
    rintro rfl
    cases isNext
  have writer : next.1 = thread := by
    obtain ⟨c, -, rfl⟩ := List.mem_map.mp (List.mem_of_mem_head? isNext)
    rfl
  exact behind filled before last.1 last.2 rfl (writer ▸ different)

/-- Complete lines written one after the other change the thread behind line breaks only. -/
theorem changesAtBreaks_flatMap {order : List (Nat × Text)}
    (solid : ∀ entry ∈ order, IsLine entry.2) :
    ChangesAtBreaks (order.flatMap fun entry => mark entry.1 entry.2) := by
  induction order with
  | nil => exact List.isChain_nil
  | cons entry order inductionHypothesis =>
    rw [List.forall_mem_cons] at solid
    have lineEnd : (mark entry.1 entry.2).getLast? = some (entry.1, '\n') := by
      rw [mark, List.getLast?_map, solid.1.getLast?]
      rfl
    refine List.isChain_append.mpr ⟨changesAtBreaks_mark entry.1 entry.2,
      inductionHypothesis solid.2, fun last isLast next _ _ => ?_⟩
    obtain rfl := Option.some_inj.mp (lineEnd.symm.trans isLast)
    rfl

/-- Where the threads have written all their lines, these are unbroken exactly when the thread
changes behind line breaks only. -/
theorem unbroken_iff {lines : Nat → List Text} {file : MarkedFile}
    (solid : ∀ thread, ∀ line ∈ lines thread, IsLine line)
    (whole : ∀ thread, textOf thread file = (lines thread).flatten) :
    Unbroken lines file ↔ ChangesAtBreaks file := by
  constructor
  · rintro ⟨order, rfl, all⟩
    refine changesAtBreaks_flatMap fun entry member => ?_
    refine solid entry.1 _ ((all entry.1).subset (List.mem_map_of_mem ?_))
    exact List.mem_filter.mpr ⟨member, decide_eq_true rfl⟩
  · intro changes
    refine ⟨markedLines file, (flatMap_markedLines changes).symm, fun thread => ?_⟩
    rw [filter_markedLines changes, whole, fileLines_flatten (solid thread)]

/-- A text of another thread behind an unfinished line breaks the line. -/
theorem not_changesAtBreaks {before after : MarkedFile} {thread other : Nat} {first second : Text}
    {c : Char} (different : thread ≠ other) (last : first.getLast? = some c) (inside : c ≠ '\n')
    (filled : second ≠ []) :
    ¬ChangesAtBreaks (before ++ mark thread first ++ mark other second ++ after) := by
  intro changes
  obtain ⟨front, rfl⟩ := List.getLast?_eq_some_iff.mp last
  obtain ⟨next, back, rfl⟩ := List.exists_cons_of_ne_nil filled
  have chained := (List.isChain_append.mp (List.isChain_append.mp changes).1).2.2
    (thread, c) (by simp [mark]) (other, next) (by simp [mark])
  exact inside (chained different)

/-! ### Items in their lines -/

section Items

variable {Item : Type} {write : Item → Text} {read : Text → Option Item} {owner : Item → Nat}

/-- Lines that were written for items are read as these. -/
theorem map_filterMap_read (lines : List (Nat × Text))
    (each : ∀ line ∈ lines, ∃ item, owner item = line.1 ∧ write item = line.2 ∧
      read line.2 = some item) :
    (lines.filterMap fun line => read line.2).map (fun item => (owner item, write item)) = lines := by
  induction lines with
  | nil => rfl
  | cons line lines inductionHypothesis =>
    rw [List.forall_mem_cons] at each
    obtain ⟨⟨item, owned, wrote, back⟩, others⟩ := each
    rw [List.filterMap_cons, back, List.map_cons, inductionHypothesis others, owned, wrote]

theorem eq_of_map_write {first second : List Item}
    (back : ∀ item ∈ first ++ second, read (write item) = some item)
    (same : first.map write = second.map write) : first = second := by
  rw [List.forall_mem_append] at back
  have lists : ∀ {items : List Item}, (∀ item ∈ items, read (write item) = some item) →
      (items.map write).map read = items.map some := by
    intro items all
    rw [List.map_map]
    exact List.map_congr_left all
  exact List.map_injective_iff.mpr (Option.some_injective Item)
    ((lists back.1).symm.trans ((congrArg (List.map read) same).trans (lists back.2)))

/-- Where the thread changes behind line breaks only, what threads have written for items are the
lines of these items, in an order that keeps those of each thread in theirs. -/
theorem exists_items {items : Nat → List Item} (owned : ∀ thread, ∀ item ∈ items thread,
      owner item = thread ∧ IsLine (write item) ∧ read (write item) = some item)
    {file : MarkedFile} (changes : ChangesAtBreaks file)
    (whole : ∀ thread, textOf thread file = (items thread).flatMap write) :
    ∃ merged : List Item, file.map Prod.snd = merged.flatMap write ∧
      ∀ thread, merged.filter (fun item => owner item = thread) = items thread := by
  have lines : ∀ thread, ((markedLines file).filter fun line => line.1 = thread).map Prod.snd =
      (items thread).map write := by
    intro thread
    rw [filter_markedLines changes, whole, List.flatMap_def, fileLines_flatten]
    intro line member
    obtain ⟨item, inside, rfl⟩ := List.mem_map.mp member
    exact (owned thread item inside).2.1
  have each : ∀ line ∈ markedLines file, ∃ item, owner item = line.1 ∧ write item = line.2 ∧
      read line.2 = some item := by
    intro line member
    have own : line.2 ∈ (items line.1).map write := lines line.1 ▸
      List.mem_map_of_mem (List.mem_filter.mpr ⟨member, decide_eq_true rfl⟩)
    obtain ⟨item, inside, same⟩ := List.mem_map.mp own
    obtain ⟨owns, -, back⟩ := owned line.1 item inside
    exact ⟨item, owns, same, same ▸ back⟩
  have pairs := map_filterMap_read (markedLines file) each
  have readBack : ∀ item ∈ (markedLines file).filterMap (fun line => read line.2),
      read (write item) = some item := by
    intro item member
    obtain ⟨line, inside, found⟩ := List.mem_filterMap.mp member
    obtain ⟨other, -, wrote, back⟩ := each line inside
    obtain rfl := Option.some_inj.mp (found.symm.trans back)
    rw [wrote, found]
  generalize (markedLines file).filterMap (fun line => read line.2) = merged at pairs readBack
  refine ⟨merged, ?_, fun thread => @eq_of_map_write _ write read _ _ (fun item member => ?_) ?_⟩
  · rw [← flatMap_markedLines changes, ← pairs, List.flatMap_map, List.map_flatMap]
    refine List.flatMap_congr fun item _ => ?_
    rw [mark, List.map_map]
    exact List.map_id _
  · rcases List.mem_append.mp member with kept | own
    · exact readBack item (List.mem_filter.mp kept).1
    · exact (owned thread item own).2.2
  · rw [← lines thread, ← pairs, List.filter_map, List.map_map]
    rfl

end Items

end Library
