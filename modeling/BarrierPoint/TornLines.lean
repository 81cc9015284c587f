/-
This file decides when the lines of the counters stay unbroken in every run of
the threads. Where a buffer ends inside a line and another thread has something
to append at that moment, a run is built in which it does: between two full
buffers it is a thread that has left the critical section and closes its
stream, behind the last full buffer any thread that prints. Elsewhere no run
breaks a line.
-/

import BarrierPoint.OutputStreams

namespace BarrierPoint

open Library

namespace OutputState

variable {size : Nat} {texts : List Text} {state next : OutputState} {tid : Nat}

/-! ### Threads that run on their own -/

/-- Some steps lead from one state to another. -/
def Reaches (size : Nat) (texts : List Text) (state next : OutputState) : Prop :=
  ∃ actions, run (step size texts) state actions = some next

theorem Reaches.trans {final : OutputState} (first : Reaches size texts state next)
    (second : Reaches size texts next final) : Reaches size texts state final := by
  obtain ⟨before, ranBefore⟩ := first
  obtain ⟨after, ranAfter⟩ := second
  refine ⟨before ++ after, ?_⟩
  rw [run_append, ranBefore]
  exact ranAfter

/-- A thread runs on its own: it hands a text to the file, and the other streams stay as they
are. -/
structure Runs (size : Nat) (texts : List Text) (tid : Nat) (state : OutputState) (chunk : Text)
    (next : OutputState) : Prop where
  reaches : Reaches size texts state next
  file : next.file = state.file ++ mark tid chunk
  others : ∀ other, other ≠ tid → next.streams other = state.streams other

theorem Runs.trans {final : OutputState} {first second : Text}
    (one : Runs size texts tid state first next) (two : Runs size texts tid next second final) :
    Runs size texts tid state (first ++ second) final := by
  refine ⟨one.reaches.trans two.reaches, ?_, fun other different => ?_⟩
  · rw [two.file, one.file, mark_append, List.append_assoc]
  · rw [two.others other different, one.others other different]

/-- One step of a thread. -/
theorem runs_step {action : OutputStep} (chunk : Text) {stream : Stream}
    (stepped : state.step size texts action = some next)
    (file : next.file = state.file ++ mark tid chunk)
    (streams : next.streams = Function.update state.streams tid stream) :
    Runs size texts tid state chunk next ∧ next.streams tid = stream := by
  refine ⟨⟨⟨[action], ?_⟩, file, fun other different => ?_⟩, ?_⟩
  · rw [run, stepped]
    rfl
  · rw [streams, Function.update_of_ne different]
  · rw [streams, Function.update_self]

/-- A thread prints characters: the full buffers reach the file. -/
theorem runs_print (texts : List Text) (positive : 0 < size) (rest first : Text) :
    ∀ {state : OutputState} {buffer : Text}, state.streams tid = .printing (first ++ rest) buffer →
      buffer.length < size → ∃ flushed left next, buffer ++ first = flushed ++ left ∧
        size ∣ flushed.length ∧ left.length < size ∧ Runs size texts tid state flushed next ∧
        next.streams tid = .printing rest left ∧ next.critical = state.critical := by
  induction first with
  | nil =>
    intro state buffer held small
    exact ⟨[], buffer, state, List.append_nil buffer, Nat.dvd_zero size, small,
      ⟨⟨[], rfl⟩, (List.append_nil _).symm, fun _ _ => rfl⟩, held, rfl⟩
  | cons c first inductionHypothesis =>
    intro state buffer held small
    have stepped : state.step size texts (.print tid) =
        if (buffer ++ [c]).length = size
          then some ((state.append tid (buffer ++ [c])).withStream tid (.printing (first ++ rest) []))
          else some (state.withStream tid (.printing (first ++ rest) (buffer ++ [c]))) := by
      rw [step, held]
      rfl
    by_cases full : (buffer ++ [c]).length = size
    · rw [if_pos full] at stepped
      obtain ⟨one, here⟩ := runs_step (buffer ++ [c]) stepped rfl rfl
      obtain ⟨flushed, left, next, text, blocks, less, two, there, critical⟩ :=
        inductionHypothesis here positive
      refine ⟨buffer ++ [c] ++ flushed, left, next, ?_, ?_, less, one.trans two, there, critical⟩
      · rw [List.append_assoc, ← text]
        simp
      · rw [List.length_append, full]
        exact Nat.dvd_add (Nat.dvd_refl size) blocks
    · rw [if_neg full] at stepped
      have room : (buffer ++ [c]).length < size := by
        rw [List.length_append, List.length_singleton] at full ⊢
        omega
      obtain ⟨one, here⟩ := runs_step [] stepped (List.append_nil _).symm rfl
      obtain ⟨flushed, left, next, text, blocks, less, two, there, critical⟩ :=
        inductionHypothesis here room
      refine ⟨flushed, left, next, ?_, blocks, less, one.trans two, there, critical⟩
      rw [← text]
      simp

/-- A thread in the critical section prints what is left of its text and leaves. -/
theorem runs_leave (texts : List Text) (positive : 0 < size) {rest buffer : Text}
    (held : state.streams tid = .printing rest buffer) (small : buffer.length < size) :
    ∃ flushed left next, buffer ++ rest = flushed ++ left ∧ size ∣ flushed.length ∧
      left.length < size ∧ Runs size texts tid state flushed next ∧
      next.streams tid = .printed left ∧ next.critical = none := by
  rw [← List.append_nil rest] at held
  obtain ⟨flushed, left, middle, text, blocks, less, one, here, -⟩ :=
    runs_print texts positive [] rest held small
  have stepped : middle.step size texts (.leave tid) =
      some ((middle.withStream tid (.printed left)).withCritical none) := by
    rw [step, here]
  obtain ⟨two, there⟩ := runs_step [] stepped (List.append_nil _).symm rfl
  refine ⟨flushed, left, _, text, blocks, less, ?_, there, rfl⟩
  rw [← List.append_nil flushed]
  exact one.trans two

theorem runs_enter (size : Nat) {text : Text} (known : texts[tid]? = some text)
    (opened : state.streams tid = .opened) (free : state.critical = none) : ∃ next,
      Runs size texts tid state [] next ∧ next.streams tid = .printing text [] := by
  have stepped : state.step size texts (.enter tid) =
      some ((state.withStream tid (.printing text [])).withCritical (some tid)) := by
    rw [step, known, opened, free]
  exact ⟨_, runs_step [] stepped (List.append_nil _).symm rfl⟩

/-- A thread runs through its critical section. -/
theorem runs_section (positive : 0 < size) {text : Text} (known : texts[tid]? = some text)
    (opened : state.streams tid = .opened) (free : state.critical = none) :
    ∃ flushed left next, text = flushed ++ left ∧ size ∣ flushed.length ∧ left.length < size ∧
      Runs size texts tid state flushed next ∧ next.streams tid = .printed left ∧
      next.critical = none := by
  obtain ⟨middle, one, here⟩ := runs_enter size known opened free
  obtain ⟨flushed, left, next, whole, blocks, less, two, there, critical⟩ :=
    runs_leave texts positive here positive
  exact ⟨flushed, left, next, whole, blocks, less, one.trans two, there, critical⟩

theorem runs_close (size : Nat) (texts : List Text) {buffer : Text}
    (held : state.streams tid = .printed buffer) : ∃ next,
      Runs size texts tid state buffer next ∧ next.streams tid = .closed ∧
        next.critical = state.critical := by
  have stepped : state.step size texts (.close tid) =
      some ((state.append tid buffer).withStream tid .closed) := by
    rw [step, held]
  obtain ⟨one, here⟩ := runs_step buffer stepped rfl rfl
  exact ⟨_, one, here, rfl⟩

/-- Threads that wait run one after the other. -/
theorem reaches_closed (positive : 0 < size) (waiting : List Nat) :
    ∀ {state : OutputState}, waiting.Nodup → state.critical = none →
      (∀ tid ∈ waiting, tid < texts.length ∧ state.streams tid = .opened) →
      ∃ final, Reaches size texts state final ∧
        (∀ tid ∈ waiting, final.streams tid = .closed) ∧
        (∀ tid ∉ waiting, final.streams tid = state.streams tid) ∧
        ∃ more, final.file = state.file ++ more := by
  induction waiting with
  | nil =>
    exact fun {state} _ _ _ =>
      ⟨state, ⟨[], rfl⟩, nofun, fun _ _ => rfl, [], (List.append_nil _).symm⟩
  | cons tid waiting inductionHypothesis =>
    intro state distinct free ready
    rw [List.nodup_cons] at distinct
    rw [List.forall_mem_cons] at ready
    obtain ⟨flushed, left, middle, -, -, -, one, here, stillFree⟩ :=
      runs_section positive (List.getElem?_eq_getElem ready.1.1) ready.1.2 free
    obtain ⟨next, two, there, critical⟩ := runs_close size texts here
    have both := one.trans two
    have later : ∀ other ∈ waiting, other < texts.length ∧ next.streams other = .opened := by
      intro other member
      have different : other ≠ tid := fun same => distinct.1 (same ▸ member)
      rw [both.others other different]
      exact ready.2 other member
    obtain ⟨final, rest, closed, kept, more, file⟩ :=
      inductionHypothesis distinct.2 (critical.trans stillFree) later
    refine ⟨final, both.reaches.trans rest, ?_, fun other outside => ?_,
      mark tid (flushed ++ left) ++ more, ?_⟩
    · rw [List.forall_mem_cons]
      refine ⟨?_, closed⟩
      rw [kept tid distinct.1, there]
    · rw [List.mem_cons, not_or] at outside
      rw [kept other outside.2, both.others other outside.1]
    · rw [file, both.file, List.append_assoc]

/-- A state with threads only in front of their start and behind their end can be finished. -/
theorem reaches_finished (texts : List Text) (positive : 0 < size) (free : state.critical = none)
    (ready : ∀ tid < texts.length, state.streams tid = .opened ∨ state.streams tid = .closed) :
    ∃ final, Reaches size texts state final ∧ final.Finished texts ∧
      ∃ more, final.file = state.file ++ more := by
  obtain ⟨final, reaches, closed, kept, file⟩ := reaches_closed positive
    ((List.range texts.length).filter fun tid => state.streams tid = .opened)
    (List.nodup_range.filter _) free fun tid member => by
      obtain ⟨inside, opened⟩ := List.mem_filter.mp member
      exact ⟨List.mem_range.mp inside, of_decide_eq_true opened⟩
  refine ⟨final, reaches, fun tid inside => ?_, file⟩
  by_cases opened : state.streams tid = .opened
  · exact closed tid (List.mem_filter.mpr ⟨List.mem_range.mpr inside, decide_eq_true opened⟩)
  · rw [kept tid fun member => opened (of_decide_eq_true (List.mem_filter.mp member).2)]
    exact (ready tid inside).resolve_left opened

/-! ### Runs that break a line -/

/-- Less than a full buffer is left behind full ones, so nothing where the text consists of full
ones. -/
theorem left_eq_nil {flushed left : Text} (blocks : size ∣ flushed.length) (less : left.length < size)
    (all : size ∣ (flushed ++ left).length) : left = [] := by
  rw [List.length_append] at all
  exact List.eq_nil_of_length_eq_zero
    (Nat.eq_zero_of_dvd_of_lt ((Nat.dvd_add_right blocks).mp all) less)

/-- A buffer that ends inside a line ends with a character of the line. -/
theorem getLast?_take {text : Text} {boundary : Nat} (splits : SplitsLine size text boundary) :
    ∃ c, (text.take boundary).getLast? = some c ∧ c ≠ '\n' := by
  obtain ⟨positive, -, inside, noBreak⟩ := splits
  have held := List.getElem?_eq_getElem (Nat.lt_of_le_of_lt (Nat.sub_le boundary 1) inside)
  refine ⟨text[boundary - 1], ?_, fun same => noBreak (by rw [held, same])⟩
  rw [List.getLast?_take, if_neg positive.ne', held]
  rfl

/-- Two threads are done and the others have not begun. -/
theorem ready_of_two {other : Nat} (closed : state.streams tid = .closed)
    (otherClosed : state.streams other = .closed)
    (untouched : ∀ third, third ≠ tid → third ≠ other → state.streams third = .opened) :
    ∀ third < texts.length, state.streams third = .opened ∨ state.streams third = .closed := by
  intro third _
  by_cases same : third = tid
  · exact .inr (same ▸ closed)
  · by_cases alike : third = other
    · exact .inr (alike ▸ otherClosed)
    · exact .inl (untouched third same alike)

/-- Where a thread has another full buffer to print, a thread behind its critical section may close
its stream in between. -/
theorem exists_broken_between (positive : 0 < size) {other : Nat} {text another : Text}
    (different : tid ≠ other) (known : texts[tid]? = some text)
    (knownOther : texts[other]? = some another) {boundary : Nat}
    (splits : SplitsLine size text boundary) (partly : ¬size ∣ another.length) :
    ∃ final, Reaches size texts start final ∧ final.Finished texts ∧
      ¬ChangesAtBreaks final.file := by
  obtain ⟨before, unwritten, first, whole, blocks, less, ranFirst, waits, free⟩ :=
    runs_section positive knownOther (show start.streams other = .opened from rfl) rfl
  have filled : unwritten ≠ [] := by
    rintro rfl
    rw [whole, List.append_nil] at partly
    exact partly blocks
  have opened : first.streams tid = .opened := ranFirst.others tid different
  obtain ⟨second, ranSecond, inside⟩ := runs_enter size known opened free
  rw [← List.take_append_drop boundary text] at inside
  obtain ⟨flushed, left, third, printed, flushedBlocks, leftLess, ranThird, pauses, -⟩ :=
    runs_print texts positive _ _ inside positive
  rw [List.nil_append] at printed
  have nothing : left = [] := by
    refine left_eq_nil flushedBlocks leftLess ?_
    rw [← printed, List.length_take, Nat.min_eq_left splits.2.2.1.le]
    exact splits.2.1
  subst nothing
  rw [List.append_nil] at printed
  have waiting : third.streams other = .printed unwritten := by
    rw [ranThird.others other different.symm, ranSecond.others other different.symm, waits]
  obtain ⟨fourth, ranFourth, otherClosed, -⟩ := runs_close size texts waiting
  have going : fourth.streams tid = .printing (text.drop boundary) [] := by
    rw [ranFourth.others tid different, pauses]
  obtain ⟨more, last, fifth, -, -, -, ranFifth, behind, released⟩ :=
    runs_leave texts positive going positive
  obtain ⟨sixth, ranSixth, closed, critical⟩ := runs_close size texts behind
  have ends := ranFifth.trans ranSixth
  obtain ⟨final, reaches, finished, rest, file⟩ := reaches_finished texts positive
    (critical.trans released) (ready_of_two closed
      (by rw [ends.others other different.symm, otherClosed]) fun thread notTid notOther => by
        rw [ends.others thread notTid, ranFourth.others thread notOther,
          ranThird.others thread notTid, ranSecond.others thread notTid,
          ranFirst.others thread notOther]
        rfl)
  refine ⟨final, ranFirst.reaches.trans (ranSecond.reaches.trans (ranThird.reaches.trans
    (ranFourth.reaches.trans (ends.reaches.trans reaches)))), finished, ?_⟩
  obtain ⟨c, ending, noBreak⟩ := getLast?_take splits
  rw [file, ends.file, ranFourth.file, ranThird.file, ← printed, List.append_assoc]
  exact not_changesAtBreaks different ending noBreak filled

/-- The last full buffer of a text ends at its last boundary. -/
theorem length_eq_of_last {flushed left : Text} {boundary : Nat} (blocks : size ∣ flushed.length)
    (less : left.length < size) (splits : SplitsLine size (flushed ++ left) boundary)
    (last : (flushed ++ left).length < boundary + size) : flushed.length = boundary := by
  obtain ⟨-, ⟨before, rfl⟩, inside, -⟩ := splits
  obtain ⟨count, length⟩ := blocks
  rw [List.length_append, length] at inside last
  rw [length]
  have notMore : before < count + 1 := by
    refine Nat.lt_of_mul_lt_mul_left (a := size) ?_
    rw [Nat.mul_add, Nat.mul_one]
    omega
  have notLess : count < before + 1 := by
    refine Nat.lt_of_mul_lt_mul_left (a := size) ?_
    rw [Nat.mul_add, Nat.mul_one]
    omega
  rw [show count = before by omega]

/-- Behind its critical section a thread has yet to close its stream, when another one that prints
anything may enter its own. -/
theorem exists_broken_behind (positive : 0 < size) {other : Nat} {text another : Text}
    (different : tid ≠ other) (known : texts[tid]? = some text)
    (knownOther : texts[other]? = some another) {boundary : Nat}
    (splits : SplitsLine size text boundary) (last : text.length < boundary + size)
    (prints : another ≠ []) :
    ∃ final, Reaches size texts start final ∧ final.Finished texts ∧
      ¬ChangesAtBreaks final.file := by
  obtain ⟨flushed, left, first, rfl, blocks, less, ranFirst, waits, free⟩ :=
    runs_section positive known (show start.streams tid = .opened from rfl) rfl
  have opened : first.streams other = .opened := ranFirst.others other different.symm
  obtain ⟨before, unwritten, second, rfl, -, -, ranSecond, behind, released⟩ :=
    runs_section positive knownOther opened free
  obtain ⟨third, ranThird, otherClosed, otherCritical⟩ := runs_close size texts behind
  have ranOther := ranSecond.trans ranThird
  have waiting : third.streams tid = .printed left := by
    rw [ranOther.others tid different, waits]
  obtain ⟨fourth, ranFourth, closed, critical⟩ := runs_close size texts waiting
  obtain ⟨final, reaches, finished, rest, file⟩ := reaches_finished texts positive
    (critical.trans (otherCritical.trans released)) (ready_of_two closed
      (by rw [ranFourth.others other different.symm, otherClosed]) fun thread notTid notOther => by
        rw [ranFourth.others thread notTid, ranOther.others thread notOther,
          ranFirst.others thread notTid]
        rfl)
  refine ⟨final, ranFirst.reaches.trans (ranOther.reaches.trans
    (ranFourth.reaches.trans reaches)), finished, ?_⟩
  obtain ⟨c, ending, noBreak⟩ := getLast?_take splits
  rw [← length_eq_of_last blocks less splits last, List.take_left] at ending
  rw [file, ranFourth.file, ranOther.file, ranFirst.file, List.append_assoc]
  exact not_changesAtBreaks different ending noBreak prints

/-- Where a buffer may end inside a line with another thread appending there, some run breaks the
line. -/
theorem exists_broken (positive : 0 < size) (torn : ¬KeepsLines size texts) :
    ∃ final, Reaches size texts start final ∧ final.Finished texts ∧
      ¬ChangesAtBreaks final.file := by
  simp only [KeepsLines, not_forall] at torn
  obtain ⟨tid, other, text, another, different, known, knownOther, boundary, splits, free⟩ := torn
  by_cases more : boundary + size ≤ text.length
  · rw [if_pos more] at free
    exact exists_broken_between positive different known knownOther splits free
  · rw [if_neg more] at free
    exact exists_broken_behind positive different known knownOther splits (Nat.not_le.mp more) free

end OutputState

/-! ### The counters -/

namespace PapiBlock

/-- The lines a thread prints. -/
def lines (block : PapiBlock) : List Text := block.samples.map Sample.line

/-- The text a thread prints. -/
def text (block : PapiBlock) : Text := block.lines.flatten

theorem isLine_lines (block : PapiBlock) : ∀ line ∈ block.lines, IsLine line := by
  intro line member
  obtain ⟨sample, printed, rfl⟩ := List.mem_map.mp member
  exact Sample.isLine_line (block.isCounter_samples sample printed)

/-- Every thread prints at least the instruction count of its first phase. -/
theorem text_ne_nil (block : PapiBlock) : block.text ≠ [] := by
  have first : ⟨StatsPerfCounters.totIns, block.tid, block.pid, 0,
      block.value 0 StatsPerfCounters.totIns⟩ ∈ block.samples :=
    List.mem_flatMap.mpr ⟨0, List.mem_range.mpr (Nat.succ_pos _), List.mem_cons_self⟩
  intro empty
  obtain ⟨row, -, same⟩ := block.isLine_lines _ (List.mem_map_of_mem first)
  have blank := List.flatten_eq_nil_iff.mp empty _ (List.mem_map_of_mem first)
  rw [same] at blank
  exact List.append_ne_nil_of_right_ne_nil row (List.cons_ne_nil _ _) blank

end PapiBlock

/-- The lines of the threads of a team. -/
def teamLines (blocks : List PapiBlock) (tid : Nat) : List Text :=
  (blocks[tid]?.map PapiBlock.lines).getD []

theorem isLine_teamLines (blocks : List PapiBlock) (tid : Nat) :
    ∀ line ∈ teamLines blocks tid, IsLine line := by
  unfold teamLines
  cases blocks[tid]? with
  | none => exact nofun
  | some block => exact block.isLine_lines

theorem textAt_map_text (blocks : List PapiBlock) (tid : Nat) :
    textAt (blocks.map PapiBlock.text) tid = (teamLines blocks tid).flatten := by
  rw [textAt, teamLines, List.getElem?_map]
  cases blocks[tid]? <;> rfl

namespace OutputState

/-- Every run of the threads to their ends leaves the lines unbroken, each line of each thread once,
exactly when no buffer ends inside a line where another thread can append. -/
theorem unbroken_iff_keepsLines {size : Nat} (positive : 0 < size) (blocks : List PapiBlock) :
    (∀ actions final, run (step size (blocks.map PapiBlock.text)) start actions = some final →
      final.Finished (blocks.map PapiBlock.text) → Unbroken (teamLines blocks) final.file) ↔
      KeepsLines size (blocks.map PapiBlock.text) := by
  have ends : EndsLines (blocks.map PapiBlock.text) := by
    intro text member
    obtain ⟨block, -, rfl⟩ := List.mem_map.mp member
    exact getLast?_flatten block.isLine_lines
  have whole : ∀ actions final, run (step size (blocks.map PapiBlock.text)) start actions = some final →
      final.Finished (blocks.map PapiBlock.text) →
      (Unbroken (teamLines blocks) final.file ↔ ChangesAtBreaks final.file) :=
    fun actions final ran finished => unbroken_iff (isLine_teamLines blocks) fun tid => by
      rw [(consistent_run positive ran).textOf_eq finished, textAt_map_text]
  constructor
  · intro always
    by_contra torn
    obtain ⟨final, ⟨actions, ran⟩, finished, broken⟩ := exists_broken positive torn
    exact broken ((whole actions final ran finished).mp (always actions final ran finished))
  · intro keeps actions final ran finished
    exact (whole actions final ran finished).mpr (changesAtBreaks_run positive ends keeps ran)

/-- A thread with sixty phases and two counters. -/
def longBlock (tid : Nat) : PapiBlock :=
  ⟨tid, 4711, ["TOT_CYC".toList], 59, fun _ _ => 123456789012, isCounter_totCyc⟩

/-- The texts of two such threads. -/
def longTexts : List Text := [longBlock 0, longBlock 1].map PapiBlock.text

theorem unbroken_iff_keepsLines_long :
    (∀ actions final, run (step 4096 longTexts) start actions = some final →
      final.Finished longTexts → Unbroken (teamLines [longBlock 0, longBlock 1]) final.file) ↔
      KeepsLines 4096 longTexts :=
  unbroken_iff_keepsLines (by decide) [longBlock 0, longBlock 1]

theorem length_longBlock : (longBlock 0).text.length = 4660 := by decide +kernel

/-- The buffer of such a thread ends inside a line. -/
theorem splitsLine_longBlock : SplitsLine 4096 (longBlock 0).text 4096 :=
  ⟨by decide, by decide, by rw [length_longBlock]; decide, by decide +kernel⟩

/-- Two such threads may break a line of each other. -/
theorem not_unbroken_long : ∃ actions final,
    run (step 4096 longTexts) start actions = some final ∧ final.Finished longTexts ∧
    ¬Unbroken (teamLines [longBlock 0, longBlock 1]) final.file := by
  have prints : (longBlock 1).text ≠ [] := PapiBlock.text_ne_nil _
  have known : longTexts[0]? = some (longBlock 0).text := rfl
  have knownOther : longTexts[1]? = some (longBlock 1).text := rfl
  obtain ⟨final, ⟨actions, ran⟩, finished, broken⟩ :=
    exists_broken_behind (by decide) Nat.zero_ne_one known knownOther splitsLine_longBlock
      (by rw [length_longBlock]; decide) prints
  refine ⟨actions, final, ran, finished, fun unbroken => broken ?_⟩
  exact (unbroken_iff (isLine_teamLines _) fun tid => by
    rw [(consistent_run (by decide) ran).textOf_eq finished, longTexts, textAt_map_text]).mp unbroken

end OutputState

end BarrierPoint
