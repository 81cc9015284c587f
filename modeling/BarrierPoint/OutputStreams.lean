/-
This file models how the threads append their counters to one file when the
counters are stopped. Each thread has a stream of its own; it prints in a
critical section and closes the stream behind it. A stream hands its characters
to the file when its buffer is full, and what is left when it is closed. So the
critical section keeps the lines of a thread together only as far as they reach
the file inside of it: a buffer that ends inside a line leaves the rest of the
line to a moment at which another thread may append.
-/

import BarrierPoint.Library.Machine
import BarrierPoint.Library.Marked
import BarrierPoint.PapiBlocks

namespace BarrierPoint

open Library

/-! ### The streams -/

/-- The stream of a thread: in front of the critical section, inside it with the text that is not
yet printed and the text in the buffer, behind it with the text in the buffer, and closed. Opening a
stream to append leaves the file as it is. -/
inductive Stream where
  | opened
  | printing (rest buffer : Text)
  | printed (buffer : Text)
  | closed
  deriving DecidableEq, Repr

/-- The thread in the critical section, the streams of all threads, and the file. -/
structure OutputState where
  critical : Option Nat
  streams : Nat → Stream
  file : MarkedFile

/-- A step of a thread: it enters the critical section, prints the next character, leaves the
critical section, or closes its stream. -/
inductive OutputStep where
  | enter (tid : Nat)
  | print (tid : Nat)
  | leave (tid : Nat)
  | close (tid : Nat)
  deriving DecidableEq, Repr

namespace OutputState

/-- All streams are opened. -/
def start : OutputState where
  critical := none
  streams := fun _ => .opened
  file := []

/-- Set the stream of a thread. -/
def withStream (state : OutputState) (tid : Nat) (stream : Stream) : OutputState :=
  { state with streams := Function.update state.streams tid stream }

/-- Set the thread in the critical section. -/
def withCritical (state : OutputState) (critical : Option Nat) : OutputState :=
  { state with critical }

/-- Hand a text of a thread to the file. -/
def append (state : OutputState) (tid : Nat) (text : Text) : OutputState :=
  { state with file := state.file ++ mark tid text }

/-- One step. A buffer of the given size is handed to the file when it is full. -/
def step (size : Nat) (texts : List Text) (state : OutputState) : OutputStep → Option OutputState
  | .enter tid =>
      match texts[tid]?, state.streams tid, state.critical with
      | some text, .opened, none =>
          some ((state.withStream tid (.printing text [])).withCritical (some tid))
      | _, _, _ => none
  | .print tid =>
      match state.streams tid with
      | .printing (c :: rest) buffer =>
          if (buffer ++ [c]).length = size
          then some ((state.append tid (buffer ++ [c])).withStream tid (.printing rest []))
          else some (state.withStream tid (.printing rest (buffer ++ [c])))
      | _ => none
  | .leave tid =>
      match state.streams tid with
      | .printing [] buffer =>
          some ((state.withStream tid (.printed buffer)).withCritical none)
      | _ => none
  | .close tid =>
      match state.streams tid with
      | .printed buffer => some ((state.append tid buffer).withStream tid .closed)
      | _ => none

/-- All threads have closed their streams. -/
def Finished (texts : List Text) (state : OutputState) : Prop :=
  ∀ tid < texts.length, state.streams tid = .closed

end OutputState

/-! ### What a thread has written -/

/-- How far a thread has come with its text: full buffers have reached the file, and less than one
is left in the buffer. -/
def Progress (size : Nat) (text written : Text) : Stream → Prop
  | .opened => written = []
  | .printing rest buffer => text = written ++ buffer ++ rest ∧ size ∣ written.length ∧
      buffer.length < size
  | .printed buffer => text = written ++ buffer ∧ size ∣ written.length ∧ buffer.length < size
  | .closed => written = text

/-- The text of a thread, which is empty for a thread outside the team. -/
def textAt (texts : List Text) (tid : Nat) : Text := texts[tid]?.getD []

namespace OutputState

/-- The file holds what the threads have written so far, and at most one of them is in the critical
section. -/
structure Consistent (size : Nat) (texts : List Text) (state : OutputState) : Prop where
  progress : ∀ tid, Progress size (textAt texts tid) (textOf tid state.file) (state.streams tid)
  alone : ∀ tid rest buffer, state.streams tid = .printing rest buffer → state.critical = some tid
  known : ∀ tid, state.streams tid ≠ .opened → tid < texts.length

variable {size : Nat} {texts : List Text} {state next : OutputState} {tid : Nat}

theorem consistent_start (size : Nat) (texts : List Text) : start.Consistent size texts :=
  ⟨fun _ => rfl, nofun, fun _ different => (different rfl).elim⟩

/-- What a step does: the stream of its thread goes on, a text may be handed to the file, and the
other streams stay as they are. -/
theorem step_cases {action : OutputStep} (stepped : state.step size texts action = some next) :
    (∃ tid text, action = .enter tid ∧ texts[tid]? = some text ∧ state.streams tid = .opened ∧
      state.critical = none ∧
      next = (state.withStream tid (.printing text [])).withCritical (some tid)) ∨
    (∃ tid c rest buffer, action = .print tid ∧ state.streams tid = .printing (c :: rest) buffer ∧
      (((buffer ++ [c]).length = size ∧
        next = (state.append tid (buffer ++ [c])).withStream tid (.printing rest [])) ∨
      ((buffer ++ [c]).length ≠ size ∧
        next = state.withStream tid (.printing rest (buffer ++ [c]))))) ∨
    (∃ tid buffer, action = .leave tid ∧ state.streams tid = .printing [] buffer ∧
      next = (state.withStream tid (.printed buffer)).withCritical none) ∨
    (∃ tid buffer, action = .close tid ∧ state.streams tid = .printed buffer ∧
      next = (state.append tid buffer).withStream tid .closed) := by
  cases action with
  | enter tid =>
    simp only [step] at stepped
    split at stepped
    · rename_i text known opened free
      exact .inl ⟨tid, text, rfl, known, opened, free, (Option.some_inj.mp stepped).symm⟩
    · cases stepped
  | print tid =>
    simp only [step] at stepped
    split at stepped
    · rename_i c rest buffer held
      refine .inr (.inl ⟨tid, c, rest, buffer, rfl, held, ?_⟩)
      split at stepped
      · rename_i full
        exact .inl ⟨full, (Option.some_inj.mp stepped).symm⟩
      · rename_i room
        exact .inr ⟨room, (Option.some_inj.mp stepped).symm⟩
    · cases stepped
  | leave tid =>
    simp only [step] at stepped
    split at stepped
    · rename_i buffer held
      exact .inr (.inr (.inl ⟨tid, buffer, rfl, held, (Option.some_inj.mp stepped).symm⟩))
    · cases stepped
  | close tid =>
    simp only [step] at stepped
    split at stepped
    · rename_i buffer held
      exact .inr (.inr (.inr ⟨tid, buffer, rfl, held, (Option.some_inj.mp stepped).symm⟩))
    · cases stepped

/-- A thread that goes on and hands a text to the file leaves the others as they are. -/
theorem Consistent.advance (consistent : state.Consistent size texts) (chunk : Text) {stream : Stream}
    (streams : next.streams = Function.update state.streams tid stream)
    (file : next.file = state.file ++ mark tid chunk) (inside : tid < texts.length)
    (here : Progress size (textAt texts tid) (textOf tid state.file ++ chunk) stream)
    (own : ∀ rest buffer, stream = .printing rest buffer → next.critical = some tid)
    (others : ∀ other, other ≠ tid → state.critical = some other → next.critical = some other) :
    next.Consistent size texts := by
  refine ⟨fun other => ?_, fun other rest buffer printing => ?_, fun other started => ?_⟩
  · rw [streams, file, textOf_append]
    by_cases same : other = tid
    · subst same
      rw [Function.update_self, textOf_mark_self]
      exact here
    · rw [Function.update_of_ne same, textOf_mark_of_ne (Ne.symm same), List.append_nil]
      exact consistent.progress other
  · rw [streams] at printing
    by_cases same : other = tid
    · subst same
      rw [Function.update_self] at printing
      exact own rest buffer printing
    · rw [Function.update_of_ne same] at printing
      exact others other same (consistent.alone other rest buffer printing)
  · by_cases same : other = tid
    · rw [same]
      exact inside
    · rw [streams, Function.update_of_ne same] at started
      exact consistent.known other started

theorem consistent_step (positive : 0 < size) (consistent : state.Consistent size texts)
    {action : OutputStep} (stepped : state.step size texts action = some next) :
    next.Consistent size texts := by
  rcases step_cases stepped with ⟨tid, text, rfl, known, opened, free, rfl⟩ |
    ⟨tid, c, rest, buffer, rfl, held, ⟨full, rfl⟩ | ⟨room, rfl⟩⟩ | ⟨tid, buffer, rfl, held, rfl⟩ |
    ⟨tid, buffer, rfl, held, rfl⟩
  · have progress := consistent.progress tid
    rw [opened] at progress
    have nothing : textOf tid state.file = [] := progress
    refine consistent.advance [] rfl (List.append_nil _).symm
      (List.getElem?_eq_some_iff.mp known).1 ?_ (fun _ _ _ => rfl) fun other _ taken => ?_
    · rw [nothing, textAt, known]
      exact ⟨rfl, Nat.dvd_zero size, positive⟩
    · rw [free] at taken
      cases taken
  · have progress := consistent.progress tid
    rw [held] at progress
    obtain ⟨text, flushed, -⟩ := progress
    refine consistent.advance (buffer ++ [c]) rfl rfl (consistent.known tid (by rw [held]; nofun))
      ⟨?_, ?_, positive⟩ (fun _ _ _ => consistent.alone tid _ _ held) fun _ _ => id
    · rw [text]
      simp
    · rw [List.length_append, full]
      exact Nat.dvd_add_self_right.mpr flushed
  · have progress := consistent.progress tid
    rw [held] at progress
    obtain ⟨text, flushed, small⟩ := progress
    refine consistent.advance [] rfl (List.append_nil _).symm
      (consistent.known tid (by rw [held]; nofun)) ?_ (fun _ _ _ => consistent.alone tid _ _ held)
      fun _ _ => id
    rw [List.append_nil]
    refine ⟨by rw [text]; simp, flushed, ?_⟩
    rw [List.length_append, List.length_singleton] at room ⊢
    omega
  · have progress := consistent.progress tid
    rw [held] at progress
    obtain ⟨text, flushed, small⟩ := progress
    refine consistent.advance [] rfl (List.append_nil _).symm
      (consistent.known tid (by rw [held]; nofun)) ?_ nofun fun other different taken => ?_
    · rw [List.append_nil]
      exact ⟨by rw [text, List.append_nil], flushed, small⟩
    · rw [consistent.alone tid _ _ held] at taken
      exact (different (Option.some_inj.mp taken).symm).elim
  · have progress := consistent.progress tid
    rw [held] at progress
    refine consistent.advance buffer rfl rfl
      (consistent.known tid (by rw [held]; nofun)) progress.1.symm nofun fun _ _ => id

theorem consistent_run (positive : 0 < size) {actions : List OutputStep} {final : OutputState}
    (ran : run (step size texts) start actions = some final) : final.Consistent size texts :=
  run_invariant (Consistent size texts)
    (fun _ _ _ consistent _ stepped => consistent_step positive consistent stepped)
    (consistent_start size texts) (along_of_forall (fun _ _ => trivial) actions start) ran

/-- When all streams are closed, every thread has written its text. -/
theorem Consistent.textOf_eq (consistent : state.Consistent size texts)
    (finished : state.Finished texts) (tid : Nat) :
    textOf tid state.file = textAt texts tid := by
  have progress := consistent.progress tid
  rcases Nat.lt_or_ge tid texts.length with inside | beyond
  · rw [finished tid inside] at progress
    exact progress
  · have untouched : state.streams tid = .opened := by
      by_contra started
      exact absurd (consistent.known tid started) (Nat.not_lt.mpr beyond)
    rw [untouched] at progress
    rw [show textOf tid state.file = [] from progress, textAt, List.getElem?_eq_none beyond]
    rfl

end OutputState

/-! ### Buffers that end inside a line -/

/-- A full buffer of a text ends at a place inside a line. -/
def SplitsLine (size : Nat) (text : Text) (boundary : Nat) : Prop :=
  0 < boundary ∧ size ∣ boundary ∧ boundary < text.length ∧ text[boundary - 1]? ≠ some '\n'

/-- Where a full buffer of a thread ends inside a line, no other thread can append: before another
full buffer the others have only full buffers themselves, which they print in the critical section,
and before the last characters they print nothing at all. -/
def KeepsLines (size : Nat) (texts : List Text) : Prop :=
  ∀ (tid other : Nat) (text another : Text), tid ≠ other → texts[tid]? = some text →
    texts[other]? = some another → ∀ boundary, SplitsLine size text boundary →
      if boundary + size ≤ text.length then size ∣ another.length else another = []

/-- What is printed of a sample is a line. -/
theorem Sample.isLine_line {sample : Sample} (named : IsCounter sample.stat) :
    IsLine sample.line := by
  have word : '\n' ∉ sample.stat := fun member => absurd (named.1 _ member) (by decide)
  have digits : ∀ number, '\n' ∉ decimal number := notMem_decimal (by decide)
  refine ⟨_, ?_, rfl⟩
  simp [word, digits]

/-- Texts end with a line break. -/
def EndsLines (texts : List Text) : Prop := ∀ text ∈ texts, ∀ c ∈ text.getLast?, c = '\n'

namespace OutputState

variable {size : Nat} {texts : List Text} {state next : OutputState} {tid : Nat}

/-- A thread whose last character in the file is no line break has a buffer that ends inside a line,
and is not done with its text. -/
theorem Consistent.splitsLine (consistent : state.Consistent size texts) (ends : EndsLines texts)
    {before : MarkedFile} {c : Char} (last : state.file = before ++ [(tid, c)]) (inside : c ≠ '\n') :
    ∃ text, texts[tid]? = some text ∧ SplitsLine size text (textOf tid state.file).length ∧
      ((∃ rest buffer, state.streams tid = .printing rest buffer) ∨
        ∃ buffer, state.streams tid = .printed buffer ∧
          text.length < (textOf tid state.file).length + size) := by
  have written : textOf tid state.file = textOf tid before ++ [c] := by
    rw [last, textOf_append]
    exact congrArg (textOf tid before ++ ·) (textOf_mark_self tid [c])
  have nonempty : textOf tid state.file ≠ [] := by
    rw [written]
    exact List.append_ne_nil_of_right_ne_nil _ (List.cons_ne_nil _ _)
  have started : state.streams tid ≠ .opened := by
    intro opened
    have progress := consistent.progress tid
    rw [opened] at progress
    exact nonempty progress
  have member : tid < texts.length := consistent.known tid started
  have held := List.getElem?_eq_getElem member
  have text_eq : textAt texts tid = texts[tid] := by
    rw [textAt, held]
    rfl
  have unfinished : textOf tid state.file ≠ textAt texts tid := by
    intro whole
    refine inside (ends _ (List.getElem_mem member) c ?_)
    rw [← text_eq, ← whole, written]
    exact List.getLast?_concat
  have splits : ∀ rest, textAt texts tid = textOf tid state.file ++ rest →
      size ∣ (textOf tid state.file).length →
      SplitsLine size (textAt texts tid) (textOf tid state.file).length := by
    intro rest text flushed
    refine ⟨List.length_pos_of_ne_nil nonempty, flushed, ?_, ?_⟩
    · rw [text, List.length_append]
      refine Nat.lt_add_of_pos_right (List.length_pos_of_ne_nil fun nothing => unfinished ?_)
      rw [text, nothing, List.append_nil]
    · rw [text, List.getElem?_append_left (Nat.sub_lt (List.length_pos_of_ne_nil nonempty)
        Nat.one_pos), ← List.getLast?_eq_getElem?, written, List.getLast?_concat]
      exact fun same => inside (Option.some_inj.mp same)
  have progress := consistent.progress tid
  refine ⟨_, held, ?_⟩
  rw [← text_eq]
  cases stream : state.streams tid with
  | opened => exact (started stream).elim
  | printing rest buffer =>
    rw [stream] at progress
    obtain ⟨text, flushed, -⟩ := progress
    exact ⟨splits (buffer ++ rest) (by rw [text, List.append_assoc]) flushed,
      .inl ⟨rest, buffer, rfl⟩⟩
  | printed buffer =>
    rw [stream] at progress
    obtain ⟨text, flushed, small⟩ := progress
    refine ⟨splits buffer text flushed, .inr ⟨buffer, rfl, ?_⟩⟩
    have length := congrArg List.length text
    rw [List.length_append] at length
    omega
  | closed =>
    rw [stream] at progress
    exact (unfinished progress).elim

/-- A thread appends something where another one has left a line unfinished only if a buffer ends
inside a line there. -/
theorem Consistent.behind (consistent : state.Consistent size texts) (ends : EndsLines texts)
    (keeps : KeepsLines size texts) {chunk : Text} (filled : chunk ≠ [])
    (started : tid < texts.length)
    (pending : (∃ rest buffer, state.streams tid = .printing rest buffer ∧
        textAt texts tid ≠ []) ∨
      state.streams tid = .printed chunk) :
    ∀ before other c, state.file = before ++ [(other, c)] → other ≠ tid → c = '\n' := by
  intro before other c last different
  by_contra inside
  obtain ⟨text, held, splits, place⟩ := consistent.splitsLine ends last inside
  have heldOwn := List.getElem?_eq_getElem started
  have text_eq : textAt texts tid = texts[tid] := by
    rw [textAt, heldOwn]
    rfl
  have kept := keeps other tid text _ different held heldOwn _ splits
  rw [← text_eq] at kept
  rcases pending with ⟨rest, buffer, printing, nonempty⟩ | printed
  · rcases place with ⟨otherRest, otherBuffer, otherPrinting⟩ | ⟨otherBuffer, -, small⟩
    · have same := (consistent.alone other _ _ otherPrinting).symm.trans
        (consistent.alone tid _ _ printing)
      exact different (Option.some_inj.mp same)
    · rw [if_neg (Nat.not_le.mpr small)] at kept
      exact nonempty kept
  · have progress := consistent.progress tid
    rw [printed] at progress
    obtain ⟨whole, flushed, small⟩ := progress
    have empty : chunk = [] := by
      by_cases full : (textOf other state.file).length + size ≤ text.length
      · rw [if_pos full, whole, List.length_append] at kept
        exact List.eq_nil_of_length_eq_zero
          (Nat.eq_zero_of_dvd_of_lt ((Nat.dvd_add_right flushed).mp kept) small)
      · rw [if_neg full, whole] at kept
        exact (List.append_eq_nil_iff.mp kept).2
    exact filled empty

/-- A step of threads whose lines are kept changes the thread behind line breaks only. -/
theorem changesAtBreaks_step (consistent : state.Consistent size texts) (ends : EndsLines texts)
    (keeps : KeepsLines size texts) (changes : ChangesAtBreaks state.file) {action : OutputStep}
    (stepped : state.step size texts action = some next) : ChangesAtBreaks next.file := by
  rcases step_cases stepped with ⟨tid, text, rfl, known, opened, free, rfl⟩ |
    ⟨tid, c, rest, buffer, rfl, held, ⟨full, rfl⟩ | ⟨room, rfl⟩⟩ | ⟨tid, buffer, rfl, held, rfl⟩ |
    ⟨tid, buffer, rfl, held, rfl⟩
  · exact changes
  · have progress := consistent.progress tid
    rw [held] at progress
    refine changesAtBreaks_append changes fun filled => consistent.behind ends keeps filled
      (consistent.known tid (by rw [held]; nofun)) (.inl ⟨_, _, held, ?_⟩)
    rw [progress.1]
    exact List.append_ne_nil_of_right_ne_nil _ (List.cons_ne_nil _ _)
  · exact changes
  · exact changes
  · exact changesAtBreaks_append changes fun filled => consistent.behind ends keeps filled
      (consistent.known tid (by rw [held]; nofun)) (.inr held)

theorem changesAtBreaks_run (positive : 0 < size) (ends : EndsLines texts)
    (keeps : KeepsLines size texts) {actions : List OutputStep} {final : OutputState}
    (ran : run (step size texts) start actions = some final) : ChangesAtBreaks final.file := by
  have first : ChangesAtBreaks start.file := List.isChain_nil
  have both : final.Consistent size texts ∧ ChangesAtBreaks final.file :=
    run_invariant (fun state => state.Consistent size texts ∧ ChangesAtBreaks state.file)
      (fun _ _ _ holds _ stepped => ⟨consistent_step positive holds.1 stepped,
        changesAtBreaks_step holds.1 ends keeps holds.2 stepped⟩)
      ⟨consistent_start size texts, first⟩
      (along_of_forall (fun _ _ => trivial) actions start) ran
  exact both.2

end OutputState

end BarrierPoint
