/-
This file follows the parser through the files of counters that the batch
script writes. What it holds for a counter, a thread and a barrier are the
values of the lines read for them, in the order of these lines, over all
files and all rounds.
-/

import BarrierPoint.RunBenchmarks
import BarrierPoint.Library.Rows

namespace BarrierPoint

open Library

/-! ### Lines -/

namespace Sample

theorem digits_decimal (number : Nat) (rest : Text) (stops : ∀ c ∈ rest.head?, c.isDigit = false) :
    digits (decimal number ++ rest) = some (number, rest) := by
  have isDigits : ∀ c ∈ decimal number, c.isDigit = true := fun _ => isDigit_of_mem_decimal
  have taken : (decimal number ++ rest).takeWhile Char.isDigit = decimal number := by
    rw [List.takeWhile_append_of_pos isDigits]
    cases rest with
    | nil => rw [List.takeWhile_nil, List.append_nil]
    | cons c rest =>
      rw [List.takeWhile_cons_of_neg (by rw [stops c rfl]; exact Bool.false_ne_true),
        List.append_nil]
  have dropped : (decimal number ++ rest).dropWhile Char.isDigit = rest := by
    rw [List.dropWhile_append_of_pos isDigits]
    cases rest with
    | nil => rfl
    | cons c rest =>
      rw [List.dropWhile_cons_of_neg (by rw [stops c rfl]; exact Bool.false_ne_true)]
  simp only [digits]
  rw [taken, if_neg (decimal_ne_nil number), dropped]
  exact congrArg (fun number => some (number, rest)) Nat.ofDigitChars_ten_toDigits

theorem bracketed_decimal (number : Nat) (rest : Text) :
    bracketed ('[' :: decimal number ++ ']' :: rest) = some (number, rest) := by
  have read := digits_decimal number (']' :: rest) fun c first => by
    cases first
    decide
  show (digits (decimal number ++ ']' :: rest)).bind _ = _
  rw [read]
  rfl

/-- The name of a counter: word characters with an underscore inside. -/
def IsCounter (stat : Text) : Prop := (∀ c ∈ stat, isWord c) ∧ '_' ∈ (stat.drop 1).dropLast

instance (stat : Text) : Decidable (IsCounter stat) :=
  inferInstanceAs (Decidable ((∀ c ∈ stat, isWord c) ∧ '_' ∈ (stat.drop 1).dropLast))

theorem line_eq (stat : Text) (tid pid bid value : Nat) :
    line ⟨stat, tid, pid, bid, value⟩ = "PAPI_".toList ++ (stat ++ ('[' :: decimal tid ++ ']' ::
      ('[' :: decimal pid ++ ']' :: ('[' :: decimal bid ++ ']' ::
        '=' :: (decimal value ++ ['\n']))))) := by
  unfold line
  generalize "PAPI_".toList = start
  simp only [List.append_assoc, List.cons_append]

theorem dropPrefix?_append (start rest : Text) : (start ++ rest).dropPrefix? start = some rest := by
  rw [List.dropPrefix?_eq_some_iff]
  exact ⟨start, rfl, beq_self_eq_true start⟩

/-- A printed line is parsed as the sample it was printed for. -/
theorem parse_line {sample : Sample} (named : IsCounter sample.stat) :
    parse sample.line = some sample := by
  obtain ⟨stat, tid, pid, bid, value⟩ := sample
  obtain ⟨word, inner⟩ := named
  have read := digits_decimal value ['\n'] fun c first => by
    cases first
    decide
  have name : ∀ numeral rest, (stat ++ ('[' :: numeral ++ rest)).takeWhile isWord = stat := by
    intro numeral rest
    rw [List.takeWhile_append_of_pos word, List.cons_append,
      List.takeWhile_cons_of_neg (by decide), List.append_nil]
  have behind : ∀ numeral rest,
      (stat ++ ('[' :: numeral ++ rest)).dropWhile isWord = '[' :: numeral ++ rest := by
    intro numeral rest
    rw [List.dropWhile_append_of_pos word, List.cons_append,
      List.dropWhile_cons_of_neg (by decide)]
  have matched : matchAt (line ⟨stat, tid, pid, bid, value⟩) =
      some ⟨stat, tid, pid, bid, value⟩ := by
    rw [line_eq, matchAt, dropPrefix?_append]
    simp only [Option.bind_eq_bind, Option.bind_some, name, behind, guard, if_pos inner,
      bracketed_decimal, read, Option.pure_def]
  rw [parse]
  cases shape : line ⟨stat, tid, pid, bid, value⟩ with
  | nil =>
    rw [shape] at matched
    cases matched
  | cons c rest =>
    rw [List.tails, List.findSome?_cons, ← shape, matched]

end Sample

/-! ### The parser -/

namespace StatsPerfCounters

/-- The number of barriers after samples of these barriers. -/
def barriersAfter (barriers : Nat) (samples : List Sample) : Nat :=
  samples.foldl (fun barriers sample => max barriers (sample.bid + 1)) barriers

/-- No sample skips a barrier. -/
def InTurn : Nat → List Sample → Prop
  | _, [] => True
  | barriers, sample :: samples =>
      sample.bid ≤ barriers ∧ InTurn (max barriers (sample.bid + 1)) samples

/-- The values recorded for a counter of a thread at a barrier, in order. -/
def valuesOf (samples : List Sample) (stat : Text) (tid bid : Nat) : List Nat :=
  (samples.filter fun sample => sample.stat = stat ∧ sample.tid = tid ∧ sample.bid = bid).map
    (·.value)

/-- There is a place for every barrier and thread. -/
structure Shaped (nthreads barriers : Nat) (counters : StatsPerfCounters) : Prop where
  length : counters.stats.length = barriers
  sameLength : counters.tInst.length = barriers
  threads : ∀ row ∈ counters.stats, row.length = nthreads
  instThreads : ∀ row ∈ counters.tInst, row.length = nthreads

/-- The samples held for a counter of a thread at a barrier. -/
def entries (counters : StatsPerfCounters) (stat : Text) (tid bid : Nat) : List (Nat × Nat) :=
  (((cell counters.stats bid tid).getD ∅).lookup stat).getD []

/-- The instruction count of a thread at a barrier that was read last. -/
def inst (counters : StatsPerfCounters) (tid bid : Nat) : Nat := (cell counters.tInst bid tid).getD 0

/-- The parser has read these samples: it has a place for every barrier and thread, which holds the
values of each counter in order. -/
structure Parsed (nthreads : Nat) (samples : List Sample) (barriers : Nat)
    (counters : StatsPerfCounters) : Prop where
  length : counters.stats.length = barriers
  sameLength : counters.tInst.length = barriers
  bids : ∀ sample ∈ samples, sample.bid < barriers
  threads : ∀ row ∈ counters.stats, row.length = nthreads
  instThreads : ∀ row ∈ counters.tInst, row.length = nthreads
  values : ∀ (bid tid : Nat) row thread, counters.stats[bid]? = some row →
    row[tid]? = some thread → ∀ stat,
      ((thread.lookup stat).getD []).map Prod.snd = valuesOf samples stat tid bid

variable {nthreads barriers : Nat} {samples : List Sample} {counters : StatsPerfCounters}

theorem parsed_new (nthreads : Nat) : Parsed nthreads [] 0 { stats := [], tInst := [] } :=
  ⟨rfl, rfl, nofun, nofun, nofun, fun _ _ _ _ held => nomatch held⟩

/-- Making room for the next barrier adds a blank place for every thread. -/
theorem Shaped.grow (shaped : Shaped nthreads barriers counters) {bid : Nat}
    (next : bid ≤ barriers) :
    Shaped nthreads (max barriers (bid + 1)) (counters.grow nthreads bid) ∧
      (counters.grow nthreads bid).entries = counters.entries ∧
      (counters.grow nthreads bid).inst = counters.inst := by
  unfold StatsPerfCounters.grow
  split
  · rename_i short
    rw [shaped.length] at short
    rw [show max barriers (bid + 1) = barriers + 1 by omega]
    refine ⟨⟨?_, ?_, fun row member => ?_, fun row member => ?_⟩, ?_, ?_⟩
    · rw [List.length_append, shaped.length]
      rfl
    · rw [List.length_append, shaped.sameLength]
      rfl
    · rcases List.mem_append.mp member with old | new
      · exact shaped.threads row old
      · rw [List.mem_singleton.mp new, List.length_replicate]
    · rcases List.mem_append.mp member with old | new
      · exact shaped.instThreads row old
      · rw [List.mem_singleton.mp new, List.length_replicate]
    · funext stat tid bid
      rw [entries, getD_cell_append_replicate]
      rfl
    · funext tid bid
      rw [inst, getD_cell_append_replicate]
      rfl
  · rename_i room
    rw [shaped.length] at room
    rw [show max barriers (bid + 1) = barriers by omega]
    exact ⟨shaped, rfl, rfl⟩

/-- Counting the instructions keeps a place for every barrier and thread, and writes the one of the
sample when it counts instructions. -/
theorem countInstructions_spec {tInst : List (List Nat)} {sample : Sample}
    (inside : sample.bid < tInst.length) (rows : ∀ row ∈ tInst, row.length = nthreads)
    (known : sample.tid < nthreads) : ∃ next, countInstructions tInst sample = .ok next ∧
      next.length = tInst.length ∧ (∀ row ∈ next, row.length = nthreads) ∧
      ∀ tid bid : Nat, (cell next bid tid).getD 0 =
        if sample.stat = totIns ∧ sample.bid = bid ∧ sample.tid = tid then sample.value
        else (cell tInst bid tid).getD 0 := by
  unfold countInstructions
  split
  · rename_i counts
    have held := List.getElem?_eq_getElem inside
    have width := rows _ (List.getElem_mem inside)
    refine ⟨_, (bind_of_eq_ok (getItem_of_getElem? held) _).trans
      ((bind_of_eq_ok (setItem_of_lt (width ▸ known) sample.value) _).trans
        (setItem_of_lt inside _)), List.length_set, fun row member => ?_, fun tid bid => ?_⟩
    · rcases List.mem_or_eq_of_mem_set member with old | rfl
      · exact rows row old
      · rw [List.length_set, width]
    · rw [cell_set held (width ▸ known)]
      by_cases here : sample.bid = bid ∧ sample.tid = tid
      · rw [if_pos here, if_pos ⟨counts, here⟩]
        rfl
      · rw [if_neg here, if_neg fun same => here same.2]
  · rename_i other
    exact ⟨tInst, rfl, rfl, rows, fun tid bid => (if_neg fun same => other same.1).symm⟩

theorem valuesOf_append (first second : List Sample) (stat : Text) (tid bid : Nat) :
    valuesOf (first ++ second) stat tid bid =
      valuesOf first stat tid bid ++ valuesOf second stat tid bid := by
  rw [valuesOf, List.filter_append, List.map_append]
  rfl

theorem valuesOf_singleton (sample : Sample) (stat : Text) (tid bid : Nat) :
    valuesOf [sample] stat tid bid =
      if sample.stat = stat ∧ sample.tid = tid ∧ sample.bid = bid then [sample.value] else [] := by
  simp only [valuesOf, List.filter_cons, decide_eq_true_eq, List.filter_nil]
  split <;> rfl

/-- A sample of a barrier that is next at most is appended to the list of its counter, with the
instruction count of its place, and changes no other list. -/
theorem Shaped.addSample (shaped : Shaped nthreads barriers counters) {sample : Sample}
    (next : sample.bid ≤ barriers) (known : sample.tid < nthreads) : ∃ after,
    counters.addSample nthreads sample = .ok after ∧
      Shaped nthreads (max barriers (sample.bid + 1)) after ∧
      (∀ tid bid : Nat, after.inst tid bid =
        if sample.stat = totIns ∧ sample.bid = bid ∧ sample.tid = tid then sample.value
        else counters.inst tid bid) ∧
      ∀ stat (tid bid : Nat), after.entries stat tid bid = counters.entries stat tid bid ++
        if sample.stat = stat ∧ sample.tid = tid ∧ sample.bid = bid
          then [(after.inst sample.tid sample.bid, sample.value)] else [] := by
  obtain ⟨grown, sameEntries, sameInst⟩ := shaped.grow next
  have here : sample.bid < max barriers (sample.bid + 1) := by omega
  simp only [StatsPerfCounters.addSample]
  rw [← sameEntries, ← sameInst]
  clear sameEntries sameInst
  generalize counters.grow nthreads sample.bid = counters at grown
  have inside : sample.bid < counters.stats.length := grown.length.symm ▸ here
  have insideInst : sample.bid < counters.tInst.length := grown.sameLength.symm ▸ here
  obtain ⟨tInst, counts, sameSize, instThreads, insts⟩ :=
    countInstructions_spec insideInst grown.instThreads known
  have held := List.getElem?_eq_getElem inside
  have width := grown.threads _ (List.getElem_mem inside)
  have heldThread := List.getElem?_eq_getElem (width.symm ▸ known)
  have heldInsts := List.getElem?_eq_getElem (sameSize.symm ▸ insideInst)
  have heldInst := List.getElem?_eq_getElem
    ((instThreads _ (List.getElem_mem (sameSize.symm ▸ insideInst))).symm ▸ known)
  refine ⟨_, (bind_of_eq_ok counts _).trans ((bind_of_eq_ok (getItem_of_getElem? held) _).trans
    ((bind_of_eq_ok (getItem_of_getElem? heldThread) _).trans
      ((bind_of_eq_ok (getItem_of_getElem? heldInsts) _).trans
        ((bind_of_eq_ok (getItem_of_getElem? heldInst) _).trans
          ((bind_of_eq_ok (setItem_of_lt (width.symm ▸ known) _) _).trans
            (bind_of_eq_ok (setItem_of_lt inside _) _)))))), ?_⟩
  refine ⟨⟨?_, sameSize.trans grown.sameLength, fun row member => ?_, instThreads⟩, insts,
    fun stat tid bid => ?_⟩
  · exact List.length_set.trans grown.length
  · rcases List.mem_or_eq_of_mem_set member with old | rfl
    · exact grown.threads row old
    · rw [List.length_set, width]
  · have inst_eq := cell_eq_some heldInsts heldInst
    rw [entries, entries, cell_set held (width.symm ▸ known)]
    by_cases place : sample.bid = bid ∧ sample.tid = tid
    · obtain ⟨rfl, rfl⟩ := place
      rw [if_pos ⟨rfl, rfl⟩, cell_eq_some held heldThread, inst, inst_eq]
      show ((AList.insert _ _ _ : CounterDict).lookup stat).getD [] = _
      by_cases sameStat : sample.stat = stat
      · subst sameStat
        rw [AList.lookup_insert, if_pos ⟨rfl, rfl, rfl⟩]
        rfl
      · rw [AList.lookup_insert_ne (Ne.symm sameStat), if_neg fun same => sameStat same.1,
          List.append_nil]
        rfl
    · rw [if_neg place, if_neg fun same => place ⟨same.2.2, same.2.1⟩, List.append_nil]

theorem Parsed.shaped (parsed : Parsed nthreads samples barriers counters) :
    Shaped nthreads barriers counters :=
  ⟨parsed.length, parsed.sameLength, parsed.threads, parsed.instThreads⟩

theorem map_entries (parsed : Parsed nthreads samples barriers counters) {tid : Nat}
    (known : tid < nthreads) (stat : Text) (bid : Nat) :
    (counters.entries stat tid bid).map Prod.snd = valuesOf samples stat tid bid := by
  rcases Nat.lt_or_ge bid counters.stats.length with inside | beyond
  · have held := List.getElem?_eq_getElem inside
    have width := parsed.threads _ (List.getElem_mem inside)
    have heldThread := List.getElem?_eq_getElem (width.symm ▸ known)
    rw [entries, cell_eq_some held heldThread]
    exact parsed.values bid tid _ _ held heldThread stat
  · have unseen : valuesOf samples stat tid bid = [] := by
      rw [valuesOf, List.filter_eq_nil_iff.mpr]
      · rfl
      · intro sample member same
        have early := parsed.bids sample member
        have here := (of_decide_eq_true same).2.2
        rw [parsed.length] at beyond
        omega
    rw [unseen, entries, cell, List.getElem?_eq_none beyond]
    rfl

/-- A sample of a barrier that is next at most is appended to the list of its counter. -/
theorem Parsed.addSample (parsed : Parsed nthreads samples barriers counters) {sample : Sample}
    (next : sample.bid ≤ barriers) (known : sample.tid < nthreads) : ∃ after,
    counters.addSample nthreads sample = .ok after ∧
      Parsed nthreads (samples ++ [sample]) (max barriers (sample.bid + 1)) after := by
  obtain ⟨after, added, shaped, -, appended⟩ := parsed.shaped.addSample next known
  refine ⟨after, added, shaped.length, shaped.sameLength, fun other member => ?_, shaped.threads,
    shaped.instThreads, fun bid tid row thread heldRow heldThread stat => ?_⟩
  · rcases List.mem_append.mp member with old | new
    · exact Nat.lt_of_lt_of_le (parsed.bids other old) (Nat.le_max_left _ _)
    · rw [List.mem_singleton.mp new]
      exact Nat.lt_of_lt_of_le (Nat.lt_succ_self _) (Nat.le_max_right _ _)
  · have within := (List.getElem?_eq_some_iff.mp heldThread).1
    rw [shaped.threads row (List.mem_of_getElem? heldRow)] at within
    have read := congrArg (List.map Prod.snd) (appended stat tid bid)
    rw [entries, cell_eq_some heldRow heldThread, List.map_append,
      map_entries parsed within] at read
    rw [valuesOf_append, valuesOf_singleton]
    refine Eq.trans read (congrArg _ ?_)
    split <;> rfl

/-- Samples that skip no barrier are all read. -/
theorem Parsed.addSamples (more : List Sample) : ∀ {samples : List Sample} {barriers : Nat}
    {counters : StatsPerfCounters}, Parsed nthreads samples barriers counters →
    InTurn barriers more → (∀ sample ∈ more, sample.tid < nthreads) → ∃ after,
      more.foldlM (StatsPerfCounters.addSample nthreads) counters = .ok after ∧
        Parsed nthreads (samples ++ more) (barriersAfter barriers more) after := by
  induction more with
  | nil =>
    intro samples barriers counters parsed _ _
    refine ⟨counters, rfl, ?_⟩
    rw [List.append_nil]
    exact parsed
  | cons sample more inductionHypothesis =>
    intro samples barriers counters parsed inTurn known
    rw [List.forall_mem_cons] at known
    obtain ⟨next, added, parsedNext⟩ := parsed.addSample inTurn.1 known.1
    obtain ⟨after, ran, parsedAfter⟩ := inductionHypothesis parsedNext inTurn.2 known.2
    refine ⟨after, ?_, ?_⟩
    · rw [List.foldlM_cons, bind_of_eq_ok added]
      exact ran
    · rw [List.append_assoc] at parsedAfter
      exact parsedAfter

theorem inTurn_append (first second : List Sample) : ∀ barriers,
    InTurn barriers (first ++ second) ↔
      InTurn barriers first ∧ InTurn (barriersAfter barriers first) second := by
  induction first with
  | nil => exact fun barriers => ⟨fun holds => ⟨trivial, holds⟩, And.right⟩
  | cons sample first inductionHypothesis =>
    intro barriers
    rw [List.cons_append]
    exact (and_congr_right fun _ => inductionHypothesis _).trans and_assoc.symm

/-- No sample skips a barrier when none is beyond those counted after the samples before it. -/
theorem inTurn_iff {samples : List Sample} : ∀ {barriers : Nat}, InTurn barriers samples ↔
    ∀ before sample after, samples = before ++ sample :: after →
      sample.bid ≤ barriersAfter barriers before := by
  induction samples with
  | nil => exact ⟨fun _ before _ _ same => absurd same.symm (by simp), fun _ => trivial⟩
  | cons first rest inductionHypothesis =>
    intro barriers
    constructor
    · intro inTurn before sample after same
      rw [same, inTurn_append] at inTurn
      exact inTurn.2.1
    · intro each
      refine ⟨each [] first rest rfl, inductionHypothesis.mpr fun before sample after same => ?_⟩
      exact each (first :: before) sample after (by rw [same]; rfl)

theorem inTurn_flatMap {Part : Type} {write : Part → List Sample} (parts : List Part)
    (each : ∀ part ∈ parts, ∀ barriers, InTurn barriers (write part)) :
    ∀ barriers, InTurn barriers (parts.flatMap write) := by
  induction parts with
  | nil => exact fun _ => trivial
  | cons part parts inductionHypothesis =>
    intro barriers
    rw [List.forall_mem_cons] at each
    rw [List.flatMap_cons, inTurn_append]
    exact ⟨each.1 barriers, inductionHypothesis each.2 _⟩

/-- The barriers counted after samples are the least number above them. -/
theorem barriersAfter_le_iff (samples : List Sample) : ∀ barriers bound,
    barriersAfter barriers samples ≤ bound ↔
      barriers ≤ bound ∧ ∀ sample ∈ samples, sample.bid < bound := by
  induction samples with
  | nil => exact fun barriers bound => (and_iff_left nofun).symm
  | cons sample samples inductionHypothesis =>
    intro barriers bound
    rw [List.forall_mem_cons]
    refine (inductionHypothesis _ bound).trans ?_
    rw [Nat.max_le, and_assoc, Nat.succ_le_iff]

/-- Samples skip no barrier when those of each thread skip none. -/
theorem inTurn_of_threads {samples : List Sample}
    (each : ∀ tid, InTurn 0 (samples.filter fun sample => sample.tid = tid)) (start : Nat) :
    InTurn start samples := by
  refine inTurn_iff.mpr fun before sample after same => ?_
  have own := inTurn_iff.mp (each sample.tid) (before.filter fun other => other.tid = sample.tid)
    sample (after.filter fun other => other.tid = sample.tid) (by
      rw [same, List.filter_append, List.filter_cons, if_pos (decide_eq_true rfl)])
  refine own.trans ((barriersAfter_le_iff _ _ _).mpr ⟨Nat.zero_le _, fun other member => ?_⟩)
  exact ((barriersAfter_le_iff before start _).mp (le_refl _)).2 other (List.mem_filter.mp member).1

theorem valuesOf_flatMap {Part : Type} (write : Part → List Sample) (parts : List Part)
    (stat : Text) (tid bid : Nat) : valuesOf (parts.flatMap write) stat tid bid =
      parts.flatMap fun part => valuesOf (write part) stat tid bid := by
  induction parts with
  | nil => rfl
  | cons part parts inductionHypothesis =>
    rw [List.flatMap_cons, valuesOf_append, inductionHypothesis, List.flatMap_cons]

/-- Reading printed lines adds the samples they were printed for. -/
theorem foldlM_addLine (nthreads : Nat) (samples : List Sample) :
    (∀ sample ∈ samples, Sample.IsCounter sample.stat) → ∀ counters,
    (samples.map Sample.line).foldlM (addLine nthreads) counters =
      samples.foldlM (addSample nthreads) counters := by
  induction samples with
  | nil => exact fun _ _ => rfl
  | cons sample samples inductionHypothesis =>
    intro named counters
    rw [List.forall_mem_cons] at named
    rw [List.map_cons, List.foldlM_cons, List.foldlM_cons, addLine, Sample.parse_line named.1]
    exact bind_congr fun _ => inductionHypothesis named.2 _

/-- The constructor adds the samples of all files, one file after the other. -/
theorem new_eq (files : Text → Option (List Text)) (filePrefix : Text) (nthreads : Nat)
    (written : List (List Sample))
    (held : ∀ (iteration : Nat) samples, written[iteration]? = some samples →
      files (filePrefix ++ decimal iteration ++ ".papi".toList) = some (samples.map Sample.line))
    (named : ∀ samples ∈ written, ∀ sample ∈ samples, Sample.IsCounter sample.stat) :
    new files filePrefix written.length nthreads =
      written.flatten.foldlM (StatsPerfCounters.addSample nthreads) { stats := [], tInst := [] } := by
  have steps : ∀ count ≤ written.length, new files filePrefix count nthreads =
      (written.take count).flatten.foldlM (StatsPerfCounters.addSample nthreads)
        { stats := [], tInst := [] } := by
    intro count
    induction count with
    | zero => exact fun _ => rfl
    | succ count inductionHypothesis =>
      intro inside
      have here := List.getElem?_eq_getElem inside
      have ran := inductionHypothesis (Nat.le_of_succ_le inside)
      rw [new] at ran ⊢
      rw [List.range_succ, List.foldlM_append, ran, List.take_add_one, here, List.flatten_append,
        List.foldlM_append]
      refine bind_congr fun counters => ?_
      rw [List.foldlM_cons, held count _ here]
      show ((written[count].map Sample.line).foldlM (addLine nthreads) counters >>= pure) = _
      rw [foldlM_addLine _ _ (named _ (List.getElem_mem inside)), bind_pure]
      show _ = [written[count]].flatten.foldlM _ _
      rw [List.flatten_singleton]
  have all := steps _ (le_refl _)
  rw [List.take_length] at all
  exact all

end StatsPerfCounters

/-! ### The files of the batch script -/

/-- One run of the application with the counters of one round: the order in which the threads wrote
their counters, and their values. -/
structure PapiRun where
  pid : Nat
  order : List Nat
  value : Text → Nat → Nat → Nat

/-- The counters of a round, without the prefix of their names. -/
def roundStats (round : Text) : List Text := (round.splitOn ',').map fun event => event.drop 5

namespace PapiRun

/-- What a thread writes: the counters of every barrier. -/
def threadSamples (run : PapiRun) (barriers : Nat) (stats : List Text) (tid : Nat) : List Sample :=
  (List.range barriers).flatMap fun bid =>
    stats.map fun stat => ⟨stat, tid, run.pid, bid, run.value stat tid bid⟩

/-- What a run appends to the file of its iteration. -/
def samples (run : PapiRun) (barriers : Nat) (stats : List Text) : List Sample :=
  run.order.flatMap (run.threadSamples barriers stats)

end PapiRun

/-- What the runs of one iteration write, one for each round. -/
def iterationSamples (platform : Platform) (barriers : Nat) (runs : List PapiRun) : List Sample :=
  ((papiRounds platform).zip runs).flatMap fun (round, run) =>
    run.samples barriers (roundStats round)

/-- The files hold what the runs of the batch script wrote: in every iteration one run for each
round, with all threads and the same number of barriers. -/
structure Written (experiment : Experiment) (files : Text → Option (List Text)) (barriers : Nat)
    (iterations : List (List PapiRun)) : Prop where
  supported : experiment.runningOn ≠ .unknown
  counted : iterations.length = experiment.iterations
  rounds : ∀ runs ∈ iterations, runs.length = (papiRounds experiment.runningOn).length
  threads : ∀ runs ∈ iterations, ∀ run ∈ runs, run.order.Perm (List.range experiment.nthreads)
  held : ∀ (iteration : Nat) runs, iterations[iteration]? = some runs →
    files (experiment.outputFile iteration) =
      some ((iterationSamples experiment.runningOn barriers runs).map Sample.line)

open StatsPerfCounters

/-- On a supported platform every round samples distinct counters, the instruction count among
them. -/
theorem papiRounds_spec {platform : Platform} {round : Text} (member : round ∈ papiRounds platform) :
    (roundStats round).Nodup ∧ totIns ∈ roundStats round ∧
      ∀ stat ∈ roundStats round, Sample.IsCounter stat := by
  revert round
  cases platform <;> decide +kernel

namespace PapiRun

variable {run : PapiRun} {barriers : Nat} {stats : List Text}

/-- The barriers of one thread come in turn. -/
theorem inTurn_threadSamples (run : PapiRun) (filled : stats ≠ []) (tid : Nat) : ∀ barriers start,
    InTurn start (run.threadSamples barriers stats tid) := by
  intro barriers
  induction barriers with
  | zero => exact fun _ => trivial
  | succ bid inductionHypothesis =>
    intro start
    have reached : bid ≤ barriersAfter start (run.threadSamples bid stats tid) := by
      cases bid with
      | zero => exact Nat.zero_le _
      | succ last =>
        obtain ⟨stat, member⟩ := List.exists_mem_of_ne_nil stats filled
        refine ((barriersAfter_le_iff _ _ _).mp (le_refl _)).2
          ⟨stat, tid, run.pid, last, run.value stat tid last⟩ ?_
        exact List.mem_flatMap.mpr ⟨last, List.mem_range.mpr (Nat.lt_succ_self _),
          List.mem_map_of_mem member⟩
    have one : ∀ (written : List Text) barriers, bid ≤ barriers → InTurn barriers
        (written.map fun stat => ⟨stat, tid, run.pid, bid, run.value stat tid bid⟩) := by
      intro written
      induction written with
      | nil => exact fun _ _ => trivial
      | cons stat written others =>
        exact fun barriers next => ⟨next, others _ (next.trans (Nat.le_max_left _ _))⟩
    rw [threadSamples, List.range_succ, List.flatMap_append, inTurn_append, List.flatMap_singleton]
    exact ⟨inductionHypothesis start, one stats _ reached⟩

theorem mem_threadSamples {tid : Nat} {sample : Sample} :
    sample ∈ run.threadSamples barriers stats tid ↔ ∃ bid < barriers, ∃ stat ∈ stats,
      ⟨stat, tid, run.pid, bid, run.value stat tid bid⟩ = sample := by
  simp only [threadSamples, List.mem_flatMap, List.mem_range, List.mem_map]

/-- A thread records one value for each of its counters and barriers. -/
theorem valuesOf_threadSamples (run : PapiRun) {tid bid : Nat} (distinct : stats.Nodup)
    (inside : bid < barriers) (stat : Text) :
    valuesOf (run.threadSamples barriers stats tid) stat tid bid =
      if stat ∈ stats then [run.value stat tid bid] else [] := by
  have counters : ∀ place, valuesOf (stats.map fun stat =>
      ⟨stat, tid, run.pid, place, run.value stat tid place⟩) stat tid bid =
        if stat ∈ stats ∧ place = bid then [run.value stat tid bid] else [] := by
    intro place
    rw [List.map_eq_flatMap, valuesOf_flatMap]
    simp only [valuesOf_singleton]
    by_cases sampled : stat ∈ stats ∧ place = bid
    · obtain ⟨member, rfl⟩ := sampled
      rw [flatMap_eq_of_only distinct member fun part _ different =>
        if_neg fun same => different same.1]
      simp [member]
    · rw [if_neg sampled]
      refine List.flatMap_eq_nil_iff.mpr fun part member => if_neg fun same => sampled ?_
      exact ⟨same.1 ▸ member, same.2.2⟩
  rw [threadSamples, valuesOf_flatMap,
    flatMap_eq_of_only List.nodup_range (List.mem_range.mpr inside) fun place _ different => by
      rw [counters, if_neg fun same => different same.2],
    counters]
  simp

/-- The samples of a run, in an order that keeps those of each thread in theirs. -/
def Interleaves (run : PapiRun) (barriers : Nat) (stats : List Text) (samples : List Sample) : Prop :=
  ∀ tid, samples.filter (fun sample => sample.tid = tid) =
    if tid ∈ run.order then run.threadSamples barriers stats tid else []

/-- One thread after the other is such an order. -/
theorem interleaves_samples (run : PapiRun) (distinct : run.order.Nodup) (barriers : Nat)
    (stats : List Text) : run.Interleaves barriers stats (run.samples barriers stats) := by
  refine filter_flatMap_eq_of_owner distinct fun tid sample member => ?_
  obtain ⟨bid, -, stat, -, rfl⟩ := mem_threadSamples.mp member
  rfl

variable {samples : List Sample}

theorem Interleaves.mem (interleaves : run.Interleaves barriers stats samples) {sample : Sample}
    (member : sample ∈ samples) :
    sample.tid ∈ run.order ∧ sample.stat ∈ stats ∧ sample.bid < barriers := by
  have own : sample ∈ samples.filter fun other => other.tid = sample.tid :=
    List.mem_filter.mpr ⟨member, decide_eq_true rfl⟩
  rw [interleaves] at own
  split at own
  · rename_i known
    obtain ⟨bid, inside, stat, counted, same⟩ := mem_threadSamples.mp own
    exact ⟨known, by rw [← same]; exact counted, by rw [← same]; exact inside⟩
  · cases own

theorem Interleaves.inTurn (interleaves : run.Interleaves barriers stats samples)
    (filled : stats ≠ []) (start : Nat) : InTurn start samples := by
  refine inTurn_of_threads (fun tid => ?_) start
  rw [interleaves]
  split
  · exact inTurn_threadSamples run filled tid barriers 0
  · trivial

/-- Of a counter, a thread and a barrier there is one value, wherever its line stands. -/
theorem Interleaves.valuesOf_eq (interleaves : run.Interleaves barriers stats samples)
    (distinct : stats.Nodup) {tid bid : Nat} (known : tid ∈ run.order) (inside : bid < barriers)
    (stat : Text) :
    valuesOf samples stat tid bid = if stat ∈ stats then [run.value stat tid bid] else [] := by
  have own := interleaves tid
  rw [if_pos known] at own
  rw [← valuesOf_threadSamples run distinct inside, ← own, valuesOf, valuesOf, List.filter_filter]
  congr 1
  refine List.filter_congr fun sample _ => ?_
  rw [← Bool.decide_and]
  exact decide_eq_decide.mpr ⟨fun same => ⟨same, same.2.1⟩, And.left⟩

end PapiRun

end BarrierPoint
