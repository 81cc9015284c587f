/-
This file follows the check files to the script that plots the errors. It looks
for them in the directory of a setup: a name that contains `check`, for the
whole application one without `BP`, for the parallel regions one with it, and
the numbers of repetitions in both names have to be the same. Behind a run of
the tool that gathers the counters these are the check files of that run, in
whatever order the directory is listed.
-/

import BarrierPoint.ExperimentRuns
import BarrierPoint.Library.Lines
import BarrierPoint.Library.Rows

namespace BarrierPoint

open Library

/-! ### The search -/

/-- What the names of check files contain. -/
def checkWord : Text := "check".toList

/-- What the names of files for the parallel regions contain. -/
def bpWord : Text := "BP".toList

/-- What the number of repetitions stands behind. -/
def repWord : Text := "rep".toList

/-- The number of repetitions in the name of a file. -/
def repetitions (file : Text) : Except PyError Int := do
  let rep ← getItem ((file.splitOn '.').filter (contains repWord)) 0
  parseInt (rep.drop 3)

/-- `find_csv_file`, for the files that a directory lists. `sys.exit` ends the script (`none`). -/
def findCsvFile (name : Text) (files : List Text) : Except PyError (Option (Text × Text)) :=
  let files := files.filter fun file => file.head? != some '.'
  match files.filter fun file => contains name file && !contains bpWord file,
      files.filter fun file => contains name file && contains bpWord file with
  | [], _ => return none
  | _ :: _, [] => return none
  | checkCsv :: _, bpCheckCsv :: _ => do
    let rep ← repetitions checkCsv
    let repBp ← repetitions bpCheckCsv
    return if rep ≠ repBp then none else some (checkCsv, bpCheckCsv)

/-- `perf_dir`. -/
def perfDir (outpath app suffix : Text) (nthreads : Nat) : Text :=
  outpath ++ "/bperf.".toList ++ suffix ++
    '/' :: (app ++ '-' :: suffix ++ '.' :: decimal nthreads ++ ['t'])

/-- A directory lists its files, in any order. -/
def Lists (files : Files) (directory : Text) (listing : List Text) : Prop :=
  ∀ name, name ∈ listing ↔ '/' ∉ name ∧ (files (directory ++ '/' :: name)).isSome = true

/-! ### The names of the files -/

/-- A name with none of the words that the search looks for. -/
structure Unmarked (name : Text) : Prop where
  check : contains checkWord name = false
  bp : contains bpWord name = false
  rep : contains repWord name = false

namespace ExperimentKey

/-- The name of the setup, in front of the number of threads. -/
def stem (key : ExperimentKey) : Text := key.app ++ '-' :: key.suffix

/-- The file of an experiment with a number of repetitions and an ending. -/
def fileName (key : ExperimentKey) (number : Nat) (ending : Text) : Text :=
  key.stem ++ '.' :: (decimal key.nthreads ++ ['t'] ++
    '.' :: ((if key.barriers then bpWord ++ ['.'] else []) ++
      (repWord ++ decimal number ++ '.' :: ending)))

variable {key : ExperimentKey}

/-- A word lies in the stem, in the part of the mode or in the ending of a name, when it is not made
of the characters of the numbers. -/
theorem contains_fileName {word : Text} (solid : '.' ∉ word) {c : Char} (inWord : c ∈ word)
    (noDigit : c.isDigit = false) (others : c ∉ 't' :: repWord) (number : Nat) (ending : Text) :
    contains word (key.fileName number ending) = true ↔ contains word key.stem = true ∨
      (key.barriers = true ∧ contains word bpWord = true) ∨ contains word ending = true := by
  have digits : ∀ number, c ∉ decimal number := notMem_decimal noDigit
  rw [List.mem_cons, not_or] at others
  have threads : ¬word <:+: decimal key.nthreads ++ ['t'] :=
    not_infix_of_notMem inWord (by simp [digits, others.1])
  have behind : word <:+: repWord ++ decimal number ++ '.' :: ending ↔ word <:+: ending := by
    have repetition : ¬word <:+: repWord ++ decimal number :=
      not_infix_of_notMem inWord (by simp [digits, others.2])
    rw [infix_append_cons_iff solid, or_iff_right repetition]
  simp only [contains_iff]
  rw [fileName, infix_append_cons_iff solid, infix_append_cons_iff solid, or_iff_right threads]
  cases key.barriers with
  | false =>
    rw [if_neg Bool.false_ne_true, List.nil_append, behind]
    simp
  | true =>
    rw [if_pos rfl, List.append_assoc, List.singleton_append, infix_append_cons_iff solid, behind]
    simp

/-- The number of repetitions is read back from a name. -/
theorem repetitions_fileName (stem : contains repWord key.stem = false) {ending : Text}
    (free : contains repWord ending = false) (number : Nat) :
    repetitions (key.fileName number ending) = .ok number := by
  have digits : ∀ {c : Char}, c.isDigit = false → ∀ number, c ∉ decimal number := notMem_decimal
  have nowhere : ∀ {text : Text}, contains repWord text = false →
      (text.splitOn '.').filter (contains repWord) = [] := by
    intro text absent
    refine List.filter_eq_nil_iff.mpr fun field member holds => ?_
    have inside := (contains_iff.mp holds).trans (infix_of_mem_splitOn member)
    rw [contains_iff.mpr inside] at absent
    cases absent
  have threads : contains repWord (decimal key.nthreads ++ ['t']) = false := by
    refine Bool.eq_false_iff.mpr fun holds => ?_
    have inWord : 'r' ∈ repWord := by decide
    refine not_infix_of_notMem inWord ?_ (contains_iff.mp holds)
    simp [digits (c := 'r') (by decide)]
  have found : contains repWord (repWord ++ decimal number) = true :=
    contains_iff.mpr (List.prefix_append _ _).isInfix
  have behind : ((repWord ++ decimal number ++ '.' :: ending).splitOn '.').filter (contains repWord) =
      [repWord ++ decimal number] := by
    have solid : '.' ∉ repWord ++ decimal number := by
      have free : '.' ∉ repWord := by decide
      simp [free, digits (c := '.') (by decide)]
    rw [List.splitOn_append_cons_self_of_not_mem solid, List.filter_cons_of_pos found, nowhere free]
  have solid : '.' ∉ decimal key.nthreads ++ ['t'] := by
    simp [digits (c := '.') (by decide)]
  have all : ((key.fileName number ending).splitOn '.').filter (contains repWord) =
      [repWord ++ decimal number] := by
    rw [fileName, List.splitOn_append_cons_self, List.filter_append, nowhere stem, List.nil_append,
      List.splitOn_append_cons_self_of_not_mem solid, List.filter_cons_of_neg (by simp [threads])]
    cases key.barriers with
    | false => exact behind
    | true =>
      have mode : '.' ∉ bpWord := by decide
      have absent : contains repWord bpWord = false := by decide
      rw [if_pos rfl, List.append_assoc, List.singleton_append,
        List.splitOn_append_cons_self_of_not_mem mode, List.filter_cons_of_neg (by simp [absent])]
      exact behind
  rw [repetitions, all]
  exact parseInt_decimal number

end ExperimentKey

/-- The ending of check files. -/
def checkEnding : Text := "check.csv".toList

namespace PerfcntrsConfig

variable {config : PerfcntrsConfig} {key : ExperimentKey}

/-- With a suffix the script looks into the directory of the experiment. -/
theorem toolOutPath_eq_perfDir (suffixed : key.suffix ≠ []) : config.toolOutPath key =
    perfDir config.outpath key.app key.suffix key.nthreads := by
  unfold toolOutPath perfDir
  dsimp only
  rw [if_pos suffixed]
  simp only [List.append_assoc, List.cons_append]

/-- Without a suffix it looks into another one. -/
theorem toolOutPath_ne_perfDir (unsuffixed : key.suffix = []) : config.toolOutPath key ≠
    perfDir config.outpath key.app key.suffix key.nthreads := by
  intro same
  have lengths := congrArg List.length same
  simp [toolOutPath, perfDir, unsuffixed] at lengths

/-- The files of an experiment lie in its directory. -/
theorem baseName_eq_fileName (suffixed : key.suffix ≠ []) (number : Nat) (ending : Text) :
    (config.experiment key).baseName ++ decimal number ++ '.' :: ending =
      config.toolOutPath key ++ '/' :: key.fileName number ending := by
  have word : ".rep".toList = '.' :: repWord := rfl
  have mode : ".BP".toList = '.' :: bpWord := rfl
  unfold Experiment.baseName experiment PerfcntrsConfig.batch ExperimentKey.fileName
    ExperimentKey.stem
  dsimp only
  rw [if_pos suffixed, word, mode]
  cases key.barriers <;> simp

theorem checkFileN_eq_fileName (suffixed : key.suffix ≠ []) : (config.experiment key).checkFileN =
    config.toolOutPath key ++ '/' :: key.fileName config.iterations checkEnding := by
  rw [Experiment.checkFileN_eq, ← baseName_eq_fileName suffixed]
  rfl

/-! ### The directory of a setup -/

/-- The experiments of a setup: an application, a number of threads and a suffix. -/
def OfSetup (key other : ExperimentKey) : Prop :=
  key.app = other.app ∧ key.nthreads = other.nthreads ∧ key.suffix = other.suffix

instance (key other : ExperimentKey) : Decidable (OfSetup key other) :=
  inferInstanceAs (Decidable (_ ∧ _ ∧ _))

/-- Of all experiments, two belong to a setup: first the whole application is measured, then its
parallel regions. -/
theorem filter_keys (apps : (config.application.map Prod.fst).Nodup) (threads : config.threads.Nodup)
    (suffixes : config.suffix.Nodup) {params : Text}
    (listed : (key.app, params) ∈ config.application) (threaded : key.nthreads ∈ config.threads)
    (suffixed : key.suffix ∈ config.suffix) :
    config.keys.filter (fun entry => OfSetup key entry.1) =
      [({ key with barriers := false }, params), ({ key with barriers := true }, params)] := by
  unfold keys
  rw [List.filter_flatMap, flatMap_eq_of_only apps.of_map listed, List.filter_flatMap,
    flatMap_eq_of_only threads threaded, List.filter_flatMap, flatMap_eq_of_only suffixes suffixed]
  · simp [OfSetup]
  · intro suffix _ other
    simp [OfSetup, other.symm]
  · intro nthreads _ other
    refine List.filter_eq_nil_iff.mpr fun entry member => ?_
    obtain ⟨suffix, -, inside⟩ := List.mem_flatMap.mp member
    obtain ⟨barriers, -, rfl⟩ := List.mem_map.mp inside
    simp [OfSetup, other.symm]
  · rintro ⟨app, others⟩ member other
    refine List.filter_eq_nil_iff.mpr fun entry inside => ?_
    obtain ⟨nthreads, -, inside⟩ := List.mem_flatMap.mp inside
    obtain ⟨suffix, -, inside⟩ := List.mem_flatMap.mp inside
    obtain ⟨barriers, -, rfl⟩ := List.mem_map.mp inside
    have apart : key.app ≠ app := fun same =>
      other (List.inj_on_of_nodup_map apps member listed same.symm)
    simp [OfSetup, apart]

/-- The files with the word that the search looks for are tables of the setup, if any: those that
earlier runs have left. -/
def OnlyTables (config : PerfcntrsConfig) (key : ExperimentKey) (files : Files) : Prop :=
  ∀ file, '/' ∉ file → contains checkWord file = true →
    (files (config.toolOutPath key ++ '/' :: file)).isSome = true → ∃ middle, '/' ∉ middle ∧
      config.toolOutPath key ++ '/' :: file =
        (config.experiment { key with barriers := false }).runName ++
          '.' :: (middle ++ ".csv".toList)

variable {makes : Text → Bool} {report : Report} {averages : Averages} {host after : Host}

/-- Of the files that an experiment writes, the check file has the word that the search looks for. -/
theorem eq_of_mem_writes (suffixed : key.suffix ≠ []) (unmarked : contains checkWord key.stem = false)
    {file : Text} (marked : contains checkWord file = true)
    (own : config.toolOutPath key ++ '/' :: file ∈ (config.experiment key).writes) :
    file = key.fileName config.iterations checkEnding := by
  have named : ∀ number ending, config.toolOutPath key ++ '/' :: file =
      (config.experiment key).baseName ++ decimal number ++ '.' :: ending →
        file = key.fileName number ending := by
    intro number ending same
    rw [baseName_eq_fileName suffixed] at same
    exact List.cons_inj_right _ |>.mp (List.append_cancel_left same)
  have other : ∀ number ending, contains checkWord ending = false →
      config.toolOutPath key ++ '/' :: file ≠
        (config.experiment key).baseName ++ decimal number ++ '.' :: ending := by
    intro number ending absent same
    rw [named number ending same, ExperimentKey.contains_fileName (c := 'k') (by decide) (by decide)
      (by decide) (by decide), unmarked, absent] at marked
    have mode : contains checkWord bpWord = false := by decide
    simp [mode] at marked
  simp only [Experiment.writes, List.mem_append, List.mem_cons, List.not_mem_nil, or_false,
    List.mem_map] at own
  rcases own with (check | csv | script) | ⟨iteration, -, output⟩
  · exact named _ _ (check.trans (Experiment.checkFileN_eq _))
  · exact absurd (csv.trans (Experiment.csvFileN_eq _)) (other _ "csv".toList (by decide))
  · exact absurd script (other _ "sh".toList (by decide))
  · exact absurd output.symm (other _ "papi".toList (by decide))

/-- Behind an experiment, a file with the word that the search looks for is the check file, or it was
there before and is no table of the experiment. -/
theorem turn_present (plain : config.Plain) (executes : config.Executes makes) {params : Text}
    (listed : (key, params) ∈ config.keys)
    (ran : turn makes report averages config host (key, params) = some after)
    (suffixed : key.suffix ≠ [])
    (unmarked : contains checkWord key.stem = false) {file : Text}
    (marked : contains checkWord file = true)
    (present : (after.files (config.toolOutPath key ++ '/' :: file)).isSome = true) :
    file = key.fileName config.iterations checkEnding ∨
      (host.files (config.toolOutPath key ++ '/' :: file)).isSome = true ∧
        ∀ middle, '/' ∉ middle → config.toolOutPath key ++ '/' :: file ≠
          (config.experiment key).runName ++ '.' :: (middle ++ ".csv".toList) := by
  obtain ⟨formatted, format, ran⟩ := Option.bind_eq_some_iff.mp ran
  rcases Batch.runExperiment_present (plain.batch listed format) executes.real
      (executes.made _ listed) ran present with own | before
  · exact .inl (eq_of_mem_writes suffixed unmarked marked own)
  · exact .inr before

/-- The experiments of other setups change nothing in the directory. -/
theorem turns_kept_of_other (plain : config.Plain) (executes : config.Executes makes)
    (app : '/' ∉ key.app) (suffix : '/' ∉ key.suffix)
    (keys : List (ExperimentKey × Text)) (listed : ∀ entry ∈ keys, entry ∈ config.keys)
    (others : ∀ entry ∈ keys, ¬OfSetup key entry.1)
    (ran : keys.foldlM (turn makes report averages config) host = some after) {file : Text}
    (solid : '/' ∉ file) : after.files (config.toolOutPath key ++ '/' :: file) =
      host.files (config.toolOutPath key ++ '/' :: file) := by
  refine turns_kept plain executes _ keys listed (fun entry member => ?_) ran
  obtain ⟨otherApp, -, otherSuffix⟩ := mem_keys.mp (listed entry member)
  exact not_owns_of_directory app (plain.application _ otherApp).1.2 suffix
    (plain.suffix _ otherSuffix).2 (others entry member) solid

/-- Behind a run of the tool the files of a setup with the word that the search looks for are its two
check files. -/
theorem main_present (plain : config.Plain) (executes : config.Executes makes)
    (apps : (config.application.map Prod.fst).Nodup)
    (threads : config.threads.Nodup) (suffixes : config.suffix.Nodup)
    (ran : config.main makes report averages host = some after) {params : Text}
    (listed : (key.app, params) ∈ config.application) (threaded : key.nthreads ∈ config.threads)
    (member : key.suffix ∈ config.suffix) (suffixed : key.suffix ≠ [])
    (unmarked : contains checkWord key.stem = false) (clean : config.OnlyTables key host.files)
    {file : Text} (solid : '/' ∉ file) (marked : contains checkWord file = true)
    (present : (after.files (config.toolOutPath key ++ '/' :: file)).isSome = true) :
    ∃ barriers, file = { key with barriers }.fileName config.iterations checkEnding := by
  obtain ⟨before, rest, keysEq, otherBefore, -, restEq⟩ := List.filter_eq_cons_iff.mp
    (filter_keys apps threads suffixes listed threaded member)
  obtain ⟨between, behind, rfl, otherBetween, -, behindEq⟩ := List.filter_eq_cons_iff.mp restEq
  have inKeys : ∀ entry ∈ before ++ ({ key with barriers := false }, params) ::
      (between ++ ({ key with barriers := true }, params) :: behind), entry ∈ config.keys :=
    fun entry inside => keysEq ▸ inside
  simp only [List.forall_mem_append, List.forall_mem_cons] at inKeys
  obtain ⟨inBefore, isWhole, inBetween, isRegions, inBehind⟩ := inKeys
  have kept := @turns_kept_of_other config key makes report averages
  have app := (plain.application _ listed).1.2
  have suffix := (plain.suffix _ member).2
  rw [main, keysEq, List.foldlM_append] at ran
  obtain ⟨first, ranBefore, ran⟩ := Option.bind_eq_some_iff.mp ran
  rw [List.foldlM_cons] at ran
  obtain ⟨second, ranWhole, ran⟩ := Option.bind_eq_some_iff.mp ran
  rw [List.foldlM_append] at ran
  obtain ⟨third, ranBetween, ran⟩ := Option.bind_eq_some_iff.mp ran
  rw [List.foldlM_cons] at ran
  obtain ⟨fourth, ranRegions, ranBehind⟩ := Option.bind_eq_some_iff.mp ran
  have others : ∀ entry ∈ behind, ¬OfSetup key entry.1 := by
    simpa using List.filter_eq_nil_iff.mp behindEq
  rw [kept plain executes app suffix behind inBehind others ranBehind solid] at present
  rcases turn_present plain executes isRegions ranRegions suffixed unmarked marked present with
    regions | ⟨inThird, -⟩
  · exact ⟨true, regions⟩
  replace present : (third.files (config.toolOutPath key ++ '/' :: file)).isSome = true := inThird
  rw [kept plain executes app suffix between inBetween (by simpa using otherBetween) ranBetween solid]
    at present
  rcases turn_present plain executes isWhole ranWhole suffixed unmarked marked present with
    whole | ⟨inFirst, noTable⟩
  · exact ⟨false, whole⟩
  replace present : (first.files (config.toolOutPath key ++ '/' :: file)).isSome = true := inFirst
  rw [kept plain executes app suffix before inBefore (by simpa using otherBefore) ranBefore solid]
    at present
  obtain ⟨middle, middleSolid, table⟩ := clean file solid marked present
  exact absurd table (noTable middle middleSolid)

end PerfcntrsConfig

/-! ### What the script finds -/

/-- The search finds the two files that have its word, wherever they are listed. -/
theorem findCsvFile_eq {listing : List Text} {checkCsv bpCheckCsv : Text} {number : Int}
    (listed : checkCsv ∈ listing ∧ bpCheckCsv ∈ listing)
    (visible : checkCsv.head? ≠ some '.' ∧ bpCheckCsv.head? ≠ some '.')
    (marked : contains checkWord checkCsv = true ∧ contains checkWord bpCheckCsv = true)
    (modes : contains bpWord checkCsv = false ∧ contains bpWord bpCheckCsv = true)
    (only : ∀ file ∈ listing, contains checkWord file = true → file = checkCsv ∨ file = bpCheckCsv)
    (repeated : repetitions checkCsv = .ok number ∧ repetitions bpCheckCsv = .ok number) :
    findCsvFile checkWord listing = .ok (some (checkCsv, bpCheckCsv)) := by
  have whole := @exists_filter_eq_cons _ listing (fun file => (contains checkWord file &&
    !contains bpWord file) && file.head? != some '.') checkCsv listed.1
    (by simp [marked.1, modes.1, visible.1]) fun other inside there => by
      simp only [Bool.and_eq_true, Bool.not_eq_true'] at there
      refine (only other inside there.1.1).resolve_right fun same => ?_
      rw [same, modes.2] at there
      cases there.1.2
  have regions := @exists_filter_eq_cons _ listing (fun file => (contains checkWord file &&
    contains bpWord file) && file.head? != some '.') bpCheckCsv listed.2
    (by simp [marked.2, modes.2, visible.2]) fun other inside there => by
      simp only [Bool.and_eq_true] at there
      refine (only other inside there.1.1).resolve_left fun same => ?_
      rw [same, modes.1] at there
      cases there.1.2
  obtain ⟨moreWhole, whole⟩ := whole
  obtain ⟨moreRegions, regions⟩ := regions
  unfold findCsvFile
  simp only [List.filter_filter]
  rw [whole, regions]
  dsimp only
  rw [bind_of_eq_ok repeated.1, bind_of_eq_ok repeated.2, if_neg (not_not.mpr rfl)]
  rfl

namespace ExperimentKey

variable {key : ExperimentKey}

theorem head?_fileName (visible : key.app.head? ≠ some '.') (number : Nat) (ending : Text) :
    (key.fileName number ending).head? ≠ some '.' := by
  unfold fileName stem
  cases held : key.app with
  | nil => simp
  | cons first rest =>
    rw [held] at visible
    simpa using visible

theorem solid_fileName (app : '/' ∉ key.app) (suffix : '/' ∉ key.suffix) (number : Nat)
    {ending : Text} (solid : '/' ∉ ending) : '/' ∉ key.fileName number ending := by
  have digits : ∀ number, '/' ∉ decimal number := notMem_decimal (by decide)
  have words : '/' ∉ bpWord ∧ '/' ∉ repWord := by decide
  unfold fileName stem
  split <;> simp [app, suffix, digits, words, solid]

theorem contains_stem {word : Text} (solid : '-' ∉ word) (app : contains word key.app = false)
    (suffix : contains word key.suffix = false) : contains word key.stem = false := by
  refine Bool.eq_false_iff.mpr fun holds => ?_
  rcases (infix_append_cons_iff solid).mp (contains_iff.mp holds) with inApp | inSuffix
  · exact Bool.eq_false_iff.mp app (contains_iff.mpr inApp)
  · exact Bool.eq_false_iff.mp suffix (contains_iff.mpr inSuffix)

end ExperimentKey

/-- The search finds the two check files of a setup when no other name in the directory has the word. -/
theorem findCsvFile_setup {app suffix : Text} {nthreads number : Nat} (visible : app.head? ≠ some '.')
    (unmarkedApp : Unmarked app) (unmarkedSuffix : Unmarked suffix) {listing : List Text}
    {file : Bool → Text}
    (named : ∀ barriers,
      file barriers = (ExperimentKey.mk app nthreads suffix barriers).fileName number checkEnding)
    (there : ∀ barriers, file barriers ∈ listing)
    (only : ∀ other ∈ listing, contains checkWord other = true → ∃ barriers, other = file barriers) :
    findCsvFile checkWord listing = .ok (some (file false, file true)) := by
  let key : Bool → ExperimentKey := fun barriers => ⟨app, nthreads, suffix, barriers⟩
  obtain rfl : file = fun barriers => (key barriers).fileName number checkEnding := funext named
  have stem : ∀ {word : Text}, '-' ∉ word → contains word app = false →
      contains word suffix = false → ∀ barriers, contains word (key barriers).stem = false :=
    fun solid inApp inSuffix _ => ExperimentKey.contains_stem solid inApp inSuffix
  have marked : ∀ barriers, contains checkWord ((key barriers).fileName number checkEnding) = true :=
    fun barriers => (ExperimentKey.contains_fileName (c := 'k') (by decide) (by decide) (by decide)
      (by decide) _ _).mpr (.inr (.inr (by decide)))
  have mode : ∀ barriers, contains bpWord ((key barriers).fileName number checkEnding) = barriers := by
    intro barriers
    have iff := @ExperimentKey.contains_fileName (key barriers) bpWord (by decide) 'B' (by decide)
      (by decide) (by decide) number checkEnding
    have ending : contains bpWord checkEnding = false := by decide
    have itself : contains bpWord bpWord = true := by decide
    rw [stem (by decide) unmarkedApp.bp unmarkedSuffix.bp, ending, itself] at iff
    simp only [Bool.false_eq_true, false_or, or_false, and_true] at iff
    exact Bool.eq_iff_iff.mpr iff
  have repeated : ∀ barriers,
      repetitions ((key barriers).fileName number checkEnding) = .ok number := fun barriers =>
    ExperimentKey.repetitions_fileName
      (stem (by decide) unmarkedApp.rep unmarkedSuffix.rep barriers) (by decide) _
  refine findCsvFile_eq ⟨there false, there true⟩
    ⟨ExperimentKey.head?_fileName visible _ _, ExperimentKey.head?_fileName visible _ _⟩
    ⟨marked false, marked true⟩ ⟨mode false, mode true⟩ (fun other inside holds => ?_)
    ⟨repeated false, repeated true⟩
  obtain ⟨barriers, rfl⟩ := only other inside holds
  cases barriers with
  | false => exact .inl rfl
  | true => exact .inr rfl

namespace PerfcntrsConfig

variable {config : PerfcntrsConfig} {makes : Text → Bool} {report : Report} {averages : Averages}
  {host after : Host}

/-- Behind a run of the tool, both experiments of a setup have left their files, for one text of
parameters. -/
theorem main_leaves_setup (plain : config.Plain) (executes : config.Executes makes)
    (apps : (config.application.map Prod.fst).Nodup)
    (threads : config.threads.Nodup) (suffixes : config.suffix.Nodup)
    (ran : config.main makes report averages host = some after) {app params suffix : Text}
    {nthreads : Nat}
    (listed : (app, params) ∈ config.application) (threaded : nthreads ∈ config.threads)
    (member : suffix ∈ config.suffix) :
    ∃ formatted, getBenchParams params nthreads = some formatted ∧
      ∀ barriers, (config.batch ⟨app, nthreads, suffix, barriers⟩ formatted).Leaves report
        host.environment after.files := by
  have leaves : ∀ barriers, ∃ formatted, getBenchParams params nthreads = some formatted ∧
      (config.batch ⟨app, nthreads, suffix, barriers⟩ formatted).Leaves report host.environment
        after.files := fun barriers =>
    turns_leave plain executes config.keys (fun _ => id)
      (pairwise_spares plain apps threads suffixes) ran (⟨app, nthreads, suffix, barriers⟩, params)
      (mem_keys.mpr ⟨listed, threaded, member⟩)
  obtain ⟨formatted, format, -⟩ := leaves false
  refine ⟨formatted, format, fun barriers => ?_⟩
  obtain ⟨again, same, left⟩ := leaves barriers
  obtain rfl := Option.some_inj.mp (format.symm.trans same)
  exact left

/-- Behind a run of the tool, the script that plots the errors finds the two check files of a setup with
a suffix, in whatever order the directory is listed: that of the whole application and that of its
parallel regions, both as this run has left them. The names of the application and of the suffix
have none of the words that the script looks for, and before the run the directory held no files with
the word of the check files other than tables of the setup. -/
theorem main_found (plain : config.Plain) (executes : config.Executes makes)
    (apps : (config.application.map Prod.fst).Nodup)
    (threads : config.threads.Nodup) (suffixes : config.suffix.Nodup)
    (ran : config.main makes report averages host = some after) {app params suffix : Text}
    {nthreads : Nat}
    (listed : (app, params) ∈ config.application) (threaded : nthreads ∈ config.threads)
    (member : suffix ∈ config.suffix) (suffixed : suffix ≠ []) (visible : app.head? ≠ some '.')
    (unmarkedApp : Unmarked app) (unmarkedSuffix : Unmarked suffix)
    (clean : config.OnlyTables ⟨app, nthreads, suffix, false⟩ host.files) {listing : List Text}
    (lists : Lists after.files (perfDir config.outpath app suffix nthreads) listing) :
    ∃ formatted checkCsv bpCheckCsv, getBenchParams params nthreads = some formatted ∧
      findCsvFile checkWord listing = .ok (some (checkCsv, bpCheckCsv)) ∧
      perfDir config.outpath app suffix nthreads ++ '/' :: checkCsv =
        (config.batch ⟨app, nthreads, suffix, false⟩ formatted).checkFileN ∧
      perfDir config.outpath app suffix nthreads ++ '/' :: bpCheckCsv =
        (config.batch ⟨app, nthreads, suffix, true⟩ formatted).checkFileN ∧
      ∀ barriers, (config.batch ⟨app, nthreads, suffix, barriers⟩ formatted).Leaves report
        host.environment after.files := by
  obtain ⟨formatted, format, leaves⟩ :=
    main_leaves_setup plain executes apps threads suffixes ran listed threaded member
  let key : Bool → ExperimentKey := fun barriers => ⟨app, nthreads, suffix, barriers⟩
  let file : Bool → Text := fun barriers => (key barriers).fileName config.iterations checkEnding
  have place : ∀ barriers, perfDir config.outpath app suffix nthreads ++ '/' :: file barriers =
      (config.batch (key barriers) formatted).checkFileN := by
    intro barriers
    rw [← @toolOutPath_eq_perfDir config (key barriers) suffixed]
    exact (checkFileN_eq_fileName suffixed).symm
  have there : ∀ barriers, file barriers ∈ listing := by
    intro barriers
    have solid : '/' ∉ file barriers := ExperimentKey.solid_fileName (plain.application _ listed).1.2
      (plain.suffix _ member).2 _ (by decide)
    obtain ⟨-, stats, check, -, -, held⟩ := leaves barriers
    refine (lists _).mpr ⟨solid, ?_⟩
    rw [place]
    exact Option.isSome_of_eq_some held
  have stem : contains checkWord (key false).stem = false :=
    ExperimentKey.contains_stem (by decide) unmarkedApp.check unmarkedSuffix.check
  have only : ∀ other ∈ listing, contains checkWord other = true →
      ∃ barriers, other = file barriers := by
    intro other inside marked
    obtain ⟨solid, present⟩ := (lists other).mp inside
    rw [← @toolOutPath_eq_perfDir config (key false) suffixed] at present
    exact @main_present config (key false) makes report averages host after plain executes apps threads
      suffixes ran params listed threaded member suffixed stem clean other solid marked present
  have found : findCsvFile checkWord listing = .ok (some (file false, file true)) :=
    findCsvFile_setup visible unmarkedApp unmarkedSuffix (fun _ => rfl) there only
  exact ⟨formatted, file false, file true, format, found, place false, place true, leaves⟩

/-- A directory that can be listed before an experiment can be listed behind it. -/
theorem exists_lists_turn (plain : config.Plain) (executes : config.Executes makes)
    {entry : ExperimentKey × Text} (member : entry ∈ config.keys)
    (ran : turn makes report averages config host entry = some after)
    {directory : Text} {listing : List Text} (lists : Lists host.files directory listing) :
    ∃ later, Lists after.files directory later := by
  obtain ⟨formatted, format, ran⟩ := Option.bind_eq_some_iff.mp ran
  let names := listing ++ (config.batch entry.1 formatted).writes.map (·.drop (directory.length + 1))
  refine ⟨names.filter fun name =>
    '/' ∉ name ∧ (after.files (directory ++ '/' :: name)).isSome = true, fun name => ?_⟩
  rw [List.mem_filter, decide_eq_true_iff, and_iff_right_iff_imp]
  rintro ⟨solid, present⟩
  refine List.mem_append.mpr ?_
  rcases Batch.runExperiment_present (plain.batch member format) executes.real
      (executes.made _ member) ran present with own | ⟨before, -⟩
  · refine .inr (List.mem_map.mpr ⟨_, own, ?_⟩)
    rw [← List.drop_drop, List.drop_left, List.drop_succ_cons, List.drop_zero]
  · exact .inl ((lists name).mpr ⟨solid, before⟩)

theorem exists_lists_turns (plain : config.Plain) (executes : config.Executes makes)
    {directory : Text}
    (keys : List (ExperimentKey × Text)) (listed : ∀ key ∈ keys, key ∈ config.keys) :
    ∀ {host after : Host}, keys.foldlM (turn makes report averages config) host = some after →
      ∀ {listing}, Lists host.files directory listing → ∃ later, Lists after.files directory later := by
  induction keys with
  | nil =>
    intro host after ran listing lists
    cases ran
    exact ⟨listing, lists⟩
  | cons first keys inductionHypothesis =>
    intro host after ran listing lists
    rw [List.forall_mem_cons] at listed
    rw [List.foldlM_cons] at ran
    obtain ⟨next, turned, rest⟩ := Option.bind_eq_some_iff.mp ran
    obtain ⟨later, lists⟩ := exists_lists_turn plain executes listed.1 turned lists
    exact inductionHypothesis listed.2 rest lists

theorem main_found_oneThread : ∃ after listing,
    oneThread.main allMade steadyReport (fun _ _ => .ok []) ⟨fun _ => none, fun _ => none, 0⟩ =
        some after ∧
      Lists after.files (perfDir "tmp".toList "matrixmul".toList ['x'] 1) listing ∧
      findCsvFile checkWord listing = .ok (some ("matrixmul-x.1t.rep1.check.csv".toList,
        "matrixmul-x.1t.BP.rep1.check.csv".toList)) := by
  obtain ⟨after, ran⟩ := Option.isSome_iff_exists.mp isSome_main_oneThread
  have empty : Lists (fun _ => none) (perfDir "tmp".toList "matrixmul".toList ['x'] 1) [] :=
    fun _ => ⟨nofun, nofun⟩
  obtain ⟨listing, lists⟩ := exists_lists_turns plain_oneThread executes_oneThread oneThread.keys
    (fun _ => id) ran empty
  have unmarkedApp : Unmarked "matrixmul".toList := ⟨by decide, by decide, by decide⟩
  have unmarkedSuffix : Unmarked ['x'] := ⟨by decide, by decide, by decide⟩
  obtain ⟨formatted, checkCsv, bpCheckCsv, -, found, whole, regions, -⟩ := main_found
    plain_oneThread executes_oneThread (by decide) (by decide) (by decide) ran List.mem_cons_self
    List.mem_cons_self List.mem_cons_self (List.cons_ne_nil _ _) (by decide) unmarkedApp unmarkedSuffix
    (fun _ _ _ present => nomatch present) lists
  have wholeName : (oneThread.experiment ⟨"matrixmul".toList, 1, ['x'], false⟩).checkFileN =
      perfDir "tmp".toList "matrixmul".toList ['x'] 1 ++
        '/' :: "matrixmul-x.1t.rep1.check.csv".toList := by decide +kernel
  have regionsName : (oneThread.experiment ⟨"matrixmul".toList, 1, ['x'], true⟩).checkFileN =
      perfDir "tmp".toList "matrixmul".toList ['x'] 1 ++
        '/' :: "matrixmul-x.1t.BP.rep1.check.csv".toList := by decide +kernel
  obtain rfl := (List.cons_inj_right _).mp (List.append_cancel_left (whole.trans wholeName))
  obtain rfl := (List.cons_inj_right _).mp (List.append_cancel_left (regions.trans regionsName))
  exact ⟨after, listing, ran, lists, found⟩

end PerfcntrsConfig

end BarrierPoint
