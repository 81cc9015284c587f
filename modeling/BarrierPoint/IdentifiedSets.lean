/-
This file follows the sets of selected phases from the script that identifies
them to the script that plots the errors. The first works in a directory of its
own for every repetition of a setup, or in the current one when that cannot be
made, and goes on when a repetition returns false. The second walks through the
directories of a setup and needs a set in each of them: it reads exactly the
sets that were written there, under the numbers of their repetitions, when every
repetition with a directory has written one, and it raises an error when one has
not.
-/

import BarrierPoint.CreateBarrierPoints
import BarrierPoint.Estimate
import BarrierPoint.Library.Places
import BarrierPoint.Library.Rows
import BarrierPoint.Library.Shell

namespace BarrierPoint

open Library

/-! ### The script that identifies the sets -/

/-- The directories, each with the files in it. -/
abbrev Directories : Type := Text → Option Files

/-- A setup: an application, a number of threads and a suffix. -/
structure Setup where
  app : Text
  nthreads : Nat
  suffix : Text
  deriving DecidableEq, Repr

/-- What the names of a setup begin with. -/
def Setup.runName (setup : Setup) : Text :=
  setup.app ++ (if setup.suffix ≠ [] then '-' :: setup.suffix else []) ++
    '.' :: (decimal setup.nthreads ++ ['t'])

/-- What the names of the files with the selected phases end with. -/
def setEnding : Text := ".barrierpoints".toList

/-- The settings that the script reads: the output path, the applications, the numbers of threads,
the suffixes and the number of repetitions. -/
structure IdentifyConfig where
  outpath : Text
  application : List Text
  threads : List Nat
  suffix : List Text
  iterations : Nat

/-- What a repetition meets: the input of the analysis, whether its directory is there or can be made,
and the files, other than the sets, that the client and the analysis leave where it works. -/
structure Repetition where
  input : AnalysisInput
  made : Bool
  left : Files

/-- `'{:0>3d}'.format(iteration)`. -/
def repetitionName (iteration : Nat) : Text :=
  List.replicate (3 - (decimal iteration).length) '0' ++ decimal iteration

/-- A set is written once it is selected. -/
def writeSet (files : Files) (name : Text) : Option Selection → Files
  | some selection => Function.update files name (some selection.lines.flatten)
  | none => files

/-- `CreateBarrierPoints` in the directory of a repetition, which is created unless it is there. -/
def Repetition.create (repetition : Repetition) (selectedBP : Text) (held : Option Files) :
    Except PyError (Option Files) := do
  let files : Files := fun name => (repetition.left name).or (held.bind fun files => files name)
  let created ← createBarrierPoints repetition.input
  let files := writeSet files selectedBP created.main
  let files := writeSet files (selectedBP ++ "_EC05".toList) created.ec
  let files := writeSet files (selectedBP ++ "_EE05".toList) created.ee
  return some files

namespace IdentifyConfig

/-- The setups, one after the other. -/
def setups (config : IdentifyConfig) : List Setup :=
  (config.application ×ˢ (config.threads ×ˢ config.suffix)).map fun entry =>
    ⟨entry.1, entry.2.1, entry.2.2⟩

/-- The directory of a setup. -/
def directory (config : IdentifyConfig) (setup : Setup) : Text :=
  config.outpath ++ "/barriers".toList ++ '/' :: setup.runName

/-- The directory of a repetition. -/
def toolOutPath (config : IdentifyConfig) (round : Setup × Nat) : Text :=
  config.directory round.1 ++ '/' :: repetitionName round.2

/-- Where a repetition works: in its directory, or in the current one when that cannot be made. -/
def workPath (config : IdentifyConfig) (outside : Text → Repetition) (round : Setup × Nat) : Text :=
  if (outside (config.toolOutPath round)).made then config.toolOutPath round else ['.']

/-- `main`, where `outside` is what the repetition with a directory meets. -/
def main (config : IdentifyConfig) (outside : Text → Repetition) (store : Directories) :
    Except PyError Directories :=
  (config.setups ×ˢ List.range config.iterations).foldlM
    (workAt (config.workPath outside) fun round =>
      (outside (config.toolOutPath round)).create (round.1.runName ++ setEnding)) store

end IdentifyConfig

/-! ### The script that plots the errors -/

/-- What walking through a directory finds: the directories below it, each with its files. -/
abbrev Walk : Type := List (Text × List (Text × Text))

/-- A walk goes through the directories below a directory once each, in any order. -/
structure Walks (store : Directories) (directory : Text) (walk : Walk) : Prop where
  distinct : (walk.map Prod.fst).Nodup
  below : ∀ path, path ∈ walk.map Prod.fst ↔
    (∃ rest, path = directory ++ '/' :: rest) ∧ (store path).isSome = true
  files : ∀ entry ∈ walk, ∀ name text, (name, text) ∈ entry.2 ↔
    ∃ held, store entry.1 = some held ∧ held name = some text

/-- `bbpoints`, the directory that is walked through. -/
def bbpoints (outpath app suffix : Text) (nthreads : Nat) : Text :=
  outpath ++ "/barriers/".toList ++ (app ++ '-' :: suffix ++ '.' :: decimal nthreads ++ ['t'])

/-- The file of a directory that is read. -/
def chooseSet (entry : Text × List (Text × Text)) : Except PyError (Text × Text) :=
  getItem (entry.2.filter fun file => setEnding.isSuffixOf file.1) 0

/-- Add a file to the sets, under the number of its directory. -/
def readSet (sets : Int → List (Int × ℚ))
    (chosen : (Text × List (Text × Text)) × (Text × Text)) : Except PyError (Int → List (Int × ℚ)) := do
  let last ← getItem (chosen.1.1.splitOn '/') (-1)
  let id ← parseInt last
  let pairs ← ErrorEstimate.readBarrierPoints (fileLines chosen.2.2)
  return Function.update sets id (sets id ++ pairs)

/-- The part of the constructor that reads the sets: `BPs` and `BPs_mult`. -/
def readSets (walk : Walk) : Except PyError (Int → List (Int × ℚ)) := do
  let chosen ← walk.mapM chooseSet
  (walk.zip chosen).foldlM readSet fun _ => []

/-! ### The names of the directories -/

theorem isDigit_of_mem_repetitionName {iteration : Nat} {c : Char}
    (member : c ∈ repetitionName iteration) : c.isDigit = true := by
  rcases List.mem_append.mp member with zero | digit
  · rw [List.eq_of_mem_replicate zero]
    rfl
  · exact isDigit_of_mem_decimal digit

theorem solid_repetitionName (iteration : Nat) : '/' ∉ repetitionName iteration :=
  fun member => absurd (isDigit_of_mem_repetitionName member) (by decide)

theorem parseInt_repetitionName (iteration : Nat) :
    parseInt (repetitionName iteration) = .ok iteration := by
  have digits : ∀ c ∈ repetitionName iteration, c.isDigit = true :=
    fun _ => isDigit_of_mem_repetitionName
  have filled : repetitionName iteration ≠ [] := fun empty =>
    decimal_ne_nil iteration (List.append_eq_nil_iff.mp empty).2
  have value : Nat.ofDigitChars 10 (repetitionName iteration) 0 = iteration := by
    rw [repetitionName, Nat.ofDigitChars_append, Nat.ofDigitChars_replicate_zero, Nat.mul_zero]
    exact Nat.ofDigitChars_ten_toDigits
  have head : ∀ c ∈ (repetitionName iteration).head?, c.isDigit = true := fun c first =>
    digits c (List.mem_of_mem_head? first)
  have plain : '_' ∉ repetitionName iteration := fun member =>
    absurd (digits _ member) (by decide)
  rw [parseInt_eq (fun c member => not_isSpace_of_isDigit (digits c member)) plain,
    parseSigned_of_isDigit _ head, parseNat, if_pos ⟨filled, digits⟩, value]
  rfl

theorem repetitionName_inj {first second : Nat} (same : repetitionName first = repetitionName second) :
    first = second := by
  have read := parseInt_repetitionName first
  rw [same, parseInt_repetitionName] at read
  cases read
  rfl

/-- The number of a repetition is read back from its directory. -/
theorem last_toolOutPath (directory : Text) (iteration : Nat) :
    getItem ((directory ++ '/' :: repetitionName iteration).splitOn '/') (-1) =
      .ok (repetitionName iteration) := by
  rw [List.splitOn_append_cons_self, List.splitOn_eq_singleton (solid_repetitionName iteration)]
  simp [getItem, position]

namespace IdentifyConfig

variable {config : IdentifyConfig}

/-- With a suffix the script that plots the errors walks through the directory of the setup. -/
theorem directory_eq_bbpoints {setup : Setup} (suffixed : setup.suffix ≠ []) :
    config.directory setup = bbpoints config.outpath setup.app setup.suffix setup.nthreads := by
  have barriers : "/barriers/".toList = "/barriers".toList ++ ['/'] := by decide
  unfold directory bbpoints Setup.runName
  rw [if_pos suffixed, barriers]
  simp only [List.append_assoc, List.cons_append, List.nil_append]

/-- Without a suffix it walks through another one. -/
theorem directory_ne_bbpoints {setup : Setup} (unsuffixed : setup.suffix = []) :
    config.directory setup ≠ bbpoints config.outpath setup.app setup.suffix setup.nthreads := by
  intro same
  have lengths := congrArg List.length same
  simp [directory, bbpoints, Setup.runName, unsuffixed] at lengths

/-- What lies below the directory of a setup is no repetition of another one. -/
theorem toolOutPath_eq_iff {setup : Setup} {round : Setup × Nat} (solid : '/' ∉ setup.runName)
    (other : '/' ∉ round.1.runName) {rest : Text} :
    config.toolOutPath round = config.directory setup ++ '/' :: rest ↔
      round.1.runName = setup.runName ∧ repetitionName round.2 = rest := by
  refine ⟨fun same => ?_, fun ⟨name, repetition⟩ => ?_⟩
  · unfold toolOutPath directory at same
    simp only [List.append_assoc, List.cons_append] at same
    have behind := (List.cons.inj (List.append_cancel_left (List.append_cancel_left same))).2
    have first := takeWhile_ne_append other (repetitionName round.2)
    rw [behind] at first
    have second := takeWhile_ne_append solid rest
    exact ⟨first.1.symm.trans second.1, (List.cons.inj (first.2.symm.trans second.2)).2⟩
  · unfold toolOutPath directory
    rw [name, repetition]

end IdentifyConfig

/-! ### The files of the sets -/

/-- The lines of a set are read back from its file. -/
theorem fileLines_lines (selection : Selection) :
    fileLines selection.lines.flatten = selection.lines := by
  rw [Selection.lines, ← List.flatMap_def]
  refine fileLines_flatMap
    (fun pair : Int × ℚ => signedDecimal (pair.1 + 1) ++ ' ' :: fixedPoint 4 pair.2) _
    fun pair _ member => ?_
  rcases List.mem_append.mp member with number | multiplier
  · exact absurd (not_isSpace_signedDecimal _ _ number) (by decide)
  · rcases List.mem_cons.mp multiplier with blank | inside
    · exact absurd blank (by decide)
    · exact absurd (not_isSpace_fixedPoint _ _ _ inside) (by decide)

/-- What is read from a set: the numbers shifted by one and the multipliers rounded. -/
def Selection.asRead (selection : Selection) : List (Int × ℚ) :=
  (selection.barrierPoints.zip selection.multipliers).map fun pair =>
    (pair.1 + 1, rounded 4 pair.2)

theorem readSet_toolOutPath (sets : Int → List (Int × ℚ)) {entry : Text × List (Text × Text)}
    {directory : Text} {iteration : Nat}
    (path : entry.1 = directory ++ '/' :: repetitionName iteration) (name : Text)
    (selection : Selection) :
    readSet sets (entry, (name, selection.lines.flatten)) =
      .ok (Function.update sets iteration (sets iteration ++ selection.asRead)) := by
  unfold readSet
  rw [path, bind_of_eq_ok (last_toolOutPath directory iteration),
    bind_of_eq_ok (parseInt_repetitionName iteration), fileLines_lines,
    bind_of_eq_ok (readBarrierPoints_lines selection)]
  rfl

/-- No file of a directory is named as a set. -/
def NoSets (files : Files) : Prop := ∀ name, setEnding <:+ name → files name = none

/-- The names of the alternative sets end with a digit. -/
theorem not_setEnding_suffix (name : Text) {behind : Text} (digit : ['5'] <:+ behind) :
    ¬setEnding <:+ name ++ behind := by
  have ends : setEnding = ".barrierpoint".toList ++ ['s'] := by decide +kernel
  obtain ⟨front, rfl⟩ := digit
  rintro ⟨before, same⟩
  rw [ends, ← List.append_assoc, ← List.append_assoc] at same
  exact absurd (List.append_inj' same rfl).2 (by decide)

variable {repetition : Repetition} {selectedBP : Text} {after : Option Files}

theorem writeSet_of_ne {files : Files} {name other : Text} (apart : other ≠ name)
    (selected : Option Selection) : writeSet files name selected other = files other := by
  cases selected with
  | none => rfl
  | some selection => exact Function.update_of_ne apart _ _

theorem writeSet_self {files : Files} {name : Text} (fresh : files name = none)
    (selected : Option Selection) : writeSet files name selected name =
      selected.map fun selection => selection.lines.flatten := by
  cases selected with
  | none => exact fresh
  | some selection => exact Function.update_self _ _ _

/-- A repetition that has returned leaves files, of which at most one is named as a set: the one that
was written. -/
theorem Repetition.create_spec (named : setEnding <:+ selectedBP) (left : NoSets repetition.left)
    (ran : repetition.create selectedBP none = .ok after) : ∃ files created, after = some files ∧
      createBarrierPoints repetition.input = .ok created ∧
      (files selectedBP = created.main.map fun selection => selection.lines.flatten) ∧
      ∀ name, setEnding <:+ name → name ≠ selectedBP → files name = none := by
  obtain ⟨created, analysed, rest⟩ := exists_of_bind_eq_ok ran
  cases rest
  have notEC : ¬setEnding <:+ selectedBP ++ "_EC05".toList :=
    not_setEnding_suffix selectedBP ⟨"_EC0".toList, by decide +kernel⟩
  have notEE : ¬setEnding <:+ selectedBP ++ "_EE05".toList :=
    not_setEnding_suffix selectedBP ⟨"_EE0".toList, by decide +kernel⟩
  have other : ∀ behind name, setEnding <:+ name → ¬setEnding <:+ selectedBP ++ behind →
      name ≠ selectedBP ++ behind := fun behind name ends free same => free (same ▸ ends)
  have noSets : ∀ name, setEnding <:+ name →
      (repetition.left name).or (none : Option Text) = none := fun name ends =>
    Option.or_none.trans (left name ends)
  refine ⟨_, created, rfl, analysed, ?_, fun name ends apart => ?_⟩
  · rw [writeSet_of_ne (other _ _ named notEE), writeSet_of_ne (other _ _ named notEC)]
    exact writeSet_self (noSets selectedBP named) _
  · rw [writeSet_of_ne (other _ _ ends notEE), writeSet_of_ne (other _ _ ends notEC),
      writeSet_of_ne apart]
    exact noSets name ends

/-- A repetition returns when nothing before it raises an error. -/
theorem Repetition.exists_create {created : Created}
    (analysed : createBarrierPoints repetition.input = .ok created) (selectedBP : Text)
    (held : Option Files) : ∃ files, repetition.create selectedBP held = .ok files :=
  ⟨_, bind_of_eq_ok analysed _⟩

/-- The set is found when it is the only file with its ending. -/
theorem chooseSet_of_only {path name text : Text} {listing : List (Text × Text)} {files : Files}
    (lists : ∀ name text, (name, text) ∈ listing ↔ files name = some text)
    (named : setEnding <:+ name) (held : files name = some text)
    (only : ∀ other, setEnding <:+ other → other ≠ name → files other = none) :
    chooseSet (path, listing) = .ok (name, text) := by
  obtain ⟨rest, found⟩ := @exists_filter_eq_cons _ listing (fun file => setEnding.isSuffixOf file.1)
    (name, text) ((lists _ _).mpr held) (List.isSuffixOf_iff_suffix.mpr named)
    fun other inside ends => by
      obtain ⟨otherName, otherText⟩ := other
      have present := (lists _ _).mp inside
      by_cases same : otherName = name
      · subst same
        rw [held] at present
        cases present
        rfl
      · rw [only otherName (List.isSuffixOf_iff_suffix.mp ends) same] at present
        cases present
  unfold chooseSet
  rw [found]
  rfl

/-- No set is found when there is none. -/
theorem chooseSet_of_noSets {path : Text} {listing : List (Text × Text)} {files : Files}
    (lists : ∀ name text, (name, text) ∈ listing ↔ files name = some text) (noSets : NoSets files) :
    chooseSet (path, listing) = .error .indexError := by
  have empty : listing.filter (fun file => setEnding.isSuffixOf file.1) = [] := by
    refine List.filter_eq_nil_iff.mpr fun file inside ends => ?_
    have present := (lists file.1 file.2).mp inside
    rw [noSets file.1 (List.isSuffixOf_iff_suffix.mp ends)] at present
    cases present
  unfold chooseSet
  rw [empty]
  rfl

/-! ### From one script to the other -/

namespace IdentifyConfig

variable {config : IdentifyConfig} {outside : Text → Repetition} {store after : Directories}

/-- The names of the setups tell them apart, and their directories lie next to each other. -/
structure Plain (config : IdentifyConfig) : Prop where
  distinct : (config.setups.map Setup.runName).Nodup
  solid : ∀ setup ∈ config.setups, '/' ∉ setup.runName

theorem mem_rounds {round : Setup × Nat} : round ∈ config.setups ×ˢ List.range config.iterations ↔
    round.1 ∈ config.setups ∧ round.2 < config.iterations := by
  rw [List.mem_product, List.mem_range]

/-- The repetitions of two rounds have one directory only when the rounds are the same. -/
theorem eq_of_toolOutPath (plain : config.Plain) {first second : Setup × Nat}
    (inFirst : first.1 ∈ config.setups) (inSecond : second.1 ∈ config.setups)
    (same : config.toolOutPath first = config.toolOutPath second) : first = second := by
  obtain ⟨name, repetition⟩ := (toolOutPath_eq_iff (plain.solid _ inSecond)
    (plain.solid _ inFirst)).mp same
  exact Prod.ext (List.inj_on_of_nodup_map plain.distinct inFirst inSecond name)
    (repetitionName_inj repetition)

/-- The current directory is no directory of a repetition. -/
theorem toolOutPath_ne_current (round : Setup × Nat) : config.toolOutPath round ≠ ['.'] := by
  intro same
  have lengths := congrArg List.length same
  simp [toolOutPath, directory] at lengths
  omega

/-- Only repetitions without a directory of their own work in one place. -/
theorem apart_workPath (plain : config.Plain) :
    (config.setups ×ˢ List.range config.iterations).Pairwise fun earlier later =>
      config.workPath outside earlier = config.workPath outside later →
        ¬(outside (config.toolOutPath earlier)).made = true ∧
          ¬(outside (config.toolOutPath later)).made = true := by
  refine (plain.distinct.of_map.product List.nodup_range).imp_of_mem
    fun {earlier later} isEarlier isLater different same => ?_
  have inEarlier := (mem_rounds.mp isEarlier).1
  have inLater := (mem_rounds.mp isLater).1
  unfold workPath at same
  split at same
  · split at same
    · exact absurd (eq_of_toolOutPath plain inEarlier inLater same) different
    · exact absurd same (toolOutPath_ne_current earlier)
  · rename_i notEarlier
    split at same
    · exact absurd same.symm (toolOutPath_ne_current later)
    · rename_i notLater
      exact ⟨notEarlier, notLater⟩

/-- Every repetition whose directory was made has worked in it, and below the directory of a setup
there are the directories of these repetitions only. -/
theorem main_spec (plain : config.Plain) (ran : config.main outside store = .ok after)
    {setup : Setup} (member : setup ∈ config.setups)
    (fresh : ∀ rest, store (config.directory setup ++ '/' :: rest) = none) :
    (∀ iteration < config.iterations, (outside (config.toolOutPath (setup, iteration))).made = true →
      (outside (config.toolOutPath (setup, iteration))).create (setup.runName ++ setEnding) none =
        .ok (after (config.toolOutPath (setup, iteration)))) ∧
    ∀ rest, (after (config.directory setup ++ '/' :: rest)).isSome = true →
      ∃ iteration < config.iterations, (outside (config.toolOutPath (setup, iteration))).made = true ∧
        rest = repetitionName iteration := by
  obtain ⟨each, others⟩ := foldlM_workAt _ (apart_workPath plain) ran
  refine ⟨fun iteration early made => ?_, fun rest present => ?_⟩
  · have created := each (setup, iteration) (mem_rounds.mpr ⟨member, early⟩) made
    rwa [workPath, if_pos made, toolOutPath, fresh] at created
  · by_cases worked : config.directory setup ++ '/' :: rest ∈
        (config.setups ×ˢ List.range config.iterations).map (config.workPath outside)
    · obtain ⟨round, isRound, same⟩ := List.mem_map.mp worked
      obtain ⟨inSetups, early⟩ := mem_rounds.mp isRound
      unfold workPath at same
      split at same
      · rename_i made
        obtain ⟨name, repetition⟩ := (toolOutPath_eq_iff (plain.solid _ member)
          (plain.solid _ inSetups)).mp same
        obtain ⟨roundSetup, number⟩ := round
        obtain rfl := List.inj_on_of_nodup_map plain.distinct inSetups member name
        exact ⟨number, early, made, repetition.symm⟩
      · have lengths := congrArg List.length same
        simp [directory] at lengths
        omega
    · rw [others _ worked, fresh] at present
      cases present

/-- What is found in a directory of the walk: the set that its repetition has written, or none. -/
theorem visit_spec (plain : config.Plain) (ran : config.main outside store = .ok after)
    {setup : Setup} (member : setup ∈ config.setups)
    (fresh : ∀ rest, store (config.directory setup ++ '/' :: rest) = none)
    (left : ∀ iteration < config.iterations,
      NoSets (outside (config.toolOutPath (setup, iteration))).left)
    {walk : Walk} (walks : Walks after (config.directory setup) walk) {entry} (visited : entry ∈ walk) :
    ∃ iteration < config.iterations, (outside (config.toolOutPath (setup, iteration))).made = true ∧
      entry.1 = config.toolOutPath (setup, iteration) ∧ ∃ created,
        createBarrierPoints (outside (config.toolOutPath (setup, iteration))).input = .ok created ∧
        chooseSet entry = match created.main with
          | some selection => .ok (setup.runName ++ setEnding, selection.lines.flatten)
          | none => .error .indexError := by
  obtain ⟨each, below⟩ := main_spec plain ran member fresh
  obtain ⟨⟨rest, path⟩, present⟩ := (walks.below entry.1).mp (List.mem_map_of_mem visited)
  rw [path] at present
  obtain ⟨iteration, early, made, rfl⟩ := below rest present
  refine ⟨iteration, early, made, path, ?_⟩
  obtain ⟨files, created, held, analysed, written, only⟩ := Repetition.create_spec
    (List.suffix_append _ _) (left iteration early) (each iteration early made)
  refine ⟨created, analysed, ?_⟩
  have lists : ∀ name text, (name, text) ∈ entry.2 ↔ files name = some text := by
    intro name text
    rw [walks.files entry visited, path]
    refine ⟨fun ⟨found, there, inside⟩ => ?_, fun inside => ⟨files, held, inside⟩⟩
    rw [← Option.some_inj.mp (there.symm.trans held)]
    exact inside
  cases selected : created.main with
  | none =>
    rw [selected] at written
    refine chooseSet_of_noSets lists fun name ends => ?_
    by_cases same : name = setup.runName ++ setEnding
    · exact same ▸ written
    · exact only name ends same
  | some selection =>
    rw [selected] at written
    exact chooseSet_of_only lists (List.suffix_append _ _) written only

/-- The walk goes through the directories of all repetitions that have one. -/
theorem exists_visit (plain : config.Plain) (ran : config.main outside store = .ok after)
    {setup : Setup} (member : setup ∈ config.setups)
    (fresh : ∀ rest, store (config.directory setup ++ '/' :: rest) = none)
    {walk : Walk} (walks : Walks after (config.directory setup) walk) {iteration : Nat}
    (early : iteration < config.iterations)
    (made : (outside (config.toolOutPath (setup, iteration))).made = true) :
    ∃ entry ∈ walk, entry.1 = config.toolOutPath (setup, iteration) := by
  have created := (main_spec plain ran member fresh).1 iteration early made
  obtain ⟨_, -, rest⟩ := exists_of_bind_eq_ok created
  have held := (Except.ok.inj rest).symm
  exact List.mem_map.mp ((walks.below _).mpr ⟨⟨_, rfl⟩, Option.isSome_of_eq_some held⟩)

/-- When every repetition with a directory has written a set, these sets are read. -/
theorem readSets_of_written (plain : config.Plain) (ran : config.main outside store = .ok after)
    {setup : Setup} (member : setup ∈ config.setups)
    (fresh : ∀ rest, store (config.directory setup ++ '/' :: rest) = none)
    (left : ∀ iteration < config.iterations,
      NoSets (outside (config.toolOutPath (setup, iteration))).left)
    {walk : Walk} (walks : Walks after (config.directory setup) walk) {selected : Nat → Selection}
    (written : ∀ iteration < config.iterations,
      (outside (config.toolOutPath (setup, iteration))).made = true → ∃ created,
        createBarrierPoints (outside (config.toolOutPath (setup, iteration))).input = .ok created ∧
        created.main = some (selected iteration)) :
    ∃ sets, readSets walk = .ok sets ∧
      (∀ iteration < config.iterations, (outside (config.toolOutPath (setup, iteration))).made = true →
        sets iteration = (selected iteration).asRead) ∧
      ∀ id, (∀ iteration < config.iterations,
        (outside (config.toolOutPath (setup, iteration))).made = true → id ≠ (iteration : Int)) →
          sets id = [] := by
  let file : Nat → Text × Text := fun iteration =>
    (setup.runName ++ setEnding, (selected iteration).lines.flatten)
  have chosen : ∀ entry ∈ walk, ∃ iteration < config.iterations,
      (outside (config.toolOutPath (setup, iteration))).made = true ∧
      entry.1 = config.toolOutPath (setup, iteration) ∧ chooseSet entry = .ok (file iteration) := by
    intro entry visited
    obtain ⟨iteration, early, made, path, created, analysed, read⟩ :=
      visit_spec plain ran member fresh left walks visited
    obtain ⟨_, again, main⟩ := written iteration early made
    obtain rfl := Except.ok.inj (analysed.symm.trans again)
    rw [main] at read
    exact ⟨iteration, early, made, path, read⟩
  choose! index early made path read using chosen
  have distinct : (walk.map fun entry => (index entry : Int)).Nodup := by
    refine walks.distinct.of_map.map_on fun first isFirst second isSecond same => ?_
    have sameIndex : index first = index second := Int.ofNat_inj.mp same
    refine List.inj_on_of_nodup_map walks.distinct isFirst isSecond ?_
    rw [path first isFirst, path second isSecond, sameIndex]
  obtain ⟨sets, ended, added, others⟩ := @exists_foldlM_update _ _ _ _
    (fun entry => (index entry : Int)) (fun sets entry => readSet sets (entry, file (index entry)))
    (fun entry held => held ++ (selected (index entry)).asRead) walk
    (fun entry visited sets => readSet_toolOutPath sets (path entry visited) _ _) distinct
    fun _ => []
  refine ⟨sets, ?_, fun iteration inside isMade => ?_, fun id apart => others id fun there => ?_⟩
  · rw [readSets, bind_of_eq_ok (mapM_eq_ok read), ← List.map_prod_left_eq_zip, List.foldlM_map]
    exact ended
  · obtain ⟨entry, visited, here⟩ := exists_visit plain ran member fresh walks inside isMade
    cases eq_of_toolOutPath plain member member (here.symm.trans (path entry visited))
    exact added entry visited
  · obtain ⟨entry, visited, same⟩ := List.mem_map.mp there
    exact apart (index entry) (early entry visited) (made entry visited) same.symm

/-- When one repetition with a directory has written none, an error is raised. -/
theorem readSets_of_unwritten (plain : config.Plain) (ran : config.main outside store = .ok after)
    {setup : Setup} (member : setup ∈ config.setups)
    (fresh : ∀ rest, store (config.directory setup ++ '/' :: rest) = none)
    (left : ∀ iteration < config.iterations,
      NoSets (outside (config.toolOutPath (setup, iteration))).left)
    {walk : Walk} (walks : Walks after (config.directory setup) walk) {iteration : Nat}
    (early : iteration < config.iterations)
    (made : (outside (config.toolOutPath (setup, iteration))).made = true) {created : Created}
    (analysed : createBarrierPoints (outside (config.toolOutPath (setup, iteration))).input =
      .ok created) (unwritten : created.main = none) :
    readSets walk = .error .indexError := by
  have raised : ∃ entry ∈ walk, chooseSet entry = .error .indexError := by
    obtain ⟨entry, visited, here⟩ := exists_visit plain ran member fresh walks early made
    refine ⟨entry, visited, ?_⟩
    obtain ⟨other, -, -, path, found, again, read⟩ :=
      visit_spec plain ran member fresh left walks visited
    cases eq_of_toolOutPath plain member member (here.symm.trans path)
    obtain rfl := Except.ok.inj (analysed.symm.trans again)
    rwa [unwritten] at read
  have only : ∀ entry ∈ walk,
      (∃ image, chooseSet entry = .ok image) ∨ chooseSet entry = .error .indexError := by
    intro entry visited
    obtain ⟨-, -, -, -, found, -, read⟩ := visit_spec plain ran member fresh left walks visited
    cases selected : found.main with
    | none =>
      rw [selected] at read
      exact .inr read
    | some selection =>
      rw [selected] at read
      exact .inl ⟨_, read⟩
  rw [readSets, mapM_eq_error walk only raised]
  rfl

/-- When every repetition of a setup whose directory was made has written a set, the script that plots
the errors reads these sets, each under the number of its repetition, in whatever order it walks
through the directories; this is so also when `CreateBarrierPoints` has returned false because a file
of the alternatives could not be opened. When one of them has written none, the other script has gone
on to the next repetition all the same, and this one raises an error. The directory of the setup was
empty before, and of the files that the client and the analysis leave in it only the sets are named
so. -/
theorem main_readSets (plain : config.Plain) (ran : config.main outside store = .ok after)
    {setup : Setup} (member : setup ∈ config.setups) (suffixed : setup.suffix ≠ [])
    (fresh : ∀ rest, store (config.directory setup ++ '/' :: rest) = none)
    (left : ∀ iteration < config.iterations,
      NoSets (outside (config.toolOutPath (setup, iteration))).left)
    {walk : Walk}
    (walks : Walks after (bbpoints config.outpath setup.app setup.suffix setup.nthreads) walk) :
    (∀ selected : Nat → Selection,
      (∀ iteration < config.iterations,
        (outside (config.toolOutPath (setup, iteration))).made = true → ∃ created,
          createBarrierPoints (outside (config.toolOutPath (setup, iteration))).input =
            .ok created ∧ created.main = some (selected iteration)) →
      ∃ sets, readSets walk = .ok sets ∧
        (∀ iteration < config.iterations,
          (outside (config.toolOutPath (setup, iteration))).made = true →
            sets iteration = (selected iteration).asRead) ∧
        ∀ id, (∀ iteration < config.iterations,
          (outside (config.toolOutPath (setup, iteration))).made = true → id ≠ (iteration : Int)) →
            sets id = []) ∧
    ((∃ iteration < config.iterations,
        (outside (config.toolOutPath (setup, iteration))).made = true ∧ ∃ created,
          createBarrierPoints (outside (config.toolOutPath (setup, iteration))).input =
            .ok created ∧ created.main = none) →
      readSets walk = .error .indexError) := by
  rw [← directory_eq_bbpoints suffixed] at walks
  refine ⟨fun selected => readSets_of_written plain ran member fresh left walks, ?_⟩
  rintro ⟨iteration, early, made, created, analysed, unwritten⟩
  exact readSets_of_unwritten plain ran member fresh left walks early made analysed unwritten

/-! ### Repetitions that return -/

/-- The script ends when no repetition raises an error, whether they return true or false. -/
theorem exists_main (returns : ∀ path, ∃ created, createBarrierPoints (outside path).input = .ok created)
    (store : Directories) : ∃ after, config.main outside store = .ok after := by
  refine exists_foldlM_of_ok (fun store round => ?_) _ store
  obtain ⟨created, analysed⟩ := returns (config.toolOutPath round)
  obtain ⟨files, ran⟩ := Repetition.exists_create analysed (round.1.runName ++ setEnding)
    (store (config.workPath outside round))
  exact ⟨_, bind_of_eq_ok ran _⟩

/-- What a directory of files is listed as. -/
def Listing (files : Files) (listing : List (Text × Text)) : Prop :=
  ∀ name text, (name, text) ∈ listing ↔ files name = some text

theorem exists_listing_update {files : Files} {listing : List (Text × Text)}
    (lists : Listing files listing) (name content : Text) :
    ∃ later, Listing (Function.update files name (some content)) later := by
  refine ⟨(name, content) :: listing.filter fun file => file.1 ≠ name, fun other text => ?_⟩
  by_cases same : other = name
  · subst same
    simp [eq_comm]
  · rw [Function.update_of_ne same, List.mem_cons, List.mem_filter, lists other text]
    simp [same]

theorem exists_listing_writeSet {files : Files} {listing : List (Text × Text)}
    (lists : Listing files listing) (name : Text) (selected : Option Selection) :
    ∃ later, Listing (writeSet files name selected) later := by
  cases selected with
  | none => exact ⟨listing, lists⟩
  | some selection => exact exists_listing_update lists name selection.lines.flatten

/-- A repetition leaves files that can be listed when the client and the analysis do. -/
theorem exists_listing_create {repetition : Repetition} {selectedBP : Text} {created : Option Files}
    (ran : repetition.create selectedBP none = .ok created) {listing : List (Text × Text)}
    (lists : Listing repetition.left listing) :
    ∃ files later, created = some files ∧ Listing files later := by
  have kept : Listing (fun name => (repetition.left name).or none) listing := by
    intro name text
    show _ ↔ (repetition.left name).or none = some text
    rw [Option.or_none]
    exact lists name text
  obtain ⟨selected, analysed, rest⟩ := exists_of_bind_eq_ok ran
  cases rest
  obtain ⟨main, lists⟩ := exists_listing_writeSet kept selectedBP selected.main
  obtain ⟨ec, lists⟩ := exists_listing_writeSet lists (selectedBP ++ "_EC05".toList) selected.ec
  obtain ⟨ee, lists⟩ := exists_listing_writeSet lists (selectedBP ++ "_EE05".toList) selected.ee
  exact ⟨_, _, rfl, lists⟩

/-- The directory of a setup can be walked through behind the script. -/
theorem exists_walks (plain : config.Plain) (ran : config.main outside store = .ok after)
    {setup : Setup} (member : setup ∈ config.setups)
    (fresh : ∀ rest, store (config.directory setup ++ '/' :: rest) = none)
    (listed : ∀ path, ∃ listing, Listing (outside path).left listing) :
    ∃ walk, Walks after (config.directory setup) walk := by
  obtain ⟨each, below⟩ := main_spec plain ran member fresh
  let inDirectory : List Nat := (List.range config.iterations).filter fun iteration =>
    (outside (config.toolOutPath (setup, iteration))).made
  have isIn : ∀ iteration, iteration ∈ inDirectory ↔ iteration < config.iterations ∧
      (outside (config.toolOutPath (setup, iteration))).made = true := by
    intro iteration
    rw [List.mem_filter, List.mem_range]
  have found : ∀ iteration ∈ inDirectory, ∃ files listing,
      after (config.toolOutPath (setup, iteration)) = some files ∧ Listing files listing := by
    intro iteration member
    obtain ⟨early, made⟩ := (isIn iteration).mp member
    obtain ⟨listing, lists⟩ := listed (config.toolOutPath (setup, iteration))
    exact exists_listing_create (each iteration early made) lists
  choose! files listing held lists using found
  let visit : Nat → Text × List (Text × Text) := fun iteration =>
    (config.toolOutPath (setup, iteration), listing iteration)
  refine ⟨inDirectory.map visit, ?_, fun path => ?_, fun entry visited => ?_⟩
  · rw [List.map_map]
    refine (List.nodup_range.filter _).map_on fun first _ second _ same => ?_
    exact (Prod.mk.inj (eq_of_toolOutPath plain member member same)).2
  · rw [List.map_map, List.mem_map]
    constructor
    · rintro ⟨iteration, inside, rfl⟩
      exact ⟨⟨_, rfl⟩, Option.isSome_of_eq_some (held iteration inside)⟩
    · rintro ⟨⟨rest, rfl⟩, present⟩
      obtain ⟨iteration, early, made, rfl⟩ := below rest present
      exact ⟨iteration, (isIn iteration).mpr ⟨early, made⟩, rfl⟩
  · obtain ⟨iteration, inside, rfl⟩ := List.mem_map.mp visited
    intro name text
    rw [lists iteration inside name text, held iteration inside]
    simp

/-- Two repetitions for one application. -/
def twoRepetitions : IdentifyConfig where
  outpath := "tmp".toList
  application := ["matrixmul".toList]
  threads := [1]
  suffix := [['x']]
  iterations := 2

/-- Every repetition meets a sound outcome, and leaves no other files. The third file of selected
phases cannot be opened, and of the directories only that of the first repetition can be made. -/
def oneDirectory (path : Text) : Repetition where
  input := { twoPhases soundRun with opensEE := false }
  made := path = twoRepetitions.toolOutPath (⟨"matrixmul".toList, 1, ['x']⟩, 0)
  left := fun _ => none

/-- The first of two phases stands for both. -/
def firstPhase : Selection := ⟨[0], [12 / 5]⟩

theorem createBarrierPoints_oneDirectory (path : Text) :
    createBarrierPoints (oneDirectory path).input =
      .ok ⟨false, some firstPhase, some firstPhase, none⟩ := by
  show createBarrierPoints { twoPhases soundRun with opensEE := false } = _
  decide +kernel

/-- The set in the directory is read, and the other one is not. -/
theorem main_readSets_twoRepetitions : ∃ after walk sets,
    twoRepetitions.main oneDirectory (fun _ => none) = .ok after ∧
      Walks after (bbpoints "tmp".toList "matrixmul".toList ['x'] 1) walk ∧ readSets walk = .ok sets ∧
      sets 0 = [(1, 12 / 5)] ∧ sets 1 = [] := by
  have plain : twoRepetitions.Plain := ⟨by decide, by decide⟩
  have member : (⟨"matrixmul".toList, 1, ['x']⟩ : Setup) ∈ twoRepetitions.setups :=
    List.mem_cons_self
  have suffixed : (⟨"matrixmul".toList, 1, ['x']⟩ : Setup).suffix ≠ [] := List.cons_ne_nil _ _
  obtain ⟨after, ran⟩ := @exists_main twoRepetitions oneDirectory
    (fun path => ⟨_, createBarrierPoints_oneDirectory path⟩) fun _ => none
  obtain ⟨walk, walks⟩ := exists_walks plain ran member (fun _ => rfl)
    fun _ => ⟨[], fun _ _ => ⟨fun inside => absurd inside List.not_mem_nil, fun held => by cases held⟩⟩
  rw [directory_eq_bbpoints suffixed] at walks
  obtain ⟨sets, read, written, others⟩ := (main_readSets plain ran member suffixed (fun _ => rfl)
    (fun _ _ _ _ => rfl) walks).1 (fun _ => firstPhase)
    fun _ _ _ => ⟨_, createBarrierPoints_oneDirectory _, rfl⟩
  have pairs : firstPhase.asRead = [(1, 12 / 5)] := by decide +kernel
  refine ⟨after, walk, sets, ran, walks, read, ?_, others 1 fun iteration _ made same => ?_⟩
  · exact (written 0 (by decide) (by decide +kernel)).trans pairs
  · obtain rfl := Int.ofNat_inj.mp same
    exact absurd made (by decide +kernel)

end IdentifyConfig

end BarrierPoint
