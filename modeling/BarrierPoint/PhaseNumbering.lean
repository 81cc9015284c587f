/-
This file compares the numbers that the two tools give to the phases of the
master. An application runs under the DynamoRIO client with `libbp_dr`
preloaded, and again with the library of the performance counters preloaded.
`libgomp` runs the function of a region once on the master for each call that
starts one, so the master makes the same calls in both runs; the other threads
may do anything a team does. Both tools number the phases from zero and end
each at the same call.
-/

import BarrierPoint.BpDr
import BarrierPoint.MasterRegions
import BarrierPoint.PrintedPhases

namespace BarrierPoint

open Library

variable {Mark : Type}

/-! ### An application under the client -/

/-- The application sets `ROI_BP`, calls the wrapper of the barrier, or enters the function of a
parallel region; or the client acts by itself. -/
inductive DrEvent (Mark : Type) where
  | setenv (roiBp : Int)
  | barrier (context : DrContext) (mark : Mark)
  | ompFn (context : DrContext) (fAddr : Address) (mark : Mark)
  | client (event : Event)

/-- The state of the library and of the client, the call at which the region of the master began,
and the regions the master has saved, each with the calls that delimit it and its id. -/
structure DrRun (Mark : Type) where
  roiBp : Option Int
  library : BpDr
  client : Client
  began : Option Mark
  regions : List (Reading Mark × Nat)

/-- The callback that a call of the wrapper leads to. -/
def DrCall.event (context : DrContext) : DrCall → Event
  | .simRoiStart => .roiInit context
  | .simRoiEnd => .roiEnd context
  | .gompBarrier => .barrier context

namespace DrRun

def new : DrRun Mark where
  roiBp := none
  library := BpDr.new
  client := Client.new
  began := none
  regions := []

/-- A call leads to a callback of the client. The region of interest begins at its start. -/
def fire (config : Config) (mark : Mark) (event : Event) (state : DrRun Mark) :
    Option (DrRun Mark) := do
  let client ← state.client.step config event
  return match event, state.client.masterStores config event with
    | .roiInit _, _ => { state with client, began := some mark }
    | _, some id =>
        { state with client, began := some mark, regions := state.regions ++ [(⟨state.began, mark⟩, id)] }
    | _, none => { state with client }

def step (config : Config) (state : DrRun Mark) : DrEvent Mark → Option (DrRun Mark)
  | .setenv roiBp => some { state with roiBp := some roiBp }
  | .barrier context mark =>
      let (library, call) := state.library.gompBarrier state.roiBp
      { state with library }.fire config mark (call.event context)
  | .ompFn context fAddr mark => state.fire config mark (.ompParallel context fAddr)
  | .client event => (state.client.step config event).map fun client => { state with client }

/-- An event that leaves `ROI_BP` and the initial thread's life alone. The client reaches barriers,
regions and the marks of the region of interest through the calls of the application. -/
def Quiet : DrEvent Mark → Prop
  | .setenv _ => False
  | .barrier _ _ | .ompFn _ _ _ => True
  | .client (.threadInit context _) => context ≠ 0
  | .client (.threadExit _) | .client (.single _) | .client (.cleanCall _ _ _)
  | .client (.memRef _ _) => True
  | .client (.roiInit _) | .client (.roiEnd _) | .client (.ompParallel _ _)
  | .client (.barrier _) => False

/-- The master makes a call. -/
def masterMark : DrEvent Mark → Option Mark
  | .barrier context mark | .ompFn context _ mark => if context = 0 then some mark else none
  | .setenv _ | .client _ => none

/-! ### The regions of the master -/

variable {config : Config} {state next : DrRun Mark} {began : Option Mark} {marks : List Mark}
  {mark : Mark} {event : Event}

/-- The master has saved the regions that end at some marks. -/
structure Numbered (began : Option Mark) (marks : List Mark) (state : DrRun Mark) : Prop where
  master : state.client.MasterAt marks.length
  began_eq : state.began = lastMark began marks
  regions_eq : state.regions = (phases began marks).zipIdx

/-- A callback that ends a region of the master, or none. -/
theorem Numbered.fire (holds : state.Numbered began marks) (counts : config.ignoreSingle = false)
    (unborn : ∀ threadId, event ≠ .threadInit 0 threadId) (later : ∀ context, event ≠ .roiInit context)
    (fired : state.fire config mark event = some next) :
    next.roiBp = state.roiBp ∧ next.library = state.library ∧
      state.client.step config event = some next.client ∧
      ((state.client.masterStores config event = none ∧ next.Numbered began marks) ∨
        (state.client.masterStores config event = some marks.length ∧
          next.Numbered began (marks ++ [mark]))) := by
  obtain ⟨client, stepped, rest⟩ := Option.bind_eq_some_iff.mp fired
  rcases holds.master.step counts unborn stepped with ⟨nothing, kept⟩ | ⟨stored, kept⟩
  · rw [nothing] at rest ⊢
    have same : next = { state with client } := by
      cases event with
      | roiInit context => exact absurd rfl (later context)
      | _ => exact (Option.some_inj.mp rest).symm
    subst same
    exact ⟨rfl, rfl, stepped, .inl ⟨rfl, kept, holds.began_eq, holds.regions_eq⟩⟩
  · rw [stored] at rest ⊢
    have same : next = { state with
        client, began := some mark
        regions := state.regions ++ [(⟨state.began, mark⟩, marks.length)] } := by
      cases event with
      | roiInit context => exact absurd rfl (later context)
      | _ => exact (Option.some_inj.mp rest).symm
    subst same
    refine ⟨rfl, rfl, stepped, .inr ⟨rfl, ?_, ?_, ?_⟩⟩
    · rw [List.length_append]
      exact kept
    · rw [lastMark, List.foldl_append]
      rfl
    · show state.regions ++ [(⟨state.began, mark⟩, marks.length)] = _
      rw [phases_append, List.zipIdx_append, holds.regions_eq, holds.began_eq, length_phases,
        Nat.zero_add]
      rfl

/-- Between the calls that open and close the region of interest the environment, the library and
the client stay in one mode. -/
structure Mode (roiBp : Option Int) (library : BpDr) (inRoi : Bool) (began : Option Mark)
    (marks : List Mark) (state : DrRun Mark) : Prop extends Numbered began marks state where
  roiBp_eq : state.roiBp = roiBp
  library_eq : state.library = library
  inRoi_eq : state.client.inRoi = inRoi

variable {roiBp : Option Int} {library : BpDr} {inRoi : Bool}

/-- A callback of the client that the mode survives, and whether it ends a region of the master. -/
theorem Mode.fire (holds : Mode roiBp library inRoi began marks state)
    (counts : config.ignoreSingle = false) (steady : Client.Steady event) (ends : Bool)
    (stores : ∀ client, state.client.step config event = some client →
      state.client.masterStores config event = if ends then some marks.length else none)
    (fired : state.fire config mark event = some next) :
    Mode roiBp library inRoi began (marks ++ if ends then [mark] else []) next := by
  have unborn : ∀ threadId, event ≠ .threadInit 0 threadId := by
    rintro threadId rfl
    exact steady rfl
  have later : ∀ context, event ≠ .roiInit context := by
    rintro context rfl
    exact steady
  obtain ⟨roi, lib, stepped, numbered⟩ := holds.toNumbered.fire counts unborn later fired
  have stored := stores next.client stepped
  have marks_eq : next.Numbered began (marks ++ if ends then [mark] else []) := by
    cases ends with
    | false =>
      rcases numbered with ⟨-, kept⟩ | ⟨new, -⟩
      · rw [if_neg Bool.false_ne_true, List.append_nil]
        exact kept
      · exact absurd (new.symm.trans stored) nofun
    | true =>
      rcases numbered with ⟨nothing, -⟩ | ⟨-, kept⟩
      · exact absurd (nothing.symm.trans stored) nofun
      · exact kept
  exact ⟨marks_eq, roi.trans holds.roiBp_eq, lib.trans holds.library_eq,
    (Client.inRoi_of_steady steady stepped).trans holds.inRoi_eq⟩

/-- The callbacks that the client gets by itself store nothing for the master. -/
theorem Mode.client (holds : Mode roiBp library inRoi began marks state)
    (counts : config.ignoreSingle = false) (quiet : Quiet (.client event : DrEvent Mark))
    (stepped : state.step config (.client event) = some next) :
    Mode roiBp library inRoi began marks next := by
  obtain ⟨client, ran, rfl⟩ := Option.map_eq_some_iff.mp stepped
  have steady : Client.Steady event := by
    cases event with
    | threadInit => exact quiet
    | roiInit | roiEnd => exact quiet
    | _ => trivial
  have stores : state.client.masterStores config event = none := by
    cases event with
    | roiInit | roiEnd | ompParallel | barrier => exact quiet.elim
    | threadInit | single | cleanCall | memRef => exact Client.masterStores_none rfl
    | threadExit context => exact holds.master.masterStores_threadExit context
  have unborn : ∀ threadId, event ≠ .threadInit 0 threadId := by
    rintro threadId rfl
    exact steady rfl
  rcases holds.master.step counts unborn ran with ⟨-, kept⟩ | ⟨stored, -⟩
  · exact ⟨⟨kept, holds.began_eq, holds.regions_eq⟩, holds.roiBp_eq, holds.library_eq,
      (Client.inRoi_of_steady steady ran).trans holds.inRoi_eq⟩
  · rw [stores] at stored
    cases stored

theorem step_barrier {call : DrCall} {context : DrContext}
    (calls : state.library.gompBarrier state.roiBp = (library, call)) :
    state.step config (.barrier context mark) =
      ({ state with library } : DrRun Mark).fire config mark (call.event context) := by
  rw [step, calls]

/-- A call that is forwarded ends a region of the master when the master makes it in the region of
interest. -/
theorem Mode.quiet (holds : Mode roiBp library inRoi began marks state)
    (forwards : library.gompBarrier roiBp = (library, .gompBarrier))
    (counts : config.ignoreSingle = false) {called : DrEvent Mark} (quiet : Quiet called)
    (stepped : state.step config called = some next) :
    Mode roiBp library inRoi began
      (marks ++ if inRoi then (masterMark called).toList else []) next := by
  have outside : ∀ {event : Event}, Client.Steady event → inRoi = false →
      state.client.masterStores config event = none := fun steady out =>
    holds.master.masterStores_outside (holds.inRoi_eq.trans out) steady
  have marked : ∀ context : DrContext, ∀ mark : Mark,
      (if inRoi then (if context = 0 then some mark else none).toList else []) =
        if inRoi && decide (context = 0) then [mark] else [] := by
    intro context mark
    cases inRoi <;> by_cases initial : context = 0 <;> simp [initial]
  cases called with
  | setenv => exact quiet.elim
  | barrier context mark =>
    have calls : state.library.gompBarrier state.roiBp = (state.library, .gompBarrier) := by
      rw [holds.library_eq, holds.roiBp_eq, forwards]
    rw [step_barrier calls] at stepped
    rw [masterMark, marked]
    refine holds.fire counts (show Client.Steady (.barrier context) from trivial) _
      (fun client ran => ?_) stepped
    cases mode : inRoi with
    | false => exact outside trivial mode
    | true =>
      rw [holds.master.masterStores_barrier (holds.inRoi_eq.trans mode) ran]
      by_cases initial : context = 0 <;> simp [initial]
  | ompFn context fAddr mark =>
    rw [masterMark, marked]
    refine holds.fire counts (show Client.Steady (.ompParallel context fAddr) from trivial) _
      (fun client ran => ?_) stepped
    cases mode : inRoi with
    | false => exact outside trivial mode
    | true =>
      rw [holds.master.masterStores_ompParallel (holds.inRoi_eq.trans mode) ran]
      by_cases initial : context = 0 <;> simp [initial]
  | client event =>
    rw [masterMark]
    simp only [Option.toList_none, ite_self, List.append_nil]
    exact holds.client counts quiet stepped

/-- In the region of interest the master ends a region at each of its calls, and outside it ends
none. -/
theorem Mode.run (forwards : library.gompBarrier roiBp = (library, .gompBarrier))
    (counts : config.ignoreSingle = false) (events : List (DrEvent Mark)) :
    ∀ {marks : List Mark} {state next : DrRun Mark}, Mode roiBp library inRoi began marks state →
      (∀ event ∈ events, Quiet event) → Library.run (step config) state events = some next →
      Mode roiBp library inRoi began
        (marks ++ if inRoi then events.filterMap masterMark else []) next := by
  induction events with
  | nil =>
    intro marks state next holds _ finished
    cases finished
    simpa using holds
  | cons event events inductionHypothesis =>
    intro marks state next holds quiet finished
    rw [List.forall_mem_cons] at quiet
    obtain ⟨middle, stepped, rest⟩ := Option.bind_eq_some_iff.mp finished
    have later := inductionHypothesis (holds.quiet forwards counts quiet.1 stepped) quiet.2 rest
    rw [List.append_assoc] at later
    have split : ((if inRoi then (masterMark event).toList else []) ++
        if inRoi then events.filterMap masterMark else []) =
          if inRoi then (event :: events).filterMap masterMark else [] := by
      cases inRoi with
      | false => rfl
      | true => cases ended : masterMark event <;> simp [ended]
    rw [split] at later
    exact later

/-! ### A whole run under the client -/

/-- The birth of the initial thread, the events before the region of interest, the barrier that opens
it, the events inside, and the barrier that closes it. -/
def application (threadId : UInt32) (before inside : List (DrEvent Mark)) (opening closing : Mark) :
    List (DrEvent Mark) :=
  .client (.threadInit 0 threadId) :: before ++ [.setenv 1, .barrier 0 opening] ++ inside ++
    [.setenv 0, .barrier 0 closing]

theorem mode_threadInit (threadId : UInt32)
    (stepped : (new : DrRun Mark).step config (.client (.threadInit 0 threadId)) = some next) :
    Mode none BpDr.new false none [] next := by
  cases stepped
  have changed := Client.new.slotChanged_setSlot 0
    (ThreadData.new threadId Client.new.firstTimeCalled Client.new.barrierPoint.synchCount)
  refine ⟨⟨⟨Client.oneMaster_new.births changed rfl rfl, ⟨_, (changed 0).trans (if_pos rfl), ?_⟩,
    rfl⟩, rfl, rfl⟩, rfl, rfl, rfl⟩
  refine ⟨rfl, rfl, rfl, fun id => ?_⟩
  rw [show (ThreadData.new threadId Client.new.firstTimeCalled
    Client.new.barrierPoint.synchCount).regions.lookup id = none from AList.lookup_empty id]
  simp

/-- The barrier that opens the region of interest starts the first region of the master. -/
theorem Mode.opens (holds : Mode none BpDr.new false none [] state) {opening : Mark}
    (finished : Library.run (step config) state [.setenv 1, .barrier 0 opening] = some next) :
    Mode (some 1) ⟨true, true⟩ true (some opening) [] next := by
  have calls : ({ state with roiBp := some 1 } : DrRun Mark).library.gompBarrier (some 1) =
      (⟨true, true⟩, .simRoiStart) := by
    rw [show ({ state with roiBp := some 1 } : DrRun Mark).library = BpDr.new from holds.library_eq]
    rfl
  obtain ⟨after, stepped, rest⟩ := Option.bind_eq_some_iff.mp
    (show (({ state with roiBp := some 1 } : DrRun Mark).step config (.barrier 0 opening)).bind _ =
      some next from finished)
  cases rest
  rw [step_barrier calls] at stepped
  obtain ⟨client, ran, rest⟩ := Option.bind_eq_some_iff.mp stepped
  cases rest
  cases Client.step_cases ran with
  | roiInit => exact ⟨⟨holds.master.of_eq rfl rfl rfl, rfl, holds.regions_eq⟩, rfl, rfl, rfl⟩

/-- The barrier that closes the region of interest ends the last region of the master. -/
theorem Mode.closes (holds : Mode (some 1) ⟨true, true⟩ true began marks state)
    (counts : config.ignoreSingle = false) {closing : Mark}
    (finished : Library.run (step config) state [.setenv 0, .barrier 0 closing] = some next) :
    next.Numbered began (marks ++ [closing]) := by
  have calls : ({ state with roiBp := some 0 } : DrRun Mark).library.gompBarrier (some 0) =
      (⟨false, false⟩, .simRoiEnd) := by
    rw [show ({ state with roiBp := some 0 } : DrRun Mark).library = ⟨true, true⟩ from holds.library_eq]
    rfl
  obtain ⟨after, stepped, rest⟩ := Option.bind_eq_some_iff.mp
    (show (({ state with roiBp := some 0 } : DrRun Mark).step config (.barrier 0 closing)).bind _ =
      some next from finished)
  cases rest
  rw [step_barrier calls] at stepped
  have before : ({ state with roiBp := some 0, library := ⟨false, false⟩ } : DrRun Mark).Numbered
      began marks := ⟨holds.master, holds.began_eq, holds.regions_eq⟩
  obtain ⟨-, -, ran, numbered⟩ := before.fire counts
    (fun _ same => by cases same) (fun _ same => by cases same) stepped
  rcases numbered with ⟨nothing, -⟩ | ⟨-, ended⟩
  · exact absurd ((holds.master.masterStores_roiEnd ran).symm.trans nothing) nofun
  · exact ended

/-- Under the client the regions of the master are those between its calls, with the ids from zero
on. -/
theorem numbered_application (counts : config.ignoreSingle = false) {threadId : UInt32}
    {before inside : List (DrEvent Mark)} {opening closing : Mark}
    (outside : ∀ event ∈ before, Quiet event) (within : ∀ event ∈ inside, Quiet event)
    (finished : Library.run (step config) new (application threadId before inside opening closing) =
      some next) : next.Numbered (some opening) (inside.filterMap masterMark ++ [closing]) := by
  rw [application, run_append, Option.bind_eq_some_iff] at finished
  obtain ⟨atEnd, finished, closes⟩ := finished
  rw [run_append, Option.bind_eq_some_iff] at finished
  obtain ⟨opened, finished, inner⟩ := finished
  rw [run_append, Option.bind_eq_some_iff] at finished
  obtain ⟨unopened, finished, opens⟩ := finished
  obtain ⟨born, births, early⟩ := Option.bind_eq_some_iff.mp finished
  have first := (mode_threadInit threadId births).run rfl counts before outside early
  rw [if_neg Bool.false_ne_true, List.append_nil] at first
  have second := (first.opens opens).run rfl counts inside within inner
  exact second.closes counts closes

end DrRun

/-! ### Both tools -/

namespace PerfCntrs

variable {gomp : Gomp} {environment : Environment} {depth : Nat} {state : PerfCntrs Mark}
  {inside : List (OmpCall Mark)} {opening closing : Mark}

/-- The master makes a call. -/
def masterMark : OmpCall Mark → Option Mark
  | .setenv _ => none
  | .parallel caller mark | .barrier caller mark => if caller.thread = 0 then some mark else none

/-- A thread that is not the master starts regions in parallel regions only. -/
def InTeam : OmpCall Mark → Prop
  | .parallel caller _ => caller.thread ≠ 0 → caller.inParallel = true
  | .setenv _ | .barrier _ _ => True

/-- The phases of the master end at its own calls. -/
theorem marksOf_zero (gomp : Gomp) (calls : List (OmpCall Mark))
    (inTeam : ∀ call ∈ calls, InTeam call) : marksOf gomp 0 calls = calls.filterMap masterMark := by
  refine List.filterMap_congr fun call member => ?_
  cases call with
  | setenv => rfl
  | barrier caller mark =>
    rw [recordedMark, masterMark]
    exact if_congr eq_comm rfl rfl
  | parallel caller mark =>
    rw [recordedMark, masterMark]
    by_cases master : caller.thread = 0
    · rw [if_pos master]
      refine if_pos ?_
      split
      · exact master.symm
      · exact master ▸ gomp.mem_team caller
    · rw [if_neg master, inTeam _ member master]
      exact if_neg (Ne.symm master)

/-- What is printed with the number of the initial thread is what that thread prints. -/
theorem filter_printed (gomp : Gomp) (closing : Mark) (state : PerfCntrs Mark) :
    (printed closing state (gomp.team .initial).zipIdx).filter (·.tid = 0) =
      (state.threads 0).lines state.ompParallel closing 0 := by
  have numbered : ∀ counters : ThreadCounters Mark, ∀ tid,
      ∀ line ∈ counters.lines state.ompParallel closing tid, line.tid = tid := by
    intro counters tid line member
    rcases List.mem_append.mp member with stored | last
    · obtain ⟨index, -, rfl⟩ := List.mem_map.mp stored
      rfl
    · rw [List.mem_singleton.mp last]
  obtain ⟨rest, team⟩ : ∃ rest, gomp.team .initial = 0 :: rest := by
    have first := gomp.first .initial
    cases held : gomp.team .initial with
    | nil => rw [held] at first; cases first
    | cons thread rest =>
      rw [held] at first
      exact ⟨rest, congrArg (· :: rest) (Option.some_inj.mp first)⟩
  rw [team, List.zipIdx_cons, printed, List.flatMap_cons, List.filter_append,
    List.filter_eq_self.mpr fun line member => decide_eq_true (numbered _ _ line member),
    List.filter_eq_nil_iff.mpr, List.append_nil]
  intro line member
  obtain ⟨⟨thread, tid⟩, placed, printed⟩ := List.mem_flatMap.mp member
  have later : 1 ≤ tid := (List.mem_zipIdx placed).1
  rw [numbered _ _ line printed, decide_eq_true_eq]
  exact Nat.ne_of_gt later

end PerfCntrs

/-- The two tools number the phases of the master alike: what the library of the performance
counters prints for thread 0 has the ids of the regions that the client saves for the master, which
are those below the synchronisation count, and each is delimited by the same two calls. -/
theorem numbers_alike (config : Config) (counts : config.ignoreSingle = false) (gomp : Gomp)
    (environment : Environment) (depth : Nat) (enabled : environment.bpPerfcntrs ≠ 0)
    (regions : environment.bpPerfcntrsOmpparallel ≠ 0) (threadId : UInt32) (opening closing : Mark)
    (before inside : List (OmpCall Mark)) (drBefore drInside : List (DrEvent Mark))
    (outside : ∀ call ∈ before, PerfCntrs.LeavesRoi call)
    (within : ∀ call ∈ inside, PerfCntrs.LeavesRoi call)
    (inTeam : ∀ call ∈ inside, PerfCntrs.InTeam call)
    (drOutside : ∀ event ∈ drBefore, DrRun.Quiet event)
    (drWithin : ∀ event ∈ drInside, DrRun.Quiet event)
    (same : inside.filterMap PerfCntrs.masterMark = drInside.filterMap DrRun.masterMark)
    (few : (inside.filterMap PerfCntrs.masterMark).length < maxParallelPhases)
    (final : DrRun Mark) (reached : run (DrRun.step config) DrRun.new
      (DrRun.application threadId drBefore drInside opening closing) = some final) :
    ∃ measured, run (PerfCntrs.step gomp environment (depth + 2)) PerfCntrs.new
        (PerfCntrs.untilEnd before inside opening ++ PerfCntrs.ending closing) = some measured ∧
      ((measured.outfile.filter (·.tid = 0)).map fun line => (line.values, line.bid)) =
        (final.regions.map fun region => (some region.1, region.2)) ∧
      final.regions.map Prod.snd = List.range final.client.barrierPoint.synchCount ∧
      ∃ data, final.client.slots.lookup 0 = some data ∧ data.isMaster = true ∧
        ∀ id, (data.regions.lookup id).isSome = true ↔ id < final.client.barrierPoint.synchCount := by
  have numbered := DrRun.numbered_application counts drOutside drWithin reached
  rw [← same] at numbered
  obtain ⟨state, ran, holds⟩ : ∃ state, run (PerfCntrs.step gomp environment (depth + 2))
      PerfCntrs.new (PerfCntrs.untilEnd before inside opening) = some state ∧
        PerfCntrs.Recorded gomp environment opening inside state :=
    PerfCntrs.run_untilEnd opening enabled regions outside within
  have kept := holds.kept 0 gomp.initial_mem
  rw [PerfCntrs.marksOf_zero gomp inside inTeam] at kept
  refine ⟨({ state with roiBp := some 0 } : PerfCntrs Mark).closing (gomp.team .initial) closing, ?_,
    ?_, ?_, ?_⟩
  · rw [run_append, ran]
    exact PerfCntrs.run_ending enabled holds
  · rw [PerfCntrs.outfile_closing holds, PerfCntrs.filter_printed, numbered.regions_eq,
      kept.lines_eq (holds.opened.ompParallel_eq ▸ regions) (Nat.le_of_lt few) closing 0,
      List.map_map]
    rfl
  · rw [numbered.regions_eq, List.zipIdx_map_snd, length_phases, numbered.master.synchCount_eq,
      List.range_eq_range']
  · obtain ⟨data, found, stored⟩ := numbered.master.numbered
    refine ⟨data, found, stored.isMaster_eq, ?_⟩
    rw [numbered.master.synchCount_eq]
    exact stored.isSome_iff

/-- An application with one parallel region. -/
def oneRegion : Config where
  parallelOmpF := AList.insert 8 "main._omp_fn.0" ∅

/-- A region of two threads with a barrier; the worker is born in it. -/
theorem numbers_alike_team : ∃ final, run (DrRun.step oneRegion) DrRun.new
      (DrRun.application 10 [.client (.memRef 0 64)] [.ompFn 0 8 1, .client (.threadInit 1 11),
        .ompFn 1 8 1, .barrier 1 3, .barrier 0 2] 0 4) = some final ∧
    ∃ measured, run (PerfCntrs.step twoThreads perRegion 2) PerfCntrs.new
      (PerfCntrs.untilEnd [] [.parallel .initial 1, .barrier ⟨1, 1, 1, true⟩ 3,
        .barrier ⟨0, 0, 1, true⟩ 2] 0 ++ PerfCntrs.ending 4) = some measured ∧
      ((measured.outfile.filter (·.tid = 0)).map fun line => (line.values, line.bid)) =
        (final.regions.map fun region => (some region.1, region.2)) ∧
      final.regions.map Prod.snd = List.range final.client.barrierPoint.synchCount ∧
      ∃ data, final.client.slots.lookup 0 = some data ∧ data.isMaster = true ∧
        ∀ id, (data.regions.lookup id).isSome = true ↔
          id < final.client.barrierPoint.synchCount := by
  have completes : (run (DrRun.step oneRegion) DrRun.new (DrRun.application 10
      [.client (.memRef 0 64)] [.ompFn 0 8 1, .client (.threadInit 1 11), .ompFn 1 8 1, .barrier 1 3,
        .barrier 0 2] 0 4)).isSome = true := by decide
  obtain ⟨final, reached⟩ := Option.isSome_iff_exists.mp completes
  refine ⟨final, reached, numbers_alike oneRegion rfl twoThreads perRegion 0 (by decide) (by decide)
    10 0 4 [] _ [.client (.memRef 0 64)] [.ompFn 0 8 1, .client (.threadInit 1 11), .ompFn 1 8 1,
      .barrier 1 3, .barrier 0 2] nofun ?_ ?_ ?_ ?_ rfl (by decide) final reached⟩
  all_goals
    intro call member
    simp only [List.mem_cons, List.not_mem_nil, or_false] at member
  · rcases member with rfl | rfl | rfl <;> trivial
  · rcases member with rfl | rfl | rfl
    · exact fun other => absurd rfl other
    · trivial
    · trivial
  · subst member
    trivial
  · rcases member with rfl | rfl | rfl | rfl | rfl
    · trivial
    · exact Nat.one_ne_zero
    · trivial
    · trivial
    · trivial

end BarrierPoint
