/-
This file follows the synchronisation points of the master through a run with
one region of interest. Whatever the other threads do, the master saves a region
at each of its points and the synchronisation count goes up with it, so the
regions of the master are those below the count and carry the names of its
points. The last point is the end of the region of interest, and no function
that the client wraps bears a name that `.bp_id` uses for something else. The
file is written when the alignment before it goes through, which takes the
regions of every thread.
-/

import BarrierPoint.BpIdRows
import BarrierPoint.RegionIds

namespace BarrierPoint

open Library

/-! ### The wrapped functions -/

/-- The name is one of a function the client wraps. -/
def OmpNamed (name : String) : Prop := "omp_fn.".toList <:+: name.toList

instance (name : String) : Decidable (OmpNamed name) :=
  inferInstanceAs (Decidable ("omp_fn.".toList <:+: name.toList))

/-- `enumerate_symbols_event` and `register_omp_f`: the functions of a module whose names contain
`omp_fn.` are kept by address. An address that has a name keeps it. -/
def registerOmpF (parallelOmpF : UnorderedMap Address String) (start : Address)
    (symbols : List (String × Address)) : UnorderedMap Address String :=
  (symbols.filter fun symbol => OmpNamed symbol.1).foldl
    (fun known symbol => known.insertNew (symbol.2 + start) symbol.1) parallelOmpF

/-- `parallel_omp_f` after some modules, each with its start and its symbols, have been loaded. -/
def loadModules (modules : List (Address × List (String × Address))) :
    UnorderedMap Address String :=
  modules.foldl (fun known module => registerOmpF known module.1 module.2) ∅

theorem ompNamed_registerOmpF {parallelOmpF : UnorderedMap Address String} {start : Address}
    {symbols : List (String × Address)}
    (known : ∀ fAddr name, parallelOmpF.lookup fAddr = some name → OmpNamed name) :
    ∀ fAddr name, (registerOmpF parallelOmpF start symbols).lookup fAddr = some name →
      OmpNamed name := by
  have inserted : ∀ (added : List (String × Address)) (map : UnorderedMap Address String),
      (∀ symbol ∈ added, OmpNamed symbol.1) →
      (∀ fAddr name, map.lookup fAddr = some name → OmpNamed name) →
      ∀ fAddr name, (added.foldl (fun known symbol =>
        known.insertNew (symbol.2 + start) symbol.1) map).lookup fAddr = some name →
          OmpNamed name := by
    intro added
    induction added with
    | nil => exact fun map _ known => known
    | cons symbol added inductionHypothesis =>
      intro map named known
      rw [List.forall_mem_cons] at named
      refine inductionHypothesis _ named.2 fun fAddr name found => ?_
      rw [UnorderedMap.lookup_insertNew] at found
      split at found
      · rw [Option.some_inj] at found
        subst found
        cases held : map.lookup (symbol.2 + start) with
        | none => exact named.1
        | some name => exact known _ name held
      · exact known fAddr name found
  exact inserted _ _ (fun symbol member => of_decide_eq_true (List.mem_filter.mp member).2) known

theorem ompNamed_loadModules (modules : List (Address × List (String × Address))) :
    ∀ fAddr name, (loadModules modules).lookup fAddr = some name → OmpNamed name := by
  have loaded : ∀ map : UnorderedMap Address String,
      (∀ fAddr name, map.lookup fAddr = some name → OmpNamed name) →
      ∀ fAddr name, (modules.foldl (fun known module =>
        registerOmpF known module.1 module.2) map).lookup fAddr = some name → OmpNamed name := by
    induction modules with
    | nil => exact fun map known => known
    | cons module modules inductionHypothesis =>
      exact fun map known => inductionHypothesis _ (ompNamed_registerOmpF known)
  refine loaded ∅ fun fAddr name found => ?_
  rw [show (∅ : UnorderedMap Address String).lookup fAddr = none from AList.lookup_empty fAddr]
    at found
  cases found

/-- The name of a synchronisation point inside the region of interest. -/
def PointName (name : String) : Prop := name = "GOMP_barrier" ∨ OmpNamed name

theorem PointName.ne {name : String} (point : PointName name) :
    name ≠ "thread_exit" ∧ name ≠ "ROI_Start" := by
  rcases point with rfl | named
  · decide
  · refine ⟨?_, ?_⟩
    · rintro rfl
      exact absurd named (by decide)
    · rintro rfl
      exact absurd named (by decide)

namespace Client

/-! ### The points of the master -/

/-- The name of the point that the initial thread takes by an event. -/
def masterPoint (config : Config) (client : Client) (event : Event) : Option String := do
  let (context, region) ← client.takenPoint config event
  guard (context = 0)
  return region.synchName

/-- The names of the points that the initial thread takes in a run, in order. -/
def masterPoints (config : Config) : Client → List Event → List String
  | _, [] => []
  | client, event :: events => (client.masterPoint config event).toList ++
      match client.step config event with
      | some next => masterPoints config next events
      | none => []

variable {config : Config} {client next : Client} {event : Event} {context : DrContext}
  {data : ThreadData} {names : List String}

theorem masterPoints_cons (stepped : client.step config event = some next) (events : List Event) :
    masterPoints config client (event :: events) =
      (client.masterPoint config event).toList ++ masterPoints config next events := by
  rw [masterPoints, stepped]

theorem masterPoints_append {middle : Client} (first second : List Event) : ∀ {client : Client},
    run (step config) client first = some middle →
      masterPoints config client (first ++ second) =
        masterPoints config client first ++ masterPoints config middle second := by
  induction first with
  | nil =>
    intro client ran
    cases ran
    rfl
  | cons event first inductionHypothesis =>
    intro client ran
    obtain ⟨next, stepped, ran⟩ := Option.bind_eq_some_iff.mp ran
    rw [List.cons_append, masterPoints, masterPoints, stepped, List.append_assoc]
    exact congrArg _ (inductionHypothesis ran)

theorem masterPoint_none (idle : client.takenPoint config event = none) :
    client.masterPoint config event = none := by
  rw [masterPoint, idle]
  rfl

theorem masterPoint_taken {region : Region}
    (taken : client.takenPoint config event = some (context, region)) :
    client.masterPoint config event = if context = 0 then some region.synchName else none := by
  rw [masterPoint, taken, Option.bind_eq_bind, Option.bind_some]
  by_cases initial : context = 0 <;> simp [initial, guard]

/-- What a step does to the master: it goes on, or it takes the point of the event and the
synchronisation count goes up. -/
inductive MasterMove (config : Config) (client : Client) (event : Event) (data : ThreadData)
    (next : Client) : Prop where
  | goesOn {after : ThreadData} (held : next.slots.lookup 0 = some after)
      (point : client.masterPoint config event = none) (same : data.SameRegions after)
      (counted : next.barrierPoint.synchCount = client.barrierPoint.synchCount)
  | takes {after : ThreadData} {name : String} (held : next.slots.lookup 0 = some after)
      (point : client.masterPoint config event = some name)
      (same : (data.saveBarrier name).SameRegions after)
      (counted : next.barrierPoint.synchCount = client.barrierPoint.synchCount + 1)

namespace MasterMove

variable {held after : ThreadData}

/-- The slots and the count stay. -/
theorem of_idle (found : client.slots.lookup 0 = some data)
    (idle : client.takenPoint config event = none) (slots : next.slots = client.slots)
    (counted : next.barrierPoint.synchCount = client.barrierPoint.synchCount) :
    MasterMove config client event data next :=
  .goesOn (slots ▸ found) (masterPoint_none idle) ⟨rfl, rfl, rfl⟩ counted

/-- The slot of another thread changes. -/
theorem of_other (found : client.slots.lookup 0 = some data) (different : context ≠ 0)
    (changed : client.SlotChanged context after next)
    (point : client.masterPoint config event = none)
    (counted : next.barrierPoint.synchCount = client.barrierPoint.synchCount) :
    MasterMove config client event data next :=
  .goesOn ((changed 0).trans ((if_neg different.symm).trans found)) point ⟨rfl, rfl, rfl⟩ counted

/-- A thread goes on without taking a point. -/
theorem of_works (found : client.slots.lookup 0 = some data)
    (read : client.slots.lookup context = some held) (same : held.SameRegions after)
    (idle : client.takenPoint config event = none) :
    MasterMove config client event data (client.setSlot context after) := by
  have changed := client.slotChanged_setSlot context after
  by_cases initial : context = 0
  · subst initial
    obtain rfl := Option.some_inj.mp (found.symm.trans read)
    exact .goesOn ((changed 0).trans (if_pos rfl)) (masterPoint_none idle) same rfl
  · exact of_other found initial changed (masterPoint_none idle) rfl

/-- A thread takes a point. -/
theorem of_takes (oneMaster : client.OneMaster) (found : client.slots.lookup 0 = some data)
    (master : data.isMaster = true) (read : client.slots.lookup context = some held) (name : String)
    (taken : client.takenPoint config event = some (context, held.currentRegion name))
    (slots : next.slots = (client.taken context held name).slots)
    (counted : next.barrierPoint.synchCount =
      (client.taken context held name).barrierPoint.synchCount) :
    MasterMove config client event data next := by
  have changed : client.SlotChanged context (held.saveBarrier name) next := by
    intro other
    rw [slots]
    exact client.slotChanged_taken context held name other
  have point := masterPoint_taken taken
  by_cases initial : context = 0
  · subst initial
    obtain rfl := Option.some_inj.mp (found.symm.trans read)
    refine .takes ((changed 0).trans (if_pos rfl)) (point.trans (if_pos rfl)) ⟨rfl, rfl, rfl⟩ ?_
    rw [counted]
    show (if data.isMaster then _ else _ : BarrierPointData).synchCount = _
    rw [if_pos master]
    rfl
  · have worker : held.isMaster = false := by
      by_contra also
      exact initial (oneMaster.unique context 0 held read data found
        (Bool.eq_true_of_not_eq_false also) master)
    refine of_other found initial changed (point.trans (if_neg initial)) ?_
    rw [counted]
    show (if held.isMaster then _ else _ : BarrierPointData).synchCount = _
    rw [worker]
    rfl

end MasterMove

/-- A step after the birth of the master. -/
theorem master_cases (oneMaster : client.OneMaster) (found : client.slots.lookup 0 = some data)
    (master : data.isMaster = true) (unborn : ∀ threadId, event ≠ .threadInit 0 threadId)
    (stepped : client.step config event = some next) : MasterMove config client event data next := by
  cases step_cases stepped with
  | @threadInit context threadId registered =>
    have other : context ≠ 0 := fun initial => unborn threadId (initial ▸ rfl)
    exact .of_other found other (client.slotChanged_setSlot context _) (masterPoint_none rfl) rfl
  | threadInitIgnored => exact .of_idle found rfl rfl rfl
  | threadExit registered read worker =>
    exact .of_takes oneMaster found master read "thread_exit"
      (by simp [takenPoint, registered, read, worker]) rfl rfl
  | masterExit registered read isMaster =>
    exact .of_idle found (by simp [takenPoint, read, isMaster]) rfl rfl
  | threadExitIgnored unregistered => exact .of_idle found (by simp [takenPoint, unregistered]) rfl rfl
  | roiInit => exact .of_idle found rfl rfl rfl
  | roiEnd once read isMaster =>
    exact .of_takes oneMaster found master read "thread_exit" (by simp [takenPoint, read]) rfl rfl
  | ompParallel known inRoi read =>
    exact .of_takes oneMaster found master read _ (by simp [takenPoint, inRoi, read, known]) rfl rfl
  | ompParallelOutside known outside => exact .of_idle found (by simp [takenPoint, outside]) rfl rfl
  | barrier inRoi read explicit =>
    exact .of_takes oneMaster found master read _ (by simp [takenPoint, inRoi, read, explicit]) rfl rfl
  | barrierIgnored inRoi read implicit =>
    exact .of_works found read ⟨rfl, rfl, rfl⟩ (by simp [takenPoint, read, implicit])
  | barrierOutside outside => exact .of_idle found (by simp [takenPoint, outside]) rfl rfl
  | single inRoi ignored read => exact .of_works found read ⟨rfl, rfl, rfl⟩ rfl
  | singleIgnored => exact .of_idle found rfl rfl rfl
  | cleanCall read ran => exact .of_works found read (sameRegions_blockData ran) rfl
  | memRef read => exact .of_works found read ⟨rfl, rfl, rfl⟩ rfl

/-! ### The regions of the master -/

/-- The initial thread is the master, and its regions are those of its points. -/
structure MasterNamed (names : List String) (client : Client) : Prop extends client.OneMaster where
  held : ∃ data, client.slots.lookup 0 = some data ∧ data.isMaster = true ∧
    data.curSynchId = names.length ∧ Named names data.regions
  counted : client.barrierPoint.synchCount = names.length

theorem named_saveBarrier {data : ThreadData} (counted : data.curSynchId = names.length)
    (named : Named names data.regions) (name : String) :
    Named (names ++ [name]) (data.saveBarrier name).regions := by
  have free : data.regions.lookup data.curSynchId = none := by
    rw [← Option.map_eq_none_iff, named, counted]
    exact List.getElem?_eq_none le_rfl
  intro id
  rw [ThreadData.saveBarrier, UnorderedMap.lookup_insertNew, free, counted]
  split
  · rename_i here
    rw [here, List.getElem?_append_right le_rfl, Nat.sub_self]
    rfl
  · rename_i elsewhere
    rw [named id]
    rcases Nat.lt_or_ge id names.length with inside | beyond
    · rw [List.getElem?_append_left inside]
    · rw [List.getElem?_eq_none beyond, List.getElem?_eq_none]
      rw [List.length_append, List.length_singleton]
      omega

/-- The master goes on, or a region with the name of its point is added. -/
theorem MasterNamed.step (named : client.MasterNamed names)
    (unborn : ∀ threadId, event ≠ .threadInit 0 threadId)
    (stepped : client.step config event = some next) :
    next.MasterNamed (names ++ (client.masterPoint config event).toList) := by
  obtain ⟨data, found, master, synchId, regions⟩ := named.held
  have oneMaster := oneMaster_step named.toOneMaster stepped
  cases master_cases named.toOneMaster found master unborn stepped with
  | @goesOn after held point same counted =>
    rw [point, Option.toList_none, List.append_nil]
    refine ⟨oneMaster, ⟨after, held, same.master_eq.trans master, same.synchId_eq.trans synchId, ?_⟩,
      counted.trans named.counted⟩
    rw [same.regions_eq]
    exact regions
  | @takes after name held point same counted =>
    have length : (names ++ [name]).length = names.length + 1 := List.length_append
    rw [point, Option.toList_some]
    refine ⟨oneMaster, ⟨after, held, same.master_eq.trans master, ?_, ?_⟩, ?_⟩
    · rw [same.synchId_eq, length, ← synchId]
      rfl
    · rw [same.regions_eq]
      exact named_saveBarrier synchId regions name
    · rw [counted, named.counted, length]

/-! ### A run with one region of interest -/

/-- An event that neither starts nor ends the region of interest or the life of the initial
thread. -/
def Ordinary : Event → Prop
  | .threadInit context _ | .threadExit context => context ≠ 0
  | .roiInit _ | .roiEnd _ => False
  | .ompParallel _ _ | .barrier _ | .single _ | .cleanCall _ _ _ | .memRef _ _ => True

/-- What ordinary events do not change, and the names of the points they make the master take. -/
structure Ordinarily (client next : Client) (points : List String) : Prop where
  inRoi_eq : next.inRoi = client.inRoi
  exits_eq : next.threadExitRegistered = client.threadExitRegistered
  masters_eq : BarrierPointData.masterRegions next.barrierPoint.threads =
    BarrierPointData.masterRegions client.barrierPoint.threads
  inside : ∀ point ∈ points, client.inRoi = true ∧ PointName point

theorem threads_taken (client : Client) (context : DrContext) (data : ThreadData) (name : String) :
    (client.taken context data name).barrierPoint.threads = client.barrierPoint.threads := by
  show (if data.isMaster then _ else _ : BarrierPointData).threads = _
  split <;> rfl

theorem masterRegions_append (threads more : List ThreadData) :
    BarrierPointData.masterRegions (threads ++ more) =
      BarrierPointData.masterRegions threads ++ BarrierPointData.masterRegions more := by
  rw [BarrierPointData.masterRegions, List.filter_append, List.map_append]
  rfl

/-- A point that the master takes by an ordinary event is inside the region of interest, and named
after a barrier or a wrapped function. -/
theorem pointName_of_ordinary (ordinary : Ordinary event)
    (wrapped : ∀ fAddr name, config.parallelOmpF.lookup fAddr = some name → OmpNamed name)
    {name : String} (point : client.masterPoint config event = some name) :
    client.inRoi = true ∧ PointName name := by
  obtain ⟨⟨context, region⟩, taken, point⟩ := Option.bind_eq_some_iff.mp point
  obtain ⟨initial, point⟩ := bind_guard_eq_some point
  obtain rfl := Option.some_inj.mp point
  cases event with
  | threadInit | single | cleanCall | memRef => cases taken
  | roiInit | roiEnd => exact ordinary.elim
  | threadExit =>
    obtain ⟨-, taken⟩ := bind_guard_eq_some taken
    obtain ⟨data, -, taken⟩ := Option.bind_eq_some_iff.mp taken
    obtain ⟨-, taken⟩ := bind_guard_eq_some taken
    cases taken
    exact absurd initial ordinary
  | barrier =>
    obtain ⟨inRoi, taken⟩ := bind_guard_eq_some taken
    obtain ⟨data, -, taken⟩ := Option.bind_eq_some_iff.mp taken
    obtain ⟨-, taken⟩ := bind_guard_eq_some taken
    cases taken
    exact ⟨inRoi, .inl rfl⟩
  | ompParallel =>
    obtain ⟨inRoi, taken⟩ := bind_guard_eq_some taken
    obtain ⟨data, -, taken⟩ := Option.bind_eq_some_iff.mp taken
    obtain ⟨fName, known, taken⟩ := Option.bind_eq_some_iff.mp taken
    cases taken
    exact ⟨inRoi, .inr (wrapped _ _ known)⟩

theorem MasterNamed.ordinary_step (named : client.MasterNamed names) (ordinary : Ordinary event)
    (wrapped : ∀ fAddr name, config.parallelOmpF.lookup fAddr = some name → OmpNamed name)
    (stepped : client.step config event = some next) :
    Ordinarily client next (client.masterPoint config event).toList := by
  have inside : ∀ point ∈ (client.masterPoint config event).toList,
      client.inRoi = true ∧ PointName point := fun point member =>
    pointName_of_ordinary ordinary wrapped (Option.mem_toList.mp member)
  cases step_cases stepped with
  | roiInit | roiEnd => exact ordinary.elim
  | @threadExit context data registered read worker =>
    refine ⟨rfl, rfl, ?_, inside⟩
    have isWorker : ¬(data.saveBarrier "thread_exit").isMaster = true := by
      rw [show (data.saveBarrier "thread_exit").isMaster = data.isMaster from rfl, worker]
      decide
    show BarrierPointData.masterRegions
      ((client.taken context data "thread_exit").barrierPoint.threads ++
        [data.saveBarrier "thread_exit"]) = _
    rw [threads_taken, masterRegions_append, BarrierPointData.masterRegions_cons, if_neg isWorker]
    exact List.append_nil _
  | masterExit registered read isMaster =>
    obtain ⟨data, found, master, -⟩ := named.held
    exact absurd (named.unique _ 0 _ read data found isMaster master) ordinary
  | ompParallel | barrier => exact ⟨rfl, rfl, congrArg _ (threads_taken _ _ _ _), inside⟩
  | _ => exact ⟨rfl, rfl, rfl, inside⟩

theorem MasterNamed.ordinary_run
    (wrapped : ∀ fAddr name, config.parallelOmpF.lookup fAddr = some name → OmpNamed name)
    (events : List Event) : ∀ {client : Client} {names : List String},
      client.MasterNamed names → (∀ event ∈ events, Ordinary event) →
      Library.run (Client.step config) client events = some next →
        next.MasterNamed (names ++ masterPoints config client events) ∧
          Ordinarily client next (masterPoints config client events) := by
  induction events with
  | nil =>
    intro client names named _ ran
    cases ran
    rw [masterPoints, List.append_nil]
    exact ⟨named, rfl, rfl, rfl, nofun⟩
  | cons event events inductionHypothesis =>
    intro client names named ordinary ran
    rw [List.forall_mem_cons] at ordinary
    obtain ⟨middle, stepped, ran⟩ := Option.bind_eq_some_iff.mp ran
    have unborn : ∀ threadId, event ≠ .threadInit 0 threadId := by
      rintro threadId rfl
      exact ordinary.1 rfl
    have first := named.ordinary_step ordinary.1 wrapped stepped
    obtain ⟨later, rest⟩ := inductionHypothesis (named.step unborn stepped) ordinary.2 ran
    rw [masterPoints_cons stepped, ← List.append_assoc]
    refine ⟨later, rest.inRoi_eq.trans first.inRoi_eq, rest.exits_eq.trans first.exits_eq,
      rest.masters_eq.trans first.masters_eq, ?_⟩
    rw [List.forall_mem_append]
    refine ⟨first.inside, fun point member => ?_⟩
    rw [← first.inRoi_eq]
    exact rest.inside point member

/-- A run with one region of interest: the birth of the initial thread, events before the region of
interest, its start, the events inside, its end, events behind it, the exit of the initial thread and
what still happens then. -/
def oneRoi (threadId : UInt32) (opener closer : DrContext) (before inside behind last : List Event) :
    List Event :=
  .threadInit 0 threadId :: (before ++ .roiInit opener :: (inside ++ .roiEnd closer ::
    (behind ++ .threadExit 0 :: last)))

theorem masterNamed_threadInit {threadId : UInt32}
    (stepped : Client.new.step config (.threadInit 0 threadId) = some next) :
    next.MasterNamed [] ∧ next.inRoi = false ∧ next.barrierPoint.threads = [] := by
  cases stepped
  have changed := Client.new.slotChanged_setSlot 0
    (ThreadData.new threadId Client.new.firstTimeCalled Client.new.barrierPoint.synchCount)
  refine ⟨⟨oneMaster_new.births changed rfl rfl, ⟨_, (changed 0).trans (if_pos rfl), rfl, rfl, ?_⟩,
    rfl⟩, rfl, rfl⟩
  intro id
  rw [show (ThreadData.new threadId Client.new.firstTimeCalled
    Client.new.barrierPoint.synchCount).regions.lookup id = none from AList.lookup_empty id]
  rfl

theorem MasterNamed.roiInit (named : client.MasterNamed names) {opener : DrContext}
    (stepped : client.step config (.roiInit opener) = some next) :
    next.MasterNamed names ∧ next.threadExitRegistered = true ∧
      next.barrierPoint = client.barrierPoint := by
  have later := named.step (fun _ => Event.noConfusion) stepped
  rw [masterPoint_none rfl, Option.toList_none, List.append_nil] at later
  cases step_cases stepped with
  | roiInit => exact ⟨later, rfl, rfl⟩

/-- The end of the region of interest is a point of the master. -/
theorem MasterNamed.roiEnd (named : client.MasterNamed names) {closer : DrContext}
    (stepped : client.step config (.roiEnd closer) = some next) :
    client.masterPoint config (.roiEnd closer) = some "thread_exit" ∧
      next.MasterNamed (names ++ ["thread_exit"]) ∧ next.inRoi = false ∧
      next.threadExitRegistered = client.threadExitRegistered ∧
      next.barrierPoint.threads = client.barrierPoint.threads := by
  have later := named.step (fun _ => Event.noConfusion) stepped
  obtain ⟨data, found, master, -⟩ := named.held
  cases step_cases stepped with
  | @roiEnd _ held once read isMaster =>
    have initial := named.unique closer 0 held read data found isMaster master
    have point : client.masterPoint config (.roiEnd closer) = some "thread_exit" := by
      rw [masterPoint_taken (show client.takenPoint config (.roiEnd closer) =
        some (closer, held.currentRegion "thread_exit") by simp [takenPoint, read]), if_pos initial]
      rfl
    rw [point, Option.toList_some] at later
    exact ⟨point, later, rfl, rfl, threads_taken client.closed _ _ _⟩

/-- The exit of the master keeps its regions. -/
theorem MasterNamed.threadExit (named : client.MasterNamed names)
    (registered : client.threadExitRegistered = true)
    (stepped : client.step config (.threadExit 0) = some next) :
    client.masterPoint config (.threadExit 0) = none ∧ next.MasterNamed names ∧
      next.inRoi = client.inRoi ∧ ∃ regions, Named names regions ∧
        BarrierPointData.masterRegions next.barrierPoint.threads =
          BarrierPointData.masterRegions client.barrierPoint.threads ++ [regions] := by
  have later := named.step (fun _ => Event.noConfusion) stepped
  obtain ⟨data, found, master, -, regions⟩ := named.held
  have point : client.masterPoint config (.threadExit 0) = none :=
    masterPoint_none (by simp [takenPoint, found, master])
  rw [point, Option.toList_none, List.append_nil] at later
  refine ⟨point, later, ?_⟩
  cases step_cases stepped with
  | @threadExit context held on read worker =>
    obtain rfl := Option.some_inj.mp (read.symm.trans found)
    exact absurd master (by rw [worker]; exact Bool.false_ne_true)
  | @masterExit context held on read isMaster =>
    obtain rfl := Option.some_inj.mp (read.symm.trans found)
    refine ⟨rfl, held.regions, regions, ?_⟩
    show BarrierPointData.masterRegions (client.barrierPoint.threads ++ [held]) = _
    rw [masterRegions_append, BarrierPointData.masterRegions_cons, if_pos isMaster]
    rfl
  | threadExitIgnored off => exact absurd registered (by rw [off]; exact Bool.false_ne_true)

theorem Ordinarily.points_eq_nil {points : List String} (ordinarily : Ordinarily client next points)
    (outside : client.inRoi = false) : points = [] :=
  List.eq_nil_iff_forall_not_mem.mpr fun point member =>
    Bool.false_ne_true (outside.symm.trans (ordinarily.inside point member).1)

/-- What a run with one region of interest leaves: the regions of the master are those of its points,
the last of which is the end of the region of interest. -/
theorem listsMaster_oneRoi
    (wrapped : ∀ fAddr name, config.parallelOmpF.lookup fAddr = some name → OmpNamed name)
    {threadId : UInt32} {opener closer : DrContext} {before inside behind last : List Event}
    (ordinary : ∀ event ∈ before ++ inside ++ behind ++ last, Ordinary event) {final : Client}
    (reached : Library.run (Client.step config) Client.new
      (oneRoi threadId opener closer before inside behind last) = some final) :
    ∃ points, masterPoints config Client.new
        (oneRoi threadId opener closer before inside behind last) = points ++ ["thread_exit"] ∧
      (∀ point ∈ points, PointName point) ∧
      BarrierPointData.ListsMaster (points ++ ["thread_exit"]) final.barrierPoint := by
  simp only [List.forall_mem_append] at ordinary
  obtain ⟨⟨⟨quietBefore, quietInside⟩, quietBehind⟩, quietLast⟩ := ordinary
  rw [oneRoi] at reached ⊢
  obtain ⟨born, init, reached⟩ := Option.bind_eq_some_iff.mp reached
  rw [Library.run_append] at reached
  obtain ⟨waiting, ranBefore, reached⟩ := Option.bind_eq_some_iff.mp reached
  obtain ⟨opened, opening, reached⟩ := Option.bind_eq_some_iff.mp reached
  rw [Library.run_append] at reached
  obtain ⟨working, ranInside, reached⟩ := Option.bind_eq_some_iff.mp reached
  obtain ⟨closed, closing, reached⟩ := Option.bind_eq_some_iff.mp reached
  rw [Library.run_append] at reached
  obtain ⟨leaving, ranBehind, reached⟩ := Option.bind_eq_some_iff.mp reached
  obtain ⟨left, exit, ranLast⟩ := Option.bind_eq_some_iff.mp reached
  obtain ⟨namedBorn, outside, nobody⟩ := masterNamed_threadInit init
  obtain ⟨namedWaiting, ordinarilyBefore⟩ :=
    namedBorn.ordinary_run wrapped before quietBefore ranBefore
  rw [ordinarilyBefore.points_eq_nil outside, List.append_nil] at namedWaiting
  obtain ⟨namedOpened, registered, keptOpening⟩ := namedWaiting.roiInit opening
  obtain ⟨namedWorking, ordinarilyInside⟩ :=
    namedOpened.ordinary_run wrapped inside quietInside ranInside
  rw [List.nil_append] at namedWorking
  obtain ⟨ends, namedClosed, outsideAgain, exits, keptClosing⟩ := namedWorking.roiEnd closing
  obtain ⟨namedLeaving, ordinarilyBehind⟩ :=
    namedClosed.ordinary_run wrapped behind quietBehind ranBehind
  rw [ordinarilyBehind.points_eq_nil outsideAgain, List.append_nil] at namedLeaving
  have registeredLeaving : leaving.threadExitRegistered = true := by
    rw [ordinarilyBehind.exits_eq, exits, ordinarilyInside.exits_eq, registered]
  obtain ⟨silent, namedLeft, outsideLeft, regions, named, kept⟩ :=
    namedLeaving.threadExit registeredLeaving exit
  obtain ⟨namedFinal, ordinarilyLast⟩ := namedLeft.ordinary_run wrapped last quietLast ranLast
  have nothing := ordinarilyLast.points_eq_nil
    (outsideLeft.trans (ordinarilyBehind.inRoi_eq.trans outsideAgain))
  rw [nothing, List.append_nil] at namedFinal
  refine ⟨masterPoints config opened inside, ?_, fun point member =>
    (ordinarilyInside.inside point member).2, namedFinal.counted, regions, ?_, named⟩
  · rw [masterPoints_cons init, masterPoints_append _ _ ranBefore, masterPoints_cons opening,
      masterPoints_append _ _ ranInside, masterPoints_cons closing, masterPoints_append _ _ ranBehind,
      masterPoints_cons exit, ordinarilyBefore.points_eq_nil outside, ends,
      ordinarilyBehind.points_eq_nil outsideAgain, silent, nothing, masterPoint_none rfl,
      masterPoint_none rfl]
    rfl
  · rw [ordinarilyLast.masters_eq, kept, ordinarilyBehind.masters_eq, keptClosing,
      ordinarilyInside.masters_eq, keptOpening, ordinarilyBefore.masters_eq, nobody]
    rfl

/-- In every run with one region of interest the master has a region for each id below the
synchronisation count, before the threads are numbered and aligned and after, so the assertion of
`save_bp_id` does not fire when it is reached. What it then prints has one row for each number below
the count, which names the point that starts the region of its number and counts the earlier rows
with the same routine. -/
theorem saveBpId_oneRoi (modules : List (Address × List (String × Address))) {config : Config}
    (loaded : config.parallelOmpF = loadModules modules) {threadId : UInt32}
    {opener closer : DrContext} {before inside behind last : List Event}
    (ordinary : ∀ event ∈ before ++ inside ++ behind ++ last, Ordinary event) {final : Client}
    (reached : Library.run (Client.step config) Client.new
      (oneRoi threadId opener closer before inside behind last) = some final) :
    ∃ points rows, masterPoints config Client.new
        (oneRoi threadId opener closer before inside behind last) = points ++ ["thread_exit"] ∧
      NumbersPoints points rows ∧
      ∀ saved, saved = final.barrierPoint ∨
          final.barrierPoint.generateFakeTid.alignSynchBb config.parallelOmpF = some saved →
        saved.ListsMaster (points ++ ["thread_exit"]) ∧ saved.saveBpId = some (bpIdText rows) := by
  have wrapped : ∀ fAddr name, config.parallelOmpF.lookup fAddr = some name → OmpNamed name := by
    rw [loaded]
    exact ompNamed_loadModules modules
  obtain ⟨points, taken, named, lists⟩ := listsMaster_oneRoi wrapped ordinary reached
  refine ⟨points, _, taken, numbersPoints_masterRows fun point member => (named point member).ne,
    fun saved whichever => ?_⟩
  have listsSaved : BarrierPointData.ListsMaster (points ++ ["thread_exit"]) saved := by
    rcases whichever with rfl | aligned
    · exact lists
    · exact lists.generateFakeTid.alignSynchBb aligned
  exact ⟨listsSaved, listsSaved.saveBpId_eq⟩

/-! ### The end of the process -/

/-- The starts and ends of the region of interest are detected, and stay so. -/
theorem detected_step (stepped : client.step config event = some next) :
    (client.roiStartDetected = true ∨ (∃ opener, event = .roiInit opener) →
      next.roiStartDetected = true) ∧
    (client.roiEndDetected = true ∨ (∃ closer, event = .roiEnd closer) →
      next.roiEndDetected = true) := by
  cases step_cases stepped with
  | roiInit => exact ⟨fun _ => rfl, fun detected => detected.resolve_right (by simp)⟩
  | roiEnd => exact ⟨fun detected => detected.resolve_right (by simp), fun _ => rfl⟩
  | _ => exact ⟨fun detected => detected.resolve_right (by simp),
      fun detected => detected.resolve_right (by simp)⟩

theorem detected_run (events : List Event) : ∀ {client : Client},
    Library.run (Client.step config) client events = some next →
    (client.roiStartDetected = true ∨ (∃ opener, .roiInit opener ∈ events) →
      next.roiStartDetected = true) ∧
    (client.roiEndDetected = true ∨ (∃ closer, .roiEnd closer ∈ events) →
      next.roiEndDetected = true) := by
  induction events with
  | nil =>
    intro client ran
    cases ran
    simp
  | cons event events inductionHypothesis =>
    intro client ran
    obtain ⟨middle, stepped, ran⟩ := Option.bind_eq_some_iff.mp ran
    obtain ⟨starts, ends⟩ := detected_step stepped
    obtain ⟨started, ended⟩ := inductionHypothesis ran
    constructor
    · rintro (before | ⟨opener, member⟩)
      · exact started (.inl (starts (.inl before)))
      · rcases List.mem_cons.mp member with here | later
        · exact started (.inl (starts (.inr ⟨opener, here.symm⟩)))
        · exact started (.inr ⟨opener, later⟩)
    · rintro (before | ⟨closer, member⟩)
      · exact ended (.inl (ends (.inl before)))
      · rcases List.mem_cons.mp member with here | later
        · exact ended (.inl (ends (.inr ⟨closer, here.symm⟩)))
        · exact ended (.inr ⟨closer, later⟩)

/-- After a run with one region of interest the end of the process goes on to save. -/
theorem eventExit_oneRoi {threadId : UInt32} {opener closer : DrContext}
    {before inside behind last : List Event} {final : Client}
    (reached : Library.run (Client.step config) Client.new
      (oneRoi threadId opener closer before inside behind last) = some final) :
    final.eventExit config = final.barrierPoint.save config.parallelOmpF := by
  obtain ⟨started, ended⟩ := detected_run _ reached
  rw [eventExit, started (.inr ⟨opener, by simp [oneRoi]⟩),
    ended (.inr ⟨closer, by simp [oneRoi]⟩)]
  rfl

/-- At the end of the process the master has exactly the regions below the synchronisation count,
and `.bp_id` is written: one row for each number below the count, in order, which names the point
that starts the region of its number and counts the earlier rows with the same routine. -/
structure ListsPoints (config : Config) (points : List String) (final : Client) : Prop where
  regions : ∃ regions, BarrierPointData.masterRegions final.barrierPoint.threads = [regions] ∧
    (∀ id, (regions.lookup id).isSome = true ↔ id < final.barrierPoint.synchCount) ∧
    ∀ id, (regions.lookup id).map Region.synchName = (points ++ ["thread_exit"])[id]?
  written : ∃ files rows, final.eventExit config = some files ∧ files.bpId = bpIdText rows ∧
    rows.length = final.barrierPoint.synchCount ∧ NumbersPoints points rows

/-- What is listed has been saved, which takes the regions of every thread. -/
theorem ListsPoints.hasRegions {points : List String} (lists : client.ListsPoints config points) :
    ∀ data ∈ client.barrierPoint.threads,
      HasRegions client.barrierPoint.synchCount data.regions := by
  obtain ⟨files, _, exited, -⟩ := lists.written
  obtain ⟨-, exited⟩ := bind_guard_eq_some exited
  obtain ⟨-, saved⟩ := bind_guard_eq_some exited
  rw [← BarrierPointData.save_isSome_iff config.parallelOmpF, saved]
  rfl

/-- After every run with one region of interest `.bp_id` lists the points of the master exactly when
every thread that has exited has a region for each id below the synchronisation count: the rows are
right whenever they are written, but the alignment comes first and follows every look-up. -/
theorem listsPoints_iff_hasRegions (modules : List (Address × List (String × Address)))
    {config : Config} (loaded : config.parallelOmpF = loadModules modules) {threadId : UInt32}
    {opener closer : DrContext} {before inside behind last : List Event}
    (ordinary : ∀ event ∈ before ++ inside ++ behind ++ last, Ordinary event) {final : Client}
    (reached : Library.run (Client.step config) Client.new
      (oneRoi threadId opener closer before inside behind last) = some final) :
    ∃ points, masterPoints config Client.new
        (oneRoi threadId opener closer before inside behind last) = points ++ ["thread_exit"] ∧
      (final.ListsPoints config points ↔
        ∀ data ∈ final.barrierPoint.threads,
          HasRegions final.barrierPoint.synchCount data.regions) := by
  obtain ⟨points, rows, taken, numbers, prints⟩ :=
    saveBpId_oneRoi modules loaded ordinary reached
  have exits := eventExit_oneRoi reached
  refine ⟨points, taken, ListsPoints.hasRegions, fun has => ?_⟩
  obtain ⟨⟨counted, regions, oneMaster, carried⟩, -⟩ := prints _ (.inl rfl)
  obtain ⟨files, saved⟩ := Option.isSome_iff_exists.mp
    ((BarrierPointData.save_isSome_iff config.parallelOmpF _).mpr has)
  obtain ⟨aligned, ran, rest⟩ := Option.bind_eq_some_iff.mp saved
  obtain ⟨bpId, printed, filled⟩ := Option.bind_eq_some_iff.mp rest
  obtain rfl := Option.some_inj.mp (printed.symm.trans (prints aligned (.inr ran)).2)
  have length : (points ++ ["thread_exit"]).length = points.length + 1 := List.length_append
  have rowCount : rows.length = points.length + 1 := by
    have numbered := congrArg List.length numbers.numbers
    rwa [List.length_map, List.length_range] at numbered
  refine ⟨⟨regions, oneMaster, fun id => ?_, carried⟩, files, rows, exits.trans saved, ?_,
    rowCount.trans (length.symm.trans counted.symm), numbers⟩
  · rw [counted]
    exact carried.isSome_iff id
  · rw [← Option.some_inj.mp filled]

/-- An application with one parallel function. -/
def oneFunction : Config where
  parallelOmpF := AList.singleton 0x410 "main._omp_fn.0"

theorem loadModules_oneFunction :
    oneFunction.parallelOmpF = loadModules [(0x400, [("main._omp_fn.0", 0x10), ("main", 0x80)])] := by
  have found : ([("main._omp_fn.0", 0x10), ("main", 0x80)] : List (String × Address)).filter
      (fun symbol => OmpNamed symbol.1) = [("main._omp_fn.0", 0x10)] := by decide
  rw [loadModules, List.foldl_cons, List.foldl_nil, registerOmpF, found]
  rfl

/-- The function is called twice, with a barrier between, on a team of two. -/
def twoCalls : List Event :=
  [.ompParallel 0 0x410, .ompParallel 1 0x410, .barrier 1, .barrier 0, .ompParallel 0 0x410,
    .ompParallel 1 0x410]

/-- The team ends together, so its points are listed. -/
theorem listsPoints_team : ∃ final,
    Library.run (Client.step oneFunction) Client.new
      (oneRoi 10 0 0 [.threadInit 1 11] twoCalls [.threadExit 1] []) = some final ∧
    ∃ points, masterPoints oneFunction Client.new
        (oneRoi 10 0 0 [.threadInit 1 11] twoCalls [.threadExit 1] []) = points ++ ["thread_exit"] ∧
      final.ListsPoints oneFunction points := by
  have ordinary : ∀ event ∈ [.threadInit 1 11] ++ twoCalls ++ [.threadExit 1] ++ [],
      Ordinary event := by
    intro event member
    simp only [twoCalls, List.mem_append, List.mem_cons, List.not_mem_nil, or_false] at member
    rcases member with (rfl | rfl | rfl | rfl | rfl | rfl | rfl) | rfl
    · exact Nat.one_ne_zero
    all_goals first | trivial | exact Nat.one_ne_zero
  have completes : ∃ final, Library.run (Client.step oneFunction) Client.new
      (oneRoi 10 0 0 [.threadInit 1 11] twoCalls [.threadExit 1] []) = some final ∧
      ∀ data ∈ final.barrierPoint.threads, ∀ id < final.barrierPoint.synchCount,
        (data.regions.lookup id).isSome = true := ⟨_, rfl, by decide⟩
  obtain ⟨final, reached, complete⟩ := completes
  obtain ⟨points, taken, lists⟩ :=
    listsPoints_iff_hasRegions _ loadModules_oneFunction ordinary reached
  exact ⟨final, reached, points, taken, lists.mpr complete⟩

/-- A worker born behind the first barrier exits without a region for it: the look-up of the
alignment fails, and no point is listed. -/
theorem not_listsPoints_lateWorker : ∃ final,
    Library.run (Client.step oneFunction) Client.new
      (oneRoi 10 0 0 [] [.barrier 0, .threadInit 1 11] [.threadExit 1] []) = some final ∧
    masterPoints oneFunction Client.new
      (oneRoi 10 0 0 [] [.barrier 0, .threadInit 1 11] [.threadExit 1] []) =
        ["GOMP_barrier"] ++ ["thread_exit"] ∧
    ¬ final.ListsPoints oneFunction ["GOMP_barrier"] := by
  have completes : ∃ final, Library.run (Client.step oneFunction) Client.new
      (oneRoi 10 0 0 [] [.barrier 0, .threadInit 1 11] [.threadExit 1] []) = some final ∧
      ¬ ∀ data ∈ final.barrierPoint.threads, ∀ id < final.barrierPoint.synchCount,
        (data.regions.lookup id).isSome = true := ⟨_, rfl, by decide⟩
  obtain ⟨final, reached, incomplete⟩ := completes
  exact ⟨final, reached, by decide, fun lists => incomplete lists.hasRegions⟩

end Client

end BarrierPoint
