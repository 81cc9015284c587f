/-
This file follows the master through the steps of the DynamoRIO client. The
master is the initial thread. It saves a region at each synchronisation point
it takes, under an id that is the synchronisation count of the client; what the
other threads do, and the instrumented code, leaves its ids alone.
-/

import BarrierPoint.RegionIds

namespace BarrierPoint

open Library

/-- A thread that is the master has saved the regions below a count, and is not in a single
construct. -/
structure ThreadData.NumberedTo (count : Nat) (data : ThreadData) : Prop where
  isMaster_eq : data.isMaster = true
  inSingle_eq : data.inSingle = false
  synchId_eq : data.curSynchId = count
  isSome_iff : ∀ id, (data.regions.lookup id).isSome = true ↔ id < count

theorem ThreadData.NumberedTo.goesOn {count : Nat} {before after : ThreadData}
    (numbered : before.NumberedTo count) (works : before.GoesOn after) : after.NumberedTo count := by
  obtain ⟨_, _, _, _, _, rfl⟩ := works
  exact ⟨numbered.isMaster_eq, numbered.inSingle_eq, numbered.synchId_eq, numbered.isSome_iff⟩

theorem ThreadData.NumberedTo.saveBarrier {count : Nat} {data : ThreadData}
    (numbered : data.NumberedTo count) (ompName : String) :
    (data.saveBarrier ompName).NumberedTo (count + 1) := by
  refine ⟨numbered.isMaster_eq, numbered.inSingle_eq, congrArg (· + 1) numbered.synchId_eq,
    fun id => ?_⟩
  show ((data.regions.insertNew data.curSynchId _).lookup id).isSome = true ↔ _
  rw [UnorderedMap.lookup_insertNew, numbered.synchId_eq]
  by_cases here : id = count
  · simp [here]
  · rw [if_neg here, numbered.isSome_iff]
    omega

namespace Client

/-- The id under which the initial thread stores a region by an event. -/
def masterStores (config : Config) (client : Client) (event : Event) : Option Nat := do
  let (context, _) ← client.takenPoint config event
  guard (context = 0)
  let data ← client.slots.lookup context
  return data.curSynchId

/-- An event that neither starts nor ends the region of interest, and is not the birth of the
initial thread. -/
def Steady : Event → Prop
  | .threadInit context _ => context ≠ 0
  | .roiInit _ => False
  | .roiEnd _ => False
  | _ => True

/-- The initial thread is the one master, and its ids are below the synchronisation count. -/
structure MasterAt (client : Client) (count : Nat) : Prop extends client.OneMaster where
  numbered : ∃ data, client.slots.lookup 0 = some data ∧ data.NumberedTo count
  synchCount_eq : client.barrierPoint.synchCount = count

variable {config : Config} {client next : Client} {event : Event} {count : Nat}
  {context : DrContext} {data after : ThreadData}

/-- Only the ends of the region of interest change its flag. -/
theorem inRoi_of_steady (steady : Steady event) (stepped : client.step config event = some next) :
    next.inRoi = client.inRoi := by
  cases step_cases stepped with
  | roiInit | roiEnd => exact steady.elim
  | _ => rfl

theorem masterStores_taken (found : client.slots.lookup context = some data) {region : Region}
    (taken : client.takenPoint config event = some (context, region)) :
    client.masterStores config event = if context = 0 then some data.curSynchId else none := by
  rw [masterStores, taken, Option.bind_eq_bind, Option.bind_some]
  by_cases initial : context = 0
  · rw [if_pos initial]
    simp only [guard, initial, if_true]
    rw [found]
    rfl
  · rw [if_neg initial]
    simp [guard, initial]

theorem masterStores_none (idle : client.takenPoint config event = none) :
    client.masterStores config event = none := by
  rw [masterStores, idle]
  rfl

namespace MasterAt

/-- The slot of the initial thread, the count and the masters stay. -/
theorem of_eq (holds : client.MasterAt count) (slots : next.slots = client.slots)
    (counted : next.barrierPoint.synchCount = client.barrierPoint.synchCount)
    (first : next.firstTimeCalled = client.firstTimeCalled) : next.MasterAt count := by
  refine ⟨holds.toOneMaster.of_eq slots first, ?_, counted.trans holds.synchCount_eq⟩
  rw [slots]
  exact holds.numbered

theorem numberedTo (holds : client.MasterAt count) (found : client.slots.lookup 0 = some data) :
    data.NumberedTo count := by
  obtain ⟨held, read, numbered⟩ := holds.numbered
  obtain rfl := Option.some_inj.mp (read.symm.trans found)
  exact numbered

theorem worker (holds : client.MasterAt count) (different : context ≠ 0)
    (found : client.slots.lookup context = some data) : data.isMaster = false := by
  by_contra also
  obtain ⟨held, read, numbered⟩ := holds.numbered
  exact different (holds.unique context 0 data found held read (Bool.eq_true_of_not_eq_false also)
    numbered.isMaster_eq)

/-- The data of another thread changes. -/
theorem changes_other (holds : client.MasterAt count) (oneMaster : next.OneMaster)
    (different : context ≠ 0) (changed : client.SlotChanged context after next)
    (counted : next.barrierPoint.synchCount = client.barrierPoint.synchCount) :
    next.MasterAt count := by
  obtain ⟨held, read, numbered⟩ := holds.numbered
  refine ⟨oneMaster, ⟨held, ?_, numbered⟩, counted.trans holds.synchCount_eq⟩
  rw [changed, if_neg different.symm]
  exact read

/-- A thread goes on in its region, or changes what the ids do not depend on. -/
theorem works (holds : client.MasterAt count) (found : client.slots.lookup context = some data)
    (keeps : data.NumberedTo count → after.NumberedTo count)
    (same : after.isMaster = data.isMaster) : (client.setSlot context after).MasterAt count := by
  have changed := client.slotChanged_setSlot context after
  have oneMaster := holds.toOneMaster.changes found changed same rfl
  by_cases initial : context = 0
  · subst initial
    exact ⟨oneMaster, ⟨after, (changed 0).trans (if_pos rfl), keeps (holds.numberedTo found)⟩,
      holds.synchCount_eq⟩
  · exact holds.changes_other oneMaster initial changed rfl

/-- A thread takes a point: the master gets a new id, and it alone. -/
theorem takes (holds : client.MasterAt count) (found : client.slots.lookup context = some data)
    (ompName : String) : (client.taken context data ompName).MasterAt
      (if context = 0 then count + 1 else count) := by
  have changed := client.slotChanged_taken context data ompName
  have oneMaster : (client.taken context data ompName).OneMaster :=
    holds.toOneMaster.changes found changed rfl rfl
  by_cases initial : context = 0
  · subst initial
    have numbered := holds.numberedTo found
    refine ⟨oneMaster, ⟨_, (changed 0).trans (if_pos rfl), numbered.saveBarrier ompName⟩, ?_⟩
    show (if data.isMaster then _ else _ : BarrierPointData).synchCount = _
    rw [if_pos numbered.isMaster_eq]
    exact congrArg (· + 1) holds.synchCount_eq
  · rw [if_neg initial]
    refine holds.changes_other oneMaster initial changed ?_
    show (if data.isMaster then _ else _ : BarrierPointData).synchCount = _
    rw [holds.worker initial found]
    rfl

/-- The event of a point that a thread takes, and the state behind it. -/
theorem takesBy (holds : client.MasterAt count) (found : client.slots.lookup context = some data)
    (ompName : String)
    (taken : client.takenPoint config event = some (context, data.currentRegion ompName))
    (slots : next.slots = (client.taken context data ompName).slots)
    (counted : next.barrierPoint.synchCount =
      (client.taken context data ompName).barrierPoint.synchCount)
    (first : next.firstTimeCalled = client.firstTimeCalled) :
    (client.masterStores config event = none ∧ next.MasterAt count) ∨
      (client.masterStores config event = some count ∧ next.MasterAt (count + 1)) := by
  have took := (holds.takes found ompName).of_eq slots counted first
  rw [masterStores_taken found taken]
  by_cases initial : context = 0
  · subst initial
    refine .inr ⟨?_, took⟩
    rw [if_pos rfl, (holds.numberedTo found).synchId_eq]
  · rw [if_neg initial] at took ⊢
    exact .inl ⟨rfl, took⟩

/-- A step leaves the ids of the master alone, or gives it the next one. -/
theorem step (holds : client.MasterAt count) (counts : config.ignoreSingle = false)
    (unborn : ∀ threadId, event ≠ .threadInit 0 threadId)
    (stepped : client.step config event = some next) :
    (client.masterStores config event = none ∧ next.MasterAt count) ∨
      (client.masterStores config event = some count ∧ next.MasterAt (count + 1)) := by
  have oneMaster := oneMaster_step holds.toOneMaster stepped
  have idle : ∀ {point : Option (DrContext × Region)}, client.takenPoint config event = point →
      point = none → next.MasterAt count →
        (client.masterStores config event = none ∧ next.MasterAt count) ∨
          (client.masterStores config event = some count ∧ next.MasterAt (count + 1)) :=
    fun taken nothing after => .inl ⟨masterStores_none (taken.trans nothing), after⟩
  cases step_cases stepped with
  | @threadInit context threadId registered =>
    have other : context ≠ 0 := fun initial => unborn threadId (initial ▸ rfl)
    exact idle rfl rfl (holds.changes_other oneMaster other (client.slotChanged_setSlot context _) rfl)
  | threadInitIgnored => exact idle rfl rfl holds
  | threadExit registered found worker =>
    exact holds.takesBy found "thread_exit" (by simp [takenPoint, registered, found, worker]) rfl rfl rfl
  | masterExit registered found master =>
    exact idle rfl (by simp [takenPoint, found, master]) (holds.of_eq rfl rfl rfl)
  | threadExitIgnored unregistered => exact idle rfl (by simp [takenPoint, unregistered]) holds
  | roiInit => exact idle rfl rfl (holds.of_eq rfl rfl rfl)
  | roiEnd once found master =>
    exact holds.takesBy found "thread_exit" (by simp [takenPoint, found]) rfl rfl rfl
  | ompParallel known inRoi found =>
    exact holds.takesBy found _ (by simp [takenPoint, inRoi, found, known]) rfl rfl rfl
  | ompParallelOutside known outside => exact idle rfl (by simp [takenPoint, outside]) holds
  | barrier inRoi found explicit =>
    exact holds.takesBy found _ (by simp [takenPoint, inRoi, found, explicit]) rfl rfl rfl
  | barrierIgnored inRoi found implicit =>
    refine idle rfl (by simp [takenPoint, found, implicit]) (holds.works found ?_ rfl)
    intro numbered
    exact absurd numbered.inSingle_eq (by simp [implicit])
  | barrierOutside outside => exact idle rfl (by simp [takenPoint, outside]) holds
  | single inRoi ignored => exact absurd ignored (by simp [counts])
  | singleIgnored => exact idle rfl rfl holds
  | cleanCall found ran =>
    have works := goesOn_blockData ran
    exact idle rfl rfl (holds.works found (·.goesOn works) works.sameRegions.master_eq)
  | memRef found => exact idle rfl rfl (holds.works found (·.goesOn ⟨_, _, _, _, _, rfl⟩) rfl)

/-- The master does not store a region when it exits. -/
theorem masterStores_threadExit (holds : client.MasterAt count) (context : DrContext) :
    client.masterStores config (.threadExit context) = none := by
  cases found : client.slots.lookup context with
  | none => exact masterStores_none (by simp [takenPoint, found])
  | some data =>
    cases worker : data.isMaster with
    | true => exact masterStores_none (by simp [takenPoint, found, worker])
    | false =>
      have other : context ≠ 0 := by
        rintro rfl
        rw [(holds.numberedTo found).isMaster_eq] at worker
        cases worker
      cases registered : client.threadExitRegistered with
      | false => exact masterStores_none (by simp [takenPoint, registered])
      | true =>
        have taken : client.takenPoint config (.threadExit context) =
            some (context, data.currentRegion "thread_exit") := by
          simp [takenPoint, registered, found, worker]
        rw [masterStores_taken found taken, if_neg other]

/-- Outside the region of interest the master stores nothing by a steady event. -/
theorem masterStores_outside (holds : client.MasterAt count) (outside : client.inRoi = false)
    (steady : Steady event) : client.masterStores config event = none := by
  cases event with
  | roiInit | roiEnd => exact steady.elim
  | threadInit | single | cleanCall | memRef => exact masterStores_none rfl
  | ompParallel | barrier => exact masterStores_none (by simp [takenPoint, outside])
  | threadExit context => exact holds.masterStores_threadExit context

/-- In the region of interest the master stores a region at each of its barriers, and no other
thread stores one under an id of the master. -/
theorem masterStores_barrier (holds : client.MasterAt count) (inRoi : client.inRoi = true)
    (stepped : client.step config (.barrier context) = some next) :
    client.masterStores config (.barrier context) = if context = 0 then some count else none := by
  cases step_cases stepped with
  | barrierOutside outside => exact absurd inRoi (by simp [outside])
  | barrier _ found explicit =>
    rw [masterStores_taken found (by simp [takenPoint, inRoi, found, explicit]; rfl)]
    by_cases initial : context = 0
    · subst initial
      rw [(holds.numberedTo found).synchId_eq]
    · rw [if_neg initial, if_neg initial]
  | barrierIgnored _ found implicit =>
    have other : context ≠ 0 := by
      rintro rfl
      rw [(holds.numberedTo found).inSingle_eq] at implicit
      cases implicit
    rw [masterStores_none (by simp [takenPoint, found, implicit]), if_neg other]

theorem masterStores_ompParallel (holds : client.MasterAt count) (inRoi : client.inRoi = true)
    {fAddr : Address} (stepped : client.step config (.ompParallel context fAddr) = some next) :
    client.masterStores config (.ompParallel context fAddr) =
      if context = 0 then some count else none := by
  cases step_cases stepped with
  | ompParallelOutside _ outside => exact absurd inRoi (by simp [outside])
  | ompParallel known _ found =>
    rw [masterStores_taken found (by simp [takenPoint, inRoi, found, known]; rfl)]
    by_cases initial : context = 0
    · subst initial
      rw [(holds.numberedTo found).synchId_eq]
    · rw [if_neg initial, if_neg initial]

theorem masterStores_roiEnd (holds : client.MasterAt count)
    (stepped : client.step config (.roiEnd 0) = some next) :
    client.masterStores config (.roiEnd 0) = some count := by
  cases step_cases stepped with
  | roiEnd once found master =>
    rw [masterStores_taken found (by simp [takenPoint, found]; rfl), if_pos rfl,
      (holds.numberedTo found).synchId_eq]

end MasterAt

end Client

end BarrierPoint
