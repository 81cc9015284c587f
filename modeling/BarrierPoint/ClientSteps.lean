/-
This file says once what a step of the client can do. Every callback either
leaves the client alone, changes the slot of its own thread, or takes a
synchronisation point: it saves the region of its thread, and the master
advances the synchronisation count. Later files argue from these cases and do
not unfold the callbacks again.
-/

import BarrierPoint.Client

namespace BarrierPoint

theorem UnorderedMap.lookup_insert {Key Value : Type} [DecidableEq Key]
    (map : UnorderedMap Key Value) (key : Key) (value : Value) (other : Key) :
    (map.insert key value).lookup other = if other = key then some value else map.lookup other := by
  split
  · rename_i same
    rw [same]
    exact AList.lookup_insert map
  · rename_i different
    exact AList.lookup_insert_ne different

theorem UnorderedMap.lookup_insertNew {Key Value : Type} [DecidableEq Key]
    (map : UnorderedMap Key Value) (key : Key) (value : Value) (other : Key) :
    (map.insertNew key value).lookup other =
      if other = key then some ((map.lookup key).getD value) else map.lookup other := by
  unfold UnorderedMap.insertNew
  cases found : map.lookup key with
  | none =>
    rw [if_neg (by simp), UnorderedMap.lookup_insert]
    rfl
  | some held =>
    rw [if_pos (Option.isSome_some)]
    split
    · rename_i same
      rw [same, found]
      rfl
    · rfl

/-- The thread has saved the same regions, and no other. -/
structure ThreadData.SameRegions (before after : ThreadData) : Prop where
  regions_eq : after.regions = before.regions
  synchId_eq : after.curSynchId = before.curSynchId
  master_eq : after.isMaster = before.isMaster

/-- The thread has gone on in its region: its counts and its buffer differ, nothing else. -/
def ThreadData.GoesOn (before after : ThreadData) : Prop :=
  ∃ reuseDist curInstrCount curBbv curLruHist buffer,
    after = { before with reuseDist, curInstrCount, curBbv, curLruHist, buffer }

namespace ThreadData

theorem GoesOn.refl (data : ThreadData) : data.GoesOn data := ⟨_, _, _, _, _, rfl⟩

theorem GoesOn.trans {first second third : ThreadData} (begins : first.GoesOn second)
    (continues : second.GoesOn third) : first.GoesOn third := by
  obtain ⟨_, _, _, _, _, rfl⟩ := begins
  obtain ⟨_, _, _, _, _, rfl⟩ := continues
  exact ⟨_, _, _, _, _, rfl⟩

theorem GoesOn.sameRegions {before after : ThreadData} (works : before.GoesOn after) :
    before.SameRegions after := by
  obtain ⟨_, _, _, _, _, rfl⟩ := works
  exact ⟨rfl, rfl, rfl⟩

theorem goesOn_addReference {before after : ThreadData} {address : Address}
    (looked : before.addReference address = some after) : before.GoesOn after := by
  obtain ⟨⟨reuseDist, distance⟩, -, rest⟩ := Option.bind_eq_some_iff.mp looked
  cases rest
  exact ⟨_, _, _, _, _, rfl⟩

theorem goesOn_addAddress {before after : ThreadData} {mask : Address}
    (drained : before.addAddress mask = some after) : before.GoesOn after := by
  obtain ⟨looked, ran, rest⟩ := Option.bind_eq_some_iff.mp drained
  have works : before.GoesOn looked :=
    Library.run_invariant (fun data => before.GoesOn data)
      (fun _ _ _ holds _ stepped => holds.trans (goesOn_addReference stepped))
      (GoesOn.refl before) (Library.along_of_forall (fun _ _ => trivial) _ _) ran
  cases rest
  exact works.trans ⟨_, _, _, _, _, rfl⟩

end ThreadData

namespace Client

@[simp] theorem lookup_setSlot (client : Client) (context : DrContext) (data : ThreadData)
    (other : DrContext) : (client.setSlot context data).slots.lookup other =
      if other = context then some data else client.slots.lookup other :=
  UnorderedMap.lookup_insert ..

/-- A basic block goes on in its region. -/
theorem goesOn_blockData {config : Config} {client : Client} {before after : ThreadData}
    {instCount : UInt64} {address : Address}
    (ran : client.blockData config before instCount address = some after) :
    before.GoesOn after := by
  have counted : before.GoesOn (before.addBb address instCount) := ⟨_, _, _, _, _, rfl⟩
  have drained : ∀ {data : ThreadData}, before.GoesOn data →
      data.addAddress config.addressMask = some after → before.GoesOn after :=
    fun first ran => first.trans (ThreadData.goesOn_addAddress ran)
  have discarded : ∀ {data : ThreadData}, before.GoesOn data →
      some data.cleanBuffer = some after → before.GoesOn after := by
    rintro data first cleaned
    cases cleaned
    exact first.trans ⟨_, _, _, _, _, rfl⟩
  have either : ∀ {data : ThreadData}, before.GoesOn data →
      (if !client.roiHasEnded then data.addAddress config.addressMask else some data.cleanBuffer) =
        some after → before.GoesOn after := by
    intro data first ran
    split at ran
    · exact drained first ran
    · exact discarded first ran
  unfold blockData at ran
  split at ran
  · split at ran
    · exact either counted ran
    · exact either (.refl before) ran
  · split at ran
    · exact drained counted ran
    · exact discarded (.refl before) ran

/-- A basic block saves no region. -/
theorem sameRegions_blockData {config : Config} {client : Client} {before after : ThreadData}
    {instCount : UInt64} {address : Address}
    (ran : client.blockData config before instCount address = some after) :
    before.SameRegions after :=
  (goesOn_blockData ran).sameRegions

/-- The client after the thread of a context has taken a synchronisation point. -/
def taken (client : Client) (context : DrContext) (data : ThreadData) (ompName : String) :
    Client :=
  { client.setSlot context (data.saveBarrier ompName) with
    barrierPoint :=
      if data.isMaster then client.barrierPoint.incrSynchCount else client.barrierPoint }

/-- The client after the data of an exiting thread has been kept. -/
def kept (client : Client) (data : ThreadData) : Client :=
  { client with barrierPoint := client.barrierPoint.addThreadData data }

/-- The flags of the client after the start of the region of interest. -/
def opened (client : Client) : Client :=
  { client with
    roiStartDetected := true
    threadExitRegistered := true
    inRoi := true
    roiInitOnlyOnce := false }

/-- The flags of the client after the end of the region of interest. -/
def closed (client : Client) : Client :=
  { client with
    roiEndDetected := true
    threadInitRegistered := false
    inRoi := false
    roiHasEnded := true
    roiEndOnlyOnce := false }

/-- Everything a step can do. -/
inductive Effect (config : Config) (client : Client) : Event → Client → Prop where
  | threadInit {context threadId} (registered : client.threadInitRegistered = true) :
      Effect config client (.threadInit context threadId)
        { client.setSlot context
            (ThreadData.new threadId client.firstTimeCalled client.barrierPoint.synchCount) with
          firstTimeCalled := false }
  | threadInitIgnored {context threadId} (unregistered : client.threadInitRegistered = false) :
      Effect config client (.threadInit context threadId) client
  | threadExit {context data} (registered : client.threadExitRegistered = true)
      (found : client.slots.lookup context = some data) (worker : data.isMaster = false) :
      Effect config client (.threadExit context)
        ((client.taken context data "thread_exit").kept (data.saveBarrier "thread_exit"))
  | masterExit {context data} (registered : client.threadExitRegistered = true)
      (found : client.slots.lookup context = some data) (master : data.isMaster = true) :
      Effect config client (.threadExit context) (client.kept data)
  | threadExitIgnored {context} (unregistered : client.threadExitRegistered = false) :
      Effect config client (.threadExit context) client
  | roiInit {context} (once : client.roiInitOnlyOnce = true) :
      Effect config client (.roiInit context) client.opened
  | roiEnd {context data} (once : client.roiEndOnlyOnce = true)
      (found : client.slots.lookup context = some data) (master : data.isMaster = true) :
      Effect config client (.roiEnd context) (client.closed.taken context data "thread_exit")
  | ompParallel {context fAddr fName data} (known : config.parallelOmpF.lookup fAddr = some fName)
      (inRoi : client.inRoi = true) (found : client.slots.lookup context = some data) :
      Effect config client (.ompParallel context fAddr) (client.taken context data fName)
  | ompParallelOutside {context fAddr fName}
      (known : config.parallelOmpF.lookup fAddr = some fName) (outside : client.inRoi = false) :
      Effect config client (.ompParallel context fAddr) client
  | barrier {context data} (inRoi : client.inRoi = true)
      (found : client.slots.lookup context = some data) (explicit : data.inSingle = false) :
      Effect config client (.barrier context) (client.taken context data "GOMP_barrier")
  | barrierIgnored {context data} (inRoi : client.inRoi = true)
      (found : client.slots.lookup context = some data) (implicit : data.inSingle = true) :
      Effect config client (.barrier context)
        (client.setSlot context { data with inSingle := false })
  | barrierOutside {context} (outside : client.inRoi = false) :
      Effect config client (.barrier context) client
  | single {context data} (inRoi : client.inRoi = true) (ignored : config.ignoreSingle = true)
      (found : client.slots.lookup context = some data) :
      Effect config client (.single context) (client.setSlot context { data with inSingle := true })
  | singleIgnored {context}
      (off : (client.inRoi && config.ignoreSingle) = false) :
      Effect config client (.single context) client
  | cleanCall {context instCount address data drained}
      (found : client.slots.lookup context = some data)
      (ran : client.blockData config data instCount address = some drained) :
      Effect config client (.cleanCall context instCount address) (client.setSlot context drained)
  | memRef {context address data} (found : client.slots.lookup context = some data) :
      Effect config client (.memRef context address)
        (client.setSlot context (data.record address))

theorem saveData_eq {client : Client} {context : DrContext} {data : ThreadData}
    (found : client.slots.lookup context = some data) (ompName : String) :
    client.saveData context ompName = some (client.taken context data ompName) := by
  rw [saveData, found, Option.bind_eq_bind, Option.bind_some]
  unfold taken
  cases data.isMaster <;> rfl

theorem eventThreadExit_effect {config : Config} {client next : Client} {context : DrContext}
    (stepped : client.eventThreadExit context = some next) :
    Effect config client (.threadExit context) next := by
  unfold eventThreadExit at stepped
  split at stepped
  · rename_i registered
    obtain ⟨data, found, rest⟩ := Option.bind_eq_some_iff.mp stepped
    cases worker : data.isMaster with
    | false =>
      have read : (client.taken context data "thread_exit").slots.lookup context =
          some (data.saveBarrier "thread_exit") := AList.lookup_insert _
      rw [worker] at rest
      simp only [Bool.not_false, if_true, saveData_eq found, Option.bind_eq_bind,
        Option.bind_some, read] at rest
      cases rest
      exact .threadExit registered found worker
    | true =>
      rw [worker] at rest
      simp only [Bool.not_true, Option.bind_eq_bind, Option.bind_some, found,
        Bool.false_eq_true, if_false] at rest
      cases rest
      exact .masterExit registered found worker
  · rename_i unregistered
    cases stepped
    exact .threadExitIgnored (Bool.eq_false_of_not_eq_true unregistered)

theorem eventRoiInit_effect {config : Config} {client next : Client} {context : DrContext}
    (stepped : client.eventRoiInit = some next) : Effect config client (.roiInit context) next := by
  obtain ⟨once, rest⟩ := Library.bind_guard_eq_some stepped
  cases rest
  exact .roiInit once

theorem eventRoiEnd_effect {config : Config} {client next : Client} {context : DrContext}
    (stepped : client.eventRoiEnd context = some next) :
    Effect config client (.roiEnd context) next := by
  obtain ⟨once, rest⟩ := Library.bind_guard_eq_some stepped
  obtain ⟨data, found, rest⟩ := Option.bind_eq_some_iff.mp rest
  obtain ⟨master, saved⟩ := Library.bind_guard_eq_some rest
  have closedFound : client.closed.slots.lookup context = some data := found
  have savedEq : client.closed.saveData context "thread_exit" = some next := saved
  rw [saveData_eq closedFound] at savedEq
  cases savedEq
  exact .roiEnd once found master

theorem eventOmpParallel_effect {config : Config} {client next : Client} {context : DrContext}
    {fAddr : Address} (stepped : client.eventOmpParallel config context fAddr = some next) :
    Effect config client (.ompParallel context fAddr) next := by
  unfold eventOmpParallel at stepped
  split at stepped
  · rename_i fName known
    split at stepped
    · rename_i inRoi
      obtain ⟨data, found, -⟩ := Option.bind_eq_some_iff.mp stepped
      rw [saveData_eq found] at stepped
      cases stepped
      exact .ompParallel known inRoi found
    · rename_i outside
      cases stepped
      exact .ompParallelOutside known (Bool.eq_false_of_not_eq_true outside)
  · cases stepped

theorem eventBarrier_effect {config : Config} {client next : Client} {context : DrContext}
    (stepped : client.eventBarrier context = some next) :
    Effect config client (.barrier context) next := by
  unfold eventBarrier at stepped
  split at stepped
  · rename_i inRoi
    obtain ⟨data, found, rest⟩ := Option.bind_eq_some_iff.mp stepped
    cases explicit : data.inSingle with
    | false =>
      rw [explicit, saveData_eq found] at rest
      cases rest
      exact .barrier inRoi found explicit
    | true =>
      rw [explicit] at rest
      cases rest
      exact .barrierIgnored inRoi found explicit
  · rename_i outside
    cases stepped
    exact .barrierOutside (Bool.eq_false_of_not_eq_true outside)

theorem eventSingle_effect {config : Config} {client next : Client} {context : DrContext}
    (stepped : client.eventSingle config context = some next) :
    Effect config client (.single context) next := by
  unfold eventSingle at stepped
  split at stepped
  · rename_i on
    obtain ⟨data, found, rest⟩ := Option.bind_eq_some_iff.mp stepped
    obtain ⟨inRoi, ignored⟩ := Bool.and_eq_true_iff.mp on
    cases rest
    exact .single inRoi ignored found
  · rename_i off
    cases stepped
    exact .singleIgnored (Bool.eq_false_of_not_eq_true off)

/-- A step does one of these. -/
theorem step_cases {config : Config} {client next : Client} {event : Event}
    (stepped : client.step config event = some next) : Effect config client event next := by
  cases event with
  | threadInit context threadId =>
    cases registered : client.threadInitRegistered with
    | true =>
      simp only [step, eventThreadInit, registered, if_true] at stepped
      cases stepped
      exact .threadInit registered
    | false =>
      simp only [step, eventThreadInit, registered, Bool.false_eq_true, if_false] at stepped
      cases stepped
      exact .threadInitIgnored registered
  | threadExit context => exact eventThreadExit_effect stepped
  | roiInit context => exact eventRoiInit_effect stepped
  | roiEnd context => exact eventRoiEnd_effect stepped
  | ompParallel context fAddr => exact eventOmpParallel_effect stepped
  | barrier context => exact eventBarrier_effect stepped
  | single context => exact eventSingle_effect stepped
  | cleanCall context instCount address =>
    obtain ⟨data, found, rest⟩ := Option.bind_eq_some_iff.mp stepped
    obtain ⟨drained, ran, rest⟩ := Option.bind_eq_some_iff.mp rest
    cases rest
    exact .cleanCall found ran
  | memRef context address =>
    obtain ⟨data, found, rest⟩ := Option.bind_eq_some_iff.mp stepped
    cases rest
    exact .memRef found

/-! ### The one master -/

/-- The next state differs from this one in the slot of one context, apart from its flags and
counters. -/
def SlotChanged (client : Client) (context : DrContext) (after : ThreadData) (next : Client) : Prop :=
  ∀ other, next.slots.lookup other =
    if other = context then some after else client.slots.lookup other

theorem slotChanged_setSlot (client : Client) (context : DrContext) (after : ThreadData) :
    client.SlotChanged context after (client.setSlot context after) :=
  lookup_setSlot client context after

theorem slotChanged_taken (client : Client) (context : DrContext) (data : ThreadData)
    (ompName : String) : client.SlotChanged context (data.saveBarrier ompName)
      (client.taken context data ompName) :=
  lookup_setSlot client context (data.saveBarrier ompName)

/-- A slot of the next state is the changed one or an old one. -/
theorem SlotChanged.cases {client next : Client} {context other : DrContext}
    {after held : ThreadData} (changed : client.SlotChanged context after next)
    (read : held ∈ next.slots.lookup other) :
    (other = context ∧ held = after) ∨ (other ≠ context ∧ held ∈ client.slots.lookup other) := by
  rw [Option.mem_def, changed] at read
  split at read
  · rename_i here
    cases read
    exact .inl ⟨here, rfl⟩
  · rename_i elsewhere
    exact .inr ⟨elsewhere, read⟩

/-- There is at most one master, and none before the first thread. -/
structure OneMaster (client : Client) : Prop where
  unique : ∀ first second, ∀ data ∈ client.slots.lookup first,
    ∀ other ∈ client.slots.lookup second, data.isMaster = true → other.isMaster = true →
      first = second
  unborn : client.firstTimeCalled = true → ∀ context, client.slots.lookup context = none

/-- No thread has been born yet. -/
theorem slots_new (context : DrContext) : new.slots.lookup context = none :=
  AList.lookup_empty context

theorem oneMaster_new : new.OneMaster := by
  refine ⟨fun first second data found => ?_, fun _ => slots_new⟩
  rw [slots_new] at found
  cases found

namespace OneMaster

variable {client next : Client} {context : DrContext} {data after : ThreadData}

/-- Flags of the region of interest and counters do not matter. -/
theorem of_eq (holds : client.OneMaster) (slots : next.slots = client.slots)
    (first : next.firstTimeCalled = client.firstTimeCalled) : next.OneMaster := by
  constructor
  · rw [slots]
    exact holds.unique
  · rw [slots, first]
    exact holds.unborn

/-- The first thread has been born when a slot is filled. -/
theorem born (holds : client.OneMaster) (found : client.slots.lookup context = some data) :
    client.firstTimeCalled = false := by
  by_contra first
  rw [holds.unborn (Bool.eq_true_of_not_eq_false first) context] at found
  cases found

theorem changes (holds : client.OneMaster) (found : client.slots.lookup context = some data)
    (changed : client.SlotChanged context after next) (same : after.isMaster = data.isMaster)
    (first : next.firstTimeCalled = client.firstTimeCalled) : next.OneMaster := by
  have before : ∀ other, ∀ held ∈ next.slots.lookup other,
      ∃ old ∈ client.slots.lookup other, held.isMaster = old.isMaster := by
    intro other held read
    rcases changed.cases read with ⟨rfl, rfl⟩ | ⟨-, old⟩
    · exact ⟨data, found, same⟩
    · exact ⟨held, old, rfl⟩
  constructor
  · intro one another held read heldAnother readAnother master masterAnother
    obtain ⟨old, oldFound, kept⟩ := before one held read
    obtain ⟨oldAnother, oldFoundAnother, keptAnother⟩ := before another heldAnother readAnother
    exact holds.unique one another old oldFound oldAnother oldFoundAnother (kept ▸ master)
      (keptAnother ▸ masterAnother)
  · intro unborn
    rw [first, holds.born found] at unborn
    cases unborn

/-- A thread that is born is the master when it is the first. -/
theorem births (holds : client.OneMaster) (changed : client.SlotChanged context after next)
    (master : after.isMaster = client.firstTimeCalled) (first : next.firstTimeCalled = false) :
    next.OneMaster := by
  have older : after.isMaster = true → ∀ other, ∀ held ∈ client.slots.lookup other, False := by
    intro isFirst other held found
    rw [master, holds.born found] at isFirst
    cases isFirst
  constructor
  · intro one another held read heldAnother readAnother isMaster isMasterAnother
    rcases changed.cases read with ⟨here, rfl⟩ | ⟨-, found⟩
    · rcases changed.cases readAnother with ⟨there, -⟩ | ⟨-, foundAnother⟩
      · exact here.trans there.symm
      · exact (older isMaster another heldAnother foundAnother).elim
    · rcases changed.cases readAnother with ⟨-, rfl⟩ | ⟨-, foundAnother⟩
      · exact (older isMasterAnother one held found).elim
      · exact holds.unique one another held found heldAnother foundAnother isMaster isMasterAnother
  · intro unborn
    rw [first] at unborn
    cases unborn

end OneMaster

theorem oneMaster_step {config : Config} {client next : Client} {event : Event}
    (holds : client.OneMaster) (stepped : client.step config event = some next) :
    next.OneMaster := by
  have takes : ∀ {before : Client} {context : DrContext} {data : ThreadData} (ompName : String),
      before.OneMaster → before.slots.lookup context = some data →
      (before.taken context data ompName).OneMaster := fun ompName before found =>
    before.changes found (slotChanged_taken _ _ _ _) rfl rfl
  have works : ∀ {context : DrContext} {data after : ThreadData},
      client.slots.lookup context = some data → after.isMaster = data.isMaster →
      (client.setSlot context after).OneMaster := fun found same =>
    holds.changes found (slotChanged_setSlot _ _ _) same rfl
  cases step_cases stepped with
  | threadInit registered => exact holds.births (slotChanged_setSlot client _ _) rfl rfl
  | threadInitIgnored => exact holds
  | threadExit registered found worker => exact (takes _ holds found).of_eq rfl rfl
  | masterExit registered found master => exact holds.of_eq rfl rfl
  | threadExitIgnored => exact holds
  | roiInit => exact holds.of_eq rfl rfl
  | roiEnd once found master =>
    exact takes _ (show client.closed.OneMaster from holds.of_eq rfl rfl) found
  | ompParallel known inRoi found => exact takes _ holds found
  | ompParallelOutside => exact holds
  | barrier inRoi found => exact takes _ holds found
  | barrierIgnored inRoi found => exact works found rfl
  | barrierOutside => exact holds
  | single inRoi ignored found => exact works found rfl
  | singleIgnored => exact holds
  | cleanCall found ran => exact works found (sameRegions_blockData ran).master_eq
  | memRef found => exact works found rfl

end Client

end BarrierPoint
