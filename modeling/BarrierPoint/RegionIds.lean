/-
This file compares the region ids of the threads with the synchronisation
points they took. A schedule counts the global points beside the client: each
is taken by the master and by any of the other threads, in any order, before
one of them takes the next. A thread numbers its regions by a counter of its
own, so its ids are the points exactly when it skips none from its birth on.
-/

import BarrierPoint.ClientSteps
import BarrierPoint.Library.Numbering

namespace BarrierPoint

open Library

/-! ### The schedule of the points -/

/-- A thread took a point and stored the region it ended. -/
structure Take where
  context : DrContext
  point : Nat
  region : Region
  deriving DecidableEq

/-- The point being taken, the threads that have taken it, the point before which each thread was
born, and all takes, oldest first. -/
structure Schedule where
  current : Nat
  takers : List DrContext
  bornAt : DrContext → Nat
  takes : List Take

namespace Schedule

def new : Schedule where
  current := 0
  takers := []
  bornAt := fun _ => 0
  takes := []

def born (schedule : Schedule) (context : DrContext) : Schedule :=
  { schedule with
    bornAt := fun other => if other = context then schedule.current else schedule.bornAt other }

def take (schedule : Schedule) (context : DrContext) (region : Region) : Schedule :=
  { schedule with
    takers := context :: schedule.takers
    takes := schedule.takes ++ [⟨context, schedule.current, region⟩] }

def nextPoint (schedule : Schedule) : Schedule :=
  { schedule with current := schedule.current + 1, takers := [] }

/-- The points a thread took, with the region it stored at each. -/
def takesOf (schedule : Schedule) (context : DrContext) : List (Nat × Region) :=
  (schedule.takes.filter (·.context = context)).map fun take => (take.point, take.region)

end Schedule

/-- An event of the client, or the threads going on to the next point. -/
inductive Move where
  | event (event : Event)
  | nextPoint

namespace Client

/-- The thread that takes a point by an event, and the region it ends. -/
def takenPoint (config : Config) (client : Client) : Event → Option (DrContext × Region)
  | .ompParallel context fAddr => do
      guard client.inRoi
      let data ← client.slots.lookup context
      let fName ← config.parallelOmpF.lookup fAddr
      return (context, data.currentRegion fName)
  | .barrier context => do
      guard client.inRoi
      let data ← client.slots.lookup context
      guard (!data.inSingle)
      return (context, data.currentRegion "GOMP_barrier")
  | .roiEnd context => do
      let data ← client.slots.lookup context
      return (context, data.currentRegion "thread_exit")
  | .threadExit context => do
      guard client.threadExitRegistered
      let data ← client.slots.lookup context
      guard (!data.isMaster)
      return (context, data.currentRegion "thread_exit")
  | _ => none

/-- The master has taken the current point. -/
def MasterTook (client : Client) (schedule : Schedule) : Prop :=
  ∃ context ∈ schedule.takers, ∃ data ∈ client.slots.lookup context, data.isMaster = true

instance (client : Client) (schedule : Schedule) : Decidable (client.MasterTook schedule) :=
  inferInstanceAs (Decidable (∃ context ∈ _, ∃ data ∈ client.slots.lookup context, _ = _))

end Client

namespace Schedule

def record (schedule : Schedule) : Option (DrContext × Region) → Schedule
  | some (context, region) => schedule.take context region
  | none => schedule

/-- What the schedule records of an event. -/
def observe (config : Config) (client : Client) (schedule : Schedule) : Event → Schedule
  | .threadInit context _ => schedule.born context
  | event => schedule.record (client.takenPoint config event)

/-- The client and the schedule make a move. -/
def step (config : Config) : Client × Schedule → Move → Option (Client × Schedule)
  | (client, schedule), .event event => do
      let next ← client.step config event
      return (next, schedule.observe config client event)
  | (client, schedule), .nextPoint => some (client, schedule.nextPoint)

/-- A thread is born while no point is in progress, no thread takes the same point twice, and the
master takes every point. -/
def InOrder (config : Config) : Client × Schedule → Move → Prop
  | (client, schedule), .event (.threadInit context _) =>
      schedule.takers = [] ∧ client.slots.lookup context = none
  | (client, schedule), .event event =>
      ∀ taken ∈ client.takenPoint config event, taken.1 ∉ schedule.takers
  | (client, schedule), .nextPoint => client.MasterTook schedule

instance (config : Config) : ∀ (state : Client × Schedule) (move : Move),
    Decidable (InOrder config state move)
  | (_, _), .event (.threadInit _ _) => inferInstanceAs (Decidable (_ ∧ _))
  | (client, _), .event (.threadExit _) | (client, _), .event (.roiInit _)
  | (client, _), .event (.roiEnd _) | (client, _), .event (.ompParallel _ _)
  | (client, _), .event (.barrier _) | (client, _), .event (.single _)
  | (client, _), .event (.cleanCall _ _ _) | (client, _), .event (.memRef _ _) =>
      inferInstanceAs (Decidable (∀ taken ∈ client.takenPoint config _, taken.1 ∉ _))
  | (client, schedule), .nextPoint => inferInstanceAs (Decidable (client.MasterTook schedule))

theorem takesOf_take (schedule : Schedule) (context : DrContext) (region : Region)
    (other : DrContext) : (schedule.take context region).takesOf other =
      if other = context then schedule.takesOf other ++ [(schedule.current, region)]
      else schedule.takesOf other := by
  unfold takesOf take
  split
  · rename_i here
    simp [List.filter_append, here]
  · rename_i elsewhere
    simp [List.filter_append, Ne.symm elsewhere]

theorem mem_takesOf (schedule : Schedule) (context : DrContext) (point : Nat) (region : Region) :
    (point, region) ∈ schedule.takesOf context ↔ ⟨context, point, region⟩ ∈ schedule.takes := by
  unfold takesOf
  rw [List.mem_map]
  constructor
  · rintro ⟨⟨holder, taken, stored⟩, member, same⟩
    obtain ⟨inTakes, here⟩ := List.mem_filter.mp member
    obtain rfl := of_decide_eq_true here
    cases same
    exact inTakes
  · exact fun member => ⟨_, List.mem_filter.mpr ⟨member, decide_eq_true rfl⟩, rfl⟩

/-! ### What a thread has stored -/

/-- A thread has stored the regions of its takes one after the other, counting from the point it was
born at, and its takes are in the order of the points. -/
structure Stored (schedule : Schedule) (context : DrContext) (data : ThreadData) : Prop where
  read : ∀ id, data.regions.lookup id =
    readAt (schedule.bornAt context) (schedule.takesOf context) id
  counted : data.curSynchId = schedule.bornAt context + (schedule.takesOf context).length
  bornBefore : schedule.bornAt context ≤ schedule.current
  sinceBorn : ∀ taken ∈ schedule.takesOf context, schedule.bornAt context ≤ taken.1
  increasing : (schedule.takesOf context).Pairwise fun first second => first.1 < second.1
  passed : ∀ taken ∈ schedule.takesOf context,
    taken.1 < schedule.current ∨ taken.1 = schedule.current ∧ context ∈ schedule.takers

namespace Stored

variable {schedule : Schedule} {context : DrContext} {data : ThreadData}

theorem of_same (holds : schedule.Stored context data) {after : ThreadData}
    (same : data.SameRegions after) : schedule.Stored context after := by
  refine ⟨?_, ?_, holds.bornBefore, holds.sinceBorn, holds.increasing, holds.passed⟩
  · rw [same.regions_eq]
    exact holds.read
  · rw [same.synchId_eq]
    exact holds.counted

theorem nextPoint (holds : schedule.Stored context data) :
    schedule.nextPoint.Stored context data := by
  refine ⟨holds.read, holds.counted, Nat.le_succ_of_le holds.bornBefore, holds.sinceBorn,
    holds.increasing, fun taken member => .inl ?_⟩
  rcases holds.passed taken member with before | ⟨here, -⟩
  · exact Nat.lt_succ_of_lt before
  · exact Nat.lt_succ_of_le here.le

/-- The birth of another thread does not matter. -/
theorem born_other (holds : schedule.Stored context data) {other : DrContext}
    (different : context ≠ other) : (schedule.born other).Stored context data := by
  have same : (schedule.born other).bornAt context = schedule.bornAt context := if_neg different
  refine ⟨?_, ?_, ?_, ?_, holds.increasing, holds.passed⟩ <;> rw [same]
  · exact holds.read
  · exact holds.counted
  · exact holds.bornBefore
  · exact holds.sinceBorn

/-- The takes of another thread do not matter. -/
theorem take_other (holds : schedule.Stored context data) {other : DrContext}
    (different : context ≠ other) (region : Region) :
    (schedule.take other region).Stored context data := by
  have same : (schedule.take other region).takesOf context = schedule.takesOf context := by
    rw [takesOf_take, if_neg different]
  refine ⟨?_, ?_, holds.bornBefore, ?_, ?_, ?_⟩ <;> rw [same]
  · exact holds.read
  · exact holds.counted
  · exact holds.sinceBorn
  · exact holds.increasing
  · intro taken member
    exact (holds.passed taken member).imp_right fun now => ⟨now.1, List.mem_cons_of_mem _ now.2⟩

/-- A thread that takes the current point stores its region behind the others. -/
theorem take (holds : schedule.Stored context data) (waiting : context ∉ schedule.takers)
    (ompName : String) :
    (schedule.take context (data.currentRegion ompName)).Stored context
      (data.saveBarrier ompName) := by
  have same : (schedule.take context (data.currentRegion ompName)).takesOf context =
      schedule.takesOf context ++ [(schedule.current, data.currentRegion ompName)] := by
    rw [takesOf_take, if_pos rfl]
  have before : ∀ taken ∈ schedule.takesOf context, taken.1 < schedule.current :=
    fun taken member => (holds.passed taken member).resolve_right fun now => waiting now.2
  refine ⟨fun id => ?_, ?_, holds.bornBefore, ?_, ?_, ?_⟩ <;> rw [same]
  · have free : data.regions.lookup data.curSynchId = none := by
      rw [holds.read, holds.counted, readAt_length]
    show (data.regions.insertNew data.curSynchId _).lookup id = _
    rw [UnorderedMap.lookup_insertNew, free, readAt_append, holds.counted, holds.read]
    rfl
  · show data.curSynchId + 1 = _
    rw [holds.counted, List.length_append]
    rfl
  · intro taken member
    rcases List.mem_append.mp member with old | new
    · exact holds.sinceBorn taken old
    · obtain rfl := List.mem_singleton.mp new
      exact holds.bornBefore
  · rw [List.pairwise_append]
    refine ⟨holds.increasing, List.pairwise_singleton _ _, fun taken member last isLast => ?_⟩
    obtain rfl := List.mem_singleton.mp isLast
    exact before taken member
  · intro taken member
    rcases List.mem_append.mp member with old | new
    · exact .inl (before taken old)
    · obtain rfl := List.mem_singleton.mp new
      exact .inr ⟨rfl, List.mem_cons_self⟩

/-- The ids of the regions are the points taken exactly when the thread skipped none. -/
theorem agrees_iff (holds : schedule.Stored context data) :
    (∀ point region, data.regions.lookup point = some region ↔
      ⟨context, point, region⟩ ∈ schedule.takes) ↔
      Gapless (schedule.bornAt context) (schedule.takesOf context) := by
  rw [← readAt_iff_gapless holds.increasing holds.sinceBorn]
  simp only [holds.read, mem_takesOf]

end Stored

/-! ### Runs of the client beside the schedule -/

/-- Every thread has stored the regions of its takes, and the master's count is the current point
or, once the master has taken it, the next one. -/
structure Follows (client : Client) (schedule : Schedule) : Prop extends client.OneMaster where
  stored : ∀ context, ∀ data ∈ client.slots.lookup context, schedule.Stored context data
  unseen : ∀ context, client.slots.lookup context = none → schedule.takesOf context = []
  ahead : client.MasterTook schedule → client.barrierPoint.synchCount = schedule.current + 1
  level : ¬ client.MasterTook schedule → client.barrierPoint.synchCount = schedule.current

theorem follows_new : Follows Client.new new := by
  refine ⟨Client.oneMaster_new, fun context data found => ?_, fun _ _ => rfl, ?_, fun _ => rfl⟩
  · rw [Client.slots_new] at found
    cases found
  · rintro ⟨context, none, -⟩
    cases none

namespace Follows

variable {client next : Client} {schedule : Schedule} {context : DrContext} {data : ThreadData}

/-- Flags of the region of interest, and the threads kept, do not matter. -/
theorem of_eq (holds : Follows client schedule) (slots : next.slots = client.slots)
    (counted : next.barrierPoint.synchCount = client.barrierPoint.synchCount)
    (first : next.firstTimeCalled = client.firstTimeCalled) : Follows next schedule := by
  have took : next.MasterTook schedule ↔ client.MasterTook schedule := by
    unfold Client.MasterTook
    rw [slots]
  refine ⟨holds.toOneMaster.of_eq slots first, ?_, ?_, ?_, ?_⟩
  · rw [slots]
    exact holds.stored
  · rw [slots]
    exact holds.unseen
  · rw [took, counted]
    exact holds.ahead
  · rw [took, counted]
    exact holds.level

/-- Filling the slot of a thread again leaves the master and the empty slots as they were. -/
theorem masterTook_changed (schedule : Schedule) {after : ThreadData}
    (found : client.slots.lookup context = some data)
    (changed : client.SlotChanged context after next) (same : after.isMaster = data.isMaster) :
    next.MasterTook schedule ↔ client.MasterTook schedule := by
  constructor
  · rintro ⟨other, taker, held, read, master⟩
    rcases changed.cases read with ⟨rfl, rfl⟩ | ⟨-, old⟩
    · exact ⟨other, taker, data, found, same ▸ master⟩
    · exact ⟨other, taker, held, old, master⟩
  · rintro ⟨other, taker, held, read, master⟩
    by_cases here : other = context
    · subst here
      obtain rfl := Option.some_inj.mp (found.symm.trans read)
      refine ⟨other, taker, after, ?_, same.trans master⟩
      rw [Option.mem_def, changed, if_pos rfl]
    · refine ⟨other, taker, held, ?_, master⟩
      rw [Option.mem_def, changed, if_neg here]
      exact read

theorem slot_none {after : ThreadData} (changed : client.SlotChanged context after next)
    {other : DrContext} (empty : next.slots.lookup other = none) :
    other ≠ context ∧ client.slots.lookup other = none := by
  rw [changed] at empty
  split at empty
  · cases empty
  · rename_i elsewhere
    exact ⟨elsewhere, empty⟩

theorem works (holds : Follows client schedule) (found : client.slots.lookup context = some data)
    {after : ThreadData} (same : data.SameRegions after) :
    Follows (client.setSlot context after) schedule := by
  have changed := client.slotChanged_setSlot context after
  have took := masterTook_changed schedule found changed same.master_eq
  refine ⟨holds.toOneMaster.changes found changed same.master_eq rfl, fun other held read => ?_,
    fun other empty => holds.unseen other (slot_none changed empty).2,
    fun master => holds.ahead (took.mp master), fun waits => holds.level (mt took.mpr waits)⟩
  rcases changed.cases read with ⟨rfl, rfl⟩ | ⟨-, old⟩
  · exact (holds.stored other data found).of_same same
  · exact holds.stored other held old

/-- A thread is born level with the master while no point is in progress. -/
theorem births (holds : Follows client schedule) (idle : schedule.takers = [])
    (free : client.slots.lookup context = none) (threadId : UInt32) :
    Follows { client.setSlot context
        (ThreadData.new threadId client.firstTimeCalled client.barrierPoint.synchCount) with
      firstTimeCalled := false } (schedule.born context) := by
  have changed := client.slotChanged_setSlot context
    (ThreadData.new threadId client.firstTimeCalled client.barrierPoint.synchCount)
  have nobody : ∀ state : Client, ¬ state.MasterTook schedule := by
    rintro state ⟨other, taker, -⟩
    rw [idle] at taker
    cases taker
  have level := holds.level (nobody client)
  have here : (schedule.born context).bornAt context = schedule.current := if_pos rfl
  have nothing : (schedule.born context).takesOf context = [] := holds.unseen context free
  refine ⟨holds.toOneMaster.births changed rfl rfl, fun other held read => ?_,
    fun other empty => holds.unseen other (slot_none changed empty).2,
    fun took => (nobody _ took).elim, fun _ => level⟩
  rcases changed.cases read with ⟨rfl, rfl⟩ | ⟨elsewhere, old⟩
  · refine ⟨fun id => ?_, ?_, here.le, ?_, ?_, ?_⟩ <;> rw [nothing]
    · exact (readAt_nil _ _).symm
    · rw [here]
      exact level
    · exact nofun
    · exact .nil
    · exact nofun
  · exact (holds.stored other held old).born_other elsewhere

/-- A thread for which the client keeps no data is born. -/
theorem bears (holds : Follows client schedule) (free : client.slots.lookup context = none) :
    Follows client (schedule.born context) := by
  refine ⟨holds.toOneMaster, fun other held read => ?_, holds.unseen, holds.ahead, holds.level⟩
  have elsewhere : other ≠ context := by
    rintro rfl
    rw [Option.mem_def, free] at read
    cases read
  exact (holds.stored other held read).born_other elsewhere

/-- A thread that has not taken the current point takes it. -/
theorem takes (holds : Follows client schedule) (found : client.slots.lookup context = some data)
    (waiting : context ∉ schedule.takers) (ompName : String) :
    Follows (client.taken context data ompName)
      (schedule.take context (data.currentRegion ompName)) := by
  have changed := client.slotChanged_taken context data ompName
  have took := masterTook_changed
    (schedule.take context (data.currentRegion ompName)) found changed rfl
  have stored : ∀ other, ∀ held ∈ (client.taken context data ompName).slots.lookup other,
      (schedule.take context (data.currentRegion ompName)).Stored other held := by
    intro other held read
    rcases changed.cases read with ⟨rfl, rfl⟩ | ⟨elsewhere, old⟩
    · exact (holds.stored other data found).take waiting ompName
    · exact (holds.stored other held old).take_other elsewhere _
  have unseen : ∀ other, (client.taken context data ompName).slots.lookup other = none →
      (schedule.take context (data.currentRegion ompName)).takesOf other = [] := by
    intro other empty
    obtain ⟨elsewhere, free⟩ := slot_none changed empty
    rw [takesOf_take, if_neg elsewhere]
    exact holds.unseen other free
  refine ⟨holds.toOneMaster.changes found changed rfl rfl, stored, unseen, ?_, ?_⟩ <;> rw [took]
  · rintro ⟨other, taker, held, read, master⟩
    rcases List.mem_cons.mp taker with rfl | earlier
    · obtain rfl := Option.some_inj.mp (found.symm.trans read)
      have waits : ¬ client.MasterTook schedule := by
        rintro ⟨another, takerToo, heldToo, readToo, masterToo⟩
        exact waiting (holds.unique another other heldToo readToo data found masterToo master ▸
          takerToo)
      show (if data.isMaster then _ else _ : BarrierPointData).synchCount = _
      rw [if_pos master]
      exact congrArg (· + 1) (holds.level waits)
    · have worker : data.isMaster = false := by
        by_contra also
        exact waiting (holds.unique other context held read data found master
          (Bool.eq_true_of_not_eq_false also) ▸ earlier)
      show (if data.isMaster then _ else _ : BarrierPointData).synchCount = _
      rw [worker]
      exact holds.ahead ⟨other, earlier, held, read, master⟩
  · intro waits
    have worker : data.isMaster = false := by
      by_contra also
      exact waits ⟨context, List.mem_cons_self, data, found, Bool.eq_true_of_not_eq_false also⟩
    show (if data.isMaster then _ else _ : BarrierPointData).synchCount = _
    rw [worker]
    refine holds.level fun ⟨other, taker, held, read, master⟩ => waits ?_
    exact ⟨other, List.mem_cons_of_mem _ taker, held, read, master⟩

theorem nextPoint (holds : Follows client schedule) (took : client.MasterTook schedule) :
    Follows client schedule.nextPoint := by
  refine ⟨holds.toOneMaster, fun context data found => (holds.stored context data found).nextPoint,
    holds.unseen, ?_, fun _ => holds.ahead took⟩
  rintro ⟨context, none, -⟩
  cases none

end Follows

/-- An event by which a thread takes a point is recorded, and comes in order when the thread has not
taken the point yet. -/
theorem Follows.takesBy {config : Config} {client : Client} {schedule : Schedule} {event : Event}
    {context : DrContext} {data : ThreadData} (holds : Follows client schedule)
    (inOrder : InOrder config (client, schedule) (.event event))
    (found : client.slots.lookup context = some data) (ompName : String)
    (point : client.takenPoint config event = some (context, data.currentRegion ompName)) :
    Follows (client.taken context data ompName) (schedule.observe config client event) := by
  have waiting : context ∉ schedule.takers := by
    cases event with
    | threadInit => cases point
    | _ => exact inOrder _ point
  have observed : schedule.observe config client event =
      schedule.take context (data.currentRegion ompName) := by
    cases event with
    | threadInit => cases point
    | _ => exact congrArg schedule.record point
  rw [observed]
  exact holds.takes found waiting ompName

/-- One move in order keeps the schedule and the client together. -/
theorem follows_step {config : Config} {state next : Client × Schedule} {move : Move}
    (holds : Follows state.1 state.2) (inOrder : InOrder config state move)
    (stepped : step config state move = some next) : Follows next.1 next.2 := by
  obtain ⟨client, schedule⟩ := state
  cases move with
  | nextPoint =>
    cases stepped
    exact holds.nextPoint inOrder
  | event event =>
    obtain ⟨after, ran, rest⟩ := Option.bind_eq_some_iff.mp stepped
    cases rest
    have idle : ∀ {point : Option (DrContext × Region)}, point = none →
        Follows client (schedule.record point) := by
      rintro point rfl
      exact holds
    cases Client.step_cases ran with
    | threadInit registered => exact holds.births inOrder.1 inOrder.2 _
    | threadInitIgnored => exact holds.bears inOrder.2
    | threadExit registered found worker =>
      refine (holds.takesBy inOrder found "thread_exit" ?_).of_eq rfl rfl rfl
      simp [Client.takenPoint, registered, found, worker]
    | @masterExit context data registered found master =>
      have nothing : client.takenPoint config (.threadExit context) = none := by
        simp [Client.takenPoint, found, master]
      exact (idle nothing).of_eq rfl rfl rfl
    | threadExitIgnored unregistered => exact idle (by simp [Client.takenPoint, unregistered])
    | roiInit => exact holds.of_eq rfl rfl rfl
    | roiEnd once found master =>
      refine (holds.takesBy inOrder found "thread_exit" ?_).of_eq rfl ?_ rfl
      · simp [Client.takenPoint, found]
      · rfl
    | ompParallel known inRoi found =>
      exact holds.takesBy inOrder found _ (by simp [Client.takenPoint, inRoi, found, known])
    | ompParallelOutside known outside =>
      exact idle (by simp [Client.takenPoint, outside])
    | barrier inRoi found explicit =>
      exact holds.takesBy inOrder found _ (by simp [Client.takenPoint, inRoi, found, explicit])
    | @barrierIgnored context data inRoi found implicit =>
      have nothing : client.takenPoint config (.barrier context) = none := by
        simp [Client.takenPoint, found, implicit]
      exact (idle nothing).works found ⟨rfl, rfl, rfl⟩
    | barrierOutside outside => exact idle (by simp [Client.takenPoint, outside])
    | single inRoi ignored found => exact holds.works found ⟨rfl, rfl, rfl⟩
    | singleIgnored => exact holds
    | cleanCall found drained => exact holds.works found (Client.sameRegions_blockData drained)
    | memRef found => exact holds.works found ⟨rfl, rfl, rfl⟩

/-- Every thread has a region for a point exactly when it took the point, and it is the one stored
there. -/
def Agrees (client : Client) (schedule : Schedule) : Prop :=
  ∀ context, ∀ data ∈ client.slots.lookup context, ∀ point region,
    data.regions.lookup point = some region ↔ ⟨context, point, region⟩ ∈ schedule.takes

/-- No thread takes a point after it has skipped one since its birth. -/
def NeverSkips (client : Client) (schedule : Schedule) : Prop :=
  ∀ context, (client.slots.lookup context).isSome →
    ∀ taken ∈ schedule.takes, taken.context = context →
      ∀ point, schedule.bornAt context ≤ point → point < taken.point →
        ∃ other ∈ schedule.takes, other.context = context ∧ other.point = point

theorem gapless_takesOf_iff (schedule : Schedule) (context : DrContext) :
    Gapless (schedule.bornAt context) (schedule.takesOf context) ↔
      ∀ taken ∈ schedule.takes, taken.context = context →
        ∀ point, schedule.bornAt context ≤ point → point < taken.point →
          ∃ other ∈ schedule.takes, other.context = context ∧ other.point = point := by
  constructor
  · rintro gapless ⟨holder, taken, region⟩ member rfl point since before
    obtain ⟨stored, there⟩ :=
      gapless (taken, region) ((mem_takesOf ..).mpr member) point since before
    exact ⟨_, (mem_takesOf ..).mp there, rfl, rfl⟩
  · rintro complete ⟨taken, region⟩ member point since before
    obtain ⟨⟨holder, other, stored⟩, there, rfl, rfl⟩ :=
      complete _ ((mem_takesOf ..).mp member) rfl point since before
    exact ⟨stored, (mem_takesOf ..).mpr there⟩

/-- After every run in order, the region ids are the points taken exactly when no thread has taken a
point behind one it skipped. -/
theorem agrees_iff_neverSkips (config : Config) (moves : List Move) (client : Client)
    (schedule : Schedule)
    (inOrder : Along (step config) (InOrder config) (Client.new, Schedule.new) moves)
    (reached : run (step config) (Client.new, Schedule.new) moves = some (client, schedule)) :
    Agrees client schedule ↔ NeverSkips client schedule := by
  have holds : Follows client schedule :=
    run_invariant (fun state : Client × Schedule => Follows state.1 state.2)
      (fun _ _ _ before ordered stepped => follows_step before ordered stepped) follows_new
      inOrder reached
  refine forall_congr' fun context => ?_
  cases found : client.slots.lookup context with
  | none => simp
  | some data =>
    have each := (holds.stored context data found).agrees_iff
    rw [gapless_takesOf_iff] at each
    simpa using each

/-- A thread born after the first point takes the others with the master. -/
theorem agrees_iff_neverSkips_late : ∃ client schedule,
    run (step { parallelOmpF := ∅ }) (Client.new, Schedule.new) [.event (.threadInit 0 10),
      .event (.roiInit 0), .event (.barrier 0), .nextPoint, .event (.threadInit 1 11),
      .event (.barrier 1), .event (.barrier 0), .nextPoint, .event (.roiEnd 0),
      .event (.threadExit 1)] = some (client, schedule) ∧
    (Agrees client schedule ↔ NeverSkips client schedule) := by
  refine ⟨_, _, rfl, agrees_iff_neverSkips { parallelOmpF := ∅ } [.event (.threadInit 0 10),
    .event (.roiInit 0), .event (.barrier 0), .nextPoint, .event (.threadInit 1 11),
    .event (.barrier 1), .event (.barrier 0), .nextPoint, .event (.roiEnd 0),
    .event (.threadExit 1)] _ _ ?_ rfl⟩
  decide

/-- A worker that is not in the first team stores its region of the second point under the id of the
first. -/
theorem not_agrees_smaller_team :
    Along (step { parallelOmpF := ∅ }) (InOrder { parallelOmpF := ∅ }) (Client.new, Schedule.new)
      [.event (.threadInit 0 10), .event (.threadInit 1 11), .event (.roiInit 0),
        .event (.barrier 0), .nextPoint, .event (.barrier 0), .event (.barrier 1)] ∧
    ∃ client schedule, run (step { parallelOmpF := ∅ }) (Client.new, Schedule.new)
      [.event (.threadInit 0 10), .event (.threadInit 1 11), .event (.roiInit 0),
        .event (.barrier 0), .nextPoint, .event (.barrier 0), .event (.barrier 1)] =
          some (client, schedule) ∧ ¬ Agrees client schedule := by
  refine ⟨by decide, _, _, rfl, fun agrees => ?_⟩
  have taken := (agrees 1 _ rfl 0 _).mp rfl
  revert taken
  decide

end Schedule

end BarrierPoint
