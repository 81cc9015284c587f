/-
This file settles when the client can save its data. The alignment follows the
result of a region look-up without a check, so the save goes through exactly
when every thread that has exited has every region. Over a run this holds when
no thread is born after a synchronisation point and none leaves before the
last one; elsewhere the writers expect missing regions and the alignment has
already followed them.
-/

import BarrierPoint.ClientSteps
import BarrierPoint.Writers

namespace BarrierPoint

open Library

/-! ### Saving needs every region -/

/-- The thread has a region for every id below the synchronisation count. -/
def HasRegions (synchCount : Nat) (regions : UnorderedMap Nat Region) : Prop :=
  ∀ id < synchCount, (regions.lookup id).isSome

theorem isSome_lookup_insert (regions : UnorderedMap Nat Region) (id other : Nat)
    (region : Region) : ((regions.insert id region).lookup other).isSome ↔
      other = id ∨ (regions.lookup other).isSome := by
  by_cases same : other = id
  · subst same
    simp [AList.lookup_insert]
  · rw [AList.lookup_insert_ne same, or_iff_right same]

/-- Aligning a thread that has its regions succeeds and keeps their ids. -/
theorem alignThread_of_hasRegions (parallelOmpF : UnorderedMap Address String) (ids : List Nat) :
    ∀ (regions : UnorderedMap Nat Region) (bbCountBalance : UInt64),
      (∀ id ∈ ids, (regions.lookup id).isSome) →
        ∃ aligned balance, alignThread parallelOmpF ids regions bbCountBalance =
          some (aligned, balance) ∧
          ∀ other, (aligned.lookup other).isSome ↔ (regions.lookup other).isSome := by
  induction ids with
  | nil => exact fun regions balance _ => ⟨regions, balance, rfl, fun _ => Iff.rfl⟩
  | cons id ids inductionHypothesis =>
    intro regions balance has
    rw [List.forall_mem_cons] at has
    obtain ⟨region, found⟩ := Option.isSome_iff_exists.mp has.1
    have same : ∀ other, ((regions.insert id
        (alignRegion parallelOmpF region balance).1).lookup other).isSome ↔
        (regions.lookup other).isSome := by
      intro other
      rw [isSome_lookup_insert, or_iff_right_iff_imp]
      rintro rfl
      exact has.1
    obtain ⟨aligned, rest, ran, kept⟩ := inductionHypothesis
      (regions.insert id (alignRegion parallelOmpF region balance).1)
      (alignRegion parallelOmpF region balance).2 fun other member =>
        (same other).mpr (has.2 other member)
    refine ⟨aligned, rest, ?_, fun other => (kept other).trans (same other)⟩
    rw [alignThread, found, Option.bind_eq_bind, Option.bind_some]
    exact ran

/-- Aligning a thread follows every look-up of its regions. -/
theorem hasRegions_of_alignThread {parallelOmpF : UnorderedMap Address String} (ids : List Nat) :
    ∀ {regions aligned : UnorderedMap Nat Region} {bbCountBalance balance : UInt64},
      alignThread parallelOmpF ids regions bbCountBalance = some (aligned, balance) →
      ∀ id ∈ ids, (regions.lookup id).isSome := by
  induction ids with
  | nil => exact fun _ _ member => nomatch member
  | cons id ids inductionHypothesis =>
    intro regions aligned bbCountBalance balance ran
    obtain ⟨region, found, rest⟩ := Option.bind_eq_some_iff.mp ran
    have here : (regions.lookup id).isSome := by
      rw [found]
      rfl
    rw [List.forall_mem_cons]
    refine ⟨here, fun other member => ?_⟩
    rcases (isSome_lookup_insert _ _ _ _).mp (inductionHypothesis rest other member) with
      rfl | kept
    · exact here
    · exact kept

theorem alignThreads_of_hasRegions (parallelOmpF : UnorderedMap Address String)
    (synchCount : Nat) (threads : List ThreadData) : ∀ bbCountBalance : UInt64,
      (∀ data ∈ threads, HasRegions synchCount data.regions) →
        ∃ aligned, alignThreads parallelOmpF synchCount threads bbCountBalance = some aligned ∧
          ∀ data ∈ aligned, HasRegions synchCount data.regions := by
  induction threads with
  | nil => exact fun _ _ => ⟨[], rfl, List.forall_mem_nil _⟩
  | cons data threads inductionHypothesis =>
    intro balance has
    rw [List.forall_mem_cons] at has
    obtain ⟨regions, next, ran, same⟩ := alignThread_of_hasRegions parallelOmpF
      (List.range synchCount) data.regions balance fun id member =>
        has.1 id (List.mem_range.mp member)
    obtain ⟨aligned, rest, complete⟩ := inductionHypothesis next has.2
    refine ⟨{ data with regions } :: aligned, ?_, List.forall_mem_cons.mpr
      ⟨fun id inRange => (same id).mpr (has.1 id inRange), complete⟩⟩
    rw [alignThreads, ran, Option.bind_eq_bind, Option.bind_some]
    show (alignThreads parallelOmpF synchCount threads next).bind _ = _
    rw [rest]
    rfl

theorem hasRegions_of_alignThreads {parallelOmpF : UnorderedMap Address String}
    {synchCount : Nat} (threads : List ThreadData) :
    ∀ {bbCountBalance : UInt64} {aligned : List ThreadData},
      alignThreads parallelOmpF synchCount threads bbCountBalance = some aligned →
      ∀ data ∈ threads, HasRegions synchCount data.regions := by
  induction threads with
  | nil => exact fun _ _ member => nomatch member
  | cons data threads inductionHypothesis =>
    intro balance aligned ran
    obtain ⟨⟨regions, next⟩, first, ran⟩ := Option.bind_eq_some_iff.mp ran
    obtain ⟨rest, later, -⟩ := Option.bind_eq_some_iff.mp ran
    exact List.forall_mem_cons.mpr ⟨fun id inRange =>
      hasRegions_of_alignThread (List.range synchCount) first id (List.mem_range.mpr inRange),
      inductionHypothesis later⟩

namespace BarrierPointData

theorem bpIdRows_of_hasRegions {regions : UnorderedMap Nat Region} (ids : List Nat)
    (has : ∀ id ∈ ids, (regions.lookup id).isSome) :
    ∀ synchTimes : UnorderedMap String Nat, (bpIdRows regions ids synchTimes).isSome := by
  induction ids with
  | nil => exact fun _ => rfl
  | cons id ids inductionHypothesis =>
    intro synchTimes
    rw [List.forall_mem_cons] at has
    refine isSome_bind_of has.1 fun region _ => ?_
    exact isSome_bind_of (inductionHypothesis has.2 _) fun _ _ => rfl

theorem bpIdThreads_of_hasRegions {synchCount : Nat} (threads : List ThreadData)
    (has : ∀ data ∈ threads, HasRegions synchCount data.regions) :
    ∀ synchTimes : UnorderedMap String Nat,
      (bpIdThreads synchCount threads synchTimes).isSome := by
  induction threads with
  | nil => exact fun _ => rfl
  | cons data threads inductionHypothesis =>
    intro synchTimes
    rw [List.forall_mem_cons] at has
    unfold bpIdThreads
    split
    · refine isSome_bind_of (bpIdRows_of_hasRegions _ (fun id member =>
        has.1 id (List.mem_range.mp member)) synchTimes) fun result _ => ?_
      exact isSome_bind_of (inductionHypothesis has.2 result.2) fun _ _ => rfl
    · exact inductionHypothesis has.2 synchTimes

/-- Ordering and numbering the threads changes neither their regions nor which there are. -/
theorem forall_generateFakeTid (barrierPoint : BarrierPointData)
    (holds : UnorderedMap Nat Region → Prop) :
    (∀ data ∈ barrierPoint.generateFakeTid.threads, holds data.regions) ↔
      ∀ data ∈ barrierPoint.threads, holds data.regions := by
  have sorted := List.perm_insertionSort (fun first second : ThreadData => first.tid ≤ second.tid)
    barrierPoint.threads
  unfold generateFakeTid
  constructor
  · intro all data member
    obtain ⟨index, inRange, atIndex⟩ := List.getElem_of_mem (sorted.mem_iff.mpr member)
    subst atIndex
    have known := all _ (List.mem_mapIdx.mpr ⟨index, inRange, rfl⟩)
    exact known
  · intro all data member
    obtain ⟨index, inRange, rfl⟩ := List.mem_mapIdx.mp member
    have known := all _ (sorted.mem_iff.mp (List.getElem_mem inRange))
    exact known

/-- Saving goes through exactly when every thread that has exited has every region. -/
theorem save_isSome_iff (parallelOmpF : UnorderedMap Address String)
    (barrierPoint : BarrierPointData) : (barrierPoint.save parallelOmpF).isSome ↔
      ∀ data ∈ barrierPoint.threads, HasRegions barrierPoint.synchCount data.regions := by
  rw [← forall_generateFakeTid]
  constructor
  · intro saved
    obtain ⟨files, saved⟩ := Option.isSome_iff_exists.mp saved
    obtain ⟨aligned, ran, -⟩ := Option.bind_eq_some_iff.mp saved
    obtain ⟨threads, ran, -⟩ := Option.bind_eq_some_iff.mp ran
    exact hasRegions_of_alignThreads _ ran
  · intro has
    obtain ⟨aligned, ran, complete⟩ := alignThreads_of_hasRegions parallelOmpF
      barrierPoint.generateFakeTid.synchCount barrierPoint.generateFakeTid.threads 0 has
    refine isSome_bind_of (by rw [alignSynchBb, ran]; rfl) fun result resultEq => ?_
    rw [alignSynchBb, ran] at resultEq
    cases resultEq
    refine isSome_bind_of ?_ fun _ _ => rfl
    exact isSome_bind_of (bpIdThreads_of_hasRegions aligned complete ∅) fun _ _ => rfl

end BarrierPointData

namespace Client

/-! ### Runs that keep every region -/

/-- The condition on a step: no thread is born after a synchronisation point, no thread leaves
before the synchronisation count is reached, and the master does not pass a point that a thread
which has left did not take. -/
def KeepsRegions (client : Client) : Event → Prop
  | .threadInit _ _ => client.threadInitRegistered = true → client.barrierPoint.synchCount = 0
  | .threadExit context => client.threadExitRegistered = true →
      ∀ data ∈ client.slots.lookup context, data.isMaster = false →
        client.barrierPoint.synchCount ≤ data.curSynchId + 1
  | .barrier context | .ompParallel context _ => client.inRoi = true →
      ∀ data ∈ client.slots.lookup context, data.isMaster = true →
        ∀ other ∈ client.barrierPoint.threads, client.barrierPoint.synchCount < other.curSynchId
  | .roiEnd context => ∀ data ∈ client.slots.lookup context, data.isMaster = true →
        ∀ other ∈ client.barrierPoint.threads, client.barrierPoint.synchCount < other.curSynchId
  | _ => True

instance : ∀ (client : Client) (event : Event), Decidable (client.KeepsRegions event)
  | client, .threadInit _ _ =>
      inferInstanceAs (Decidable (client.threadInitRegistered = true → _ = _))
  | client, .threadExit _ =>
      inferInstanceAs (Decidable (client.threadExitRegistered = true → ∀ data ∈ _, _ = _ → _ ≤ _))
  | client, .barrier _ =>
      inferInstanceAs (Decidable (client.inRoi = true → ∀ data ∈ _, _ = _ → ∀ other ∈ _, _ < _))
  | client, .ompParallel _ _ =>
      inferInstanceAs (Decidable (client.inRoi = true → ∀ data ∈ _, _ = _ → ∀ other ∈ _, _ < _))
  | _, .roiEnd _ => inferInstanceAs (Decidable (∀ data ∈ _, _ = _ → ∀ other ∈ _, _ < _))
  | _, .roiInit _ | _, .single _ | _, .cleanCall _ _ _ | _, .memRef _ _ => isTrue trivial

/-- What such runs keep: every thread has the regions of the points it has counted, the master has
counted them all, and so has every thread that has left. -/
structure AllSaved (client : Client) : Prop extends OneMaster client where
  saved : ∀ context, ∀ data ∈ client.slots.lookup context,
    HasRegions data.curSynchId data.regions
  master : ∀ context, ∀ data ∈ client.slots.lookup context, data.isMaster = true →
    data.curSynchId = client.barrierPoint.synchCount
  exited : ∀ data ∈ client.barrierPoint.threads,
    client.barrierPoint.synchCount ≤ data.curSynchId ∧ HasRegions data.curSynchId data.regions

theorem allSaved_new : new.AllSaved := by
  refine ⟨oneMaster_new, ?_, ?_, List.forall_mem_nil _⟩
  · intro context data found
    rw [slots_new] at found
    cases found
  · intro context data found
    rw [slots_new] at found
    cases found

theorem hasRegions_saveBarrier {data : ThreadData} (ompName : String)
    (has : HasRegions data.curSynchId data.regions) :
    HasRegions (data.saveBarrier ompName).curSynchId (data.saveBarrier ompName).regions := by
  intro id inRange
  show ((data.regions.insertNew data.curSynchId (data.currentRegion ompName)).lookup id).isSome
  rw [UnorderedMap.lookup_insertNew]
  split
  · rfl
  · rename_i other
    exact has id (Nat.lt_of_le_of_ne (Nat.le_of_lt_succ inRange) other)

namespace AllSaved

variable {client : Client} {context : DrContext} {data : ThreadData}

/-- Flags of the region of interest do not matter. -/
theorem of_eq {next : Client} (holds : client.AllSaved) (slots : next.slots = client.slots)
    (gathered : next.barrierPoint = client.barrierPoint)
    (first : next.firstTimeCalled = client.firstTimeCalled) : next.AllSaved := by
  refine ⟨holds.toOneMaster.of_eq slots first, ?_, ?_, ?_⟩
  · rw [slots]
    exact holds.saved
  · rw [slots, gathered]
    exact holds.master
  · rw [gathered]
    exact holds.exited

theorem works (holds : client.AllSaved) (found : client.slots.lookup context = some data)
    {after : ThreadData} (same : data.SameRegions after) :
    (client.setSlot context after).AllSaved := by
  have changed := client.slotChanged_setSlot context after
  refine ⟨holds.toOneMaster.changes found changed same.master_eq rfl, fun other held read => ?_,
    fun other held read master => ?_, holds.exited⟩
  · rcases changed.cases read with ⟨-, rfl⟩ | ⟨-, old⟩
    · rw [same.regions_eq, same.synchId_eq]
      exact holds.saved context data found
    · exact holds.saved other held old
  · rcases changed.cases read with ⟨-, rfl⟩ | ⟨-, old⟩
    · rw [same.synchId_eq]
      exact holds.master context data found (same.master_eq ▸ master)
    · exact holds.master other held old master

/-- Taking a point keeps all regions when no thread that has left is passed. -/
theorem takes (holds : client.AllSaved) (found : client.slots.lookup context = some data)
    (ompName : String) (passes : data.isMaster = true →
      ∀ other ∈ client.barrierPoint.threads, client.barrierPoint.synchCount < other.curSynchId) :
    (client.taken context data ompName).AllSaved := by
  have changed := client.slotChanged_taken context data ompName
  refine ⟨holds.toOneMaster.changes found changed rfl rfl, fun other held read => ?_,
    fun other held read master => ?_, fun other member => ?_⟩
  · rcases changed.cases read with ⟨-, rfl⟩ | ⟨-, old⟩
    · exact hasRegions_saveBarrier ompName (holds.saved context data found)
    · exact holds.saved other held old
  · rcases changed.cases read with ⟨-, rfl⟩ | ⟨elsewhere, old⟩
    · have sameThread : data.isMaster = true := master
      have counted := holds.master context data found sameThread
      show data.curSynchId + 1 = (if data.isMaster then _ else _ : BarrierPointData).synchCount
      rw [if_pos sameThread, counted]
      rfl
    · have worker : data.isMaster = false := by
        by_contra also
        exact elsewhere (holds.unique other context held old data found master
          (Bool.eq_true_of_not_eq_false also))
      show held.curSynchId = (if data.isMaster then _ else _ : BarrierPointData).synchCount
      rw [worker]
      exact holds.master other held old master
  · cases master : data.isMaster with
    | true =>
      have gathered : (client.taken context data ompName).barrierPoint =
          client.barrierPoint.incrSynchCount := if_pos master
      rw [gathered] at member ⊢
      exact ⟨passes master other member, (holds.exited other member).2⟩
    | false =>
      have gathered : (client.taken context data ompName).barrierPoint = client.barrierPoint :=
        if_neg (Bool.not_eq_true _ ▸ master)
      rw [gathered] at member ⊢
      exact holds.exited other member

theorem keeps (holds : client.AllSaved)
    (counted : client.barrierPoint.synchCount ≤ data.curSynchId)
    (has : HasRegions data.curSynchId data.regions) : (client.kept data).AllSaved := by
  refine ⟨holds.toOneMaster.of_eq rfl rfl, holds.saved, holds.master, fun other member => ?_⟩
  rcases List.mem_append.mp member with old | new
  · exact holds.exited other old
  · obtain rfl := List.mem_singleton.mp new
    exact ⟨counted, has⟩

/-- A thread born before the first synchronisation point misses none. -/
theorem births (holds : client.AllSaved) (unsynchronised : client.barrierPoint.synchCount = 0)
    (threadId : UInt32) :
    { client.setSlot context
        (ThreadData.new threadId client.firstTimeCalled client.barrierPoint.synchCount) with
      firstTimeCalled := false }.AllSaved := by
  have changed := client.slotChanged_setSlot context
    (ThreadData.new threadId client.firstTimeCalled client.barrierPoint.synchCount)
  refine ⟨holds.toOneMaster.births changed rfl rfl, fun other held read => ?_,
    fun other held read master => ?_, holds.exited⟩
  · rcases changed.cases read with ⟨-, rfl⟩ | ⟨-, found⟩
    · intro id inRange
      have none : id < client.barrierPoint.synchCount := inRange
      omega
    · exact holds.saved other held found
  · rcases changed.cases read with ⟨-, rfl⟩ | ⟨-, found⟩
    · rfl
    · exact holds.master other held found master

end AllSaved

/-- One step that keeps the regions. -/
theorem allSaved_step {config : Config} {client next : Client} {event : Event}
    (holds : client.AllSaved) (keeps : client.KeepsRegions event)
    (stepped : client.step config event = some next) : next.AllSaved := by
  cases step_cases stepped with
  | threadInit registered => exact holds.births (keeps registered) _
  | threadInitIgnored => exact holds
  | threadExit registered found worker =>
    have counted := keeps registered _ found worker
    have taken := holds.takes found "thread_exit" fun master => by
      rw [worker] at master
      cases master
    refine taken.keeps ?_ (hasRegions_saveBarrier _ (holds.saved _ _ found))
    show (if _ then _ else _ : BarrierPointData).synchCount ≤ _
    rw [worker]
    exact counted
  | masterExit registered found master =>
    exact holds.keeps (holds.master _ _ found master).ge (holds.saved _ _ found)
  | threadExitIgnored => exact holds
  | roiInit => exact holds.of_eq rfl rfl rfl
  | roiEnd once found master =>
    have closed : client.closed.AllSaved := holds.of_eq rfl rfl rfl
    exact closed.takes found "thread_exit" fun master => keeps _ found master
  | ompParallel known inRoi found => exact holds.takes found _ fun master => keeps inRoi _ found master
  | ompParallelOutside => exact holds
  | barrier inRoi found => exact holds.takes found _ fun master => keeps inRoi _ found master
  | barrierIgnored inRoi found => exact holds.works found ⟨rfl, rfl, rfl⟩
  | barrierOutside => exact holds
  | single inRoi ignored found => exact holds.works found ⟨rfl, rfl, rfl⟩
  | singleIgnored => exact holds
  | cleanCall found ran => exact holds.works found (sameRegions_blockData ran)
  | memRef found => exact holds.works found ⟨rfl, rfl, rfl⟩

/-- In every run whose steps keep the regions, saving goes through in every state reached: each
look-up that the alignment and the writers follow finds its region. -/
theorem save_isSome_of_keepsRegions (config : Config) (events : List Event) (final : Client)
    (keeps : Along (step config) KeepsRegions new events)
    (reached : run (step config) new events = some final) :
    (final.barrierPoint.save config.parallelOmpF).isSome := by
  have holds : final.AllSaved := run_invariant AllSaved
    (fun _ _ _ before condition stepped => allSaved_step before condition stepped) allSaved_new
    keeps reached
  rw [BarrierPointData.save_isSome_iff]
  intro data member id inRange
  obtain ⟨counted, has⟩ := holds.exited data member
  exact has id (Nat.lt_of_lt_of_le inRange counted)

/-- A team of two threads that take one barrier, and the end of the region of interest, together. -/
theorem save_isSome_team : ∃ final,
    run (step { parallelOmpF := ∅ }) new [.threadInit 0 10, .threadInit 1 11, .roiInit 0,
      .barrier 0, .barrier 1, .roiEnd 0, .threadExit 1, .threadExit 0] = some final ∧
    (final.barrierPoint.save ∅).isSome := by
  refine ⟨_, rfl, save_isSome_of_keepsRegions { parallelOmpF := ∅ } [.threadInit 0 10,
    .threadInit 1 11, .roiInit 0, .barrier 0, .barrier 1, .roiEnd 0, .threadExit 1, .threadExit 0]
    _ ?_ rfl⟩
  decide

/-- A thread born after the first synchronisation point has no region for it, and saving follows
the failed look-up. -/
theorem save_eq_none_late_thread : ∃ final,
    run (step { parallelOmpF := ∅ }) new [.threadInit 0 10, .roiInit 0, .barrier 0,
      .threadInit 1 11, .roiEnd 0, .threadExit 1, .threadExit 0] = some final ∧
    final.barrierPoint.save ∅ = none := by
  refine ⟨_, rfl, Option.not_isSome_iff_eq_none.mp fun saved => ?_⟩
  rw [BarrierPointData.save_isSome_iff] at saved
  exact absurd (saved _ List.mem_cons_self 0 (by decide)) (by decide)

end Client

end BarrierPoint
