/-
This file shows what the options that concern memory references can change.
The size of a cache line, whether addresses are masked, and whether references
before the region of interest are traced decide what the reuse distances are;
nothing else that the client gathers or saves depends on them. Two clients that
differ in these options and see the same events stay equal apart from their
trackers, their histograms and what waits in their buffers.
-/

import BarrierPoint.Interleavings
import BarrierPoint.ThreadRuns

namespace BarrierPoint

open Library

/-! ### Data that are alike apart from reuse distances -/

/-- A region without its histogram. -/
def Region.counts (region : Region) : Region := { region with lruHist := [] }

/-- The tracker of a thread is one that has followed some history. -/
def ThreadData.Tracked (data : ThreadData) : Prop :=
  ∃ history order, data.reuseDist.Tracks history order

/-- The data of a thread without its regions and everything that concerns reuse distances. -/
def ThreadData.bare (data : ThreadData) : ThreadData :=
  { data with
    reuseDist := ReuseDistance.new 500 false false 100
    regions := ∅
    curLruHist := []
    buffer := [] }

/-- Two maps hold the same regions apart from their histograms. -/
def SameCounts (first second : UnorderedMap Nat Region) : Prop :=
  ∀ id, (first.lookup id).map Region.counts = (second.lookup id).map Region.counts

/-- The data of two threads are the same apart from reuse distances. -/
structure ThreadData.CountsAlike (first second : ThreadData) : Prop where
  bare_eq : first.bare = second.bare
  regions : SameCounts first.regions second.regions

namespace ThreadData

variable {first second : ThreadData}

theorem CountsAlike.refl (data : ThreadData) : data.CountsAlike data := ⟨rfl, fun _ => rfl⟩

/-- What concerns reuse distances does not matter. -/
theorem CountsAlike.of_bare (alike : first.CountsAlike second) {firstAfter secondAfter : ThreadData}
    (firstSame : firstAfter.bare = first.bare) (secondSame : secondAfter.bare = second.bare)
    (firstRegions : firstAfter.regions = first.regions)
    (secondRegions : secondAfter.regions = second.regions) : firstAfter.CountsAlike secondAfter :=
  ⟨(firstSame.trans alike.bare_eq).trans secondSame.symm, by
    rw [firstRegions, secondRegions]
    exact alike.regions⟩

/-- What is read apart from reuse distances and regions is the same. -/
theorem CountsAlike.read {Value : Type} (alike : first.CountsAlike second)
    (read : ThreadData → Value) : read first.bare = read second.bare :=
  congrArg read alike.bare_eq

theorem CountsAlike.addBb (alike : first.CountsAlike second) (key : Address) (instN : UInt64) :
    (first.addBb key instN).CountsAlike (second.addBb key instN) :=
  ⟨alike.read fun data => data.addBb key instN, alike.regions⟩

theorem CountsAlike.saveBarrier (alike : first.CountsAlike second) (ompName : String) :
    (first.saveBarrier ompName).CountsAlike (second.saveBarrier ompName) := by
  have synchId : first.curSynchId = second.curSynchId :=
    alike.read ThreadData.curSynchId
  refine ⟨alike.read fun data => (data.saveBarrier ompName).bare, fun id => ?_⟩
  have saved : (first.currentRegion ompName).counts = (second.currentRegion ompName).counts :=
    alike.read fun data => (data.currentRegion ompName).counts
  simp only [ThreadData.saveBarrier, UnorderedMap.lookup_insertNew, synchId]
  have held := alike.regions second.curSynchId
  split
  · cases found : first.regions.lookup second.curSynchId with
    | none =>
      rw [found, Option.map_none, eq_comm, Option.map_eq_none_iff] at held
      rw [held]
      exact congrArg some saved
    | some region =>
      rw [found, Option.map_some, eq_comm, Option.map_eq_some_iff] at held
      obtain ⟨other, otherFound, same⟩ := held
      rw [otherFound]
      exact congrArg some same.symm
  · exact alike.regions id

theorem CountsAlike.inSingle (alike : first.CountsAlike second) (inSingle : Bool) :
    ThreadData.CountsAlike { first with inSingle } { second with inSingle } :=
  ⟨alike.read fun data => { data with inSingle }, alike.regions⟩

/-- Draining a buffer goes through on every thread that is tracked, and concerns reuse distances
only. -/
theorem Tracked.addAddress {data : ThreadData} (tracked : data.Tracked) (mask : Address) :
    ∃ after, data.addAddress mask = some after ∧ after.Tracked ∧ after.bare = data.bare ∧
      after.regions = data.regions := by
  obtain ⟨history, order, tracks⟩ := tracked
  obtain ⟨final, next, drained, later⟩ := addAddress_eq tracks mask
  exact ⟨_, drained, ⟨_, next, later⟩, rfl, rfl⟩

theorem tracked_new (threadId : UInt32) (isMaster : Bool) (regionId : Nat) :
    (ThreadData.new threadId isMaster regionId).Tracked :=
  ⟨[], [], ReuseDistance.tracks_new (by decide) false false 100⟩

end ThreadData

namespace Client

/-! ### Clients that are alike apart from reuse distances -/

/-- The data in a slot of two clients. -/
def SlotsAlike (first second : ThreadData) : Prop :=
  first.CountsAlike second ∧ first.Tracked ∧ second.Tracked

/-- Two clients are the same apart from reuse distances. -/
structure CountsAlike (first second : Client) : Prop where
  slots : ∀ context,
    Option.Rel SlotsAlike (first.slots.lookup context) (second.slots.lookup context)
  synchCount : first.barrierPoint.synchCount = second.barrierPoint.synchCount
  threads : List.Forall₂ ThreadData.CountsAlike first.barrierPoint.threads
    second.barrierPoint.threads
  rest : { first with slots := ∅, barrierPoint := .new } =
    { second with slots := ∅, barrierPoint := .new }

theorem countsAlike_new : new.CountsAlike new := by
  refine ⟨fun context => ?_, rfl, .nil, rfl⟩
  rw [slots_new]
  exact .none

/-- Two changes are the same apart from reuse distances. -/
structure Change.Alike (first second : Change) : Prop where
  data : Option.Rel SlotsAlike first.data second.data
  advances : first.advances = second.advances
  keeps : List.Forall₂ ThreadData.CountsAlike first.keeps second.keeps
  births : first.births = second.births

namespace Change

theorem alike_nothing : Alike {} {} := ⟨.none, rfl, .nil, rfl⟩

theorem Alike.of_data {first second : ThreadData} (alike : SlotsAlike first second) :
    Alike { data := some first } { data := some second } :=
  ⟨.some alike, rfl, .nil, rfl⟩

theorem Alike.saving {first second : ThreadData} (alike : SlotsAlike first second)
    (ompName : String) : Alike (saving first ompName) (saving second ompName) :=
  ⟨.some ⟨alike.1.saveBarrier ompName, alike.2⟩, alike.1.read ThreadData.isMaster, .nil, rfl⟩

end Change

/-- A block is counted inside the region of interest. -/
def counted (client : Client) (data : ThreadData) (instCount : UInt64) (address : Address) :
    ThreadData :=
  if client.inRoi then data.addBb address instCount else data

/-- The call of a block goes through on data that are tracked, and apart from reuse distances all it
does is to count the block. -/
theorem blockData_tracked (config : Config) (client : Client) {data : ThreadData}
    (tracked : data.Tracked) (instCount : UInt64) (address : Address) :
    ∃ after, client.blockData config data instCount address = some after ∧ after.Tracked ∧
      after.bare = (client.counted data instCount address).bare ∧
      after.regions = (client.counted data instCount address).regions := by
  have held : (client.counted data instCount address).Tracked := by
    unfold counted
    split
    · exact tracked
    · exact tracked
  obtain ⟨after, drained, later, same, regions⟩ := held.addAddress config.addressMask
  unfold blockData
  cases config.traceMemBeforeRoi with
  | true =>
    rw [if_pos rfl]
    cases client.roiHasEnded with
    | true => exact ⟨_, rfl, held, rfl, rfl⟩
    | false => exact ⟨after, drained, later, same, regions⟩
  | false =>
    rw [if_neg Bool.false_ne_true]
    cases inRoi : client.inRoi with
    | true =>
      rw [counted, if_pos inRoi] at drained same regions ⊢
      exact ⟨after, drained, later, same, regions⟩
    | false =>
      rw [counted, inRoi]
      exact ⟨data.cleanBuffer, rfl, tracked, rfl, rfl⟩

/-- The call of a block leaves data that are alike. -/
theorem blockData_countsAlike (config : Config) (cacheLineSizeBytes : Address)
    (maskAddresses traceMemBeforeRoi : Bool) {first second : Client}
    (inRoi : first.inRoi = second.inRoi) {one other : ThreadData} (same : SlotsAlike one other)
    (instCount : UInt64) (address : Address) :
    Option.Rel SlotsAlike (first.blockData config one instCount address)
      (second.blockData { config with cacheLineSizeBytes, maskAddresses, traceMemBeforeRoi } other
        instCount address) := by
  obtain ⟨oneAfter, oneRan, oneTracked, oneBare, oneRegions⟩ :=
    blockData_tracked config first same.2.1 instCount address
  obtain ⟨after, ran, tracked, bare, regions⟩ :=
    blockData_tracked { config with cacheLineSizeBytes, maskAddresses, traceMemBeforeRoi } second
      same.2.2 instCount address
  have alike : (first.counted one instCount address).CountsAlike
      (second.counted other instCount address) := by
    rw [counted, counted, inRoi]
    split
    · exact same.1.addBb address instCount
    · exact same.1
  rw [oneRan, ran]
  exact .some ⟨alike.of_bare oneBare bare oneRegions regions, oneTracked, tracked⟩

/-- The same event makes changes that are alike to clients that are alike, whatever the options that
concern memory references are. -/
theorem change_countsAlike (config : Config) (cacheLineSizeBytes : Address)
    (maskAddresses traceMemBeforeRoi : Bool) {first second : Client}
    (alike : first.CountsAlike second) (event : Event) :
    Option.Rel Change.Alike (first.change config event)
      (second.change { config with cacheLineSizeBytes, maskAddresses, traceMemBeforeRoi } event) := by
  have flags := alike.rest
  simp only [Client.mk.injEq] at flags
  obtain ⟨-, -, inRoi, -, -, -, -, -, firstTime, inits, exits⟩ := flags
  cases event with
  | roiInit | roiEnd => exact .none
  | threadInit context threadId =>
    rw [change, change, inits, firstTime, alike.synchCount]
    split
    · have tracked := ThreadData.tracked_new threadId second.firstTimeCalled
        second.barrierPoint.synchCount
      exact .some ⟨.some ⟨.refl _, tracked, tracked⟩, rfl, .nil, rfl⟩
    · exact .some Change.alike_nothing
  | threadExit context =>
    rw [change, change, exits]
    split
    · refine rel_map (alike.slots context) fun one other same => ?_
      rw [show one.isMaster = other.isMaster from same.1.read ThreadData.isMaster]
      split
      · exact ⟨.none, rfl, .cons same.1 .nil, rfl⟩
      · have saved := Change.Alike.saving same "thread_exit"
        exact ⟨saved.data, saved.advances, .cons (same.1.saveBarrier "thread_exit") .nil, rfl⟩
    · exact .some Change.alike_nothing
  | ompParallel context fAddr =>
    rw [change, change, inRoi]
    cases config.parallelOmpF.lookup fAddr with
    | none => exact .none
    | some fName =>
      rw [Option.bind_some, Option.bind_some]
      split
      · exact rel_map (alike.slots context) fun one other same => .saving same fName
      · exact .some Change.alike_nothing
  | barrier context =>
    rw [change, change, inRoi]
    split
    · refine rel_map (alike.slots context) fun one other same => ?_
      rw [show one.inSingle = other.inSingle from same.1.read ThreadData.inSingle]
      split
      · exact .of_data ⟨same.1.inSingle false, same.2⟩
      · exact .saving same "GOMP_barrier"
    · exact .some Change.alike_nothing
  | single context =>
    rw [change, change, inRoi]
    split
    · exact rel_map (alike.slots context) fun one other same =>
        .of_data ⟨same.1.inSingle true, same.2⟩
    · exact .some Change.alike_nothing
  | cleanCall context instCount address =>
    refine rel_bind (alike.slots context) fun one other same => ?_
    refine rel_map (blockData_countsAlike config cacheLineSizeBytes maskAddresses traceMemBeforeRoi
      inRoi same instCount address) fun oneAfter otherAfter later => .of_data later
  | memRef context address =>
    exact rel_map (alike.slots context) fun one other same =>
      .of_data ⟨same.1.of_bare rfl rfl rfl rfl, same.2⟩

/-- Changes that are alike keep clients alike. -/
theorem CountsAlike.apply {first second : Client} (alike : first.CountsAlike second)
    (context : DrContext) {one other : Change} (same : one.Alike other) :
    (first.apply context one).CountsAlike (second.apply context other) where
  slots slot := by
    rw [lookup_apply, lookup_apply]
    split
    · exact rel_or same.data (alike.slots slot)
    · exact alike.slots slot
  synchCount := by
    show first.barrierPoint.synchCount + _ = second.barrierPoint.synchCount + _
    rw [alike.synchCount, same.advances]
  threads := List.rel_append alike.threads same.keeps
  rest := by
    have flags := alike.rest
    simp only [Client.mk.injEq] at flags ⊢
    obtain ⟨-, -, inRoi, roiHasEnded, roiStart, roiEnd, initOnce, endOnce, firstTime, inits,
      exits⟩ := flags
    exact ⟨trivial, trivial, inRoi, roiHasEnded, roiStart, roiEnd, initOnce, endOnce,
      congrArg₂ (fun first born => first && !born) firstTime same.births, inits, exits⟩

theorem CountsAlike.opened {first second : Client} (alike : first.CountsAlike second) :
    first.opened.CountsAlike second.opened :=
  ⟨alike.slots, alike.synchCount, alike.threads, congrArg Client.opened alike.rest⟩

theorem CountsAlike.closed {first second : Client} (alike : first.CountsAlike second) :
    first.closed.CountsAlike second.closed :=
  ⟨alike.slots, alike.synchCount, alike.threads, congrArg Client.closed alike.rest⟩

/-- Every step keeps clients alike, whatever the options that concern memory references are. -/
theorem step_countsAlike (config : Config) (cacheLineSizeBytes : Address)
    (maskAddresses traceMemBeforeRoi : Bool) (event : Event) {first second : Client}
    (alike : first.CountsAlike second) :
    Option.Rel CountsAlike (first.step config event)
      (second.step { config with cacheLineSizeBytes, maskAddresses, traceMemBeforeRoi } event) := by
  have flags := alike.rest
  simp only [Client.mk.injEq] at flags
  obtain ⟨-, -, -, -, -, -, initOnce, endOnce, -⟩ := flags
  by_cases thread : ∀ context, event ≠ .roiInit context ∧ event ≠ .roiEnd context
  · rw [step_eq_change config first event thread, step_eq_change _ second event thread]
    exact rel_map (change_countsAlike config cacheLineSizeBytes maskAddresses traceMemBeforeRoi
      alike event) fun _ _ same => alike.apply event.context same
  · simp only [not_forall, not_and_or, not_not] at thread
    obtain ⟨context, rfl | rfl⟩ := thread
    · rw [step_roiInit, step_roiInit, initOnce]
      split
      · exact .some alike.opened
      · exact .none
    · rw [step_roiEnd, step_roiEnd, endOnce]
      split
      · refine rel_bind (alike.slots context) fun one other same => ?_
        rw [show one.isMaster = other.isMaster from same.1.read ThreadData.isMaster]
        split
        · rw [← apply_saving, ← apply_saving]
          exact .some (alike.closed.apply context (.saving same "thread_exit"))
        · exact .none
      · exact .none

end Client

/-! ### What is saved of data that are alike -/

/-- What a region holds apart from its histogram is read the same in maps that are alike. -/
theorem SameCounts.read {Value : Type} {first second : UnorderedMap Nat Region}
    (same : SameCounts first second) (id : Nat) (missing : Value) (read : Region → Value)
    (readsCounts : ∀ region : Region, read region.counts = read region) :
    (match first.lookup id with | some region => read region | none => missing) =
      match second.lookup id with | some region => read region | none => missing := by
  have held := same id
  cases found : first.lookup id with
  | none =>
    rw [found, Option.map_none, eq_comm, Option.map_eq_none_iff] at held
    rw [held]
  | some region =>
    rw [found, Option.map_some, eq_comm, Option.map_eq_some_iff] at held
    obtain ⟨other, otherFound, counts⟩ := held
    rw [otherFound]
    exact (readsCounts region).symm.trans ((congrArg read counts).symm.trans (readsCounts other))

theorem SameCounts.insert {first second : UnorderedMap Nat Region}
    (same : SameCounts first second) (id : Nat) {region other : Region}
    (counts : region.counts = other.counts) :
    SameCounts (first.insert id region) (second.insert id other) := by
  intro key
  rw [UnorderedMap.lookup_insert, UnorderedMap.lookup_insert]
  split
  · exact congrArg some counts
  · exact same key

/-- The alignment of a block does not look at the histogram of its region. -/
theorem alignBlock_counts (state : Region × UInt64) (bbAddr : Address) :
    alignBlock (state.1.counts, state.2) bbAddr =
      ((alignBlock state bbAddr).1.counts, (alignBlock state bbAddr).2) := by
  obtain ⟨region, balance⟩ := state
  unfold alignBlock Region.counts
  cases found : region.bbv.lookup bbAddr with
  | none => simp only [found]
  | some count => simp only [found]

theorem alignRegion_counts (parallelOmpF : UnorderedMap Address String) (region : Region)
    (balance : UInt64) : alignRegion parallelOmpF region.counts balance =
      ((alignRegion parallelOmpF region balance).1.counts,
        (alignRegion parallelOmpF region balance).2) := by
  have forgets : ∀ state : Region × UInt64,
      parallelOmpF.keys.foldl alignBlock (state.1.counts, state.2) =
        ((parallelOmpF.keys.foldl alignBlock state).1.counts,
          (parallelOmpF.keys.foldl alignBlock state).2) :=
    fun _ => List.foldl_hom (fun state : Region × UInt64 => (state.1.counts, state.2))
      alignBlock_counts
  exact forgets ({ region with instrCount := region.instrCount + balance }, 0)

/-- Aligning the regions of a thread keeps maps alike, and the same balance goes on. -/
theorem alignThread_sameCounts (parallelOmpF : UnorderedMap Address String) (ids : List Nat) :
    ∀ {first second : UnorderedMap Nat Region} (balance : UInt64), SameCounts first second →
      Option.Rel (fun one other => SameCounts one.1 other.1 ∧ one.2 = other.2)
        (alignThread parallelOmpF ids first balance)
        (alignThread parallelOmpF ids second balance) := by
  induction ids with
  | nil => exact fun balance same => .some ⟨same, rfl⟩
  | cons id ids inductionHypothesis =>
    intro first second balance same
    have held : Option.Rel (fun one other => Region.counts one = Region.counts other)
        (first.lookup id) (second.lookup id) := by
      have counts := same id
      generalize first.lookup id = one at counts
      generalize second.lookup id = other at counts
      cases one with
      | none =>
        cases other with
        | none => exact .none
        | some _ => cases counts
      | some _ =>
        cases other with
        | none => cases counts
        | some _ => exact .some (Option.some_inj.mp counts)
    refine rel_bind held fun region other counts => ?_
    have aligned : ((alignRegion parallelOmpF region balance).1.counts,
        (alignRegion parallelOmpF region balance).2) =
          ((alignRegion parallelOmpF other balance).1.counts,
            (alignRegion parallelOmpF other balance).2) := by
      rw [← alignRegion_counts, ← alignRegion_counts, counts]
    obtain ⟨regionCounts, carried⟩ := Prod.mk.inj aligned
    dsimp only
    rw [carried]
    exact inductionHypothesis _ (same.insert id regionCounts)

/-- Aligning all threads keeps them alike. -/
theorem alignThreads_countsAlike (parallelOmpF : UnorderedMap Address String) (synchCount : Nat)
    {first second : List ThreadData} (threads : List.Forall₂ ThreadData.CountsAlike first second) :
    ∀ balance, Option.Rel (List.Forall₂ ThreadData.CountsAlike)
      (alignThreads parallelOmpF synchCount first balance)
      (alignThreads parallelOmpF synchCount second balance) := by
  induction threads with
  | nil => exact fun _ => .some .nil
  | cons alike _ inductionHypothesis =>
    intro balance
    refine rel_bind (alignThread_sameCounts parallelOmpF _ balance alike.regions) ?_
    rintro ⟨regions, carried⟩ ⟨otherRegions, _⟩ ⟨same, rfl⟩
    exact rel_bind (inductionHypothesis carried) fun aligned otherAligned rest =>
      .some (.cons ⟨alike.bare_eq, same⟩ rest)

namespace BarrierPointData

/-- The data gathered by two clients are the same apart from reuse distances. -/
structure CountsAlike (first second : BarrierPointData) : Prop where
  synchCount : first.synchCount = second.synchCount
  threads : List.Forall₂ ThreadData.CountsAlike first.threads second.threads

variable {first second : BarrierPointData}

theorem CountsAlike.generateFakeTid (alike : first.CountsAlike second) :
    first.generateFakeTid.CountsAlike second.generateFakeTid where
  synchCount := alike.synchCount
  threads := by
    have identified : ∀ one other : ThreadData, one.CountsAlike other → one.tid = other.tid :=
      fun _ _ same => same.read ThreadData.tid
    refine forall₂_mapIdx (fun index one other same => ?_) (forall₂_insertionSort
      (fun one other two another same alsoSame => ?_) alike.threads)
    · exact ⟨same.read fun data => { data with fakeTid := index.toUInt32 }, same.regions⟩
    · rw [identified one other same, identified two another alsoSame]

theorem CountsAlike.alignSynchBb (parallelOmpF : UnorderedMap Address String)
    (alike : first.CountsAlike second) :
    Option.Rel CountsAlike (first.alignSynchBb parallelOmpF) (second.alignSynchBb parallelOmpF) := by
  rw [BarrierPointData.alignSynchBb, BarrierPointData.alignSynchBb, alike.synchCount]
  exact rel_bind (alignThreads_countsAlike parallelOmpF _ alike.threads 0)
    fun aligned otherAligned threads => .some ⟨rfl, threads⟩

theorem CountsAlike.saveBbvInstCount (alike : first.CountsAlike second) :
    first.saveBbvInstCount = second.saveBbvInstCount := by
  unfold BarrierPointData.saveBbvInstCount
  rw [alike.synchCount]
  refine congrArg (List.flatMap · _) (funext fun synchId => ?_)
  have counts := map_eq_of_forall₂ (fun one other same => congrArg (fun count : UInt64 =>
    decimal count.toNat) (same.regions.read synchId 0 Region.instrCount fun _ => rfl)) alike.threads
  exact congrArg ([','].intercalate · ++ ['\n']) counts

theorem CountsAlike.bbIds (alike : first.CountsAlike second) : first.bbIds = second.bbIds := by
  unfold BarrierPointData.bbIds
  rw [alike.synchCount]
  refine foldl_eq_of_forall₂ (fun state one other same => ?_) alike.threads _
  refine congrArg (List.foldl · state _) (funext fun state => funext fun synchId => ?_)
  exact same.regions.read synchId state _ fun _ => rfl

theorem CountsAlike.saveBbvCount (alike : first.CountsAlike second) :
    first.saveBbvCount = second.saveBbvCount := by
  unfold BarrierPointData.saveBbvCount
  rw [alike.synchCount, alike.bbIds]
  refine congrArg (List.flatMap · _) (funext fun synchId => ?_)
  refine congrArg (vectorDelim synchId :: · ++ ['\n']) ?_
  rw [List.flatMap_def, List.flatMap_def]
  refine congrArg List.flatten (map_eq_of_forall₂ (fun one other same => ?_) alike.threads)
  rw [show one.fakeTid = other.fakeTid from same.read ThreadData.fakeTid]
  exact same.regions.read synchId [] _ fun _ => rfl

theorem bpIdRows_sameCounts {first second : UnorderedMap Nat Region}
    (same : SameCounts first second) (ids : List Nat) : ∀ synchTimes,
      bpIdRows first ids synchTimes = bpIdRows second ids synchTimes := by
  induction ids with
  | nil => exact fun _ => rfl
  | cons id ids inductionHypothesis =>
    intro synchTimes
    have names : (first.lookup id).map Region.synchName = (second.lookup id).map Region.synchName := by
      have counts := congrArg (Option.map Region.synchName) (same id)
      rwa [Option.map_map, Option.map_map] at counts
    rw [bpIdRows, bpIdRows]
    cases found : first.lookup id with
    | none =>
      rw [found, Option.map_none, eq_comm, Option.map_eq_none_iff] at names
      rw [names]
      rfl
    | some region =>
      rw [found, Option.map_some, eq_comm, Option.map_eq_some_iff] at names
      obtain ⟨⟨otherName, otherCount, otherBbv, otherHist⟩, otherFound, rfl⟩ := names
      simp only [otherFound, Option.bind_eq_bind, Option.bind_some, inductionHypothesis]

theorem CountsAlike.saveBpId (alike : first.CountsAlike second) :
    first.saveBpId = second.saveBpId := by
  have rows : ∀ (synchCount : Nat) {one other : List ThreadData},
      List.Forall₂ ThreadData.CountsAlike one other → ∀ synchTimes,
        bpIdThreads synchCount one synchTimes = bpIdThreads synchCount other synchTimes := by
    intro synchCount one other threads
    induction threads with
    | nil => exact fun _ => rfl
    | @cons data otherData _ _ same _ inductionHypothesis =>
      intro synchTimes
      have master : data.isMaster = otherData.isMaster := same.read ThreadData.isMaster
      simp only [bpIdThreads, master, bpIdRows_sameCounts same.regions, inductionHypothesis]
  rw [BarrierPointData.saveBpId, BarrierPointData.saveBpId, alike.synchCount, rows _ alike.threads]

end BarrierPointData

namespace Client

/-- The options that concern memory references -- the size of a cache line, whether addresses are
masked, and whether references before the region of interest are traced -- change the reuse distance
files only. Two clients that differ in these options and see the same events both fail or both save,
and the instruction counts, the synchronisation points and the basic block vectors they save are the
same. -/
theorem eventExit_memoryOptions (config : Config) (cacheLineSizeBytes : Address)
    (maskAddresses traceMemBeforeRoi : Bool) (events : List Event) :
    let other := { config with cacheLineSizeBytes, maskAddresses, traceMemBeforeRoi }
    let counts := fun files : BarrierPointData.Files =>
      (files.bbvInscount, files.bpId, files.bbvCount)
    ((run (step config) new events).bind (eventExit config)).map counts =
      ((run (step other) new events).bind (eventExit other)).map counts := by
  intro other counts
  have alike := run_related (fun event _ _ holds =>
    step_countsAlike config cacheLineSizeBytes maskAddresses traceMemBeforeRoi event holds)
    events countsAlike_new
  show (Option.bind (run (step config) new events) (eventExit config)).map counts =
    (Option.bind (run (step other) new events) (eventExit other)).map counts
  generalize run (step config) new events = reached at alike
  generalize run (step other) new events = otherReached at alike
  cases alike with
  | none => rfl
  | @some final otherFinal same =>
    have flags := same.rest
    simp only [Client.mk.injEq] at flags
    obtain ⟨-, -, -, -, roiStart, roiEnd, -⟩ := flags
    have gathered : final.barrierPoint.CountsAlike otherFinal.barrierPoint :=
      ⟨same.synchCount, same.threads⟩
    have aligned := gathered.generateFakeTid.alignSynchBb config.parallelOmpF
    have files : (final.barrierPoint.save config.parallelOmpF).map counts =
        (otherFinal.barrierPoint.save config.parallelOmpF).map counts := by
      rw [BarrierPointData.save, BarrierPointData.save]
      generalize final.barrierPoint.generateFakeTid.alignSynchBb config.parallelOmpF = one at aligned
      generalize otherFinal.barrierPoint.generateFakeTid.alignSynchBb config.parallelOmpF = another
        at aligned
      cases aligned with
      | none => rfl
      | @some saved otherSaved alike =>
        simp only [Option.bind_eq_bind, Option.bind_some, alike.saveBpId]
        cases otherSaved.saveBpId with
        | none => rfl
        | some bpId =>
          exact congrArg some (Prod.ext alike.saveBbvInstCount
            (Prod.ext rfl alike.saveBbvCount))
    rw [Option.bind_some, Option.bind_some, eventExit, eventExit, roiStart, roiEnd]
    cases otherFinal.roiStartDetected with
    | false => rfl
    | true =>
      cases otherFinal.roiEndDetected with
      | false => rfl
      | true => exact files

end Client

end BarrierPoint
