/-
This file frees what the client has allocated. At the end the client deletes the
lines of every saved thread through the map of its tracker; the destructor of the
recency list, which the client never runs, would delete them along the links.
Both reach every line that was allocated, and each once, so either of them may
run, but not one after the other.
-/

import BarrierPoint.BuildOptions
import BarrierPoint.Library.Freeing
import BarrierPoint.MasterPoints
import BarrierPoint.StackInvariant

namespace BarrierPoint

open Library

/-! ### The lines of one tracker -/

namespace LineRefList

/-- The memory that the pointers of the list lead into. -/
def memory (list : LineRefList) : Memory Nat LineRef := fun address => list.nodes[address]?

/-- `~line_ref_list_t`: delete the lines from the head on. -/
def destroy (list : LineRefList) (memory : Memory Nat LineRef) : Option (Memory Nat LineRef) :=
  if list.head = none then some memory
  else Memory.deleteChain LineRef.next list.walkBound memory list.head

variable {list : LineRefList} {order : List Nat}

theorem isSome_memory_iff (threads : list.Threads order) (address : Nat) :
    (list.memory address).isSome = true ↔ address ∈ order := by
  rw [threads.mem_iff, memory, isSome_getElem?]

theorem without_eq_empty (threads : list.Threads order) {addresses : List Nat}
    (perm : addresses.Perm order) : list.memory.without addresses = fun _ => none :=
  Memory.without_eq_empty fun address allocated =>
    perm.mem_iff.mpr ((isSome_memory_iff threads address).mp allocated)

/-- Deleting every line once empties the memory. -/
theorem run_delete_order (threads : list.Threads order) {addresses : List Nat}
    (perm : addresses.Perm order) :
    run Memory.delete list.memory addresses = some fun _ => none := by
  rw [Memory.run_delete_of_nodup (perm.nodup_iff.mpr threads.distinct) fun address member =>
    (isSome_memory_iff threads address).mpr (perm.mem_iff.mp member), without_eq_empty threads perm]

/-- The destructor deletes every line. -/
theorem destroy_memory (threads : list.Threads order) :
    list.destroy list.memory = some fun _ => none := by
  have chain := @Memory.deleteChain_eq _ _ _ LineRef.next _ _ order [] list.walkBound list.memory
    threads.distinct threads.linked (fun address member => by
      obtain ⟨line, held⟩ :=
        Option.isSome_iff_exists.mp ((isSome_memory_iff threads address).mpr member)
      refine ⟨line, held, ?_⟩
      rw [nextOf, show list.nodes[address]? = some line from held]
      rfl) (by rw [threads.length_eq]; exact Nat.le_succ _)
  rw [run_delete_order threads (List.Perm.refl order), List.head?_eq_getElem?,
    ← threads.head_eq] at chain
  unfold destroy
  split
  · rename_i headless
    rw [headless] at chain
    cases order with
    | nil => rw [← without_eq_empty threads (List.Perm.refl []), Memory.without_nil]
    | cons first order => exact absurd (threads.head_eq.symm.trans headless) (by simp)
  · exact chain

/-- The destructor reads a freed line when the lines are gone already. -/
theorem destroy_empty (threads : list.Threads order) (filled : list.nodes ≠ []) :
    list.destroy (fun _ => none) = none := by
  have some : list.head ≠ none := by
    rw [threads.head_eq]
    intro headless
    have empty := threads.length_eq
    rw [List.length_eq_zero_iff.mp (Nat.le_zero.mp (List.getElem?_eq_none_iff.mp headless)),
      List.length_nil] at empty
    exact filled (List.length_eq_zero_iff.mp empty.symm)
  obtain ⟨first, held⟩ := Option.ne_none_iff_exists'.mp some
  rw [destroy, if_neg some, held]
  rfl

end LineRefList

namespace ReuseDistance

variable {reuse : ReuseDistance} {history : List Address} {order : List Nat}

/-- The map leads to every line, and to each once. -/
theorem Tracks.perm_entries (tracks : reuse.Tracks history order) :
    (reuse.cacheMap.entries.map Sigma.snd).Perm order := by
  have found : ∀ entry ∈ reuse.cacheMap.entries, reuse.cacheMap.lookup entry.1 = some entry.2 :=
    fun entry member => AList.mem_lookup_iff.mpr member
  have distinct : (reuse.cacheMap.entries.map Sigma.snd).Nodup := by
    refine List.Nodup.map_on (fun one member other otherMember same => ?_)
      reuse.cacheMap.nodupKeys.nodup
    exact reuse.cacheMap.nodupKeys.eq_of_fst_eq member otherMember
      (tracks.tag_unique (found one member) ((found other otherMember).trans (congrArg some same.symm)))
  refine (List.perm_ext_iff_of_nodup distinct tracks.represents.distinct).mpr fun ref => ?_
  constructor
  · intro member
    obtain ⟨entry, listed, rfl⟩ := List.mem_map.mp member
    obtain ⟨place, ref, -, atOrder, known⟩ :=
      tracks.node_of_mem (tracks.known entry.1 (found entry listed ▸ rfl))
    rw [Option.some_inj.mp ((found entry listed).symm.trans known)]
    exact List.mem_of_getElem? atOrder
  · intro member
    obtain ⟨tag, -, known⟩ := tracks.tag_of_node member
    exact List.mem_map.mpr ⟨⟨tag, ref⟩, AList.mem_lookup_iff.mp known, rfl⟩

end ReuseDistance

/-! ### All that the client has allocated -/

/-- The order in which a `std::unordered_map` is iterated: every entry comes once. -/
structure Iteration where
  elements : UnorderedMap Address Nat → List (Address × Nat)
  complete : ∀ map, (elements map).Perm (map.entries.map fun entry => (entry.1, entry.2))

instance : Inhabited Iteration := ⟨⟨fun map => map.entries.map fun entry => (entry.1, entry.2),
  fun _ => List.Perm.refl _⟩⟩

namespace BarrierPointData

/-- The lines of all saved threads. A thread has a tracker of its own; it goes by the identifier of
the thread here. -/
def memory (barrierPoint : BarrierPointData) : Memory (UInt32 × Nat) LineRef := fun (tid, ref) =>
  (barrierPoint.threads.find? fun data => data.tid = tid).bind fun data =>
    data.reuseDist.refList.memory ref

/-- `BarrierPoint::free`. -/
def free (iteration : Iteration) (barrierPoint : BarrierPointData)
    (memory : Memory (UInt32 × Nat) LineRef) :
    Option (BarrierPointData × Memory (UInt32 × Nat) LineRef) := do
  let memory ← run (fun memory (data : ThreadData) =>
    run (fun memory (elem : Address × Nat) => Memory.delete memory (data.tid, elem.2)) memory
      (iteration.elements data.reuseDist.cacheMap)) memory barrierPoint.threads
  return ({ barrierPoint with threads := [] }, memory)

/-- What is deleted, in order. -/
def deletes (iteration : Iteration) (barrierPoint : BarrierPointData) : List (UInt32 × Nat) :=
  barrierPoint.threads.flatMap fun data =>
    (iteration.elements data.reuseDist.cacheMap).map fun elem => (data.tid, elem.2)

theorem free_eq (iteration : Iteration) (barrierPoint : BarrierPointData)
    (memory : Memory (UInt32 × Nat) LineRef) : barrierPoint.free iteration memory =
      (run Memory.delete memory (barrierPoint.deletes iteration)).map
        ({ barrierPoint with threads := [] }, ·) := by
  have each : ∀ data : ThreadData, ∀ memory : Memory (UInt32 × Nat) LineRef,
      run (fun memory (elem : Address × Nat) => Memory.delete memory (data.tid, elem.2)) memory
        (iteration.elements data.reuseDist.cacheMap) =
      run Memory.delete memory
        ((iteration.elements data.reuseDist.cacheMap).map fun elem => (data.tid, elem.2)) :=
    fun data => run_map _ _
  rw [free, deletes, ← run_flatMap, Option.map_eq_bind]
  simp only [each]
  rfl

/-- Every saved thread is tracked. -/
def Tracked (barrierPoint : BarrierPointData) : Prop :=
  ∀ data ∈ barrierPoint.threads, data.Tracked

variable {barrierPoint : BarrierPointData}

theorem elements_perm (iteration : Iteration) {data : ThreadData} {history : List Address}
    {order : List Nat} (tracks : data.reuseDist.Tracks history order) :
    ((iteration.elements data.reuseDist.cacheMap).map Prod.snd).Perm order := by
  refine ((iteration.complete _).map Prod.snd).trans ?_
  rw [List.map_map]
  exact tracks.perm_entries

/-- The tracker of a thread is found by the identifier of the thread. -/
theorem memory_eq (distinct : (barrierPoint.threads.map (·.tid)).Nodup) {data : ThreadData}
    (member : data ∈ barrierPoint.threads) (ref : Nat) :
    barrierPoint.memory (data.tid, ref) = data.reuseDist.refList.memory ref := by
  have found : barrierPoint.threads.find? (fun other => other.tid = data.tid) = some data := by
    cases held : barrierPoint.threads.find? fun other => other.tid = data.tid with
    | none =>
      have missed := List.find?_eq_none.mp held data member
      exact absurd (decide_eq_true rfl) missed
    | some other =>
      have same := List.find?_some held
      rw [List.inj_on_of_nodup_map distinct (List.mem_of_find?_eq_some held) member
        (of_decide_eq_true same)]
  rw [memory, found, Option.bind_some]

/-- The deletes free every line of the saved threads, each once. -/
theorem run_delete_deletes (iteration : Iteration)
    (distinct : (barrierPoint.threads.map (·.tid)).Nodup) (tracked : barrierPoint.Tracked) :
    run Memory.delete barrierPoint.memory (barrierPoint.deletes iteration) =
      some fun _ => none := by
  have elements : ∀ data ∈ barrierPoint.threads, ∃ order, data.reuseDist.refList.Threads order ∧
      ((iteration.elements data.reuseDist.cacheMap).map Prod.snd).Perm order := by
    intro data member
    obtain ⟨history, order, tracks⟩ := tracked data member
    exact ⟨order, tracks.represents.toThreads, elements_perm iteration tracks⟩
  have members : ∀ tid ref, (tid, ref) ∈ barrierPoint.deletes iteration ↔
      ∃ data ∈ barrierPoint.threads, data.tid = tid ∧
        ref ∈ (iteration.elements data.reuseDist.cacheMap).map Prod.snd := by
    intro tid ref
    simp only [deletes, List.mem_flatMap, List.mem_map, Prod.mk.injEq]
    constructor
    · rintro ⟨data, member, elem, listed, same, rfl⟩
      exact ⟨data, member, same, elem, listed, rfl⟩
    · rintro ⟨data, member, same, elem, listed, rfl⟩
      exact ⟨data, member, elem, listed, same, rfl⟩
  rw [Memory.run_delete_of_nodup, Memory.without_eq_empty]
  · rintro ⟨tid, ref⟩ allocated
    obtain ⟨line, found⟩ := Option.isSome_iff_exists.mp allocated
    obtain ⟨data, held, here⟩ := Option.bind_eq_some_iff.mp found
    have member := List.mem_of_find?_eq_some held
    have same : data.tid = tid := by simpa using List.find?_some held
    obtain ⟨order, threads, perm⟩ := elements data member
    refine (members tid ref).mpr ⟨data, member, same, ?_⟩
    exact perm.mem_iff.mpr ((LineRefList.isSome_memory_iff threads ref).mp (here ▸ rfl))
  · refine List.nodup_flatMap.mpr ⟨fun data member => ?_, ?_⟩
    · obtain ⟨order, threads, perm⟩ := elements data member
      have refs := (perm.nodup_iff.mpr threads.distinct).map (Prod.mk_right_injective data.tid)
      rwa [List.map_map] at refs
    · refine (List.pairwise_map.mp distinct).imp fun apart => ?_
      rintro ⟨tid, ref⟩ one other
      obtain ⟨_, -, same⟩ := List.mem_map.mp one
      obtain ⟨_, -, otherSame⟩ := List.mem_map.mp other
      exact apart ((Prod.mk.inj same).1.trans (Prod.mk.inj otherSame).1.symm)
  · rintro ⟨tid, ref⟩ member
    obtain ⟨data, listed, rfl, here⟩ := (members tid ref).mp member
    obtain ⟨order, threads, perm⟩ := elements data listed
    rw [memory_eq distinct listed]
    exact (LineRefList.isSome_memory_iff threads ref).mpr (perm.mem_iff.mp here)

/-! ### Saving keeps the trackers -/

/-- What identifies the lines of a thread. -/
def tracker (data : ThreadData) : UInt32 × ReuseDistance := (data.tid, data.reuseDist)

theorem map_tracker_generateFakeTid (barrierPoint : BarrierPointData) :
    (barrierPoint.generateFakeTid.threads.map tracker).Perm (barrierPoint.threads.map tracker) := by
  have same : barrierPoint.generateFakeTid.threads.map tracker =
      (barrierPoint.threads.insertionSort fun first second => first.tid ≤ second.tid).map tracker := by
    rw [generateFakeTid]
    refine List.ext_getElem? fun index => ?_
    rw [List.getElem?_map, List.getElem?_mapIdx, List.getElem?_map, Option.map_map]
    rfl
  rw [same]
  exact (List.perm_insertionSort _ _).map tracker

theorem map_tracker_alignThreads {parallelOmpF : UnorderedMap Address String} {synchCount : Nat}
    (threads : List ThreadData) : ∀ {balance : UInt64} {aligned : List ThreadData},
      alignThreads parallelOmpF synchCount threads balance = some aligned →
        aligned.map tracker = threads.map tracker := by
  induction threads with
  | nil =>
    intro balance aligned ran
    cases ran
    rfl
  | cons data threads inductionHypothesis =>
    intro balance aligned ran
    obtain ⟨⟨regions, carried⟩, -, ran⟩ := Option.bind_eq_some_iff.mp ran
    obtain ⟨rest, ranRest, ran⟩ := Option.bind_eq_some_iff.mp ran
    cases ran
    rw [List.map_cons, List.map_cons, inductionHypothesis ranRest]
    rfl

/-- The threads that are saved are those that have exited. -/
theorem map_tracker_saved {parallelOmpF : UnorderedMap Address String}
    {saved : BarrierPointData}
    (aligned : barrierPoint.generateFakeTid.alignSynchBb parallelOmpF = some saved) :
    (saved.threads.map tracker).Perm (barrierPoint.threads.map tracker) := by
  obtain ⟨threads, ran, same⟩ := Option.bind_eq_some_iff.mp aligned
  cases same
  rw [map_tracker_alignThreads _ ran]
  exact map_tracker_generateFakeTid barrierPoint

end BarrierPointData

namespace Client

/-- Every thread that lives or has exited is tracked. -/
structure AllTracked (client : Client) : Prop where
  slots : ∀ context, ∀ data ∈ client.slots.lookup context, data.Tracked
  threads : client.barrierPoint.Tracked

variable {config : Config} {client next : Client} {event : Event} {context : DrContext}
  {after : ThreadData}

theorem allTracked_new : new.AllTracked := by
  refine ⟨fun context data found => ?_, fun data member => absurd member List.not_mem_nil⟩
  rw [Option.mem_def, slots_new] at found
  cases found

namespace AllTracked

theorem of_eq (holds : client.AllTracked) (slots : next.slots = client.slots)
    (threads : next.barrierPoint.threads = client.barrierPoint.threads) : next.AllTracked :=
  ⟨slots ▸ holds.slots, fun data member => holds.threads data (threads ▸ member)⟩

theorem changes (holds : client.AllTracked) (changed : client.SlotChanged context after next)
    (tracked : after.Tracked)
    (threads : next.barrierPoint.threads = client.barrierPoint.threads) : next.AllTracked := by
  refine ⟨fun other data found => ?_, fun data member => holds.threads data (threads ▸ member)⟩
  rcases changed.cases found with ⟨-, rfl⟩ | ⟨-, held⟩
  · exact tracked
  · exact holds.slots other data held

theorem kept (holds : client.AllTracked) (tracked : after.Tracked) :
    (client.kept after).AllTracked := by
  refine ⟨holds.slots, fun data member => ?_⟩
  rcases List.mem_append.mp member with before | here
  · exact holds.threads data before
  · rw [List.mem_singleton.mp here]
    exact tracked

end AllTracked

/-- A step keeps every thread tracked. -/
theorem allTracked_step (holds : client.AllTracked)
    (stepped : client.step config event = some next) : next.AllTracked := by
  have takes : ∀ {before : Client} {context : DrContext} {data : ThreadData} (ompName : String),
      before.AllTracked → before.slots.lookup context = some data →
      (before.taken context data ompName).AllTracked := by
    intro before context data ompName holds found
    have tracked : data.Tracked := holds.slots context data found
    exact holds.changes (slotChanged_taken before context data ompName) tracked
      (threads_taken before context data ompName)
  have reads : ∀ {context : DrContext} {data after : ThreadData},
      client.slots.lookup context = some data → after.reuseDist = data.reuseDist →
      after.Tracked := fun {context data after} found same => by
    obtain ⟨history, order, tracks⟩ := holds.slots context data found
    exact ⟨history, order, same ▸ tracks⟩
  have works : ∀ {context : DrContext} {data : ThreadData}, data.Tracked →
      (client.setSlot context data).AllTracked := fun tracked =>
    holds.changes (slotChanged_setSlot _ _ _) tracked rfl
  cases step_cases stepped with
  | threadInit registered =>
    exact holds.changes (slotChanged_setSlot client _ _) (ThreadData.tracked_new _ _ _) rfl
  | threadExit registered found worker =>
    exact (takes _ holds found).kept (reads found rfl)
  | masterExit registered found master => exact holds.kept (holds.slots _ _ found)
  | roiInit => exact holds.of_eq rfl rfl
  | roiEnd once found master =>
    exact takes _ (show client.closed.AllTracked from holds.of_eq rfl rfl) found
  | ompParallel known inRoi found | barrier inRoi found => exact takes _ holds found
  | barrierIgnored inRoi found | single inRoi ignored found | memRef found =>
    exact works (reads found rfl)
  | @cleanCall context instCount address data drained found ran =>
    obtain ⟨after, ranAfter, tracked, -⟩ :=
      blockData_tracked config client (holds.slots _ _ found) instCount address
    obtain rfl := Option.some_inj.mp (ranAfter.symm.trans ran)
    exact works tracked
  | threadInitIgnored | threadExitIgnored | ompParallelOutside | barrierOutside | singleIgnored =>
    exact holds

theorem allTracked_run {events : List Event} {final : Client}
    (reached : run (step config) new events = some final) : final.AllTracked :=
  run_invariant AllTracked (fun _ _ _ holds _ stepped => allTracked_step holds stepped)
    allTracked_new (along_of_forall (fun _ _ => trivial) events _) reached

/-- At the end of every run the client frees every line it has allocated, and each once, in whatever
order the maps are iterated. The destructors of the recency lists would do the same, but not behind
the client: a list with lines reads the first of them, which is gone. -/
theorem free_run (iteration : Iteration) (config : Config) {events : List Event} {final : Client}
    (reached : run (step config) new events = some final)
    (distinct : (final.barrierPoint.threads.map (·.tid)).Nodup) {saved : BarrierPointData}
    (aligned : final.barrierPoint.generateFakeTid.alignSynchBb config.parallelOmpF = some saved) :
    saved.free iteration saved.memory = some ({ saved with threads := [] }, fun _ => none) ∧
      ∀ data ∈ saved.threads,
        data.reuseDist.refList.destroy data.reuseDist.refList.memory = some (fun _ => none) ∧
        (data.reuseDist.refList.nodes ≠ [] →
          data.reuseDist.refList.destroy (fun _ => none) = none) := by
  have trackers := BarrierPointData.map_tracker_saved aligned
  have tracked : saved.Tracked := by
    intro data member
    obtain ⟨before, exited, same⟩ :=
      List.mem_map.mp (trackers.mem_iff.mp (List.mem_map_of_mem member))
    obtain ⟨history, order, tracks⟩ := (allTracked_run reached).threads before exited
    exact ⟨history, order, (Prod.mk.inj same).2 ▸ tracks⟩
  have identified : (saved.threads.map (·.tid)).Nodup := by
    have tids := trackers.map Prod.fst
    rw [List.map_map, List.map_map] at tids
    exact tids.nodup_iff.mpr distinct
  refine ⟨?_, fun data member => ?_⟩
  · rw [BarrierPointData.free_eq, BarrierPointData.run_delete_deletes iteration identified tracked]
    rfl
  · obtain ⟨history, order, tracks⟩ := tracked data member
    have threads := tracks.represents.toThreads
    exact ⟨LineRefList.destroy_memory threads, LineRefList.destroy_empty threads⟩

/-- One thread that references two lines inside the region of interest. -/
def twoLines : List Event :=
  [.threadInit 0 10, .roiInit 0, .memRef 0 0x80, .memRef 0 0x100, .cleanCall 0 3 0x400, .roiEnd 0,
    .threadExit 0]

theorem free_run_twoLines : ∃ final saved,
    run (step oneFunction) new twoLines = some final ∧
    final.barrierPoint.generateFakeTid.alignSynchBb oneFunction.parallelOmpF = some saved ∧
    saved.free default saved.memory = some ({ saved with threads := [] }, fun _ => none) ∧
    ∃ data ∈ saved.threads, data.reuseDist.refList.nodes.length = 2 ∧
      data.reuseDist.refList.destroy (fun _ => none) = none := by
  have completes : ((run (step oneFunction) new twoLines).bind fun final =>
      (final.barrierPoint.generateFakeTid.alignSynchBb oneFunction.parallelOmpF).map fun saved =>
        (final.barrierPoint.threads.map (·.tid), saved.threads.map fun data =>
          data.reuseDist.refList.nodes.length)) = some ([10], [2]) := by decide
  obtain ⟨final, reached, aligns⟩ := Option.bind_eq_some_iff.mp completes
  obtain ⟨saved, aligned, holds⟩ := Option.map_eq_some_iff.mp aligns
  obtain ⟨tids, lines⟩ := Prod.mk.inj holds
  obtain ⟨freed, destroys⟩ := free_run default oneFunction reached (by rw [tids]; decide) aligned
  obtain ⟨data, member, two⟩ := List.mem_map.mp (lines ▸ List.mem_singleton_self 2)
  refine ⟨final, saved, reached, aligned, freed, data, member, two, (destroys data member).2 ?_⟩
  intro empty
  rw [empty] at two
  cases two

end Client

end BarrierPoint
