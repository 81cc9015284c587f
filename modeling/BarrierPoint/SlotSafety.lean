/-
This file decides when the client finds the slot of a thread filled. A thread
gets its data when it is born, as long as the callback of its birth is
registered, and the end of the region of interest unregisters it. The exit of a
thread and the instrumented code stay registered behind that end, so a thread
born behind it reads an empty slot as soon as one of its callbacks reads any.
-/

import BarrierPoint.ClientSteps

namespace BarrierPoint

open Library

/-- The thread that an event happens in. -/
def Event.context : Event → DrContext
  | .threadInit context _ | .threadExit context | .roiInit context | .roiEnd context
  | .ompParallel context _ | .barrier context | .single context | .cleanCall context _ _
  | .memRef context _ => context

/-- The threads of the application: those that were born, with their identifiers, those of them that
were born behind the end of the region of interest, and those that have exited. -/
structure Threads where
  born : List (DrContext × UInt32)
  late : List DrContext
  exited : List DrContext
  deriving DecidableEq

namespace Threads

def new : Threads where
  born := []
  late := []
  exited := []

/-- What an event does to the threads. -/
def observe (client : Client) (threads : Threads) : Event → Threads
  | .threadInit context threadId =>
      { threads with
        born := (context, threadId) :: threads.born
        late := if client.roiHasEnded then context :: threads.late else threads.late }
  | .threadExit context => { threads with exited := context :: threads.exited }
  | _ => threads

/-- The client and the threads make a step. -/
def step (config : Config) : Client × Threads → Event → Option (Client × Threads)
  | (client, threads), event => (client.step config event).map (·, threads.observe client event)

/-- A thread is born once, and acts between its birth and its exit. -/
def InOrder : Client × Threads → Event → Prop
  | (_, threads), .threadInit context _ => context ∉ threads.born.map Prod.fst
  | (_, threads), event =>
      event.context ∈ threads.born.map Prod.fst ∧ event.context ∉ threads.exited

instance : ∀ (state : Client × Threads) (event : Event), Decidable (InOrder state event)
  | (_, _), .threadInit _ _ => inferInstanceAs (Decidable (_ ∉ _))
  | (_, _), .threadExit _ | (_, _), .roiInit _ | (_, _), .roiEnd _ | (_, _), .ompParallel _ _
  | (_, _), .barrier _ | (_, _), .single _ | (_, _), .cleanCall _ _ _ | (_, _), .memRef _ _ =>
      inferInstanceAs (Decidable (_ ∧ _))

/-- The callback of an event reads the slot of its thread. -/
def Reads (config : Config) (client : Client) : Event → Prop
  | .threadInit _ _ | .roiInit _ => False
  | .threadExit _ => client.threadExitRegistered = true
  | .roiEnd _ => client.roiEndOnlyOnce = true
  | .ompParallel _ fAddr => client.inRoi = true ∧ (config.parallelOmpF.lookup fAddr).isSome = true
  | .barrier _ => client.inRoi = true
  | .single _ => client.inRoi = true ∧ config.ignoreSingle = true
  | .cleanCall _ _ _ | .memRef _ _ => True

/-- A slot that is read holds the data that were stored at the birth of its thread. -/
def FindsData (config : Config) : Client × Threads → Event → Prop
  | (client, threads), event => Reads config client event →
      ∃ data, client.slots.lookup event.context = some data ∧
        (event.context, data.tid) ∈ threads.born

/-- A thread whose slot is read was not born behind the end of the region of interest. -/
def OnTime (config : Config) : Client × Threads → Event → Prop
  | (client, threads), event => Reads config client event → event.context ∉ threads.late

/-! ### The slots of the threads -/

variable {config : Config} {client next : Client} {threads : Threads} {event : Event}

/-- A slot holds the data of its thread, and the slots that are filled are those of the threads that
were born before the end of the region of interest. -/
structure Filled (client : Client) (threads : Threads) : Prop where
  registered_eq : client.threadInitRegistered = !client.roiHasEnded
  stored : ∀ context data, client.slots.lookup context = some data →
    (context, data.tid) ∈ threads.born
  isSome_iff : ∀ context ∈ threads.born.map Prod.fst,
    (client.slots.lookup context).isSome = true ↔ context ∉ threads.late
  late_born : ∀ context ∈ threads.late, context ∈ threads.born.map Prod.fst

theorem filled_new : Filled Client.new new := by
  refine ⟨rfl, fun context data found => ?_, nofun, nofun⟩
  rw [Client.slots_new] at found
  cases found

/-- Apart from births every slot keeps the identifier that it holds. -/
def KeepsTids (client next : Client) : Prop :=
  ∀ context, (next.slots.lookup context).map (·.tid) = (client.slots.lookup context).map (·.tid)

theorem keepsTids_of_changed {context : DrContext} {data after : ThreadData}
    (found : client.slots.lookup context = some data)
    (changed : client.SlotChanged context after next) (same : after.tid = data.tid) :
    KeepsTids client next := by
  intro other
  rw [changed]
  split
  · rename_i here
    rw [here, found]
    exact congrArg some same
  · rfl

theorem Filled.of_keepsTids (holds : Filled client threads) (keeps : KeepsTids client next)
    (registered : next.threadInitRegistered = !next.roiHasEnded) : Filled next threads := by
  refine ⟨registered, fun context data found => ?_, fun context member => ?_, holds.late_born⟩
  · have same := keeps context
    rw [found] at same
    obtain ⟨held, read, tid⟩ : ∃ held, client.slots.lookup context = some held ∧
        held.tid = data.tid := Option.map_eq_some_iff.mp same.symm
    exact tid ▸ holds.stored context held read
  · rw [← holds.isSome_iff context member, ← Option.isSome_map, keeps context, Option.isSome_map]

/-- The birth of a thread fills its slot unless the region of interest has ended. -/
theorem Filled.births (holds : Filled client threads) {context : DrContext} (threadId : UInt32)
    (unborn : context ∉ threads.born.map Prod.fst) :
    Filled (client.eventThreadInit context threadId)
      (threads.observe client (.threadInit context threadId)) := by
  have notLate : context ∉ threads.late := fun late => unborn (holds.late_born context late)
  have empty : client.slots.lookup context = none := by
    cases found : client.slots.lookup context with
    | none => rfl
    | some data => exact (unborn (List.mem_map_of_mem (holds.stored context data found))).elim
  unfold Client.eventThreadInit observe
  cases ended : client.roiHasEnded with
  | false =>
    have registered : client.threadInitRegistered = true := holds.registered_eq.trans (ended ▸ rfl)
    rw [if_pos registered]
    have changed := client.slotChanged_setSlot context
      (ThreadData.new threadId client.firstTimeCalled client.barrierPoint.synchCount)
    refine ⟨holds.registered_eq, fun other data found => ?_, fun other member => ?_,
      fun other late => List.mem_cons_of_mem _ (holds.late_born other late)⟩
    · rcases changed.cases found with ⟨rfl, rfl⟩ | ⟨-, old⟩
      · exact List.mem_cons_self
      · exact List.mem_cons_of_mem _ (holds.stored other data old)
    · rcases List.mem_cons.mp member with rfl | old
      · refine iff_of_true ?_ notLate
        rw [changed, if_pos rfl]
        rfl
      · have elsewhere : other ≠ context := by
          rintro rfl
          exact unborn old
        rw [changed, if_neg elsewhere]
        exact holds.isSome_iff other old
  | true =>
    have unregistered : client.threadInitRegistered = false := holds.registered_eq.trans (ended ▸ rfl)
    rw [unregistered, if_neg Bool.false_ne_true]
    refine ⟨holds.registered_eq, fun other data found =>
      List.mem_cons_of_mem _ (holds.stored other data found), fun other member => ?_,
      fun other late => ?_⟩
    · rcases List.mem_cons.mp member with rfl | old
      · refine iff_of_false ?_ (fun notLate => notLate List.mem_cons_self)
        rw [empty]
        exact Bool.false_ne_true
      · have elsewhere : other ≠ context := by
          rintro rfl
          exact unborn old
        rw [holds.isSome_iff other old]
        exact not_congr ⟨List.mem_cons_of_mem _, fun late =>
          (List.mem_cons.mp late).resolve_left elsewhere⟩
    · rcases List.mem_cons.mp late with rfl | old
      · exact List.mem_cons_self
      · exact List.mem_cons_of_mem _ (holds.late_born other old)

/-- A step that is no birth keeps the identifiers in the slots. -/
theorem keepsTids_step (stepped : client.step config event = some next)
    (noBirth : ∀ context threadId, event ≠ .threadInit context threadId)
    (registered : client.threadInitRegistered = !client.roiHasEnded) :
    KeepsTids client next ∧ next.threadInitRegistered = !next.roiHasEnded := by
  have works : ∀ {context : DrContext} {data after : ThreadData},
      client.slots.lookup context = some data → after.tid = data.tid →
        KeepsTids client (client.setSlot context after) := fun found same =>
    keepsTids_of_changed found (client.slotChanged_setSlot _ _) same
  have takes : ∀ {context : DrContext} {data : ThreadData} (ompName : String),
      client.slots.lookup context = some data →
        KeepsTids client (client.taken context data ompName) := fun ompName found =>
    keepsTids_of_changed found (client.slotChanged_taken _ _ ompName) rfl
  cases Client.step_cases stepped with
  | threadInit | threadInitIgnored => exact absurd rfl (noBirth _ _)
  | threadExit _ found => exact ⟨takes "thread_exit" found, registered⟩
  | masterExit | threadExitIgnored | ompParallelOutside | barrierOutside | singleIgnored | roiInit =>
    exact ⟨fun _ => rfl, registered⟩
  | roiEnd _ found => exact ⟨takes "thread_exit" found, rfl⟩
  | ompParallel _ _ found => exact ⟨takes _ found, registered⟩
  | barrier _ found => exact ⟨takes _ found, registered⟩
  | barrierIgnored _ found => exact ⟨works found rfl, registered⟩
  | single _ _ found => exact ⟨works found rfl, registered⟩
  | cleanCall found ran =>
    obtain ⟨_, _, _, _, _, same⟩ := Client.goesOn_blockData ran
    exact ⟨works found (same ▸ rfl), registered⟩
  | memRef found => exact ⟨works found rfl, registered⟩

theorem filled_step {state after : Client × Threads} (holds : Filled state.1 state.2)
    (inOrder : InOrder state event) (stepped : step config state event = some after) :
    Filled after.1 after.2 := by
  obtain ⟨client, threads⟩ := state
  obtain ⟨next, ran, rfl⟩ := Option.map_eq_some_iff.mp stepped
  cases event with
  | threadInit context threadId =>
    cases ran
    exact holds.births threadId inOrder
  | _ =>
    obtain ⟨keeps, registered⟩ := keepsTids_step ran nofun holds.registered_eq
    have kept := holds.of_keepsTids keeps registered
    exact ⟨kept.registered_eq, kept.stored, kept.isSome_iff, kept.late_born⟩

/-- A slot that is read is filled exactly when its thread was born in time. -/
theorem findsData_iff {state : Client × Threads} (holds : Filled state.1 state.2)
    (inOrder : InOrder state event) : FindsData config state event ↔ OnTime config state event := by
  obtain ⟨client, threads⟩ := state
  have born : Reads config client event → event.context ∈ threads.born.map Prod.fst := by
    intro reads
    cases event with
    | threadInit => exact reads.elim
    | _ => exact inOrder.1
  refine forall_congr' fun reads => ?_
  rw [← holds.isSome_iff event.context (born reads), Option.isSome_iff_exists]
  exact exists_congr fun data => and_iff_left_of_imp (holds.stored event.context data)

/-- Along every run in order, every slot that is read holds the data of its thread exactly when no
slot of a thread born behind the end of the region of interest is read. -/
theorem finds_data_iff_on_time (config : Config) (events : List Event)
    (inOrder : Along (step config) InOrder (Client.new, Threads.new) events) :
    Along (step config) (FindsData config) (Client.new, Threads.new) events ↔
      Along (step config) (OnTime config) (Client.new, Threads.new) events :=
  along_congr (fun state : Client × Threads => Filled state.1 state.2)
    (fun _ _ _ holds ordered stepped => filled_step holds ordered stepped)
    (fun _ _ holds ordered => findsData_iff holds ordered) events filled_new inOrder

/-- A thread is born in the region of interest and exits behind its end. -/
theorem finds_data_iff_on_time_worker :
    Along (step { parallelOmpF := ∅ }) (FindsData { parallelOmpF := ∅ }) (Client.new, Threads.new)
      [.threadInit 0 10, .roiInit 0, .threadInit 1 11, .cleanCall 1 2 64, .barrier 1, .roiEnd 0,
        .cleanCall 1 2 64, .threadExit 1] ↔
    Along (step { parallelOmpF := ∅ }) (OnTime { parallelOmpF := ∅ }) (Client.new, Threads.new)
      [.threadInit 0 10, .roiInit 0, .threadInit 1 11, .cleanCall 1 2 64, .barrier 1, .roiEnd 0,
        .cleanCall 1 2 64, .threadExit 1] :=
  finds_data_iff_on_time { parallelOmpF := ∅ } _ (by decide)

/-- A thread that is born behind the end of the region of interest runs instrumented code. -/
theorem not_finds_data_late_thread :
    ¬Along (step { parallelOmpF := ∅ }) (FindsData { parallelOmpF := ∅ }) (Client.new, Threads.new)
      [.threadInit 0 10, .roiInit 0, .roiEnd 0, .threadInit 1 11, .cleanCall 1 2 64] := by
  intro along
  obtain ⟨data, found, -⟩ := along.2.2.2.2.1 trivial
  cases found

end Threads

end BarrierPoint
