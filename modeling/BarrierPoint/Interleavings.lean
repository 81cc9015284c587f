/-
This file shows that the output files do not depend on how the threads of the
application interleave. A callback of one thread reads and writes the slot of
its thread; what threads share are the flags of the region of interest, the
count of synchronisation points, which the birth of a thread reads, and the
list of threads that have exited, which is sorted before it is saved. Two
events depend on each other when they belong to one thread, when one is a
marker of the region of interest, or when one is a birth and the other can be
a synchronisation point or a birth. Runs in which events that depend on each
other come in the same order save the same files.
-/

import BarrierPoint.ClientSteps
import BarrierPoint.Library.Interleaving
import BarrierPoint.SlotSafety
import BarrierPoint.Writers

namespace BarrierPoint

open Library

/-! ### What depends on what -/

namespace Event

/-- The first event changes something that threads share and the second reads. -/
def Governs : Event → Event → Prop
  | .roiInit _, _ | .roiEnd _, _ => True
  | .barrier _, .threadInit _ _ | .ompParallel _ _, .threadInit _ _
  | .threadInit _ _, .threadInit _ _ => True
  | _, _ => False

instance : ∀ first second : Event, Decidable (Governs first second) := by
  intro first second
  cases first <;> cases second <;> first | exact isTrue trivial | exact isFalse id

/-- The order of two events matters. -/
def Depends (first second : Event) : Prop :=
  first.context = second.context ∨ first.Governs second ∨ second.Governs first

instance (first second : Event) : Decidable (first.Depends second) :=
  inferInstanceAs (Decidable (_ ∨ _))

theorem Depends.refl (event : Event) : event.Depends event := .inl rfl

theorem Depends.symm {first second : Event} (depends : first.Depends second) :
    second.Depends first :=
  depends.imp Eq.symm Or.symm

end Event

namespace Client

/-! ### States that are alike -/

/-- States that differ in the order of the threads that have exited, and of the slots, only. -/
structure Alike (first second : Client) : Prop where
  slots : ∀ context, first.slots.lookup context = second.slots.lookup context
  synchCount : first.barrierPoint.synchCount = second.barrierPoint.synchCount
  threads : first.barrierPoint.threads.Perm second.barrierPoint.threads
  rest : { first with slots := ∅, barrierPoint := .new } =
    { second with slots := ∅, barrierPoint := .new }

theorem alike_equivalence : Equivalence Alike where
  refl _ := ⟨fun _ => rfl, rfl, .refl _, rfl⟩
  symm alike := ⟨fun context => (alike.slots context).symm, alike.synchCount.symm,
    alike.threads.symm, alike.rest.symm⟩
  trans first second := ⟨fun context => (first.slots context).trans (second.slots context),
    first.synchCount.trans second.synchCount, first.threads.trans second.threads,
    first.rest.trans second.rest⟩

/-! ### What a callback of one thread changes -/

/-- What a callback of one thread changes: the data in its slot, the count of synchronisation
points, the list of threads that have exited, and whether a thread has been born. -/
structure Change where
  data : Option ThreadData := none
  advances : Bool := false
  keeps : List ThreadData := []
  births : Bool := false

/-- The change made by a synchronisation point. -/
def saving (data : ThreadData) (ompName : String) : Change where
  data := some (data.saveBarrier ompName)
  advances := data.isMaster

/-- The change made by an event of a thread. The markers of the region of interest are not among
these events. -/
def change (config : Config) (client : Client) : Event → Option Change
  | .threadInit _ threadId => some (if client.threadInitRegistered then {
        data := some
          (ThreadData.new threadId client.firstTimeCalled client.barrierPoint.synchCount)
        births := true }
      else {})
  | .threadExit context =>
      if client.threadExitRegistered then
        (client.slots.lookup context).map fun data =>
          if data.isMaster then { keeps := [data] }
          else { saving data "thread_exit" with keeps := [data.saveBarrier "thread_exit"] }
      else some {}
  | .ompParallel context fAddr => (config.parallelOmpF.lookup fAddr).bind fun fName =>
      if client.inRoi then (client.slots.lookup context).map (saving · fName) else some {}
  | .barrier context =>
      if client.inRoi then
        (client.slots.lookup context).map fun data =>
          if data.inSingle then { data := some { data with inSingle := false } }
          else saving data "GOMP_barrier"
      else some {}
  | .single context =>
      if client.inRoi && config.ignoreSingle then
        (client.slots.lookup context).map fun data =>
          { data := some { data with inSingle := true } }
      else some {}
  | .cleanCall context instCount address =>
      (client.slots.lookup context).bind fun data =>
        (client.blockData config data instCount address).map fun after => { data := some after }
  | .memRef context address =>
      (client.slots.lookup context).map fun data => { data := some (data.record address) }
  | .roiInit _ | .roiEnd _ => none

/-- Make a change to the slot of a context and to what the threads share. -/
def apply (client : Client) (context : DrContext) (change : Change) : Client :=
  { client with
    slots := match change.data with
      | some data => client.slots.insert context data
      | none => client.slots
    barrierPoint := {
      synchCount := client.barrierPoint.synchCount + change.advances.toNat
      threads := client.barrierPoint.threads ++ change.keeps }
    firstTimeCalled := client.firstTimeCalled && !change.births }

theorem lookup_apply (client : Client) (context : DrContext) (change : Change)
    (other : DrContext) : (client.apply context change).slots.lookup other =
      if other = context then change.data.or (client.slots.lookup other)
      else client.slots.lookup other := by
  unfold apply
  cases change.data with
  | none =>
    rw [Option.none_or, ite_self]
  | some data => exact UnorderedMap.lookup_insert ..

theorem apply_nothing (client : Client) (context : DrContext) : client.apply context {} = client := by
  simp only [apply, Bool.toNat_false, Nat.add_zero, List.append_nil, Bool.not_false, Bool.and_true]

theorem apply_data (client : Client) (context : DrContext) (data : ThreadData) :
    client.apply context { data := some data } = client.setSlot context data := by
  simp only [apply, setSlot, Bool.toNat_false, Nat.add_zero, List.append_nil, Bool.not_false,
    Bool.and_true]

theorem apply_saving (client : Client) (context : DrContext) (data : ThreadData)
    (ompName : String) :
    client.apply context (saving data ompName) = client.taken context data ompName := by
  unfold apply saving taken setSlot BarrierPointData.incrSynchCount
  cases data.isMaster <;> simp

/-- An event of a thread makes its change, or fails. -/
theorem step_eq_change (config : Config) (client : Client) (event : Event)
    (thread : ∀ context, event ≠ .roiInit context ∧ event ≠ .roiEnd context) :
    client.step config event = (client.change config event).map (client.apply event.context) := by
  cases event with
  | roiInit context => exact absurd rfl (thread context).1
  | roiEnd context => exact absurd rfl (thread context).2
  | threadInit context threadId =>
    rw [step, eventThreadInit, change, Option.map_some]
    split
    · simp only [apply, setSlot, Event.context, Bool.toNat_false, Nat.add_zero, List.append_nil,
        Bool.not_true, Bool.and_false]
    · exact congrArg some (apply_nothing client context).symm
  | threadExit context =>
    rw [step, eventThreadExit, change]
    split
    · cases found : client.slots.lookup context with
      | none => rfl
      | some data =>
        cases master : data.isMaster with
        | true =>
          simp [master, found, Event.context, apply, BarrierPointData.addThreadData]
        | false =>
          simp [master, Event.context, saveData_eq found, apply, saving,
            BarrierPointData.addThreadData, taken, setSlot]
    · exact congrArg some (apply_nothing client context).symm
  | ompParallel context fAddr =>
    rw [step, eventOmpParallel, change]
    cases config.parallelOmpF.lookup fAddr with
    | none => rfl
    | some fName =>
      rw [Option.bind_some]
      dsimp only
      split
      · cases found : client.slots.lookup context with
        | none => rw [saveData, found]; rfl
        | some data =>
          rw [saveData_eq found]
          exact congrArg some (apply_saving client context data fName).symm
      · exact congrArg some (apply_nothing client context).symm
  | barrier context =>
    rw [step, eventBarrier, change]
    split
    · cases found : client.slots.lookup context with
      | none => rfl
      | some data =>
        cases inSingle : data.inSingle with
        | true => simp [inSingle, Event.context, apply_data]
        | false => simp [inSingle, Event.context, saveData_eq found, apply_saving]
    · exact congrArg some (apply_nothing client context).symm
  | single context =>
    rw [step, eventSingle, change]
    split
    · cases found : client.slots.lookup context with
      | none => rfl
      | some data => exact congrArg some (apply_data client context _).symm
    · exact congrArg some (apply_nothing client context).symm
  | cleanCall context instCount address =>
    rw [step, cleanCall, change]
    cases found : client.slots.lookup context with
    | none => rfl
    | some data =>
      cases ran : client.blockData config data instCount address with
      | none => simp [ran]
      | some after => simp [ran, Event.context, apply_data]
  | memRef context address =>
    rw [step, memRef, change]
    cases found : client.slots.lookup context with
    | none => rfl
    | some data => exact congrArg some (apply_data client context _).symm

/-- What an event of a thread reads is the same in both states. -/
structure ReadsAlike (event : Event) (first second : Client) : Prop where
  slot : first.slots.lookup event.context = second.slots.lookup event.context
  inRoi : first.inRoi = second.inRoi
  roiHasEnded : first.roiHasEnded = second.roiHasEnded
  threadInitRegistered : first.threadInitRegistered = second.threadInitRegistered
  threadExitRegistered : first.threadExitRegistered = second.threadExitRegistered
  birth : ∀ context threadId, event = .threadInit context threadId →
    first.firstTimeCalled = second.firstTimeCalled ∧
      first.barrierPoint.synchCount = second.barrierPoint.synchCount

/-- An event makes the same change where it reads the same. -/
theorem change_congr (config : Config) {event : Event} {first second : Client}
    (alike : ReadsAlike event first second) :
    first.change config event = second.change config event := by
  obtain ⟨slot, inRoi, roiHasEnded, initRegistered, exitRegistered, birth⟩ := alike
  cases event with
  | threadInit context threadId =>
    obtain ⟨firstTime, synchCount⟩ := birth context threadId rfl
    rw [change, change, initRegistered, firstTime, synchCount]
  | roiInit | roiEnd => rfl
  | threadExit context =>
    dsimp only [Event.context] at slot
    rw [change, change, exitRegistered, slot]
  | ompParallel context fAddr =>
    dsimp only [Event.context] at slot
    rw [change, change, inRoi, slot]
  | barrier context =>
    dsimp only [Event.context] at slot
    rw [change, change, inRoi, slot]
  | single context =>
    dsimp only [Event.context] at slot
    rw [change, change, inRoi, slot]
  | cleanCall context instCount address =>
    dsimp only [Event.context] at slot
    have same : first.blockData config = second.blockData config := by
      unfold blockData
      rw [inRoi, roiHasEnded]
    rw [change, change, same, slot]
  | memRef context address =>
    dsimp only [Event.context] at slot
    rw [change, change, slot]

/-- An event that does not govern births leaves alone what they read. -/
theorem quiet_of_change {config : Config} {client : Client} {event : Event} {changed : Change}
    {context : DrContext} {threadId : UInt32} (made : client.change config event = some changed)
    (free : ¬event.Governs (.threadInit context threadId)) :
    changed.advances = false ∧ changed.births = false := by
  cases event with
  | threadInit | roiInit | roiEnd | ompParallel | barrier => exact absurd trivial free
  | threadExit context =>
    rw [change] at made
    split at made
    · obtain ⟨data, -, rfl⟩ := Option.map_eq_some_iff.mp made
      cases master : data.isMaster with
      | true => exact ⟨rfl, rfl⟩
      | false => exact ⟨master, rfl⟩
    · cases made
      exact ⟨rfl, rfl⟩
  | single context =>
    rw [change] at made
    split at made
    · obtain ⟨data, -, rfl⟩ := Option.map_eq_some_iff.mp made
      exact ⟨rfl, rfl⟩
    · cases made
      exact ⟨rfl, rfl⟩
  | cleanCall context instCount address =>
    obtain ⟨data, -, rest⟩ := Option.bind_eq_some_iff.mp made
    obtain ⟨after, -, rfl⟩ := Option.map_eq_some_iff.mp rest
    exact ⟨rfl, rfl⟩
  | memRef context address =>
    obtain ⟨data, -, rfl⟩ := Option.map_eq_some_iff.mp made
    exact ⟨rfl, rfl⟩

/-! ### Exchanging two events -/

/-- The same change keeps states alike. -/
theorem Alike.apply {first second : Client} (alike : first.Alike second) (context : DrContext)
    (changed : Change) : (first.apply context changed).Alike (second.apply context changed) where
  slots other := by rw [lookup_apply, lookup_apply, alike.slots]
  synchCount := congrArg (· + _) alike.synchCount
  threads := alike.threads.append_right _
  rest := by
    have flags := alike.rest
    simp only [Client.mk.injEq] at flags ⊢
    obtain ⟨-, -, inRoi, roiHasEnded, roiStart, roiEnd, initOnce, endOnce, firstTime, inits,
      exits⟩ := flags
    exact ⟨trivial, trivial, inRoi, roiHasEnded, roiStart, roiEnd, initOnce, endOnce,
      congrArg (· && _) firstTime, inits, exits⟩

theorem Alike.opened {first second : Client} (alike : first.Alike second) :
    first.opened.Alike second.opened :=
  ⟨alike.slots, alike.synchCount, alike.threads, congrArg Client.opened alike.rest⟩

theorem Alike.closed {first second : Client} (alike : first.Alike second) :
    first.closed.Alike second.closed :=
  ⟨alike.slots, alike.synchCount, alike.threads, congrArg Client.closed alike.rest⟩

/-- Changes to two slots can be made in either order. -/
theorem apply_apply_alike (client : Client) {first second : DrContext} (apart : first ≠ second)
    (one other : Change) :
    ((client.apply first one).apply second other).Alike
      ((client.apply second other).apply first one) where
  slots context := by
    simp only [lookup_apply]
    split
    · rename_i here
      rw [if_neg fun there => apart (there.symm.trans here), if_neg fun there =>
        apart (there.symm.trans here)]
    · rfl
  synchCount := Nat.add_right_comm ..
  threads := by
    show (_ ++ one.keeps ++ other.keeps).Perm (_ ++ other.keeps ++ one.keeps)
    rw [List.append_assoc, List.append_assoc]
    exact List.perm_append_comm.append_left _
  rest := by
    simp only [apply, Client.mk.injEq, true_and, and_true]
    exact Bool.and_right_comm ..

/-- What an event of another thread reads is there after a change. -/
theorem readsAlike_apply (client : Client) {context : DrContext} {event : Event} {changed : Change}
    (apart : event.context ≠ context)
    (quiet : ∀ context threadId, event = .threadInit context threadId →
      changed.advances = false ∧ changed.births = false) :
    ReadsAlike event (client.apply context changed) client where
  slot := by rw [lookup_apply, if_neg apart]
  inRoi := rfl
  roiHasEnded := rfl
  threadInitRegistered := rfl
  threadExitRegistered := rfl
  birth context threadId isBirth := by
    obtain ⟨still, unborn⟩ := quiet context threadId isBirth
    simp [apply, still, unborn]

/-- Two events of different threads, neither a marker of the region of interest, can be exchanged
when neither governs the other. -/
theorem exchange_threads (config : Config) (client : Client) {first second : Event}
    (firstThread : ∀ context, first ≠ .roiInit context ∧ first ≠ .roiEnd context)
    (secondThread : ∀ context, second ≠ .roiInit context ∧ second ≠ .roiEnd context)
    (free : ¬first.Depends second) :
    Option.Rel Alike (run (step config) client [first, second])
      (run (step config) client [second, first]) := by
  obtain ⟨apart, freeFirst, freeSecond⟩ : first.context ≠ second.context ∧
      ¬first.Governs second ∧ ¬second.Governs first :=
    ⟨fun same => free (.inl same), fun governs => free (.inr (.inl governs)),
      fun governs => free (.inr (.inr governs))⟩
  have two : ∀ {one other : Event}, one.context ≠ other.context → ¬one.Governs other →
      (∀ context, one ≠ .roiInit context ∧ one ≠ .roiEnd context) →
      (∀ context, other ≠ .roiInit context ∧ other ≠ .roiEnd context) →
      run (step config) client [one, other] = (client.change config one).bind fun changed =>
        (client.change config other).map
          ((client.apply one.context changed).apply other.context) := by
    intro one other apart free oneThread otherThread
    rw [run, step_eq_change config client one oneThread]
    cases made : client.change config one with
    | none => rfl
    | some changed =>
      rw [Option.map_some, Option.bind_some, Option.bind_some, run,
        step_eq_change config _ other otherThread]
      have same := change_congr config (readsAlike_apply client (Ne.symm apart)
        fun context threadId isBirth => quiet_of_change made (isBirth ▸ free))
      rw [same]
      cases client.change config other <;> rfl
  rw [two apart freeFirst firstThread secondThread, two apart.symm freeSecond secondThread firstThread]
  cases client.change config first with
  | none => cases client.change config second <;> exact .none
  | some one =>
    cases client.change config second with
    | none => exact .none
    | some other => exact .some (apply_apply_alike client apart one other)

theorem step_roiInit (config : Config) (client : Client) (context : DrContext) :
    client.step config (.roiInit context) =
      if client.roiInitOnlyOnce then some client.opened else none := by
  rw [step, eventRoiInit]
  cases client.roiInitOnlyOnce <;> simp [guard, opened, registerTraceEvents]

theorem step_roiEnd (config : Config) (client : Client) (context : DrContext) :
    client.step config (.roiEnd context) =
      if client.roiEndOnlyOnce then (client.slots.lookup context).bind fun data =>
        if data.isMaster then some (client.closed.taken context data "thread_exit") else none
      else none := by
  rw [step, eventRoiEnd]
  cases client.roiEndOnlyOnce with
  | true =>
    cases found : client.slots.lookup context with
    | none => simp [guard, unregisterTraceEvents, found]
    | some data =>
      have closedFound : client.closed.slots.lookup context = some data := found
      have saved := saveData_eq closedFound "thread_exit"
      cases master : data.isMaster with
      | true => simpa [guard, unregisterTraceEvents, found, master, closed] using saved
      | false => simp [guard, unregisterTraceEvents, found, master]
  | false => simp [guard]

/-- Every step keeps states alike. -/
theorem step_alike (config : Config) (event : Event) {first second : Client}
    (alike : first.Alike second) :
    Option.Rel Alike (first.step config event) (second.step config event) := by
  have flags := alike.rest
  simp only [Client.mk.injEq] at flags
  obtain ⟨-, -, inRoi, roiHasEnded, -, -, initOnce, endOnce, firstTime, inits, exits⟩ := flags
  by_cases thread : ∀ context, event ≠ .roiInit context ∧ event ≠ .roiEnd context
  · have same : first.change config event = second.change config event :=
      change_congr config ⟨alike.slots _, inRoi, roiHasEnded, inits, exits,
        fun _ _ _ => ⟨firstTime, alike.synchCount⟩⟩
    rw [step_eq_change config first event thread, step_eq_change config second event thread, same]
    cases second.change config event with
    | none => exact .none
    | some changed => exact .some (alike.apply _ changed)
  · simp only [not_forall, not_and_or, not_not] at thread
    obtain ⟨context, rfl | rfl⟩ := thread
    · rw [step_roiInit, step_roiInit, initOnce]
      split
      · exact .some alike.opened
      · exact .none
    · rw [step_roiEnd, step_roiEnd, endOnce, alike.slots]
      split
      · refine rel_bind (rel_refl Eq.refl _) ?_
        rintro data _ rfl
        split
        · rw [← apply_saving, ← apply_saving]
          exact .some (alike.closed.apply context _)
        · exact .none
      · exact .none

/-- Exchanging two neighbouring events that do not depend on each other leaves the state alike. -/
theorem exchange_alike (config : Config) (client : Client) {first second : Event}
    (free : ¬first.Depends second) :
    Option.Rel Alike (run (step config) client [first, second])
      (run (step config) client [second, first]) := by
  refine exchange_threads config client (fun context => ⟨?_, ?_⟩) (fun context => ⟨?_, ?_⟩) free
  · rintro rfl
    exact free (.inr (.inl trivial))
  · rintro rfl
    exact free (.inr (.inl trivial))
  · rintro rfl
    exact free (.inr (.inr trivial))
  · rintro rfl
    exact free (.inr (.inr trivial))

/-- Runs in which events that depend on each other come in the same order end alike. -/
theorem run_alike (config : Config) {first second : List Event}
    (agree : Agree Event.Depends first second) :
    Option.Rel Alike (run (step config) new first) (run (step config) new second) :=
  (agree.exchanges Event.Depends.refl Event.Depends.symm first).run_rel alike_equivalence
    (fun event _ _ => step_alike config event) (fun client _ _ => exchange_alike config client)
    (alike_equivalence.refl new)

/-! ### The output files -/

end Client

namespace BarrierPointData

/-- The order in which threads of distinct identifiers exited does not show once they are sorted. -/
theorem generateFakeTid_perm {synchCount : Nat} {first second : List ThreadData}
    (order : first.Perm second) (distinct : (first.map (·.tid)).Nodup) :
    generateFakeTid ⟨synchCount, first⟩ = generateFakeTid ⟨synchCount, second⟩ := by
  have sorted : first.insertionSort (fun one other => one.tid ≤ other.tid) =
      second.insertionSort (fun one other => one.tid ≤ other.tid) := by
    have total : Std.Total fun one other : ThreadData => one.tid ≤ other.tid :=
      ⟨fun one other => UInt32.le_total one.tid other.tid⟩
    have transitive : IsTrans ThreadData fun one other => one.tid ≤ other.tid :=
      ⟨fun _ _ _ => UInt32.le_trans⟩
    have sorts := List.perm_insertionSort fun one other : ThreadData => one.tid ≤ other.tid
    refine (((sorts first).trans order).trans (sorts second).symm).eq_of_pairwise
      (fun one other member otherMember before behind => ?_)
      (List.pairwise_insertionSort _ first) (List.pairwise_insertionSort _ second)
    exact List.inj_on_of_nodup_map distinct ((sorts first).mem_iff.mp member)
      (order.mem_iff.mpr ((sorts second).mem_iff.mp otherMember))
      (UInt32.le_antisymm before behind)
  rw [generateFakeTid, generateFakeTid, sorted]

end BarrierPointData

namespace Client

/-- The output files of a run do not depend on the interleaving: runs in which events that depend on
each other come in the same order both fail or save the same files, however the other events and the
exits of the threads are ordered. The threads that have exited have distinct identifiers. -/
theorem files_eq_of_agree (config : Config) {first second : List Event}
    (agree : Agree Event.Depends first second)
    (distinct : ∀ final, run (step config) new first = some final →
      (final.barrierPoint.threads.map (·.tid)).Nodup) :
    (run (step config) new first).bind (eventExit config) =
      (run (step config) new second).bind (eventExit config) := by
  have alike := run_alike config agree
  have saves := distinct
  generalize run (step config) new first = one at alike saves ⊢
  generalize run (step config) new second = other at alike
  cases alike with
  | none => rfl
  | @some final otherFinal same =>
    have flags := same.rest
    simp only [Client.mk.injEq] at flags
    obtain ⟨-, -, -, -, roiStart, roiEnd, -⟩ := flags
    have numbered : final.barrierPoint.generateFakeTid = otherFinal.barrierPoint.generateFakeTid :=
      (BarrierPointData.generateFakeTid_perm same.threads (saves final rfl)).trans
        (congrArg (fun count => BarrierPointData.generateFakeTid ⟨count, _⟩) same.synchCount)
    rw [Option.bind_some, Option.bind_some, eventExit, eventExit, roiStart, roiEnd,
      BarrierPointData.save, BarrierPointData.save, numbered]

/-- Two threads that reach a barrier, the master first. -/
def masterAhead : List Event :=
  [.threadInit 0 10, .roiInit 0, .threadInit 1 11, .cleanCall 0 3 0x400, .memRef 0 0x80, .barrier 0,
    .cleanCall 1 5 0x500, .barrier 1, .roiEnd 0, .threadExit 0, .threadExit 1]

/-- The same events with the worker ahead of the master, and the exits exchanged. -/
def workerAhead : List Event :=
  [.threadInit 0 10, .roiInit 0, .threadInit 1 11, .cleanCall 1 5 0x500, .barrier 1,
    .cleanCall 0 3 0x400, .memRef 0 0x80, .barrier 0, .roiEnd 0, .threadExit 1, .threadExit 0]

/-- The two orders agree, and save the same files. -/
theorem files_eq_of_agree_team : ∃ final,
    run (step { parallelOmpF := ∅ }) new masterAhead = some final ∧
    (final.barrierPoint.threads.map (·.tid)).Nodup ∧ Agree Event.Depends masterAhead workerAhead ∧
    (run (step { parallelOmpF := ∅ }) new masterAhead).bind (eventExit { parallelOmpF := ∅ }) =
      (run (step { parallelOmpF := ∅ }) new workerAhead).bind (eventExit { parallelOmpF := ∅ }) := by
  have agree : Agree Event.Depends masterAhead workerAhead :=
    agree_of_mem Event.Depends.refl (by decide)
  have distinct : ∀ final, run (step { parallelOmpF := ∅ }) new masterAhead = some final →
      (final.barrierPoint.threads.map (·.tid)).Nodup := by
    intro final reached
    cases reached
    decide
  exact ⟨_, rfl, distinct _ rfl, agree, files_eq_of_agree { parallelOmpF := ∅ } agree distinct⟩

end Client

end BarrierPoint
