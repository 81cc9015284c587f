/-
This file asks which barriers the client drops when it ignores singles. One
flag for each thread remembers that the next barrier belongs to a single. The
start of a single sets it and the next barrier clears it, whatever barrier that
is. A single with `nowait` has no barrier, so the flag stays set and the next
explicit barrier of the thread is dropped, also behind the entry of a parallel
function.
-/

import BarrierPoint.ClientSteps

namespace BarrierPoint

open Library

/-! ### The events of a team -/

/-- What a thread of a team reaches. A single starts, with or without `nowait`, and ends in a
barrier of its own unless it has `nowait`. -/
inductive TeamMark where
  | singleStart (nowait : Bool)
  | singleBarrier
  | barrier
  | parallel (fAddr : Address)
  deriving DecidableEq, Repr

/-- A mark and the thread that reaches it. -/
abbrev TeamEvent := DrContext × TeamMark

namespace TeamMark

/-- The callback that runs in the thread. Both barriers are `GOMP_barrier`. -/
def event (context : DrContext) : TeamMark → Event
  | .singleStart _ => .single context
  | .singleBarrier | .barrier => .barrier context
  | .parallel fAddr => .ompParallel context fAddr

/-- The marks that have to close a region: the explicit barriers and the parallel functions. -/
def Closes : TeamMark → Prop
  | .singleStart _ | .singleBarrier => False
  | .barrier | .parallel _ => True

/-- A thread goes through one construct after the other. Parallel functions may be entered inside a
single, but no other single and no explicit barrier, which OpenMP does not allow there. The thread
waits for the barrier of a single when `pending`. -/
def InConstructs : Bool → List TeamMark → Prop
  | _, [] => True
  | pending, .singleStart nowait :: marks => pending = false ∧ InConstructs (!nowait) marks
  | pending, .singleBarrier :: marks => pending = true ∧ InConstructs false marks
  | pending, .barrier :: marks => pending = false ∧ InConstructs false marks
  | pending, .parallel _ :: marks => InConstructs pending marks

instance decidableInConstructs : ∀ pending marks, Decidable (InConstructs pending marks)
  | _, [] => isTrue trivial
  | _, .singleStart nowait :: marks =>
      have := decidableInConstructs (!nowait) marks
      inferInstanceAs (Decidable (_ ∧ _))
  | _, .singleBarrier :: marks | _, .barrier :: marks =>
      have := decidableInConstructs false marks
      inferInstanceAs (Decidable (_ ∧ _))
  | pending, .parallel _ :: marks => decidableInConstructs pending marks

/-- Whether the latest single of a thread has `nowait`, given that of the marks before. -/
def latestNowait (latest : Bool) : List TeamMark → Bool
  | [] => latest
  | .singleStart nowait :: marks => latestNowait nowait marks
  | .singleBarrier :: marks | .barrier :: marks | .parallel _ :: marks => latestNowait latest marks

/-- The thread comes to no explicit barrier with a latest single that has `nowait`. -/
def NoneBehindNowait (latest : Bool) (marks : List TeamMark) : Prop :=
  ∀ front back, marks = front ++ .barrier :: back → latestNowait latest front = false

theorem noneBehindNowait_cons (latest : Bool) (mark : TeamMark) (marks : List TeamMark) :
    NoneBehindNowait latest (mark :: marks) ↔
      (mark = .barrier → latest = false) ∧ NoneBehindNowait (latestNowait latest [mark]) marks := by
  have step : ∀ front, latestNowait latest (mark :: front) =
      latestNowait (latestNowait latest [mark]) front := by
    intro front
    cases mark <;> rfl
  constructor
  · intro none
    refine ⟨?_, fun front back split => ?_⟩
    · rintro rfl
      exact none [] marks rfl
    · rw [← step]
      exact none (mark :: front) back (congrArg _ split)
  · rintro ⟨here, later⟩ front back split
    cases front with
    | nil => exact here (List.cons.inj split).1
    | cons first front =>
      obtain ⟨rfl, rest⟩ := List.cons.inj split
      rw [step]
      exact later front back rest

end TeamMark

/-- What a thread reaches in the events of its team. -/
def marksOf (context : DrContext) (events : List TeamEvent) : List TeamMark :=
  (events.filter fun reached => reached.1 = context).map Prod.snd

theorem marksOf_cons_self (context : DrContext) (mark : TeamMark) (events : List TeamEvent) :
    marksOf context ((context, mark) :: events) = mark :: marksOf context events := by
  rw [marksOf, List.filter_cons_of_pos (by simp)]
  rfl

theorem marksOf_cons_of_ne {context other : DrContext} (different : other ≠ context)
    (mark : TeamMark) (events : List TeamEvent) :
    marksOf context ((other, mark) :: events) = marksOf context events := by
  rw [marksOf, List.filter_cons_of_neg (by simpa using different)]
  rfl

/-- A step of a team. -/
def teamStep (config : Config) (client : Client) (reached : TeamEvent) : Option Client :=
  client.step config (reached.2.event reached.1)

/-- The step goes through. The thread has closed its region when the mark has to close one, and has
the same regions as before when not. -/
def DropsExactly (config : Config) (client : Client) (reached : TeamEvent) : Prop :=
  ∃ next before after, teamStep config client reached = some next ∧
    client.slots.lookup reached.1 = some before ∧ next.slots.lookup reached.1 = some after ∧
    (reached.2.Closes → ∃ name, after = before.saveBarrier name) ∧
    (¬ reached.2.Closes → before.SameRegions after)

/-! ### The flag of a thread -/

namespace TeamMark

/-- The flag with which a mark does what it has to: barriers of singles need it set, explicit
barriers need it cleared. -/
def NeedsFlag (flag : Bool) : TeamMark → Prop
  | .singleStart _ | .parallel _ => True
  | .singleBarrier => flag = true
  | .barrier => flag = false

/-- The flag behind a mark. -/
def flagAfter (flag : Bool) : TeamMark → Bool
  | .singleStart _ => true
  | .singleBarrier | .barrier => false
  | .parallel _ => flag

end TeamMark

/-- Every mark of a thread meets the flag it needs. -/
def FlagRight : Bool → List TeamMark → Prop
  | _, [] => True
  | flag, mark :: marks => mark.NeedsFlag flag ∧ FlagRight (mark.flagAfter flag) marks

/-- A thread that goes through its constructs meets the flag right exactly when it comes to no
explicit barrier with a latest single that has `nowait`: the flag is set while the thread waits for
the barrier of a single, or when it has left such a single. -/
theorem flagRight_iff (marks : List TeamMark) : ∀ flag pending latest : Bool,
    TeamMark.InConstructs pending marks → flag = (pending || latest) →
    (pending = true → latest = false) →
    (FlagRight flag marks ↔ TeamMark.NoneBehindNowait latest marks) := by
  induction marks with
  | nil =>
    intro flag pending latest _ _ _
    refine ⟨fun _ front back split => ?_, fun _ => trivial⟩
    cases front <;> cases split
  | cons mark marks inductionHypothesis =>
    intro flag pending latest inConstructs set waits
    rw [TeamMark.noneBehindNowait_cons, FlagRight]
    cases mark with
    | singleStart nowait =>
      refine and_congr (iff_of_true trivial nofun) ?_
      refine inductionHypothesis true (!nowait) nowait inConstructs.2 ?_ ?_
      · cases nowait <;> rfl
      · cases nowait <;> decide
    | singleBarrier =>
      obtain ⟨rfl, later⟩ := inConstructs
      have none := waits rfl
      subst none
      refine and_congr (iff_of_true set nofun) ?_
      exact inductionHypothesis false false false later rfl nofun
    | barrier =>
      obtain ⟨rfl, later⟩ := inConstructs
      rw [Bool.false_or] at set
      subst set
      rw [forall_prop_of_true rfl]
      refine and_congr_right fun cleared => ?_
      have none : flag = false := cleared
      subst none
      exact inductionHypothesis false false false later rfl nofun
    | parallel fAddr =>
      refine and_congr (iff_of_true trivial nofun) ?_
      exact inductionHypothesis flag pending latest inConstructs set waits

/-! ### A step of a team -/

/-- The team is inside the region of interest, singles are ignored, its threads have their data,
and the parallel functions they enter are known. -/
structure InTeam (config : Config) (client : Client) (events : List TeamEvent) : Prop where
  ignores : config.ignoreSingle = true
  inRoi : client.inRoi = true
  held : ∀ reached ∈ events, (client.slots.lookup reached.1).isSome
  known : ∀ reached ∈ events, ∀ fAddr, reached.2 = .parallel fAddr →
    (config.parallelOmpF.lookup fAddr).isSome

/-- The flag of a thread. -/
def inSingle (client : Client) (context : DrContext) : Bool :=
  ((client.slots.lookup context).map ThreadData.inSingle).getD false

/-- What a step makes of the client. -/
structure TeamStepped (client next : Client) (reached : TeamEvent) : Prop where
  inRoi_eq : next.inRoi = client.inRoi
  held : ∀ context, (client.slots.lookup context).isSome → (next.slots.lookup context).isSome
  flag_eq : ∀ context, inSingle next context =
    if context = reached.1 then reached.2.flagAfter (inSingle client reached.1)
    else inSingle client context

theorem teamStepped_of_slotChanged {client next : Client} {reached : TeamEvent}
    {after : ThreadData} (changed : client.SlotChanged reached.1 after next)
    (inRoi_eq : next.inRoi = client.inRoi)
    (flag : after.inSingle = reached.2.flagAfter (inSingle client reached.1)) :
    TeamStepped client next reached where
  inRoi_eq := inRoi_eq
  held := by
    intro context held
    rw [changed]
    split
    · rfl
    · exact held
  flag_eq := by
    intro context
    rw [inSingle, changed]
    split
    · exact flag
    · rfl

/-- A region that was closed is a new one. -/
theorem not_sameRegions_saveBarrier (data : ThreadData) (name : String) :
    ¬ data.SameRegions (data.saveBarrier name) := fun same =>
  absurd same.synchId_eq (Nat.succ_ne_self data.curSynchId)

theorem dropsExactly_iff {config : Config} {client next : Client} {reached : TeamEvent}
    {before after : ThreadData} (stepped : teamStep config client reached = some next)
    (found : client.slots.lookup reached.1 = some before)
    (foundAfter : next.slots.lookup reached.1 = some after) :
    DropsExactly config client reached ↔
      (reached.2.Closes → ∃ name, after = before.saveBarrier name) ∧
      (¬ reached.2.Closes → before.SameRegions after) := by
  constructor
  · rintro ⟨next', before', after', stepped', found', foundAfter', drops⟩
    obtain rfl := Option.some_inj.mp (stepped.symm.trans stepped')
    obtain rfl := Option.some_inj.mp (found.symm.trans found')
    obtain rfl := Option.some_inj.mp (foundAfter.symm.trans foundAfter')
    exact drops
  · exact fun drops => ⟨next, before, after, stepped, found, foundAfter, drops⟩

/-- A barrier is dropped when the flag is set, and closes the region when not. -/
theorem eventBarrier_eq {client : Client} {context : DrContext} {data : ThreadData}
    (inRoi : client.inRoi = true) (found : client.slots.lookup context = some data) :
    client.eventBarrier context = some (if data.inSingle
      then client.setSlot context { data with inSingle := false }
      else client.taken context data "GOMP_barrier") := by
  rw [Client.eventBarrier, if_pos inRoi, found]
  cases set : data.inSingle with
  | true =>
    show (if !data.inSingle then _ else _) = _
    rw [set]
    rfl
  | false =>
    show (if !data.inSingle then _ else _) = _
    rw [set]
    exact Client.saveData_eq found _

/-- A step does what its mark has to do exactly when the mark meets the flag it needs. -/
theorem teamStep_spec {config : Config} {client : Client} {reached : TeamEvent}
    {events : List TeamEvent} (inTeam : InTeam config client (reached :: events)) :
    ∃ next, teamStep config client reached = some next ∧ TeamStepped client next reached ∧
      (DropsExactly config client reached ↔
        reached.2.NeedsFlag (inSingle client reached.1)) := by
  obtain ⟨context, mark⟩ := reached
  obtain ⟨data, found⟩ := Option.isSome_iff_exists.mp
    (inTeam.held (context, mark) List.mem_cons_self)
  have flag : inSingle client context = data.inSingle := by
    rw [inSingle, found]
    rfl
  have closes : ∀ name, (client.taken context data name).slots.lookup context =
      some (data.saveBarrier name) := fun name => AList.lookup_insert _
  have sets : ∀ after, (client.setSlot context after).slots.lookup context = some after :=
    fun after => AList.lookup_insert _
  cases mark with
  | singleStart nowait =>
    have stepped : teamStep config client (context, .singleStart nowait) =
        some (client.setSlot context { data with inSingle := true }) := by
      show client.eventSingle config context = _
      rw [Client.eventSingle, inTeam.inRoi, inTeam.ignores, found]
      rfl
    refine ⟨_, stepped, teamStepped_of_slotChanged (Client.slotChanged_setSlot _ _ _) rfl rfl, ?_⟩
    rw [dropsExactly_iff stepped found (sets _)]
    exact iff_of_true ⟨False.elim, fun _ => ⟨rfl, rfl, rfl⟩⟩ trivial
  | parallel fAddr =>
    obtain ⟨name, known⟩ := Option.isSome_iff_exists.mp
      (inTeam.known (context, .parallel fAddr) List.mem_cons_self fAddr rfl)
    have stepped : teamStep config client (context, .parallel fAddr) =
        some (client.taken context data name) := by
      show client.eventOmpParallel config context fAddr = _
      rw [Client.eventOmpParallel, known]
      simp only [inTeam.inRoi, if_true]
      exact Client.saveData_eq found name
    refine ⟨_, stepped, teamStepped_of_slotChanged (Client.slotChanged_taken _ _ _ _) rfl
      flag.symm, ?_⟩
    rw [dropsExactly_iff stepped found (closes _)]
    exact iff_of_true ⟨fun _ => ⟨name, rfl⟩, fun kept => absurd trivial kept⟩ trivial
  | singleBarrier =>
    have stepped : teamStep config client (context, .singleBarrier) = some _ :=
      eventBarrier_eq inTeam.inRoi found
    refine ⟨_, stepped, ?_⟩
    show _ ∧ (_ ↔ inSingle client context = true)
    rw [flag]
    cases set : data.inSingle with
    | true =>
      rw [set] at stepped
      refine ⟨teamStepped_of_slotChanged (Client.slotChanged_setSlot _ _ _) rfl rfl, ?_⟩
      rw [dropsExactly_iff stepped found (sets _)]
      exact iff_of_true ⟨False.elim, fun _ => ⟨rfl, rfl, rfl⟩⟩ rfl
    | false =>
      rw [set] at stepped
      refine ⟨teamStepped_of_slotChanged (Client.slotChanged_taken _ _ _ _) rfl set, ?_⟩
      rw [dropsExactly_iff stepped found (closes _)]
      exact iff_of_false (fun drops =>
        not_sameRegions_saveBarrier data _ (drops.2 id)) Bool.false_ne_true
  | barrier =>
    have stepped : teamStep config client (context, .barrier) = some _ :=
      eventBarrier_eq inTeam.inRoi found
    refine ⟨_, stepped, ?_⟩
    show _ ∧ (_ ↔ inSingle client context = false)
    rw [flag]
    cases set : data.inSingle with
    | true =>
      rw [set] at stepped
      refine ⟨teamStepped_of_slotChanged (Client.slotChanged_setSlot _ _ _) rfl rfl, ?_⟩
      rw [dropsExactly_iff stepped found (sets _)]
      refine iff_of_false (fun drops => ?_) nofun
      obtain ⟨name, closed⟩ := drops.1 trivial
      exact absurd (congrArg ThreadData.curSynchId closed) (Nat.succ_ne_self _).symm
    | false =>
      rw [set] at stepped
      refine ⟨teamStepped_of_slotChanged (Client.slotChanged_taken _ _ _ _) rfl set, ?_⟩
      rw [dropsExactly_iff stepped found (closes _)]
      exact iff_of_true ⟨fun _ => ⟨_, rfl⟩, fun kept => absurd trivial kept⟩ rfl

/-! ### A run of a team -/

/-- All threads do what they have to do exactly when every thread meets the flags it needs. -/
theorem along_dropsExactly_iff {config : Config} (events : List TeamEvent) :
    ∀ client : Client, InTeam config client events →
      (Along (teamStep config) (DropsExactly config) client events ↔
        ∀ context, FlagRight (inSingle client context) (marksOf context events)) := by
  induction events with
  | nil => exact fun _ _ => iff_of_true trivial fun _ => trivial
  | cons reached events inductionHypothesis =>
    intro client inTeam
    obtain ⟨next, stepped, nextSpec, drops⟩ := teamStep_spec inTeam
    have inTeamNext : InTeam config next events := {
      ignores := inTeam.ignores
      inRoi := nextSpec.inRoi_eq.trans inTeam.inRoi
      held := fun other member => nextSpec.held _ (inTeam.held other (List.mem_cons_of_mem _ member))
      known := fun other member => inTeam.known other (List.mem_cons_of_mem _ member) }
    rw [Along, drops, stepped]
    simp only [inductionHypothesis next inTeamNext, nextSpec.flag_eq]
    obtain ⟨context, mark⟩ := reached
    constructor
    · rintro ⟨here, later⟩ other
      by_cases same : other = context
      · subst same
        have rest := later other
        rw [if_pos rfl] at rest
        rw [marksOf_cons_self]
        exact ⟨here, rest⟩
      · have rest := later other
        rw [if_neg same] at rest
        rw [marksOf_cons_of_ne (Ne.symm same)]
        exact rest
    · intro right
      have own := right context
      rw [marksOf_cons_self] at own
      refine ⟨own.1, fun other => ?_⟩
      by_cases same : other = context
      · subst same
        rw [if_pos rfl]
        exact own.2
      · have rest := right other
        rw [marksOf_cons_of_ne (Ne.symm same)] at rest
        rw [if_neg same]
        exact rest

/-- With singles ignored, and no thread inside a single at the start: in every order of the events
of a team, each thread drops exactly the barriers of its singles if and only if no thread comes to an
explicit barrier with a latest single that has `nowait`. In the block of a single stands no explicit
barrier and no other single. -/
theorem dropsExactly_iff_noneBehindNowait {config : Config} {client : Client}
    {events : List TeamEvent} (inTeam : InTeam config client events)
    (outside : ∀ context, inSingle client context = false)
    (inConstructs : ∀ context, TeamMark.InConstructs false (marksOf context events)) :
    Along (teamStep config) (DropsExactly config) client events ↔
      ∀ context, TeamMark.NoneBehindNowait false (marksOf context events) := by
  rw [along_dropsExactly_iff events client inTeam]
  refine forall_congr' fun context => ?_
  rw [outside]
  exact flagRight_iff (marksOf context events) false false false (inConstructs context) rfl nofun

theorem marksOf_eq_nil {context : DrContext} {events : List TeamEvent}
    (absent : context ∉ events.map Prod.fst) : marksOf context events = [] := by
  rw [marksOf, List.map_eq_nil_iff, List.filter_eq_nil_iff]
  intro reached member same
  exact absent (of_decide_eq_true same ▸ List.mem_map_of_mem member)

theorem inConstructs_of_members {events : List TeamEvent}
    (members : ∀ context ∈ events.map Prod.fst,
      TeamMark.InConstructs false (marksOf context events)) (context : DrContext) :
    TeamMark.InConstructs false (marksOf context events) := by
  by_cases member : context ∈ events.map Prod.fst
  · exact members context member
  · rw [marksOf_eq_nil member]
    trivial

/-- The client with two threads inside the region of interest. -/
def twoInTeam : Client := ((Client.new.eventThreadInit 0 1).eventThreadInit 1 2).opened

/-- Singles are ignored, and one parallel function is known. -/
def ignoringSingles : Config where
  ignoreSingle := true
  parallelOmpF := AList.singleton 0x10 "main._omp_fn.0"

theorem inSingle_twoInTeam (context : DrContext) : inSingle twoInTeam context = false := by
  have slots : twoInTeam.slots =
      ((∅ : UnorderedMap DrContext ThreadData).insert 0 (ThreadData.new 1 true 0)).insert 1
        (ThreadData.new 2 false 0) := rfl
  rw [inSingle, slots, UnorderedMap.lookup_insert, UnorderedMap.lookup_insert, AList.lookup_empty]
  split
  · rfl
  · split <;> rfl

theorem inTeam_twoInTeam {events : List TeamEvent}
    (members : ∀ context ∈ events.map Prod.fst, (twoInTeam.slots.lookup context).isSome)
    (known : ∀ mark ∈ events.map Prod.snd, ∀ fAddr, mark = .parallel fAddr → fAddr = 0x10) :
    InTeam ignoringSingles twoInTeam events where
  ignores := rfl
  inRoi := rfl
  held := fun _ member => members _ (List.mem_map_of_mem member)
  known := by
    intro reached member fAddr same
    rw [known _ (List.mem_map_of_mem member) fAddr same]
    rfl

/-- Two threads in a parallel function. One of them leaves a single with `nowait` before both go
through a single with a barrier, and then through an explicit barrier. -/
def singleEvents : List TeamEvent := [(0, .parallel 0x10), (1, .parallel 0x10),
  (0, .singleStart true), (0, .singleStart false), (1, .singleStart false), (1, .singleBarrier),
  (0, .singleBarrier), (1, .barrier), (0, .barrier)]

theorem dropsExactly_iff_noneBehindNowait_two :
    Along (teamStep ignoringSingles) (DropsExactly ignoringSingles) twoInTeam singleEvents ↔
      ∀ context, TeamMark.NoneBehindNowait false (marksOf context singleEvents) := by
  refine dropsExactly_iff_noneBehindNowait (inTeam_twoInTeam (by decide) ?_) inSingle_twoInTeam
    (inConstructs_of_members (by decide))
  intro mark member fAddr same
  subst same
  simpa [singleEvents] using member

/-- A thread leaves a single with `nowait` and comes to an explicit barrier. -/
theorem not_dropsExactly_nowait :
    InTeam ignoringSingles twoInTeam [(0, .singleStart true), (0, .barrier)] ∧
    (∀ context, inSingle twoInTeam context = false) ∧
    (∀ context, TeamMark.InConstructs false
      (marksOf context [(0, .singleStart true), (0, .barrier)])) ∧
    ¬ Along (teamStep ignoringSingles) (DropsExactly ignoringSingles) twoInTeam
      [(0, .singleStart true), (0, .barrier)] := by
  have inTeam : InTeam ignoringSingles twoInTeam [(0, .singleStart true), (0, .barrier)] := by
    refine inTeam_twoInTeam (by decide) fun mark member fAddr same => ?_
    subst same
    simp at member
  refine ⟨inTeam, inSingle_twoInTeam, inConstructs_of_members (by decide), fun along => ?_⟩
  have right := (along_dropsExactly_iff _ twoInTeam inTeam).mp along 0
  have cleared : true = false := right.2.1
  cases cleared

end BarrierPoint
