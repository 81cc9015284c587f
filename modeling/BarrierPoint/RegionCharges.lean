/-
This file compares the histogram of a region with the references made in it. A
ledger keeps, beside the client, the distances of the references every thread
makes between its synchronisation points. The client counts a reference only
when the next basic block drains the buffer, and it counts those from before
the region of interest as well, so the histogram of a region gains what was
waiting when the region began and misses what waits when it ends. The two
balance in every run, and a histogram is that of its region exactly when what
is gained and what is missed fall into the same buckets.
-/

import BarrierPoint.Histogram
import BarrierPoint.RegionIds

namespace BarrierPoint

open Library

/-! ### The ledger -/

/-- What a region has to count, and what stands between this and its histogram: the distances of
the references made in it inside the region of interest, of those not yet counted when it began --
for the first region of a thread all that were made before the region of interest -- and of those
not yet counted now. -/
structure Charge where
  made : List Int
  before : List Int
  pending : List Int
  deriving DecidableEq, Repr

/-- The references of a thread, most recent first, the charge of its current region and those of
its earlier ones, each with its id. Ids count from the synchronisation count at the thread's
birth. -/
structure Account where
  bornAt : Nat
  history : List Address
  charge : Charge
  regions : List (Nat × Charge)

namespace Account

def new (bornAt : Nat) : Account where
  bornAt := bornAt
  history := []
  charge := ⟨[], [], []⟩
  regions := []

/-- A reference is made. -/
def refer (account : Account) (inRoi : Bool) (tag : Address) : Account :=
  let distance := stackDistance account.history tag
  { account with
    history := tag :: account.history
    charge := {
      made := if inRoi then account.charge.made ++ [distance] else account.charge.made
      before := if inRoi then account.charge.before else account.charge.before ++ [distance]
      pending := account.charge.pending ++ [distance] } }

/-- The next basic block has counted the references that were waiting. -/
def drain (account : Account) : Account :=
  { account with charge := { account.charge with pending := [] } }

/-- A synchronisation point ends the region. -/
def close (account : Account) : Account :=
  { account with
    charge := ⟨[], account.charge.pending, account.charge.pending⟩
    regions := account.regions ++ [(account.bornAt + account.regions.length, account.charge)] }

end Account

/-- The accounts of all threads. -/
abbrev Ledger := DrContext → Account

namespace Ledger

def new : Ledger := fun _ => Account.new 0

def set (ledger : Ledger) (context : DrContext) (account : Account) : Ledger :=
  fun other => if other = context then account else ledger other

/-- A synchronisation point is taken, or none is. -/
def record (ledger : Ledger) : Option (DrContext × Region) → Ledger
  | some (context, _) => ledger.set context (ledger context).close
  | none => ledger

/-- What the ledger keeps of an event. References behind the end of the region of interest are in no
region. -/
def observe (config : Config) (client : Client) (ledger : Ledger) : Event → Ledger
  | .threadInit context _ =>
      if client.threadInitRegistered then
        ledger.set context (Account.new client.barrierPoint.synchCount)
      else ledger
  | .cleanCall context _ _ =>
      if client.roiHasEnded then ledger else ledger.set context (ledger context).drain
  | .memRef context address =>
      if client.roiHasEnded then ledger
      else ledger.set context
        ((ledger context).refer client.inRoi (address &&& config.addressMask))
  | event => ledger.record (client.takenPoint config event)

/-- The client and the ledger take a step. -/
def step (config : Config) : Client × Ledger → Event → Option (Client × Ledger)
  | (client, ledger), event => do
      let next ← client.step config event
      return (next, ledger.observe config client event)

end Ledger

/-! ### The balance of a thread -/

/-- What a histogram counts and what is pending are what came before and what was made. -/
def Balanced (hist : List Nat) (charge : Charge) : Prop :=
  ∀ bucket, counted bucket hist + hits bucket charge.pending =
    hits bucket charge.before + hits bucket charge.made

/-- A balanced histogram counts what was made exactly when as much was pending before as is now. -/
theorem Balanced.counts_iff {hist : List Nat} {charge : Charge} (balanced : Balanced hist charge) :
    (∀ bucket, counted bucket hist = hits bucket charge.made) ↔
      ∀ bucket, hits bucket charge.before = hits bucket charge.pending := by
  refine forall_congr' fun bucket => ?_
  have balance := balanced bucket
  omega

/-- The thread and its account agree: the pending references are those in the buffer, and the
current region and all earlier ones balance. -/
structure Booked (mask : Address) (ended : Bool) (account : Account) (data : ThreadData) : Prop where
  waiting : ended = false → ∃ history order, data.reuseDist.Tracks history order ∧
    account.history = (data.buffer.map (· &&& mask)).reverse ++ history ∧
    account.charge.pending = stackDistances history (data.buffer.map (· &&& mask))
  current : Balanced data.curLruHist account.charge
  stored : ∀ id, Option.Rel (fun region charge => Balanced region.lruHist charge)
    (data.regions.lookup id) (readAt account.bornAt account.regions id)
  numbered : data.curSynchId = account.bornAt + account.regions.length

namespace Booked

variable {mask : Address} {ended : Bool} {account : Account} {data after : ThreadData}

theorem of_new (mask : Address) (ended : Bool) (threadId : UInt32) (isMaster : Bool)
    (regionId : Nat) :
    Booked mask ended (Account.new regionId) (ThreadData.new threadId isMaster regionId) where
  waiting := fun _ => ⟨[], [], ReuseDistance.tracks_new (by decide) false false 100, rfl, rfl⟩
  current := fun _ => rfl
  stored := by
    intro id
    show Option.Rel _ ((∅ : UnorderedMap Nat Region).lookup id) (readAt regionId [] id)
    rw [AList.lookup_empty, readAt_nil]
    exact .none
  numbered := rfl

/-- The other fields of a thread do not matter. -/
theorem of_eq (holds : Booked mask ended account data) (reuse : after.reuseDist = data.reuseDist)
    (buffer : after.buffer = data.buffer) (hist : after.curLruHist = data.curLruHist)
    (regions : after.regions = data.regions) (synchId : after.curSynchId = data.curSynchId) :
    Booked mask ended account after where
  waiting := by
    rw [reuse, buffer]
    exact holds.waiting
  current := hist ▸ holds.current
  stored := regions ▸ holds.stored
  numbered := synchId.trans holds.numbered

/-- Behind the end of the region of interest the buffer does not matter. -/
theorem end_ (holds : Booked mask ended account data) : Booked mask true account data :=
  ⟨nofun, holds.current, holds.stored, holds.numbered⟩

theorem discard (holds : Booked mask true account data)
    (hist : after.curLruHist = data.curLruHist) (regions : after.regions = data.regions)
    (synchId : after.curSynchId = data.curSynchId) : Booked mask true account after :=
  ⟨nofun, hist ▸ holds.current, regions ▸ holds.stored, synchId.trans holds.numbered⟩

/-- Draining counts what is pending. -/
theorem drain (holds : Booked mask false account data) (ran : data.addAddress mask = some after) :
    Booked mask false account.drain after := by
  obtain ⟨history, order, tracks, made, pending⟩ := holds.waiting rfl
  obtain ⟨drained, drains, empty, spec⟩ := ThreadData.addAddress_spec tracks mask
  obtain rfl := Option.some_inj.mp (drains.symm.trans ran)
  obtain ⟨next, nextTracks⟩ := spec.tracks
  refine ⟨fun _ => ⟨_, next, nextTracks, ?_, ?_⟩, fun bucket => ?_, ?_, ?_⟩
  · rw [empty]
    exact made
  · rw [empty]
    rfl
  · have balance := holds.current bucket
    rw [pending] at balance
    rw [spec.counts]
    exact balance
  · rw [spec.regions_eq]
    exact holds.stored
  · rw [spec.synchId_eq]
    exact holds.numbered

/-- A reference waits in the buffer. -/
theorem refer (holds : Booked mask false account data) (inRoi : Bool) (address : Address) :
    Booked mask false (account.refer inRoi (address &&& mask)) (data.record address) := by
  obtain ⟨history, order, tracks, made, pending⟩ := holds.waiting rfl
  refine ⟨fun _ => ⟨history, order, tracks, ?_, ?_⟩, fun bucket => ?_, holds.stored, holds.numbered⟩
  · show _ :: account.history = ((data.buffer ++ [address]).map _).reverse ++ history
    rw [made, List.map_append, List.reverse_append]
    rfl
  · show account.charge.pending ++ [stackDistance account.history _] =
      stackDistances history ((data.buffer ++ [address]).map _)
    rw [List.map_append, stackDistances_append, ← pending, ← made]
    rfl
  · have balance := holds.current bucket
    show counted bucket data.curLruHist + hits bucket (account.charge.pending ++ _) =
      hits bucket (if inRoi then _ else _) + hits bucket (if inRoi then _ else _)
    cases inRoi with
    | true =>
      simp only [if_true, hits_append]
      omega
    | false =>
      simp only [Bool.false_eq_true, if_false, hits_append]
      omega

/-- A synchronisation point stores the region and starts the next with what is pending. -/
theorem close (holds : Booked mask ended account data) (ompName : String) :
    Booked mask ended account.close (data.saveBarrier ompName) := by
  refine ⟨holds.waiting, fun bucket => Nat.add_comm _ _, fun id => ?_, ?_⟩
  · have free : data.regions.lookup data.curSynchId = none := by
      have here := holds.stored data.curSynchId
      rw [holds.numbered, readAt_length] at here
      rw [holds.numbered]
      cases held : data.regions.lookup (account.bornAt + account.regions.length) with
      | none => rfl
      | some region =>
        rw [held] at here
        cases here
    show Option.Rel _ ((data.regions.insertNew data.curSynchId _).lookup id)
      (readAt account.bornAt (account.regions ++ [_]) id)
    rw [UnorderedMap.lookup_insertNew, free, readAt_append, holds.numbered]
    split
    · exact .some holds.current
    · exact holds.stored id
  · show data.curSynchId + 1 = account.bornAt + (account.regions ++ [_]).length
    rw [holds.numbered, List.length_append]
    rfl

end Booked

/-! ### The balance of a run -/

namespace Ledger

/-- Every thread agrees with its account. -/
def Books (config : Config) (client : Client) (ledger : Ledger) : Prop :=
  ∀ context, ∀ data ∈ client.slots.lookup context,
    Booked config.addressMask client.roiHasEnded (ledger context) data

theorem books_new (config : Config) : Books config Client.new new := by
  intro context data found
  rw [Client.slots_new] at found
  cases found

variable {config : Config} {client next : Client} {ledger : Ledger} {context : DrContext}
  {data after : ThreadData} {account : Account}

namespace Books

/-- One thread changes and its account with it. -/
theorem changes (holds : Books config client ledger)
    (changed : client.SlotChanged context after next)
    (ended : next.roiHasEnded = client.roiHasEnded)
    (booked : Booked config.addressMask client.roiHasEnded account after) :
    Books config next (ledger.set context account) := by
  intro other held read
  rw [ended]
  unfold set
  rcases changed.cases read with ⟨here, rfl⟩ | ⟨elsewhere, old⟩
  · rw [if_pos here]
    exact booked
  · rw [if_neg elsewhere]
    exact holds other held old

/-- One thread changes, and its account stays. -/
theorem works (holds : Books config client ledger)
    (changed : client.SlotChanged context after next)
    (ended : next.roiHasEnded = client.roiHasEnded)
    (booked : Booked config.addressMask client.roiHasEnded (ledger context) after) :
    Books config next ledger := by
  have same : ledger.set context (ledger context) = ledger := by
    funext other
    unfold set
    split
    · rename_i here
      rw [here]
    · rfl
  exact same ▸ holds.changes changed ended booked

/-- Flags and counters other than that of the end of the region of interest do not matter. -/
theorem of_eq (holds : Books config client ledger) (slots : next.slots = client.slots)
    (ended : next.roiHasEnded = client.roiHasEnded) : Books config next ledger := by
  unfold Books
  rw [slots, ended]
  exact holds

theorem closed (holds : Books config client ledger) : Books config client.closed ledger :=
  fun context data found => (holds context data found).end_

theorem takes (holds : Books config client ledger)
    (found : client.slots.lookup context = some data) (ompName : String) :
    Books config (client.taken context data ompName)
      (ledger.set context (ledger context).close) :=
  holds.changes (client.slotChanged_taken context data ompName) rfl
    ((holds context data found).close ompName)

/-- A synchronisation point that is recorded as taken closes the region of its thread. -/
theorem takesPoint (holds : Books config client ledger)
    (found : client.slots.lookup context = some data) {ompName : String}
    {point : Option (DrContext × Region)}
    (taken : point = some (context, data.currentRegion ompName)) :
    Books config (client.taken context data ompName) (ledger.record point) := by
  rw [taken]
  exact holds.takes found ompName

theorem idle (holds : Books config client ledger) {point : Option (DrContext × Region)}
    (nothing : point = none) : Books config client (ledger.record point) := by
  rw [nothing]
  exact holds

/-- A change of flags in the data of a thread does not matter. -/
theorem flags (holds : Books config client ledger)
    (found : client.slots.lookup context = some data) (reuse : after.reuseDist = data.reuseDist)
    (buffer : after.buffer = data.buffer) (hist : after.curLruHist = data.curLruHist)
    (regions : after.regions = data.regions) (synchId : after.curSynchId = data.curSynchId) :
    Books config (client.setSlot context after) ledger :=
  holds.works (client.slotChanged_setSlot context after) rfl
    ((holds context data found).of_eq reuse buffer hist regions synchId)

/-- A thread is born with an empty account. -/
theorem births (holds : Books config client ledger) (context : DrContext) (threadId : UInt32)
    (registered : client.threadInitRegistered = true) (isMaster : Bool) :
    Books config (client.setSlot context
        (ThreadData.new threadId isMaster client.barrierPoint.synchCount))
      (ledger.observe config client (.threadInit context threadId)) := by
  have seen : ledger.observe config client (.threadInit context threadId) =
      ledger.set context (Account.new client.barrierPoint.synchCount) := if_pos registered
  rw [seen]
  exact holds.changes (client.slotChanged_setSlot _ _) rfl (.of_new _ _ _ _ _)

/-- The call of a basic block drains the buffer before the end of the region of interest. -/
theorem block (holds : Books config client ledger) (traced : config.traceMemBeforeRoi = true)
    (found : client.slots.lookup context = some data) {instCount : UInt64} {address : Address}
    (ran : client.blockData config data instCount address = some after) :
    Books config (client.setSlot context after)
      (ledger.observe config client (.cleanCall context instCount address)) := by
  have changed := client.slotChanged_setSlot context after
  have held := holds context data found
  have added : Booked config.addressMask client.roiHasEnded (ledger context)
      (if client.inRoi then data.addBb address instCount else data) := by
    split
    · exact held.of_eq rfl rfl rfl rfl rfl
    · exact held
  rw [Client.blockData, if_pos traced] at ran
  unfold observe
  cases ended : client.roiHasEnded with
  | false =>
    rw [ended] at ran added
    exact holds.changes changed rfl (ended ▸ added.drain ran)
  | true =>
    rw [ended] at ran added
    cases ran
    refine holds.works changed rfl ?_
    rw [ended]
    exact added.discard rfl rfl rfl

theorem refers (holds : Books config client ledger)
    (found : client.slots.lookup context = some data) (address : Address) :
    Books config (client.setSlot context (data.record address))
      (ledger.observe config client (.memRef context address)) := by
  have changed := client.slotChanged_setSlot context (data.record address)
  have held := holds context data found
  unfold observe
  cases ended : client.roiHasEnded with
  | false =>
    rw [ended] at held
    exact holds.changes changed rfl (ended ▸ held.refer client.inRoi address)
  | true =>
    rw [ended] at held
    exact holds.works changed rfl (ended ▸ held.discard rfl rfl rfl)

end Books

/-- One step keeps the balance. -/
theorem books_step {state next : Client × Ledger} {event : Event}
    (traced : config.traceMemBeforeRoi = true) (holds : Books config state.1 state.2)
    (stepped : step config state event = some next) : Books config next.1 next.2 := by
  obtain ⟨client, ledger⟩ := state
  obtain ⟨after, ran, rest⟩ := Option.bind_eq_some_iff.mp stepped
  cases rest
  cases Client.step_cases ran with
  | @threadInit context threadId registered =>
    exact (holds.births context threadId registered client.firstTimeCalled).of_eq rfl rfl
  | @threadInitIgnored context threadId unregistered =>
    have seen : ledger.observe config client (.threadInit context threadId) = ledger :=
      if_neg (Bool.not_eq_true _ ▸ unregistered)
    show Books config _ (ledger.observe config client (.threadInit context threadId))
    rw [seen]
    exact holds
  | threadExit registered found worker =>
    refine (holds.takesPoint found ?_).of_eq rfl rfl
    simp [Client.takenPoint, registered, found, worker]
  | masterExit registered found master =>
    exact (holds.idle (by simp [Client.takenPoint, found, master])).of_eq rfl rfl
  | threadExitIgnored unregistered => exact holds.idle (by simp [Client.takenPoint, unregistered])
  | roiInit => exact holds.of_eq rfl rfl
  | roiEnd once found master =>
    exact holds.closed.takesPoint found (by simp [Client.takenPoint, found])
  | ompParallel known inRoi found =>
    exact holds.takesPoint found (by simp [Client.takenPoint, inRoi, found, known])
  | ompParallelOutside known outside => exact holds.idle (by simp [Client.takenPoint, outside])
  | barrier inRoi found explicit =>
    exact holds.takesPoint found (by simp [Client.takenPoint, inRoi, found, explicit])
  | barrierIgnored inRoi found implicit =>
    refine Books.idle (holds.flags found ?_ ?_ ?_ ?_ ?_)
      (by simp [Client.takenPoint, found, implicit]) <;> rfl
  | barrierOutside outside => exact holds.idle (by simp [Client.takenPoint, outside])
  | single inRoi ignored found => exact holds.flags found rfl rfl rfl rfl rfl
  | singleIgnored => exact holds
  | cleanCall found drained => exact holds.block traced found drained
  | memRef found => exact holds.refers found _

/-! ### Exact histograms -/

/-- The regions of a thread are those the ledger has closed, and every histogram counts exactly the
defined distances of the references made in its region. -/
def ChargedRight (client : Client) (ledger : Ledger) : Prop :=
  ∀ context, ∀ data ∈ client.slots.lookup context, ∀ id,
    Option.Rel (fun region charge => ∀ bucket,
      counted bucket region.lruHist = hits bucket charge.made)
      (data.regions.lookup id) (readAt (ledger context).bornAt (ledger context).regions id)

/-- A histogram that is charged right counts the references of its region. -/
theorem ChargedRight.counts (right : ChargedRight client ledger) (context : DrContext) (id : Nat)
    (found : client.slots.lookup context = some data) {region : Region} {charge : Charge}
    (stored : data.regions.lookup id = some region)
    (charged : readAt (ledger context).bornAt (ledger context).regions id = some charge)
    (bucket : Nat) : counted bucket region.lruHist = hits bucket charge.made := by
  have exactly := right context data found id
  rw [stored, charged] at exactly
  cases exactly with
  | some counts => exact counts bucket

/-- What was not counted when a region began and what was not counted when it ended fall into the
same buckets. -/
def CarriesNothing (client : Client) (ledger : Ledger) : Prop :=
  ∀ context, (client.slots.lookup context).isSome → ∀ entry ∈ (ledger context).regions,
    ∀ bucket, hits bucket entry.2.before = hits bucket entry.2.pending

/-- After every run of the default build, the histograms are those of their regions exactly when no
region carries references over from the one before, or into the next. The client stores numbers only:
references that come in and others that go out of the same buckets make up for each other. -/
theorem chargedRight_iff_carriesNothing (config : Config)
    (traced : config.traceMemBeforeRoi = true) (events : List Event) (client : Client)
    (ledger : Ledger)
    (reached : run (step config) (Client.new, new) events = some (client, ledger)) :
    ChargedRight client ledger ↔ CarriesNothing client ledger := by
  have holds : Books config client ledger :=
    run_invariant (fun state : Client × Ledger => Books config state.1 state.2)
      (fun _ _ _ before (_ : True) stepped => books_step traced before stepped)
      (books_new config) (along_of_forall (fun _ _ => trivial) _ _) reached
  constructor
  · intro right context known entry member
    obtain ⟨data, found⟩ := Option.isSome_iff_exists.mp known
    obtain ⟨index, atIndex⟩ := List.getElem?_of_mem member
    have charged : readAt (ledger context).bornAt (ledger context).regions
        ((ledger context).bornAt + index) = some entry.2 := readAt_of_getElem? atIndex
    have stored := (holds context data found).stored ((ledger context).bornAt + index)
    rw [charged] at stored
    generalize region : data.regions.lookup _ = held at stored
    cases stored with
    | some balanced => exact balanced.counts_iff.mp (right.counts context _ found region charged)
  · intro nothing context data found id
    have stored := (holds context data found).stored id
    generalize data.regions.lookup id = region at stored ⊢
    generalize charged : readAt (ledger context).bornAt (ledger context).regions id = charge
      at stored ⊢
    cases stored with
    | none => exact .none
    | some balanced =>
      obtain ⟨entry, member, rfl⟩ := exists_of_readAt charged
      exact .some (balanced.counts_iff.mpr
        (nothing context (Option.isSome_iff_exists.mpr ⟨data, found⟩) entry member))

/-- A block without references stands before each synchronisation point. -/
theorem chargedRight_iff_carriesNothing_drained : ∃ client ledger,
    run (step { parallelOmpF := ∅ }) (Client.new, new) [.threadInit 0 10, .roiInit 0,
      .cleanCall 0 2 0x10, .memRef 0 0x40, .memRef 0 0x40, .cleanCall 0 1 0x20, .barrier 0,
      .roiEnd 0] = some (client, ledger) ∧
    (ChargedRight client ledger ↔ CarriesNothing client ledger) :=
  ⟨_, _, rfl, chargedRight_iff_carriesNothing { parallelOmpF := ∅ } rfl [.threadInit 0 10,
    .roiInit 0, .cleanCall 0 2 0x10, .memRef 0 0x40, .memRef 0 0x40, .cleanCall 0 1 0x20,
    .barrier 0, .roiEnd 0] _ _ rfl⟩

/-- The repeated reference of the block before the barrier is counted in the region behind it. -/
theorem not_chargedRight_late : ∃ client ledger,
    run (step { parallelOmpF := ∅ }) (Client.new, new) [.threadInit 0 10, .roiInit 0,
      .cleanCall 0 2 0x10, .memRef 0 0x40, .memRef 0 0x40, .barrier 0, .cleanCall 0 1 0x20,
      .roiEnd 0] = some (client, ledger) ∧ ¬ChargedRight client ledger := by
  refine ⟨_, _, rfl, fun right => ?_⟩
  have first := right.counts 0 0 rfl rfl rfl 0
  revert first
  decide

end Ledger

end BarrierPoint
