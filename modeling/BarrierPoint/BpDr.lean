/-
This file models the library that is preloaded for the DynamoRIO client and the
calls that the members of a team make to its wrapper of the barrier. The call
that changes the flag of the process marks the region of interest and does not
reach the barrier of `libgomp`; a call behind it finds the flag changed, so
members of one episode differ as soon as there are two of them and an episode
opens the region. The marks alternate under every order of the calls.
-/

import Mathlib.Data.List.Induction
import Mathlib.Data.List.Nodup
import Mathlib.Order.Nat

namespace BarrierPoint

/-! ### The wrapper -/

/-- What the wrapper calls: a mark of the region of interest, or the barrier of `libgomp`. -/
inductive DrCall where
  | simRoiStart
  | simRoiEnd
  | gompBarrier
  deriving DecidableEq, Repr

/-- The variables of the library. -/
structure BpDr where
  insideRoi : Bool
  drFlag : Bool
  deriving DecidableEq, Repr

namespace BpDr

def new : BpDr where
  insideRoi := false
  drFlag := false

/-- The value of `_inside_roi` after reading `ROI_BP`. -/
def readRoi (library : BpDr) (roiBp : Option Int) : Bool :=
  match roiBp with
  | some value => value = 1
  | none => library.insideRoi

/-- The wrapper of `GOMP_barrier`. -/
def gompBarrier (library : BpDr) (roiBp : Option Int) : BpDr × DrCall :=
  let library := { library with insideRoi := library.readRoi roiBp }
  if library.insideRoi then
    if !library.drFlag then ({ library with drFlag := true }, .simRoiStart)
    else (library, .gompBarrier)
  else if library.drFlag then ({ library with drFlag := false }, .simRoiEnd)
  else (library, .gompBarrier)

/-- Behind a call the flag is what the call read. -/
theorem gompBarrier_eq (library : BpDr) (roiBp : Option Int) : library.gompBarrier roiBp =
    (⟨library.readRoi roiBp, library.readRoi roiBp⟩,
      if library.readRoi roiBp = library.drFlag then .gompBarrier
      else if library.drFlag then .simRoiEnd else .simRoiStart) := by
  unfold gompBarrier
  cases library.readRoi roiBp <;> cases library.drFlag <;> rfl

end BpDr

/-! ### The calls of a team -/

/-- A member of a team called the wrapper in an episode. -/
structure TeamCall where
  member : Nat
  episode : Nat
  called : DrCall
  deriving DecidableEq, Repr

/-- The library and the calls so far, oldest first. -/
structure Team where
  library : BpDr
  calls : List TeamCall
  deriving DecidableEq, Repr

namespace Team

def new : Team where
  library := BpDr.new
  calls := []

/-- How many episodes a member has called in. -/
def made (team : Team) (member : Nat) : Nat := team.calls.countP (·.member = member)

/-- A member makes the call of its next episode; the episodes decide on `ROI_BP`. -/
def call (roi : Nat → Option Int) (team : Team) (member : Nat) : Team :=
  let episode := team.made member
  let (library, called) := team.library.gompBarrier (roi episode)
  { library, calls := team.calls ++ [⟨member, episode, called⟩] }

/-- The team after calls in some order. -/
def after (roi : Nat → Option Int) (order : List Nat) : Team := order.foldl (call roi) new

/-- In an episode all calls are forwarded to the barrier of `libgomp`, or none is. -/
def Uniform (team : Team) : Prop :=
  ∀ first ∈ team.calls, ∀ second ∈ team.calls, first.episode = second.episode →
    (first.called = .gompBarrier ↔ second.called = .gompBarrier)

/-- The marks of the region of interest, in order. -/
def marks (team : Team) : List DrCall := (team.calls.map TeamCall.called).filter (· ≠ .gompBarrier)

/-- As many marks, a start and an end in turn. -/
def alternating (count : Nat) : List DrCall :=
  (List.range count).map fun index => if index % 2 = 0 then .simRoiStart else .simRoiEnd

/-- The marks are a start and an end in turn. -/
def Alternates (team : Team) : Prop := team.marks = alternating team.marks.length

variable {roi : Nat → Option Int} {team : Team} {order : List Nat} {member : Nat}

theorem after_append (roi : Nat → Option Int) (order : List Nat) (member : Nat) :
    after roi (order ++ [member]) = (after roi order).call roi member :=
  List.foldl_concat _ _ _ _

theorem library_call : (team.call roi member).library =
    ⟨team.library.readRoi (roi (team.made member)), team.library.readRoi (roi (team.made member))⟩ :=
  congrArg Prod.fst (team.library.gompBarrier_eq _)

theorem calls_call : (team.call roi member).calls = team.calls ++ [⟨member, team.made member,
    if team.library.readRoi (roi (team.made member)) = team.library.drFlag then .gompBarrier
    else if team.library.drFlag then .simRoiEnd else .simRoiStart⟩] :=
  congrArg (fun result : BpDr × DrCall => team.calls ++ [⟨member, team.made member, result.2⟩])
    (team.library.gompBarrier_eq _)

/-- A member has made as many calls as it occurs in the order. -/
theorem made_after (roi : Nat → Option Int) (order : List Nat) (member : Nat) :
    (after roi order).made member = order.count member := by
  induction order using List.reverseRecOn with
  | nil => rfl
  | append_singleton order last inductionHypothesis =>
    rw [after_append, made, calls_call, List.countP_append, List.count_append,
      show (after roi order).calls.countP _ = _ from inductionHypothesis, List.countP_singleton,
      List.count_singleton]
    simp

/-- The marks alternate, and the flag tells the last of them. -/
theorem alternates_after (roi : Nat → Option Int) (order : List Nat) :
    (after roi order).Alternates ∧
      (after roi order).library.drFlag = decide ((after roi order).marks.length % 2 = 1) := by
  induction order using List.reverseRecOn with
  | nil => exact ⟨rfl, rfl⟩
  | append_singleton order member inductionHypothesis =>
    obtain ⟨alternates, flag⟩ := inductionHypothesis
    rw [after_append]
    generalize after roi order = team at alternates flag
    have marks_eq : (team.call roi member).marks = team.marks ++
        (if team.library.readRoi (roi (team.made member)) = team.library.drFlag then []
        else [if team.library.drFlag then .simRoiEnd else .simRoiStart]) := by
      rw [marks, calls_call, List.map_append, List.filter_append]
      refine congrArg (team.marks ++ ·) ?_
      cases team.library.readRoi (roi (team.made member)) <;> cases team.library.drFlag <;> rfl
    rw [Alternates, marks_eq, library_call]
    by_cases keeps : team.library.readRoi (roi (team.made member)) = team.library.drFlag
    · rw [if_pos keeps, List.append_nil]
      exact ⟨alternates, keeps.trans flag⟩
    · rw [if_neg keeps]
      have flips : team.library.readRoi (roi (team.made member)) = !team.library.drFlag := by
        exact Bool.eq_not.mpr keeps
      have grown : ∀ mark : DrCall, (team.marks ++ [mark]).length = team.marks.length + 1 :=
        fun _ => List.length_append
      rw [grown, flips, alternating, List.range_succ, List.map_append, flag]
      refine ⟨congrArg₂ (· ++ ·) alternates ?_, ?_⟩
      · rcases Nat.mod_two_eq_zero_or_one team.marks.length with even | odd
        · simp [even]
        · simp [odd]
      · rw [← decide_not]
        exact decide_eq_decide.mpr (by omega)

/-! ### Episodes of one member, and episodes outside the region of interest -/

/-- A member calls once in an episode. -/
theorem episode_lt_made (roi : Nat → Option Int) (order : List Nat) :
    ∀ call ∈ (after roi order).calls, call.episode < order.count call.member := by
  induction order using List.reverseRecOn with
  | nil => exact nofun
  | append_singleton order member inductionHypothesis =>
    intro call made
    rw [after_append, calls_call] at made
    rw [List.count_append]
    rcases List.mem_append.mp made with old | new
    · exact Nat.lt_add_right _ (inductionHypothesis call old)
    · rw [List.mem_singleton.mp new]
      show (after roi order).made member < _
      rw [made_after, List.count_singleton_self]
      exact Nat.lt_succ_self _

/-- The calls of a team of one are uniform. -/
theorem uniform_of_one (roi : Nat → Option Int) (order : List Nat) (one : ∀ member ∈ order, member = 0) :
    (after roi order).Uniform ∧ ∀ call ∈ (after roi order).calls, call.member = 0 := by
  induction order using List.reverseRecOn with
  | nil => exact ⟨nofun, nofun⟩
  | append_singleton order member inductionHypothesis =>
    obtain ⟨uniform, alone⟩ := inductionHypothesis fun member inside =>
      one member (List.mem_append_left _ inside)
    obtain rfl : member = 0 := one member (by simp)
    have later : ∀ call ∈ (after roi order).calls, call.episode < (after roi order).made 0 := by
      intro call inside
      rw [made_after]
      exact alone call inside ▸ episode_lt_made roi order call inside
    rw [after_append, Uniform, calls_call]
    refine ⟨fun first inFirst second inSecond same => ?_, fun call inside => ?_⟩
    · rcases List.mem_append.mp inFirst with oldFirst | newFirst
      · rcases List.mem_append.mp inSecond with oldSecond | newSecond
        · exact uniform first oldFirst second oldSecond same
        · rw [List.mem_singleton.mp newSecond] at same
          exact absurd same (Nat.ne_of_lt (later first oldFirst))
      · rcases List.mem_append.mp inSecond with oldSecond | newSecond
        · rw [List.mem_singleton.mp newFirst] at same
          exact absurd same.symm (Nat.ne_of_lt (later second oldSecond))
        · rw [List.mem_singleton.mp newFirst, List.mem_singleton.mp newSecond]
    · rcases List.mem_append.mp inside with old | new
      · exact alone call old
      · rw [List.mem_singleton.mp new]

/-- Outside the region of interest every call is forwarded. -/
theorem forwards_outside (roi : Nat → Option Int) (order : List Nat)
    (outside : ∀ member ∈ order, ∀ episode < order.count member, roi episode ≠ some 1) :
    (after roi order).library = BpDr.new ∧
      ∀ call ∈ (after roi order).calls, call.called = .gompBarrier := by
  induction order using List.reverseRecOn with
  | nil => exact ⟨rfl, nofun⟩
  | append_singleton order member inductionHypothesis =>
    obtain ⟨library, forwarded⟩ := inductionHypothesis fun other inside episode before =>
      outside other (List.mem_append_left _ inside) episode
        (Nat.lt_of_lt_of_le before ((List.sublist_append_left order [member]).count_le other))
    have reads : (after roi order).library.readRoi (roi ((after roi order).made member)) = false := by
      have value : roi ((after roi order).made member) ≠ some 1 := by
        rw [made_after]
        refine outside member (by simp) _ ?_
        rw [List.count_append, List.count_singleton_self]
        exact Nat.lt_succ_self _
      rw [library]
      cases read : roi ((after roi order).made member) with
      | none => rfl
      | some found => exact decide_eq_false fun one => value (read.trans (congrArg some one))
    rw [after_append, library_call, calls_call, reads]
    refine ⟨rfl, fun call inside => ?_⟩
    rcases List.mem_append.mp inside with old | new
    · exact forwarded call old
    · rw [List.mem_singleton.mp new, library]
      rfl

/-! ### Two members -/

/-- Two members go through some episodes one after the other. -/
def lockstep : Nat → List Nat
  | 0 => []
  | episodes + 1 => lockstep episodes ++ [0, 1]

theorem count_lockstep (member episodes : Nat) :
    (lockstep episodes).count member = if member < 2 then episodes else 0 := by
  induction episodes with
  | zero => exact (ite_self 0).symm
  | succ episodes inductionHypothesis =>
    rw [lockstep, List.count_append, inductionHypothesis]
    match member with
    | 0 => rfl
    | 1 => rfl
    | member + 2 =>
      rw [if_neg (by omega), if_neg (by omega)]
      simp

theorem lt_two_of_mem_lockstep {episodes : Nat} (inside : member ∈ lockstep episodes) :
    member < 2 := by
  by_contra large
  have occurs := List.count_pos_iff.mpr inside
  rw [count_lockstep, if_neg large] at occurs
  exact Nat.lt_irrefl 0 occurs

/-- Two members differ in the first episode that opens the region of interest. -/
theorem not_uniform_lockstep {opening : Nat} (opens : roi opening = some 1)
    (first : ∀ episode < opening, roi episode ≠ some 1) :
    ¬(after roi (lockstep (opening + 1))).Uniform := by
  obtain ⟨library, -⟩ := forwards_outside roi (lockstep opening) fun member inside episode before => by
    rw [count_lockstep, if_pos (lt_two_of_mem_lockstep inside)] at before
    exact first episode before
  have made : ∀ member < 2, (after roi (lockstep opening)).made member = opening := fun member small =>
    (made_after roi _ member).trans ((count_lockstep member opening).trans (if_pos small))
  have both : (after roi (lockstep (opening + 1))).calls =
      (after roi (lockstep opening)).calls ++
        [⟨0, opening, .simRoiStart⟩, ⟨1, opening, .gompBarrier⟩] := by
    have split : lockstep (opening + 1) = (lockstep opening ++ [0]) ++ [1] :=
      (List.append_assoc _ [0] [1]).symm
    have middle : ((after roi (lockstep opening)).call roi 0).library = ⟨true, true⟩ := by
      rw [library_call, made 0 (by decide), opens]
      rfl
    have second : ((after roi (lockstep opening)).call roi 0).made 1 = opening := by
      rw [← after_append, made_after, List.count_append, count_lockstep]
      rfl
    rw [split, after_append, after_append, calls_call, second, opens, middle, calls_call,
      made 0 (by decide), opens, library, List.append_assoc]
    rfl
  intro uniform
  have same := uniform ⟨0, opening, .simRoiStart⟩ (by rw [both]; simp) ⟨1, opening, .gompBarrier⟩
    (by rw [both]; simp) rfl
  cases same.mpr rfl

end Team

/-- An order in which the members of a team make the calls of some episodes. -/
structure Interleaving (size episodes : Nat) where
  order : List Nat
  isMember : ∀ member ∈ order, member < size
  bounded : ∀ member, order.count member ≤ episodes

namespace Team

/-- In every interleaving the calls of an episode are forwarded or none is, and the marks alternate,
exactly when the team has one member or no episode opens the region of interest. -/
theorem uniform_iff_opens_none (size episodes : Nat) (roi : Nat → Option Int) :
    (∀ interleaving : Interleaving size episodes,
      (after roi interleaving.order).Uniform ∧ (after roi interleaving.order).Alternates) ↔
      size ≤ 1 ∨ ∀ episode < episodes, roi episode ≠ some 1 := by
  constructor
  · intro always
    by_contra neither
    rw [not_or, Nat.not_le] at neither
    obtain ⟨two, opened⟩ := neither
    have exists_opening : ∃ episode, episode < episodes ∧ roi episode = some 1 := by
      by_contra none_opens
      exact opened fun episode inside opens => none_opens ⟨episode, inside, opens⟩
    obtain ⟨inside, opens⟩ := Nat.find_spec exists_opening
    have first : ∀ episode < Nat.find exists_opening, roi episode ≠ some 1 := fun episode before value =>
      Nat.find_min exists_opening before ⟨Nat.lt_trans before inside, value⟩
    refine not_uniform_lockstep opens first (always ⟨lockstep (Nat.find exists_opening + 1),
      fun member within => Nat.lt_of_lt_of_le (lt_two_of_mem_lockstep within) two,
      fun member => ?_⟩).1
    rw [count_lockstep]
    split
    · exact inside
    · exact Nat.zero_le _
  · rintro (small | outside) interleaving
    · exact ⟨(uniform_of_one roi interleaving.order fun member within =>
        Nat.lt_one_iff.mp (Nat.lt_of_lt_of_le (interleaving.isMember member within) small)).1,
        (alternates_after roi interleaving.order).1⟩
    · obtain ⟨-, forwarded⟩ := forwards_outside roi interleaving.order fun member _ episode before =>
        outside episode (Nat.lt_of_lt_of_le before (interleaving.bounded member))
      exact ⟨fun first inFirst second inSecond _ =>
        iff_of_true (forwarded first inFirst) (forwarded second inSecond),
        (alternates_after roi interleaving.order).1⟩

/-- Two members make the call that opens the region of interest: one is swallowed. -/
theorem not_uniform_two : ∃ interleaving : Interleaving 2 1,
    (after (fun _ => some 1) interleaving.order).calls =
      [⟨0, 0, .simRoiStart⟩, ⟨1, 0, .gompBarrier⟩] ∧
    ¬(after (fun _ => some 1) interleaving.order).Uniform :=
  ⟨⟨[0, 1], by decide, fun member => by
    have once : [0, 1].Nodup := by decide
    exact List.nodup_iff_count_le_one.mp once member⟩, rfl, by
    unfold Uniform
    decide⟩

end Team

end BarrierPoint
