/-
This file proves what the histogram of a thread is. The references reach the
tracker through a buffer that is drained now and then. However the trace is cut
into buffers, the histogram counts in each bucket the distances whose binary
logarithm, rounded down, is the bucket; it ends with its largest bucket that is
not empty; and its entries sum up to the references that were not the first to
their line.
-/

import BarrierPoint.Histogram

namespace BarrierPoint

open Library

/-! ### Buckets -/

/-- The bucket is the binary logarithm of the distance, rounded down; a distance of zero belongs to
bucket zero. No distance at all (`-1`) belongs to none. -/
def InBucket (bucket : Nat) (distance : Int) : Prop :=
  if distance = 0 then bucket = 0 else 2 ^ bucket ≤ distance ∧ distance < 2 ^ (bucket + 1)

instance (bucket : Nat) (distance : Int) : Decidable (InBucket bucket distance) :=
  inferInstanceAs (Decidable (if distance = 0 then _ else _ ∧ _))

theorem inBucket_iff {distance : Int} (known : 0 ≤ distance) (bucket : Nat) :
    InBucket bucket distance ↔ log2Rd distance = bucket := by
  obtain ⟨number, rfl⟩ := Int.eq_ofNat_of_zero_le known
  by_cases zero : number = 0
  · subst zero
    exact eq_comm
  · have positive : (number : Int) ≠ 0 := by omega
    rw [InBucket, if_neg positive, log2Rd, if_pos positive, Int.toNat_natCast,
      Nat.log2_eq_iff zero]
    norm_cast

/-- The bucket is computed by counting leading zeros. -/
theorem log2Rd_eq_clz {distance : Nat} (positive : distance ≠ 0) (fits : distance < 2 ^ 64) :
    log2Rd distance = 63 - (BitVec.ofNat 64 distance).clz.toNat := by
  have same : (BitVec.ofNat 64 distance).toNat = distance := by
    rw [BitVec.toNat_ofNat, Nat.mod_eq_of_lt fits]
  have nonzero : BitVec.ofNat 64 distance ≠ 0 := fun zero => positive (by rw [← same, zero]; rfl)
  have atLeast := BitVec.two_pow_sub_clz_le_toNat_of_ne_zero (by decide) nonzero
  have below := BitVec.toNat_lt_two_pow_sub_clz (x := BitVec.ofNat 64 distance)
  have leading := BitVec.clz_lt_iff_ne_zero.mpr nonzero
  rw [same] at atLeast below
  have count : (BitVec.ofNat 64 distance).clz.toNat < 64 := leading
  rw [log2Rd, if_pos (by omega), Int.toNat_natCast, Nat.log2_eq_iff positive]
  refine ⟨atLeast, ?_⟩
  rw [show 63 - (BitVec.ofNat 64 distance).clz.toNat + 1 =
    64 - (BitVec.ofNat 64 distance).clz.toNat by omega]
  exact below

theorem hits_eq_countP {distances : List Int} (known : ∀ distance ∈ distances, -1 ≤ distance)
    (bucket : Nat) : hits bucket distances = distances.countP fun distance =>
      InBucket bucket distance := by
  refine List.countP_congr fun distance member => ?_
  rw [decide_eq_true_eq, decide_eq_true_eq]
  rcases (known distance member).lt_or_eq with defined | first
  · rw [inBucket_iff (by omega), and_iff_right (by omega)]
  · subst first
    refine ⟨fun hit => absurd rfl hit.1, fun inside => ?_⟩
    have positive : (0 : Int) < 2 ^ bucket := Int.pow_pos (by decide)
    rw [InBucket, if_neg (by decide)] at inside
    omega

/-! ### The shape of a histogram -/

/-- The largest bucket is not empty. -/
def Tight (hist : List Nat) : Prop := hist ≠ [] → counted (hist.length - 1) hist ≠ 0

theorem length_countBucket (hist : List Nat) (bucket : Nat) :
    (countBucket hist bucket).length = max hist.length (bucket + 1) := by
  simp only [countBucket]
  rw [List.length_modify]
  split
  · rw [List.length_append, List.length_replicate]
    omega
  · omega

theorem tight_countBucket {hist : List Nat} (tight : Tight hist) (bucket : Nat) :
    Tight (countBucket hist bucket) := by
  intro _
  rw [length_countBucket, counted_countBucket]
  rcases Nat.lt_or_ge bucket (hist.length - 1) with inside | last
  · have filled : hist ≠ [] := List.ne_nil_of_length_pos (by omega)
    have nonzero := tight filled
    rw [show max hist.length (bucket + 1) - 1 = hist.length - 1 by omega]
    omega
  · rcases Nat.lt_or_ge bucket hist.length with atEnd | beyond
    · rw [if_pos (by omega)]
      omega
    · rw [if_pos (by omega)]
      omega

theorem sum_countBucket (hist : List Nat) (bucket : Nat) :
    (countBucket hist bucket).sum = hist.sum + 1 := by
  have modified : ∀ (hist : List Nat) (bucket : Nat), bucket < hist.length →
      (hist.modify bucket (· + 1)).sum = hist.sum + 1 := by
    intro hist
    induction hist with
    | nil => exact fun bucket inside => absurd inside (Nat.not_lt_zero bucket)
    | cons entry hist inductionHypothesis =>
      intro bucket inside
      cases bucket with
      | zero =>
        rw [List.modify_zero_cons, List.sum_cons, List.sum_cons]
        omega
      | succ bucket =>
        rw [List.modify_succ_cons, List.sum_cons, List.sum_cons,
          inductionHypothesis bucket (Nat.lt_of_succ_lt_succ inside), Nat.add_assoc]
  simp only [countBucket]
  split
  · rw [modified _ _ (by rw [List.length_append, List.length_replicate]; omega), List.sum_append,
      List.sum_replicate_nat, Nat.mul_zero, Nat.add_zero]
  · exact modified _ _ (by omega)

theorem tight_countDistances (distances : List Int) : ∀ {hist : List Nat}, Tight hist →
    Tight (countDistances hist distances) := by
  induction distances with
  | nil => exact id
  | cons distance distances inductionHypothesis =>
    intro hist tight
    rw [countDistances, List.foldl_cons]
    refine inductionHypothesis ?_
    split
    · exact tight_countBucket tight _
    · exact tight

theorem sum_countDistances (distances : List Int) : ∀ hist : List Nat,
    (countDistances hist distances).sum = hist.sum + distances.countP (· ≠ -1) := by
  induction distances with
  | nil => exact fun _ => rfl
  | cons distance distances inductionHypothesis =>
    intro hist
    rw [countDistances, List.foldl_cons]
    refine (inductionHypothesis _).trans ?_
    rw [List.countP_cons]
    by_cases first : distance = -1
    · simp [first]
    · simp only [ne_eq, first, not_false_eq_true, if_true, decide_true, sum_countBucket]
      omega

/-! ### First references -/

theorem neg_one_le_stackDistance (history : List Address) (tag : Address) :
    -1 ≤ stackDistance history tag := by
  rw [stackDistance]
  split <;> omega

theorem stackDistance_ne_iff (history : List Address) (tag : Address) :
    stackDistance history tag ≠ -1 ↔ tag ∈ history := by
  rw [stackDistance]
  split <;> simp_all

theorem neg_one_le_of_mem_stackDistances (trace : List Address) : ∀ history,
    ∀ distance ∈ stackDistances history trace, -1 ≤ distance := by
  induction trace with
  | nil => exact fun _ _ member => absurd member List.not_mem_nil
  | cons tag trace inductionHypothesis =>
    intro history
    rw [stackDistances, List.forall_mem_cons]
    exact ⟨neg_one_le_stackDistance history tag, inductionHypothesis _⟩

/-- Every reference has a distance but the first one to each line. -/
theorem countP_stackDistances (trace : List Address) : ∀ history,
    (stackDistances history trace).countP (· ≠ -1) + (trace.reverse ++ history).dedup.length =
      trace.length + history.dedup.length := by
  induction trace with
  | nil => exact fun history => rfl
  | cons tag trace inductionHypothesis =>
    intro history
    have rest := inductionHypothesis (tag :: history)
    rw [stackDistances, List.countP_cons, List.reverse_cons, List.append_assoc, List.length_cons]
    rw [show [tag] ++ history = tag :: history from rfl]
    by_cases seen : tag ∈ history
    · rw [if_pos (decide_eq_true ((stackDistance_ne_iff history tag).mpr seen))]
      rw [List.dedup_cons_of_mem seen] at rest
      omega
    · rw [if_neg fun counted => seen ((stackDistance_ne_iff history tag).mp (of_decide_eq_true counted))]
      rw [List.dedup_cons_of_notMem seen, List.length_cons] at rest
      omega

/-! ### The histogram of a trace -/

/-- What the histogram of distances is: each bucket counts its distances, and there are as many
buckets as the largest that is not empty needs. -/
structure HistogramOf (distances : List Int) (hist : List Nat) : Prop where
  entry : ∀ bucket, hist.getD bucket 0 = distances.countP fun distance => InBucket bucket distance
  size : (hist.length = 0 ∧ ∀ bucket, ∀ distance ∈ distances, ¬ InBucket bucket distance) ∨
    ∃ largest, hist.length = 1 + largest ∧ (∃ distance ∈ distances, InBucket largest distance) ∧
      ∀ bucket, (∃ distance ∈ distances, InBucket bucket distance) → bucket ≤ largest

theorem histogramOf_countDistances {distances : List Int}
    (known : ∀ distance ∈ distances, -1 ≤ distance) :
    HistogramOf distances (countDistances [] distances) := by
  have entry : ∀ bucket, (countDistances [] distances).getD bucket 0 =
      distances.countP fun distance => InBucket bucket distance := by
    intro bucket
    rw [← hits_eq_countP known bucket]
    exact (counted_countDistances bucket _ []).trans (Nat.zero_add _)
  have hit : ∀ bucket, (∃ distance ∈ distances, InBucket bucket distance) ↔
      (countDistances [] distances).getD bucket 0 ≠ 0 := by
    intro bucket
    rw [entry, ← Nat.pos_iff_ne_zero, List.countP_pos_iff]
    simp only [decide_eq_true_eq]
  refine ⟨entry, ?_⟩
  by_cases filled : countDistances [] distances = []
  · refine .inl ⟨by rw [filled]; rfl, fun bucket distance member inside => ?_⟩
    refine (hit bucket).mp ⟨distance, member, inside⟩ ?_
    rw [filled]
    rfl
  · have positive := List.length_pos_of_ne_nil filled
    have last := tight_countDistances distances
      (fun nonempty => absurd rfl nonempty : Tight []) filled
    refine .inr ⟨_, (Nat.add_sub_cancel' positive).symm, (hit _).mpr last, fun bucket some => ?_⟩
    by_contra beyond
    refine (hit bucket).mp some ?_
    rw [List.getD_eq_getElem?_getD, List.getElem?_eq_none (by omega)]
    rfl

/-- The entries sum up to the references that are not the first to their line. -/
theorem sum_countDistances_stackDistances (trace : List Address) :
    (countDistances [] (stackDistances [] trace)).sum + trace.dedup.length = trace.length := by
  have firsts := countP_stackDistances trace []
  rw [List.append_nil, ((List.reverse_perm trace).dedup).length_eq] at firsts
  rw [sum_countDistances, List.sum_nil, Nat.zero_add]
  exact firsts

namespace ThreadData

/-- The references of a buffer are recorded and drained, one buffer after the other. -/
def addBuffers (mask : Address) (data : ThreadData) (buffers : List (List Address)) :
    Option ThreadData :=
  run (fun data buffer => (buffer.foldl record data).addAddress mask) data buffers

theorem foldl_record (buffer : List Address) : ∀ data : ThreadData,
    buffer.foldl record data = { data with buffer := data.buffer ++ buffer } := by
  induction buffer with
  | nil =>
    intro data
    rw [List.append_nil]
    rfl
  | cons address buffer inductionHypothesis =>
    intro data
    rw [List.foldl_cons, inductionHypothesis, record, List.append_assoc]
    rfl

theorem counting_counting (data : ThreadData) (next final : ReuseDistance)
    (first second : List Int) : (data.counting next first).counting final second =
      data.counting final (first ++ second) := by
  rw [counting, counting, counting, countDistances_append]

/-- How the trace is cut into buffers makes no difference. -/
theorem addBuffers_eq (mask : Address) (buffers : List (List Address)) :
    ∀ {data : ThreadData} {history : List Address} {order : List Nat}, data.buffer = [] →
      data.reuseDist.Tracks history order → ∃ final order',
        data.addBuffers mask buffers = some (data.counting final
          (stackDistances history (buffers.flatten.map (· &&& mask)))) ∧
        final.Tracks ((buffers.flatten.map (· &&& mask)).reverse ++ history) order' := by
  induction buffers with
  | nil => exact fun _ tracks => ⟨_, _, rfl, tracks⟩
  | cons buffer buffers inductionHypothesis =>
    intro data history order drained tracks
    obtain ⟨next, nextOrder, ran, nextTracks⟩ :=
      @addAddress_eq { data with buffer } _ _ tracks mask
    obtain ⟨final, finalOrder, ranRest, finalTracks⟩ := @inductionHypothesis
      ({ data with buffer := [] }.counting next (stackDistances history (buffer.map (· &&& mask))))
      _ _ rfl nextTracks
    have handed : buffer.foldl record data = { data with buffer } := by
      rw [foldl_record, drained, List.nil_append]
    have same : ({ data with buffer := [] } : ThreadData) = data := by
      rw [← drained]
    refine ⟨final, finalOrder, ?_, ?_⟩
    · rw [addBuffers, run, handed, ran, Option.bind_some]
      refine ranRest.trans ?_
      rw [counting_counting, same, List.flatten_cons, List.map_append, stackDistances_append]
    · rw [List.flatten_cons, List.map_append, List.reverse_append, List.append_assoc]
      exact finalTracks

/-- A thread with a fresh tracker and an empty histogram counts the distances of its trace, in
whatever buffers the trace is handed to it. -/
theorem addBuffers_histogram (mask : Address) {data : ThreadData}
    (fresh : data.reuseDist = ReuseDistance.new 500 false false 100) (empty : data.curLruHist = [])
    (drained : data.buffer = []) (buffers : List (List Address)) :
    ∃ tracker distances after,
      data.reuseDist.lookupDistances (buffers.flatten.map (· &&& mask)) =
        some (tracker, distances) ∧
      data.addBuffers mask buffers = some after ∧
      HistogramOf distances after.curLruHist ∧
      after.curLruHist.sum + (buffers.flatten.map (· &&& mask)).dedup.length =
        buffers.flatten.length ∧
      ∀ buffers' : List (List Address), buffers'.flatten = buffers.flatten →
        ∃ after', data.addBuffers mask buffers' = some after' ∧
          after'.curLruHist = after.curLruHist := by
  have tracks : data.reuseDist.Tracks [] [] := by
    rw [fresh]
    exact ReuseDistance.tracks_new (by decide) false false 100
  obtain ⟨tracker, order, looked, -⟩ :=
    ReuseDistance.Tracks.lookup_run (buffers.flatten.map (· &&& mask)) tracks
  obtain ⟨final, finalOrder, ran, -⟩ := addBuffers_eq mask buffers drained tracks
  refine ⟨tracker, _, _, looked, ran, ?_, ?_, fun buffers' same => ?_⟩
  · rw [counting, empty]
    exact histogramOf_countDistances (neg_one_le_of_mem_stackDistances _ _)
  · rw [counting, empty]
    exact (sum_countDistances_stackDistances _).trans (List.length_map _)
  · obtain ⟨final', finalOrder', ran', -⟩ := addBuffers_eq mask buffers' drained tracks
    refine ⟨_, ran', ?_⟩
    rw [same]
    rfl

/-- Six references to three lines in three buffers, one of them empty. -/
theorem addBuffers_histogram_six : ∃ tracker distances after,
    (ThreadData.new 1 true 0).reuseDist.lookupDistances
        ([[0x40, 0x81], [], [0xc2, 0x80, 0x44, 0x40]].flatten.map (· &&& 0xffffffffffffffc0)) =
      some (tracker, distances) ∧
    (ThreadData.new 1 true 0).addBuffers 0xffffffffffffffc0
        [[0x40, 0x81], [], [0xc2, 0x80, 0x44, 0x40]] = some after ∧
    HistogramOf distances after.curLruHist ∧
    after.curLruHist.sum + ([[0x40, 0x81], [], [0xc2, 0x80, 0x44, 0x40]].flatten.map
        (· &&& 0xffffffffffffffc0)).dedup.length =
      [[0x40, 0x81], [], [0xc2, 0x80, 0x44, 0x40]].flatten.length ∧
    ∀ buffers' : List (List Address),
      buffers'.flatten = [[0x40, 0x81], [], [0xc2, 0x80, 0x44, 0x40]].flatten →
      ∃ after', (ThreadData.new 1 true 0).addBuffers 0xffffffffffffffc0 buffers' = some after' ∧
        after'.curLruHist = after.curLruHist :=
  addBuffers_histogram 0xffffffffffffffc0 rfl rfl rfl [[0x40, 0x81], [], [0xc2, 0x80, 0x44, 0x40]]

end ThreadData

end BarrierPoint
