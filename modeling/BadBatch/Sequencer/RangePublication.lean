import BadBatch.Sequencer.BitmapScan
import BadBatch.Lib.StepSys

/-!
# Range publication is the fold of single publications

`publish_range` as a whole function with every operation checked, as the bitmap scan is: `i64` and `usize` arithmetic,
shift amounts, indices into the words and the flags.

* `publishEach`: `publish` on every sequence of a range in order;
* `publishRangeTurn_eq`: no operation of a turn stops, and the turn is `publishRangeStep`;
* `publishRangeStep_eq_publishFrom`: one turn is `publish` on the sequences it steps over, bit for bit;
* `publishRange_eq`: the loop ends, and leaves what `publishEach` leaves;
* `Publishers`: any number of concurrent calls, one word operation at a time; `reach_finish` is the invariant that what is
  done and then what is left is always the same, because flips commute (`fetchXor_comm`).
-/

namespace BadBatch

open CheckedArith BitRange StepSys

namespace MultiProducerSequencer

variable (b : BufferSize) (m : MultiProducerSequencer)

/-- `publish` on the `n` sequences from `low` on, in order. -/
def publishFrom (low : Int) : Nat → MultiProducerSequencer
  | 0 => m
  | n + 1 => (publishFrom low n).setAvailable b (low + n)

/-- `publish` on `low`, `low + 1`, …, `high`. -/
def publishEach (low high : Int) : MultiProducerSequencer := m.publishFrom b low (high - low + 1).toNat

/-- `available_buffer[index].store(flag)` with its shift and its bounds check. -/
def storeFlagChecked (sequence : Int) : Except Fault MultiProducerSequencer := do
  let round ← sar (BitVec.ofInt 64 sequence) (indexShift b)
  let _ ← index m.availableBuffer (calculateIndex b sequence)
  return { m with
    availableBuffer := m.availableBuffer.set (calculateIndex b sequence) (round &&& 1#64).toNat }

/-- `if word_index < len { availability_at(word_index).fetch_xor(mask) }` with the bounds check that the unchecked access
leaves out. -/
def fetchXorChecked (wordIndex : Nat) (mask : BitVec 64) : Except Fault MultiProducerSequencer :=
  if wordIndex < m.availableBitmap.length then do
    let word ← index m.availableBitmap wordIndex
    return { m with availableBitmap := m.availableBitmap.set wordIndex (word ^^^ mask) }
  else .ok m

/-- One turn of the loop of `publish_range`: the store or the `fetch_xor`, and the next `sequence`. The range of the legacy
loop is inclusive and takes no addition. -/
def publishRangeTurn (sequence high : Int) : Except Fault (MultiProducerSequencer × Int) := do
  if m.availableBitmap.isEmpty then
    let m' ← m.storeFlagChecked b sequence
    return (m', sequence + 1)
  let (wordIndex, startBit) := calculateAvailabilityIndices b sequence
  let bitsRemainingInWord ← usizeSub 64 startBit
  let distance ← i64 (high - sequence)
  let sequencesRemaining ← i64 (distance + 1)
  let bitsToSet := min bitsRemainingInWord (asUsize sequencesRemaining)
  let mask ← rangeMaskExpr startBit bitsToSet
  let m' ← m.fetchXorChecked wordIndex mask
  let sequence' ← i64 (sequence + asI64 bitsToSet)
  return (m', sequence')

/-- The loop of `publish_range`. -/
def publishRangeLoop (high : Int) : Nat → MultiProducerSequencer → Int → Except Fault MultiProducerSequencer
  | 0, _, _ => .error .turns
  | turns + 1, m, sequence =>
    if sequence ≤ high then do
      let (m', sequence') ← m.publishRangeTurn b sequence high
      publishRangeLoop high turns m' sequence'
    else return m

/-- `publish_range`, as far as it touches the words and flags. -/
def publishRange (turns : Nat) (low high : Int) : Except Fault MultiProducerSequencer :=
  if low > high then .ok m else publishRangeLoop b high turns m low

variable {b : BufferSize} {m : MultiProducerSequencer}

/-! ## Flips -/

theorem fetchXor_zero (w : Nat) : m.fetchXor w 0#64 = m := by
  unfold fetchXor availabilityAt
  by_cases hw : w < m.availableBitmap.length
  · simp [hw]
  · simp [List.set_eq_of_length_le (not_lt.mp hw)]

/-- Two flips of one word are one flip. -/
theorem fetchXor_fetchXor (w : Nat) (x y : BitVec 64) : (m.fetchXor w x).fetchXor w y = m.fetchXor w (x ^^^ y) := by
  unfold fetchXor availabilityAt
  by_cases hw : w < m.availableBitmap.length
  · simp [hw, BitVec.xor_assoc]
  · simp [List.set_eq_of_length_le (not_lt.mp hw)]

/-- **Flips commute**, of one word or of two. -/
theorem fetchXor_comm (v w : Nat) (x y : BitVec 64) :
    (m.fetchXor v x).fetchXor w y = (m.fetchXor w y).fetchXor v x := by
  by_cases hvw : v = w
  · subst hvw
    rw [fetchXor_fetchXor, fetchXor_fetchXor, BitVec.xor_comm]
  · have h1 : (m.fetchXor v x).availabilityAt w = m.availabilityAt w := by
      simp [availabilityAt, fetchXor, List.getElem?_set_ne hvw]
    have h2 : (m.fetchXor w y).availabilityAt v = m.availabilityAt v := by
      simp [availabilityAt, fetchXor, List.getElem?_set_ne (Ne.symm hvw)]
    unfold fetchXor at *
    rw [h1, h2]
    simp [List.set_comm _ _ hvw]

/-- One more bit at the end of a mask. -/
theorem rangeMask_succ {a c : Nat} (h : a + (c + 1) ≤ 64) : rangeMask a (c + 1) = rangeMask a c ^^^ 1#64 <<< (a + c) := by
  apply BitVec.eq_of_getLsbD_eq
  intro i hi
  rw [one_shiftLeft_eq_rangeMask, BitVec.getLsbD_xor, getLsbD_rangeMask h, getLsbD_rangeMask (by omega),
    getLsbD_rangeMask (by omega)]
  by_cases h1 : a ≤ i ∧ i < a + c
  · have h2 : ¬(a + c ≤ i ∧ i < a + c + 1) := by omega
    have h3 : a ≤ i ∧ i < a + (c + 1) := by omega
    rw [decide_eq_true h1, decide_eq_false h2, decide_eq_true h3]
    rfl
  · by_cases h2 : a + c ≤ i ∧ i < a + c + 1
    · have h3 : a ≤ i ∧ i < a + (c + 1) := by omega
      rw [decide_eq_false h1, decide_eq_true h2, decide_eq_true h3]
      rfl
    · have h3 : ¬(a ≤ i ∧ i < a + (c + 1)) := by omega
      rw [decide_eq_false h1, decide_eq_false h2, decide_eq_false h3]
      rfl

theorem rangeMask_zero {a : Nat} : rangeMask a 0 = 0#64 := by simp [rangeMask]

/-- In bitmap mode `publish` is one flip. -/
theorem setAvailable_bitmap (h : Laid b m) (hs : ¬b.size < 64) (s : Int) :
    m.setAvailable b s = m.fetchXor (calculateIndex b s / 64) (1#64 <<< (calculateIndex b s % 64)) := by
  unfold setAvailable
  simp only [h.isEmpty, hs, decide_false, Bool.false_eq_true, if_false, publishBitmap, calculateAvailabilityIndices_eq,
    h.word_lt hs s, if_true]

/-! ## Runs of single publications -/

theorem publishFrom_laid (h : Laid b m) (low : Int) : ∀ n : Nat, Laid b (m.publishFrom b low n)
  | 0 => h
  | n + 1 => (setAvailable_marks (publishFrom_laid h low n) (low + n)).laid

/-- The first publications of a run, and then the others. -/
theorem publishFrom_add (low : Int) (k : Nat) :
    ∀ n : Nat, m.publishFrom b low (k + n) = (m.publishFrom b low k).publishFrom b (low + k) n
  | 0 => rfl
  | n + 1 => by
    rw [← Nat.add_assoc, publishFrom, publishFrom, publishFrom_add low k n]
    congr 1
    push_cast
    ring

/-- Inside one word a run of publications is one flip of the run's mask. -/
theorem publishFrom_word (h : Laid b m) (hs : ¬b.size < 64) (s : Int) :
    ∀ c : Nat, calculateIndex b s % 64 + c ≤ 64 →
      m.publishFrom b s c = m.fetchXor (calculateIndex b s / 64) (rangeMask (calculateIndex b s % 64) c)
  | 0, _ => by rw [publishFrom, rangeMask_zero, fetchXor_zero]
  | c + 1, hc => by
    have hidx := calculateIndex_add b (by omega) (s := s) (j := c) (by omega)
    have hword : (calculateIndex b s + c) / 64 = calculateIndex b s / 64 := by omega
    have hbit : (calculateIndex b s + c) % 64 = calculateIndex b s % 64 + c := by omega
    rw [publishFrom, setAvailable_bitmap (publishFrom_laid h s c) hs, publishFrom_word h hs s c (by omega), hidx, hword, hbit,
      fetchXor_fetchXor, rangeMask_succ hc]

/-- How many sequences one turn steps over. -/
def turnLength (b : BufferSize) (s high : Int) : Nat := if b.size < 64 then 1 else bitsToCheck b s high

theorem turnLength_bounds {s high : Int} (hle : s ≤ high) : 0 < turnLength b s high ∧ s + turnLength b s high ≤ high + 1 := by
  have hc := bitsToCheck_bounds (b := b) hle
  unfold turnLength
  split <;> omega

/-- **One turn is `publish` on the sequences it steps over.** -/
theorem publishRangeStep_eq_publishFrom (h : Laid b m) {s high : Int} (hle : s ≤ high) :
    m.publishRangeStep b s high = (m.publishFrom b s (turnLength b s high), s + turnLength b s high) := by
  unfold turnLength publishRangeStep
  by_cases hs : b.size < 64
  · simp only [h.isEmpty, hs, decide_true, if_true, publishFrom, setAvailable, Nat.cast_zero, add_zero, Nat.cast_one]
  · rw [if_neg hs, publishFrom_word h hs s _ (bitsToCheck_bounds hle).1]
    simp only [h.isEmpty, hs, decide_false, Bool.false_eq_true, if_false, calculateAvailabilityIndices_eq, h.word_lt hs s,
      if_true]

/-- A turn, and then `publish` on what it left, is `publish` on everything. -/
theorem publishEach_step (h : Laid b m) {s high : Int} (hle : s ≤ high) :
    (m.publishRangeStep b s high).1.publishEach b (m.publishRangeStep b s high).2 high = m.publishEach b s high := by
  have hbounds := turnLength_bounds (b := b) hle
  have hsplit : (high - s + 1).toNat = turnLength b s high + (high - (s + turnLength b s high) + 1).toNat := by omega
  rw [publishRangeStep_eq_publishFrom h hle]
  unfold publishEach
  rw [hsplit, publishFrom_add]

/-! ## The checked loop -/

theorem storeFlagChecked_ok (h : Laid b m) (hs : b.size < 64) (s : Int) : m.storeFlagChecked b s = .ok (m.storeFlag b s) := by
  have hshift : indexShift b < 64 := by rw [indexShift_eq]; have := b.fits; omega
  unfold storeFlagChecked
  rw [sar_ok hshift, ok_bind, index_ok (h.slot_lt hs s) 0, ok_bind]
  rfl

theorem fetchXorChecked_ok {w : Nat} {mask : BitVec 64} (hw : w < m.availableBitmap.length) :
    m.fetchXorChecked w mask = .ok (m.fetchXor w mask) := by
  unfold fetchXorChecked
  rw [if_pos hw, index_ok hw 0#64, ok_bind]
  rfl

/-- **No operation of a turn stops.** -/
theorem publishRangeTurn_eq (h : Laid b m) {s high : Int} (hle : s ≤ high) (hhi : InI64 (high + 1)) (hs : InI64 s)
    (hlen : InI64 (high - s + 1)) : m.publishRangeTurn b s high = .ok (m.publishRangeStep b s high) := by
  unfold publishRangeTurn publishRangeStep
  by_cases hb : b.size < 64
  · simp only [h.isEmpty, hb, decide_true, if_true, storeFlagChecked_ok h hb s, ok_bind]
    rfl
  · have hw := h.word_lt hb s
    have hstart : calculateIndex b s % 64 < 64 := Nat.mod_lt _ (by omega)
    obtain ⟨hc, hpos, hbound⟩ := bitsToCheck_bounds (b := b) hle
    have hbits : min (64 - calculateIndex b s % 64) (asUsize (high - s + 1)) = bitsToCheck b s high := by
      rw [asUsize_eq (by omega) hlen, bitsToCheck, calculateAvailabilityIndices_eq]
    have hmask := rangeMaskExpr_ok (a := calculateIndex b s % 64) (c := bitsToCheck b s high) hstart
    have hdist : InI64 (high - s) := by unfold InI64 at *; omega
    have hnext : InI64 (s + asI64 (bitsToCheck b s high)) := by
      rw [asI64_eq (by omega)]
      unfold InI64 at *
      omega
    simp only [h.isEmpty, hb, decide_false, Bool.false_eq_true, if_false, calculateAvailabilityIndices_eq, hw, if_true,
      usizeSub_ok hstart.le, i64_ok hdist, i64_ok hlen, ok_bind, hbits, hmask, fetchXorChecked_ok hw, i64_ok hnext]
    rw [asI64_eq (by omega)]
    rfl

/-- As many turns as there are sequences left end the loop, which then has published them. -/
theorem publishRangeLoop_eq {high : Int} (hhi : InI64 (high + 1)) :
    ∀ (turns : Nat) {m : MultiProducerSequencer} {s : Int}, Laid b m → InI64 s → InI64 (high - s + 1) →
      (high - s + 1).toNat < turns → publishRangeLoop b high turns m s = .ok (m.publishEach b s high) := by
  intro turns
  induction turns with
  | zero => intro m s _ _ _ ht; omega
  | succ turns ih =>
    intro m s h hs hlen ht
    unfold publishRangeLoop
    by_cases hle : s ≤ high
    · have hmarks := publishRangeStep_marks h hle
      rw [if_pos hle, publishRangeTurn_eq h hle hhi hs hlen, ok_bind, ← publishEach_step h hle]
      generalize m.publishRangeStep b s high = turn at hmarks ⊢
      obtain ⟨m', s'⟩ := turn
      obtain ⟨hmarks, hlt, hle'⟩ := hmarks
      simp only at hlt hle'
      exact ih hmarks.laid (by unfold InI64 at *; omega) (by unfold InI64 at *; omega) (by omega)
    · have hnone : (high - s + 1).toNat = 0 := by omega
      rw [if_neg hle, publishEach, hnone]
      rfl

theorem publishRange_eq (h : Laid b m) {low high : Int} (hl : InI64 low) (hmax : high < i64Max)
    (hlen : high - low < i64Max) {turns : Nat} (ht : (high - low + 1).toNat < turns) :
    m.publishRange b turns low high = .ok (m.publishEach b low high) := by
  unfold i64Max at hmax hlen
  unfold publishRange
  by_cases hgt : low > high
  · have hnone : (high - low + 1).toNat = 0 := by omega
    rw [if_pos hgt, publishEach, hnone]
    rfl
  · rw [if_neg hgt]
    exact publishRangeLoop_eq (by unfold InI64 at *; omega) turns h hl (by unfold InI64 at *; omega) ht

/-! ## Concurrent calls -/

/-- In bitmap mode `publish` is one flip, so two of them commute. -/
theorem setAvailable_comm (h : Laid b m) (hs : ¬b.size < 64) (s t : Int) :
    (m.setAvailable b s).setAvailable b t = (m.setAvailable b t).setAvailable b s := by
  have hs' := (setAvailable_marks h s).laid
  have ht' := (setAvailable_marks h t).laid
  rw [setAvailable_bitmap hs' hs, setAvailable_bitmap ht' hs, setAvailable_bitmap h hs, setAvailable_bitmap h hs, fetchXor_comm]

theorem publishFrom_setAvailable (h : Laid b m) (hs : ¬b.size < 64) (s t : Int) :
    ∀ n : Nat, (m.setAvailable b s).publishFrom b t n = (m.publishFrom b t n).setAvailable b s
  | 0 => rfl
  | n + 1 => by
    rw [publishFrom, publishFrom, publishFrom_setAvailable h hs s t n, setAvailable_comm (publishFrom_laid h t n) hs]

/-- Two runs of publications commute. -/
theorem publishFrom_comm (h : Laid b m) (hs : ¬b.size < 64) (s t : Int) (n : Nat) :
    ∀ c : Nat, (m.publishFrom b s c).publishFrom b t n = (m.publishFrom b t n).publishFrom b s c
  | 0 => rfl
  | c + 1 => by
    rw [publishFrom, publishFrom, publishFrom_setAvailable (publishFrom_laid h s c) hs, publishFrom_comm h hs s t n c]

theorem publishRangeStep_laid (h : Laid b m) {s high : Int} (hle : s ≤ high) : Laid b (m.publishRangeStep b s high).1 :=
  (publishRangeStep_marks h hle).1.laid

/-- **The word operations of two calls commute.** -/
theorem publishRangeStep_comm (h : Laid b m) (hs : ¬b.size < 64) {s high t high' : Int} (hle : s ≤ high) (hle' : t ≤ high') :
    ((m.publishRangeStep b s high).1.publishRangeStep b t high').1 =
      ((m.publishRangeStep b t high').1.publishRangeStep b s high).1 := by
  rw [publishRangeStep_eq_publishFrom (publishRangeStep_laid h hle) hle',
    publishRangeStep_eq_publishFrom (publishRangeStep_laid h hle') hle, publishRangeStep_eq_publishFrom h hle,
    publishRangeStep_eq_publishFrom h hle']
  exact publishFrom_comm h hs s t _ _

/-- The calls `(low, high)` one after the other. -/
def publishCalls (b : BufferSize) : MultiProducerSequencer → List (Int × Int) → MultiProducerSequencer
  | m, [] => m
  | m, (low, high) :: calls => publishCalls b (m.publishEach b low high) calls

/-- Concurrent calls of `publish_range`: for each where its loop is, as `(sequence, high)`. -/
structure Publishers where
  sequencer : MultiProducerSequencer
  calls : List (Int × Int)

/-- The next word operation of call `i`. -/
def Publishers.step (b : BufferSize) (w : Publishers) (i : Nat) : Option Publishers :=
  match w.calls[i]? with
  | some (sequence, high) =>
    if sequence ≤ high then
      let (m', sequence') := w.sequencer.publishRangeStep b sequence high
      some { sequencer := m', calls := w.calls.set i (sequence', high) }
    else none
  | none => none

/-- Every loop has ended. -/
def Publishers.Ended (w : Publishers) : Prop := ∀ c ∈ w.calls, c.2 < c.1

/-- A word operation of call `i`, and then the rest of every call, is every call. -/
theorem publishCalls_step (hs : ¬b.size < 64) {s high : Int} (hle : s ≤ high) :
    ∀ {calls : List (Int × Int)} {m : MultiProducerSequencer} {i : Nat}, Laid b m → calls[i]? = some (s, high) →
      publishCalls b (m.publishRangeStep b s high).1 (calls.set i ((m.publishRangeStep b s high).2, high)) =
        publishCalls b m calls
  | [], _, _, _, hi => by cases hi
  | c :: calls, m, 0, h, hi => by
    simp only [List.getElem?_cons_zero, Option.some.injEq] at hi
    subst hi
    rw [List.set_cons_zero, publishCalls, publishCalls, publishEach_step h hle]
  | (t, high') :: calls, m, i + 1, h, hi => by
    rw [List.getElem?_cons_succ] at hi
    have hstep := publishRangeStep_eq_publishFrom h hle
    have hlaid : Laid b (m.publishEach b t high') := publishFrom_laid h _ _
    have ih := publishCalls_step hs hle hlaid hi
    rw [publishRangeStep_eq_publishFrom hlaid hle] at ih
    rw [hstep, List.set_cons_succ, publishCalls, publishCalls, ← ih]
    congr 1
    exact publishFrom_comm h hs _ _ _ _

/-- **What is done, and then what is left, is always the same.** -/
theorem reach_finish (h : Laid b m) (hs : ¬b.size < 64) {calls : List (Int × Int)} {w : Publishers}
    (hr : Reach (Publishers.step b) (fun _ _ => True) ⟨m, calls⟩ w) :
    Laid b w.sequencer ∧ publishCalls b w.sequencer w.calls = publishCalls b m calls := by
  refine hr.inv (I := fun w => Laid b w.sequencer ∧ publishCalls b w.sequencer w.calls = publishCalls b m calls) ⟨h, rfl⟩ ?_
  intro w w' i hw _ hstep
  obtain ⟨hl, hfin⟩ := hw
  unfold Publishers.step at hstep
  cases hi : w.calls[i]? with
  | none => simp [hi] at hstep
  | some c =>
    obtain ⟨s, high⟩ := c
    simp only [hi] at hstep
    split at hstep
    · rename_i hle
      cases hstep
      exact ⟨publishRangeStep_laid hl hle, by rw [← hfin]; exact publishCalls_step hs hle hl hi⟩
    · cases hstep

/-- Calls that have ended have nothing left to do. -/
theorem publishCalls_ended : ∀ {calls : List (Int × Int)} {m : MultiProducerSequencer}, (∀ c ∈ calls, c.2 < c.1) →
    publishCalls b m calls = m
  | [], _, _ => rfl
  | (low, high) :: calls, m, h => by
    have hnone : (high - low + 1).toNat = 0 := by have := h (low, high) List.mem_cons_self; simp only at this; omega
    rw [publishCalls, publishEach, hnone]
    exact publishCalls_ended fun c hc => h c (List.mem_cons_of_mem _ hc)

/-- The ranges that the arithmetic of `publish_range` is made for. -/
def RangeFits (low high : Int) : Prop := InI64 low ∧ InI64 high ∧ high < i64Max ∧ high - low < i64Max

instance (low high : Int) : Decidable (RangeFits low high) := inferInstanceAs (Decidable (_ ∧ _))

/-- A range that has been begun still fits. -/
theorem RangeFits.step {s high : Int} (h : RangeFits s high) (hle : s ≤ high) :
    RangeFits (s + turnLength b s high) high := by
  have hbounds := turnLength_bounds (b := b) hle
  obtain ⟨h1, h2, h3, h4⟩ := h
  unfold RangeFits InI64 i64Max at *
  omega

/-- No word operation of a range that fits stops. -/
theorem publishRangeTurn_ok (h : Laid b m) {s high : Int} (hf : RangeFits s high) (hle : s ≤ high) :
    m.publishRangeTurn b s high = .ok (m.publishRangeStep b s high) := by
  obtain ⟨h1, h2, h3, h4⟩ := hf
  unfold i64Max at h3 h4
  exact publishRangeTurn_eq h hle (by unfold InI64 at *; omega) h1 (by unfold InI64 at *; omega)

/-- In every run the loops stay in ranges that fit. -/
theorem reach_fits (h : Laid b m) (hs : ¬b.size < 64) {calls : List (Int × Int)} (hc : ∀ c ∈ calls, RangeFits c.1 c.2)
    {w : Publishers} (hr : Reach (Publishers.step b) (fun _ _ => True) ⟨m, calls⟩ w) : ∀ c ∈ w.calls, RangeFits c.1 c.2 := by
  induction hr with
  | refl => exact hc
  | @tail w w' i hr _ hstep ih =>
    have hl := (reach_finish h hs hr).1
    intro c hmem
    unfold Publishers.step at hstep
    cases hi : w.calls[i]? with
    | none => simp [hi] at hstep
    | some d =>
      obtain ⟨s, high⟩ := d
      simp only [hi] at hstep
      split at hstep
      · rename_i hle
        cases hstep
        rcases List.mem_or_eq_of_mem_set hmem with hold | hnew
        · exact ih c hold
        · rw [hnew, publishRangeStep_eq_publishFrom hl hle]
          exact (ih _ (List.mem_of_getElem? hi)).step hle
      · cases hstep

/-- **Range publication is the fold of single publications.** The loop ends, no operation of it stops, and it leaves the
words and flags that `publish` on each sequence in order leaves. On the bitmap the word operations of any two calls
commute, and whatever the order in which those of concurrent calls come, none stops, and the calls end with the same
words as if they had run one after the other. -/
theorem publishRange_eq_publishEach (b : BufferSize) (m : MultiProducerSequencer) (hl : Laid b m) (low high : Int)
    (hf : RangeFits low high) :
    (∀ turns, (high - low + 1).toNat < turns → m.publishRange b turns low high = .ok (m.publishEach b low high)) ∧
    (64 ≤ b.size →
      (∀ s, (calculateAvailabilityIndices b s).1 < m.availableBitmap.length ∧ (calculateAvailabilityIndices b s).2 < 64) ∧
      (∀ s h t h', s ≤ h → t ≤ h' → ((m.publishRangeStep b s h).1.publishRangeStep b t h').1 =
        ((m.publishRangeStep b t h').1.publishRangeStep b s h).1) ∧
      ∀ calls w, (∀ c ∈ calls, RangeFits c.1 c.2) → Reach (Publishers.step b) (fun _ _ => True) ⟨m, calls⟩ w →
        (∀ c ∈ w.calls, c.1 ≤ c.2 →
          w.sequencer.publishRangeTurn b c.1 c.2 = .ok (w.sequencer.publishRangeStep b c.1 c.2)) ∧
        (w.Ended → w.sequencer = publishCalls b m calls)) := by
  refine ⟨fun turns ht => publishRange_eq hl hf.1 hf.2.2.1 hf.2.2.2 ht, fun hs => ⟨fun s => ?_, fun s h t h' hle hle' => ?_,
    fun calls w hc hr => ?_⟩⟩
  · rw [calculateAvailabilityIndices_eq]
    exact ⟨hl.word_lt (by omega) s, Nat.mod_lt _ (by omega)⟩
  · exact publishRangeStep_comm hl (by omega) hle hle'
  · obtain ⟨hlaid, hfin⟩ := reach_finish hl (by omega) hr
    refine ⟨fun c hmem hle => publishRangeTurn_ok hlaid (reach_fits hl (by omega) hc hr c hmem) hle, fun hend => ?_⟩
    rw [← hfin]
    exact (publishCalls_ended hend).symm

/-- A range across the end of a ring of 64 slots. -/
theorem publishRange_eq_publishEach_wrap :
    (∀ turns, (70 - -3 + 1 : Int).toNat < turns → (new ⟨6, by decide⟩).publishRange ⟨6, by decide⟩ turns (-3) 70 =
      .ok ((new ⟨6, by decide⟩).publishEach ⟨6, by decide⟩ (-3) 70)) ∧
    (64 ≤ BufferSize.size ⟨6, by decide⟩ →
      (∀ s, (calculateAvailabilityIndices ⟨6, by decide⟩ s).1 < (new ⟨6, by decide⟩).availableBitmap.length ∧
        (calculateAvailabilityIndices ⟨6, by decide⟩ s).2 < 64) ∧
      (∀ s h t h', s ≤ h → t ≤ h' →
        (((new ⟨6, by decide⟩).publishRangeStep ⟨6, by decide⟩ s h).1.publishRangeStep ⟨6, by decide⟩ t h').1 =
          (((new ⟨6, by decide⟩).publishRangeStep ⟨6, by decide⟩ t h').1.publishRangeStep ⟨6, by decide⟩ s h).1) ∧
      ∀ calls w, (∀ c ∈ calls, RangeFits c.1 c.2) →
        Reach (Publishers.step ⟨6, by decide⟩) (fun _ _ => True) ⟨new ⟨6, by decide⟩, calls⟩ w →
        (∀ c ∈ w.calls, c.1 ≤ c.2 → w.sequencer.publishRangeTurn ⟨6, by decide⟩ c.1 c.2 =
          .ok (w.sequencer.publishRangeStep ⟨6, by decide⟩ c.1 c.2)) ∧
        (w.Ended → w.sequencer = publishCalls ⟨6, by decide⟩ (new ⟨6, by decide⟩) calls)) :=
  publishRange_eq_publishEach ⟨6, by decide⟩ (new ⟨6, by decide⟩) laid_new (-3) 70 (by decide)

end MultiProducerSequencer

end BadBatch
