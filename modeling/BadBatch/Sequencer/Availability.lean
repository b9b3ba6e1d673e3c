import BadBatch.Sequence
import BadBatch.Lib.BitRange
import BadBatch.Lib.RingWindow

/-!
# Availability tracking of the multi-producer sequencer

`MultiProducerSequencer` and the functions that mark and test published sequences. Rings of at least 64 slots keep one
parity bit per slot in 64-bit words and flip it on every publication; smaller rings store the parity as a flag per slot.

Every result goes through `slotFlag`, the flag of one slot in either representation:

* `calculateIndex_eq`, `calculateAvailabilityFlag_eq`: the bit arithmetic is `s % N` and the parity of `s / N`;
* `isAvailableInternal_iff`: a sequence is available when the flag of its slot is the parity of its lap;
* `setAvailable_marks`, `publishRangeStep_marks`: what one atomic publication does to the flags (`Marks`).
-/

namespace BadBatch

open BitRange RingWindow

/-- The mutable fields of `MultiProducerSequencer`. `buffer_size`, `index_mask` and `index_shift` are functions of the
ring size. -/
structure MultiProducerSequencer where
  cursor : Int
  gatingSequences : List Nat
  availableBitmap : List (BitVec 64)
  cachedGatingSequence : Int
  availableBuffer : List Int
  poisoned : Bool
  closed : Bool
  deriving DecidableEq, Repr

/-- `index_mask` -/
def indexMask (b : BufferSize) : BitVec 64 := BitVec.ofNat 64 (b.size - 1)

/-- `index_shift`: `buffer_size.trailing_zeros()` -/
def indexShift (b : BufferSize) : Nat := (BitVec.ofNat 64 b.size).ctz.toNat

namespace MultiProducerSequencer

/-- `MultiProducerSequencer::new` -/
def new (b : BufferSize) : MultiProducerSequencer where
  cursor := initialCursorValue
  gatingSequences := []
  availableBitmap := if 64 ≤ b.size then List.replicate (b.size / 64) (BitVec.allOnes 64) else []
  cachedGatingSequence := -1
  availableBuffer := if b.size < 64 then List.replicate b.size (-1) else []
  poisoned := false
  closed := false

variable (b : BufferSize) (m : MultiProducerSequencer)

/-- `calculate_index`: the cast to `usize` keeps the two's complement bits. -/
def calculateIndex (sequence : Int) : Nat := (BitVec.ofInt 64 sequence &&& indexMask b).toNat

/-- `calculate_availability_flag` -/
def calculateAvailabilityFlag (sequence : Int) : Int :=
  (((BitVec.ofInt 64 sequence).sshiftRight (indexShift b)) &&& 1#64).toNat

/-- `calculate_round_flag` -/
def calculateRoundFlag (sequence : Int) : BitVec 64 := ((BitVec.ofInt 64 sequence).sshiftRight (indexShift b)) &&& 1#64

/-- `calculate_availability_indices` -/
def calculateAvailabilityIndices (sequence : Int) : Nat × Nat :=
  let slotIndex := (BitVec.ofInt 64 sequence &&& indexMask b).toNat
  (slotIndex >>> 6, slotIndex &&& 63)

/-- `availability_at(index).load` -/
def availabilityAt (index : Nat) : BitVec 64 := m.availableBitmap.getD index 0#64

/-- `availability_at(index).fetch_xor(mask)` -/
def fetchXor (index : Nat) (mask : BitVec 64) : MultiProducerSequencer :=
  { m with availableBitmap := m.availableBitmap.set index (m.availabilityAt index ^^^ mask) }

/-- `publish_bitmap` -/
def publishBitmap (sequence : Int) : MultiProducerSequencer :=
  let (availabilityIndex, bitIndex) := calculateAvailabilityIndices b sequence
  if availabilityIndex < m.availableBitmap.length then m.fetchXor availabilityIndex (1#64 <<< bitIndex) else m

/-- `available_buffer[index].store(flag)` -/
def storeFlag (sequence : Int) : MultiProducerSequencer :=
  { m with
    availableBuffer := m.availableBuffer.set (calculateIndex b sequence) (calculateAvailabilityFlag b sequence) }

/-- `set_available` -/
def setAvailable (sequence : Int) : MultiProducerSequencer :=
  if m.availableBitmap.isEmpty then m.storeFlag b sequence else m.publishBitmap b sequence

/-- `is_bitmap_available` -/
def isBitmapAvailable (sequence : Int) : Bool :=
  let (availabilityIndex, bitIndex) := calculateAvailabilityIndices b sequence
  if availabilityIndex < m.availableBitmap.length then
    let currentValue := m.availabilityAt availabilityIndex
    let actualFlag := (currentValue >>> bitIndex) &&& 1#64
    actualFlag == calculateRoundFlag b sequence
  else false

/-- `is_available_internal`, which is also `is_available` -/
def isAvailableInternal (sequence : Int) : Bool :=
  if m.availableBitmap.isEmpty then
    m.availableBuffer.getD (calculateIndex b sequence) 0 == calculateAvailabilityFlag b sequence
  else m.isBitmapAvailable b sequence

/-- The bits that one word operation of `publish_range` and one load of the bitmap scan cover from `sequence` on. -/
def bitsToCheck (sequence high : Int) : Nat :=
  let startBit := (calculateAvailabilityIndices b sequence).2
  min (64 - startBit) (high - sequence + 1).toNat

/-- One turn of the loop of `publish_range`: one store or one `fetch_xor`, and the next value of `sequence`. -/
def publishRangeStep (sequence high : Int) : MultiProducerSequencer × Int :=
  if m.availableBitmap.isEmpty then (m.storeFlag b sequence, sequence + 1)
  else
    let (wordIndex, startBit) := calculateAvailabilityIndices b sequence
    let bitsToSet := bitsToCheck b sequence high
    let mask := rangeMask startBit bitsToSet
    (if wordIndex < m.availableBitmap.length then m.fetchXor wordIndex mask else m, sequence + bitsToSet)

/-- One load of `get_highest_published_sequence_legacy` or `get_highest_published_sequence_bitmap` at `sequence`: the loop
goes on at `.inl sequence'` or returns `.inr r`. -/
def getHighestPublishedSequenceStep (sequence availableSequence : Int) : Int ⊕ Int :=
  if m.availableBitmap.isEmpty then
    if m.isAvailableInternal b sequence then .inl (sequence + 1) else .inr (sequence - 1)
  else
    let (wordIndex, startBit) := calculateAvailabilityIndices b sequence
    if wordIndex < m.availableBitmap.length then
      let word := m.availabilityAt wordIndex
      let bits := bitsToCheck b sequence availableSequence
      let expectedWord := if calculateRoundFlag b sequence = 0#64 then 0#64 else BitVec.allOnes 64
      let mismatches := (word ^^^ expectedWord) &&& rangeMask startBit bits
      if mismatches ≠ 0#64 then
        let firstMismatch := mismatches.ctz.toNat
        .inr (sequence + (firstMismatch - startBit : Nat) - 1)
      else .inl (sequence + bits)
    else .inr (sequence - 1)

end MultiProducerSequencer

/-! ## The bit arithmetic -/

open MultiProducerSequencer

section Arithmetic

variable (b : BufferSize)

theorem indexShift_eq : indexShift b = b.shift := by
  have hs := b.fits
  have hpos : 2 ^ b.shift < 2 ^ 64 := Nat.pow_lt_pow_right (by omega) (by omega)
  have hbit : ∀ i, (BitVec.ofNat 64 b.size).getLsbD i = decide (b.shift = i) := by
    intro i
    rw [← BitVec.testBit_toNat, BitVec.toNat_ofNat, BufferSize.size, Nat.mod_eq_of_lt hpos, Nat.testBit_two_pow]
  have hne : BitVec.ofNat 64 b.size ≠ 0#64 := by
    intro h
    have := hbit b.shift
    rw [h] at this
    simp at this
  have h1 := BitVec.getLsbD_true_ctz_of_ne_zero hne
  rw [hbit] at h1
  exact (of_decide_eq_true h1).symm

theorem calculateIndex_eq (s : Int) : calculateIndex b s = (s % b.sizeI64).toNat := by
  have hs := b.fits
  have hle : 2 ^ b.shift ≤ 2 ^ 64 := Nat.pow_le_pow_right (by omega) (by omega)
  have hd : ((2 ^ b.shift : Nat) : Int) ∣ ((2 ^ 64 : Nat) : Int) :=
    Int.natCast_dvd_natCast.mpr (pow_dvd_pow 2 (by omega))
  have hm : 2 ^ b.shift - 1 < 2 ^ 64 := by have := Nat.two_pow_pos b.shift; omega
  unfold calculateIndex indexMask BufferSize.sizeI64 BufferSize.size
  rw [BitVec.toNat_and, BitVec.toNat_ofInt, BitVec.toNat_ofNat, Nat.mod_eq_of_lt hm, Nat.and_two_pow_sub_one_eq_mod]
  have hnn : (0 : Int) ≤ s % ((2 ^ 64 : Nat) : Int) := Int.emod_nonneg _ (by norm_num)
  have hcast : (((s % ((2 ^ 64 : Nat) : Int)).toNat % 2 ^ b.shift : Nat) : Int) = s % ((2 ^ b.shift : Nat) : Int) := by
    rw [Int.natCast_mod, Int.toNat_of_nonneg hnn, Int.emod_emod_of_dvd _ hd]
  omega

theorem calculateIndex_lt (s : Int) : calculateIndex b s < b.size := by
  rw [calculateIndex_eq]
  have h0 := Int.emod_nonneg s (ne_of_gt b.sizeI64_pos)
  have h1 := Int.emod_lt_of_pos s b.sizeI64_pos
  unfold BufferSize.sizeI64 at *
  omega

theorem calculateIndex_cast (s : Int) : (calculateIndex b s : Int) = s % b.sizeI64 := by
  rw [calculateIndex_eq]
  exact Int.toNat_of_nonneg (Int.emod_nonneg s (ne_of_gt b.sizeI64_pos))

/-- Sequences less than a lap apart share a slot only when they are equal. -/
theorem eq_of_calculateIndex_eq {s t : Int} (h : calculateIndex b s = calculateIndex b t) (hst : s < t + b.sizeI64)
    (hts : t < s + b.sizeI64) : s = t := by
  refine eq_of_emod_eq (n := b.sizeI64) ?_ hst hts
  rw [← calculateIndex_cast, ← calculateIndex_cast, h]

theorem calculateIndex_sub (s : Int) : calculateIndex b (s - b.sizeI64) = calculateIndex b s := by
  rw [calculateIndex_eq, calculateIndex_eq, emod_sub_self]

/-- Bit `k` of the two's complement word of `s` is the parity of `s / 2 ^ k`. -/
theorem getLsbD_ofInt_eq {k : Nat} (hk : k < 64) (s : Int) :
    (BitVec.ofInt 64 s).getLsbD k = decide (s / ((2 ^ k : Nat) : Int) % 2 = 1) := by
  rw [← BitVec.testBit_toNat, BitVec.toNat_ofInt, Nat.testBit_eq_decide_div_mod_eq]
  have hnn : (0 : Int) ≤ s % ((2 ^ 64 : Nat) : Int) := Int.emod_nonneg _ (by norm_num)
  have hsplit : ((2 ^ 64 : Nat) : Int) = ((2 ^ k : Nat) : Int) * (2 * ((2 ^ (63 - k) : Nat) : Int)) := by
    have : 2 ^ 64 = 2 ^ k * (2 * 2 ^ (63 - k)) := by
      rw [← pow_succ', ← pow_add]; congr 1; omega
    exact_mod_cast this
  have hq : s % ((2 ^ 64 : Nat) : Int) / ((2 ^ k : Nat) : Int) % 2 = s / ((2 ^ k : Nat) : Int) % 2 := by
    have hmod : s % ((2 ^ 64 : Nat) : Int) = s + ((2 ^ k : Nat) : Int) *
        (2 * -(((2 ^ (63 - k) : Nat) : Int) * (s / ((2 ^ 64 : Nat) : Int)))) := by
      rw [Int.emod_def]
      nth_rewrite 1 [hsplit]
      ring
    rw [hmod, Int.add_mul_ediv_left _ _ (by positivity), Int.add_mul_emod_self_left]
  have hcast : (((s % ((2 ^ 64 : Nat) : Int)).toNat / 2 ^ k % 2 : Nat) : Int) = s / ((2 ^ k : Nat) : Int) % 2 := by
    rw [← hq, Int.natCast_mod, Int.natCast_div, Int.toNat_of_nonneg hnn]
    rfl
  congr 1
  apply propext
  omega

theorem calculateRoundFlag_eq (s : Int) :
    calculateRoundFlag b s = if s / b.sizeI64 % 2 = 1 then 1#64 else 0#64 := by
  have hs := b.fits
  have hbit : ∀ i, (calculateRoundFlag b s).getLsbD i = (decide (i = 0) && decide (s / b.sizeI64 % 2 = 1)) := by
    intro i
    unfold calculateRoundFlag
    rw [BitVec.getLsbD_and, BitVec.getLsbD_one, indexShift_eq, BitVec.getLsbD_sshiftRight]
    by_cases hi : i = 0
    · subst hi
      have : b.shift + 0 < 64 := by omega
      simp only [this, if_true, getLsbD_ofInt_eq this]
      simp [BufferSize.sizeI64, BufferSize.size]
    · simp [hi]
  apply BitVec.eq_of_getLsbD_eq
  intro i _
  rw [hbit]
  split <;> rename_i h
  · simp [h, BitVec.getLsbD_one]
  · simp [h]

/-- The legacy flag is the parity of the lap. -/
theorem calculateAvailabilityFlag_eq (s : Int) : calculateAvailabilityFlag b s = s / b.sizeI64 % 2 := by
  have h : calculateAvailabilityFlag b s = ((calculateRoundFlag b s).toNat : Int) := rfl
  rw [h, calculateRoundFlag_eq]
  split <;> simp <;> omega

/-- The word and the bit of a slot. -/
theorem calculateAvailabilityIndices_eq (s : Int) :
    calculateAvailabilityIndices b s = (calculateIndex b s / 64, calculateIndex b s % 64) := by
  unfold calculateAvailabilityIndices calculateIndex
  simp only [Nat.shiftRight_eq_div_pow]
  rw [show (63 : Nat) = 2 ^ 6 - 1 from rfl, Nat.and_two_pow_sub_one_eq_mod]

theorem sixtyFour_dvd_size (h : 64 ≤ b.size) : 64 ∣ b.size := by
  have hs : 6 ≤ b.shift := by
    by_contra hlt
    have : b.size ≤ 2 ^ 5 := Nat.pow_le_pow_right (by omega) (by omega)
    omega
  exact pow_dvd_pow 2 hs

/-- Inside one aligned block of 64 sequences the slots are consecutive. -/
theorem calculateIndex_add (h : 64 ≤ b.size) {s : Int} {j : Nat} (hj : calculateIndex b s % 64 + j < 64) :
    calculateIndex b (s + j) = calculateIndex b s + j := by
  obtain ⟨q, hq⟩ := sixtyFour_dvd_size b h
  have hlt := calculateIndex_lt b s
  have hin : calculateIndex b s + j < b.size := by omega
  have hcast : (calculateIndex b (s + j) : Int) = (calculateIndex b s : Int) + j :=
    calc (calculateIndex b (s + j) : Int) = (s + j) % b.sizeI64 := calculateIndex_cast b _
      _ = (s % b.sizeI64 + j) % b.sizeI64 := (Int.emod_add_emod s b.sizeI64 j).symm
      _ = ((calculateIndex b s : Int) + j) % b.sizeI64 := by rw [calculateIndex_cast]
      _ = (calculateIndex b s : Int) + j :=
        Int.emod_eq_of_lt (by omega) (by unfold BufferSize.sizeI64; exact_mod_cast hin)
  omega

/-- Inside one aligned block of 64 sequences the lap is the same. -/
theorem lap_add (h : 64 ≤ b.size) {s : Int} {j : Nat} (hj : calculateIndex b s % 64 + j < 64) :
    (s + j) / b.sizeI64 = s / b.sizeI64 := by
  have h1 := Int.emod_add_mul_ediv (s + j) b.sizeI64
  have h2 := Int.emod_add_mul_ediv s b.sizeI64
  have h3 : (s + j) % b.sizeI64 = s % b.sizeI64 + j := by
    rw [← calculateIndex_cast, ← calculateIndex_cast, calculateIndex_add b h hj]
    push_cast; rfl
  have h4 : b.sizeI64 * ((s + j) / b.sizeI64) = b.sizeI64 * (s / b.sizeI64) := by linarith
  exact Int.eq_of_mul_eq_mul_left (ne_of_gt b.sizeI64_pos) h4

end Arithmetic

/-! ## The flag of one slot -/

namespace MultiProducerSequencer

/-- The flag of slot `i`, in either representation. -/
def slotFlag (m : MultiProducerSequencer) (i : Nat) : Int :=
  if m.availableBitmap.isEmpty then m.availableBuffer.getD i 0
  else if (m.availabilityAt (i / 64)).getLsbD (i % 64) then 1 else 0

/-- The arrays have the lengths that `new` gives them: one of the two is in use. -/
structure Laid (b : BufferSize) (m : MultiProducerSequencer) : Prop where
  bitmap : m.availableBitmap.length = if 64 ≤ b.size then b.size / 64 else 0
  buffer : m.availableBuffer.length = if b.size < 64 then b.size else 0

/-- `m'` is `m` with the sequences `lo ≤ t < hi` marked by one atomic operation each at most. -/
structure Marks (b : BufferSize) (m m' : MultiProducerSequencer) (lo hi : Int) : Prop where
  marked : ∀ t, lo ≤ t → t < hi → m'.slotFlag (calculateIndex b t) =
    if b.size < 64 then t / b.sizeI64 % 2 else 1 - m.slotFlag (calculateIndex b t)
  other : ∀ i, i < b.size → (∀ t, lo ≤ t → t < hi → calculateIndex b t ≠ i) → m'.slotFlag i = m.slotFlag i
  laid : Laid b m'
  frame : m' = { m with availableBitmap := m'.availableBitmap, availableBuffer := m'.availableBuffer }

variable {b : BufferSize} {m : MultiProducerSequencer}

theorem laid_new : Laid b (new b) := by
  constructor
  · simp only [new]; split <;> simp
  · simp only [new]; split <;> simp

theorem Laid.isEmpty (h : Laid b m) : m.availableBitmap.isEmpty = decide (b.size < 64) := by
  have hl := h.bitmap
  by_cases hs : b.size < 64
  · rw [if_neg (by omega)] at hl
    simp [List.eq_nil_of_length_eq_zero hl, hs]
  · rw [if_pos (by omega)] at hl
    have : m.availableBitmap ≠ [] := by
      intro e
      rw [e] at hl
      simp at hl
      omega
    simp [hs, this]

theorem Laid.word_lt (h : Laid b m) (hs : ¬b.size < 64) (s : Int) :
    calculateIndex b s / 64 < m.availableBitmap.length := by
  rw [h.bitmap, if_pos (by omega)]
  obtain ⟨q, hq⟩ := sixtyFour_dvd_size b (by omega)
  have := calculateIndex_lt b s
  omega

theorem Laid.slot_lt (h : Laid b m) (hs : b.size < 64) (s : Int) :
    calculateIndex b s < m.availableBuffer.length := by
  rw [h.buffer, if_pos hs]
  exact calculateIndex_lt b s

theorem slotFlag_legacy (h : Laid b m) (hs : b.size < 64) (i : Nat) : m.slotFlag i = m.availableBuffer.getD i 0 := by
  simp [slotFlag, h.isEmpty, hs]

theorem slotFlag_bitmap (h : Laid b m) (hs : ¬b.size < 64) (i : Nat) :
    m.slotFlag i = if (m.availabilityAt (i / 64)).getLsbD (i % 64) then 1 else 0 := by
  simp [slotFlag, h.isEmpty, hs]

/-- The initial flag: no lap before the first, parity one in the bitmap. -/
theorem slotFlag_new {i : Nat} (hi : i < b.size) : (new b).slotFlag i = if b.size < 64 then -1 else 1 := by
  split <;> rename_i hs
  · rw [slotFlag_legacy laid_new hs]
    simp [new, hs, hi]
  · rw [slotFlag_bitmap laid_new hs]
    obtain ⟨q, hq⟩ := sixtyFour_dvd_size b (by omega)
    have h1 : i / 64 < b.size / 64 := by omega
    have h2 : 64 ≤ b.size := by omega
    have h3 : i % 64 < 64 := Nat.mod_lt _ (by omega)
    have hw : (new b).availabilityAt (i / 64) = BitVec.allOnes 64 := by
      simp [availabilityAt, new, h2, h1]
    rw [hw, BitVec.getLsbD_allOnes]
    simp [h3]

/-- The lowest bit of a shifted word. -/
theorem shiftRight_and_one (x : BitVec 64) (i : Nat) : (x >>> i) &&& 1#64 = if x.getLsbD i then 1#64 else 0#64 := by
  apply BitVec.eq_of_getLsbD_eq
  intro j hj
  rw [BitVec.getLsbD_and, BitVec.getLsbD_ushiftRight, BitVec.getLsbD_one]
  by_cases h0 : j = 0
  · subst h0; split <;> simp_all
  · split <;> simp [h0, BitVec.getLsbD_one]

/-- A sequence is available when its slot carries the parity of its lap. -/
theorem isAvailableInternal_iff (h : Laid b m) (s : Int) :
    m.isAvailableInternal b s = true ↔ m.slotFlag (calculateIndex b s) = s / b.sizeI64 % 2 := by
  unfold isAvailableInternal
  rw [h.isEmpty]
  by_cases hs : b.size < 64
  · simp only [hs, decide_true, if_true, beq_iff_eq, calculateAvailabilityFlag_eq, slotFlag_legacy h hs]
  · have hp := Int.emod_two_eq_zero_or_one (s / b.sizeI64)
    simp only [hs, decide_false, Bool.false_eq_true, if_false, isBitmapAvailable, calculateAvailabilityIndices_eq,
      h.word_lt hs s, if_true, shiftRight_and_one, calculateRoundFlag_eq, slotFlag_bitmap h hs, beq_iff_eq]
    rcases hp with hp | hp <;> rw [hp] <;> split <;> simp_all

/-! ## Publications -/

/-- A legacy store marks its sequence. -/
theorem storeFlag_marks (h : Laid b m) (hs : b.size < 64) (s : Int) : Marks b m (m.storeFlag b s) s (s + 1) := by
  have hl : Laid b (m.storeFlag b s) := ⟨h.bitmap, by simpa [storeFlag] using h.buffer⟩
  have hlt := h.slot_lt hs s
  refine ⟨fun t h1 h2 => ?_, fun i hi hne => ?_, hl, rfl⟩
  · have ht : t = s := by omega
    subst ht
    rw [if_pos hs, slotFlag_legacy hl hs]
    simp [storeFlag, hlt, calculateAvailabilityFlag_eq]
  · have hne' := hne s le_rfl (by omega)
    rw [slotFlag_legacy hl hs, slotFlag_legacy h hs]
    simp [storeFlag, List.getElem?_set_ne hne']

/-- A `fetch_xor` with a range mask flips exactly the flags of the range. -/
theorem fetchXor_marks (h : Laid b m) (hs : ¬b.size < 64) (s : Int) {c : Nat}
    (hc : calculateIndex b s % 64 + c ≤ 64) :
    Marks b m (m.fetchXor (calculateIndex b s / 64) (rangeMask (calculateIndex b s % 64) c)) s (s + c) := by
  have hl : Laid b (m.fetchXor (calculateIndex b s / 64) (rangeMask (calculateIndex b s % 64) c)) :=
    ⟨by simpa [fetchXor] using h.bitmap, h.buffer⟩
  have hlt := h.word_lt hs s
  have hword : ∀ i, (m.fetchXor (calculateIndex b s / 64) (rangeMask (calculateIndex b s % 64) c)).slotFlag i =
      if i / 64 = calculateIndex b s / 64 ∧ calculateIndex b s % 64 ≤ i % 64 ∧ i % 64 < calculateIndex b s % 64 + c
      then 1 - m.slotFlag i else m.slotFlag i := by
    intro i
    rw [slotFlag_bitmap hl hs, slotFlag_bitmap h hs]
    by_cases hw : i / 64 = calculateIndex b s / 64
    · have : (m.fetchXor (calculateIndex b s / 64) (rangeMask (calculateIndex b s % 64) c)).availabilityAt (i / 64) =
          m.availabilityAt (i / 64) ^^^ rangeMask (calculateIndex b s % 64) c := by
        simp [availabilityAt, fetchXor, hw, hlt]
      rw [this, BitVec.getLsbD_xor, getLsbD_rangeMask hc]
      by_cases hr : calculateIndex b s % 64 ≤ i % 64 ∧ i % 64 < calculateIndex b s % 64 + c
      · cases (m.availabilityAt (i / 64)).getLsbD (i % 64) <;> simp [hw, hr]
      · cases (m.availabilityAt (i / 64)).getLsbD (i % 64) <;> simp [hw, hr]
    · have : (m.fetchXor (calculateIndex b s / 64) (rangeMask (calculateIndex b s % 64) c)).availabilityAt (i / 64) =
          m.availabilityAt (i / 64) := by
        simp [availabilityAt, fetchXor, List.getElem?_set_ne (Ne.symm hw)]
      rw [this]
      simp [hw]
  refine ⟨fun t h1 h2 => ?_, fun i hi hne => ?_, hl, rfl⟩
  · obtain ⟨j, hj⟩ : ∃ j : Nat, t = s + j := ⟨(t - s).toNat, by omega⟩
    subst hj
    rw [if_neg hs, hword, calculateIndex_add b (by omega) (by omega), if_pos (by omega)]
  · rw [hword, if_neg]
    rintro ⟨hw, ha, hb⟩
    have hj : i = calculateIndex b s + (i % 64 - calculateIndex b s % 64) := by omega
    refine hne (s + ((i % 64 - calculateIndex b s % 64 : Nat) : Int)) (by omega) (by omega) ?_
    rw [calculateIndex_add b (by omega) (by omega)]
    omega

theorem one_shiftLeft_eq_rangeMask {i : Nat} : 1#64 <<< i = rangeMask i 1 := by
  simp [rangeMask]

/-- `publish`: the sequence is marked. -/
theorem setAvailable_marks (h : Laid b m) (s : Int) : Marks b m (m.setAvailable b s) s (s + 1) := by
  unfold setAvailable
  rw [h.isEmpty]
  by_cases hs : b.size < 64
  · simp only [hs, decide_true, if_true]
    exact storeFlag_marks h hs s
  · have hlt : calculateIndex b s % 64 < 64 := Nat.mod_lt _ (by omega)
    simp only [hs, decide_false, Bool.false_eq_true, if_false, publishBitmap, calculateAvailabilityIndices_eq,
      h.word_lt hs s, if_true, one_shiftLeft_eq_rangeMask]
    exact fetchXor_marks h hs s (c := 1) (by omega)

theorem bitsToCheck_bounds {s high : Int} (hle : s ≤ high) :
    calculateIndex b s % 64 + bitsToCheck b s high ≤ 64 ∧ 0 < bitsToCheck b s high ∧
      (bitsToCheck b s high : Int) ≤ high - s + 1 := by
  have hlt : calculateIndex b s % 64 < 64 := Nat.mod_lt _ (by omega)
  simp only [bitsToCheck, calculateAvailabilityIndices_eq]
  omega

/-- One turn of `publish_range` marks the sequences it steps over, at least one and none past `high`. -/
theorem publishRangeStep_marks (h : Laid b m) {s high : Int} (hle : s ≤ high) :
    Marks b m (m.publishRangeStep b s high).1 s (m.publishRangeStep b s high).2 ∧
      s < (m.publishRangeStep b s high).2 ∧ (m.publishRangeStep b s high).2 ≤ high + 1 := by
  unfold publishRangeStep
  rw [h.isEmpty]
  by_cases hs : b.size < 64
  · simp only [hs, decide_true, if_true]
    exact ⟨storeFlag_marks h hs s, by omega, by omega⟩
  · have hlt : calculateIndex b s % 64 < 64 := Nat.mod_lt _ (by omega)
    have hc := bitsToCheck_bounds (b := b) hle
    simp only [hs, decide_false, Bool.false_eq_true, if_false, calculateAvailabilityIndices_eq, h.word_lt hs s, if_true]
    exact ⟨fetchXor_marks h hs s hc.1, by omega, by omega⟩

/-! ## The scan for a published prefix -/

/-- A sequence of the scanned word is available when its bit does not differ from the expected word. -/
theorem isAvailableInternal_add_iff (h : Laid b m) (hs : ¬b.size < 64) {s : Int} {j : Nat}
    (hj : calculateIndex b s % 64 + j < 64) :
    m.isAvailableInternal b (s + j) = true ↔ (m.availabilityAt (calculateIndex b s / 64) ^^^
      (if calculateRoundFlag b s = 0#64 then 0#64 else BitVec.allOnes 64)).getLsbD (calculateIndex b s % 64 + j) = false := by
  have hdiv : (calculateIndex b s + j) / 64 = calculateIndex b s / 64 := by omega
  have hmod : (calculateIndex b s + j) % 64 = calculateIndex b s % 64 + j := by omega
  have hp := Int.emod_two_eq_zero_or_one (s / b.sizeI64)
  have hexp : (if calculateRoundFlag b s = 0#64 then 0#64 else BitVec.allOnes 64).getLsbD (calculateIndex b s % 64 + j) =
      decide (s / b.sizeI64 % 2 = 1) := by
    rw [calculateRoundFlag_eq]
    rcases hp with hp | hp
    · rw [hp]; simp
    · rw [hp, if_pos rfl, if_neg (by decide), BitVec.getLsbD_allOnes]
      simp [hj]
  rw [isAvailableInternal_iff h, lap_add b (by omega) hj, calculateIndex_add b (by omega) hj, slotFlag_bitmap h hs, hdiv,
    hmod, BitVec.getLsbD_xor, hexp]
  rcases hp with hp | hp <;> rw [hp] <;>
    cases (m.availabilityAt (calculateIndex b s / 64)).getLsbD (calculateIndex b s % 64 + j) <;> simp

/-- What one load of the scan shows: everything it steps over is available. -/
theorem getHighestPublishedSequenceStep_spec (h : Laid b m) {s high : Int} (hle : s ≤ high) :
    match m.getHighestPublishedSequenceStep b s high with
    | .inl s' => s < s' ∧ s' ≤ high + 1 ∧ ∀ t, s ≤ t → t < s' → m.isAvailableInternal b t = true
    | .inr r => s - 1 ≤ r ∧ r < high ∧ (∀ t, s ≤ t → t ≤ r → m.isAvailableInternal b t = true) ∧
      m.isAvailableInternal b (r + 1) = false := by
  unfold getHighestPublishedSequenceStep
  rw [h.isEmpty]
  by_cases hs : b.size < 64
  · simp only [hs, decide_true, if_true]
    by_cases ha : m.isAvailableInternal b s = true
    · rw [if_pos ha]
      refine ⟨by omega, by omega, fun t h1 h2 => ?_⟩
      rwa [show t = s by omega]
    · rw [if_neg ha]
      exact ⟨le_rfl, by omega, fun t h1 h2 => by omega, by simpa using ha⟩
  · obtain ⟨hc, hpos, hbound⟩ := bitsToCheck_bounds (b := b) hle
    simp only [hs, decide_false, Bool.false_eq_true, if_false, calculateAvailabilityIndices_eq, h.word_lt hs s, if_true]
    generalize hmis : (m.availabilityAt (calculateIndex b s / 64) ^^^
      (if calculateRoundFlag b s = 0#64 then 0#64 else BitVec.allOnes 64)) &&&
        rangeMask (calculateIndex b s % 64) (bitsToCheck b s high) = mismatches
    -- inside the mask a clear bit is an available sequence
    have hbit : ∀ j, j < bitsToCheck b s high → (m.isAvailableInternal b (s + j) = true ↔
        mismatches.getLsbD (calculateIndex b s % 64 + j) = false) := by
      intro j hj
      rw [isAvailableInternal_add_iff h hs (by omega), ← hmis, BitVec.getLsbD_and, getLsbD_rangeMask hc]
      have : calculateIndex b s % 64 ≤ calculateIndex b s % 64 + j ∧
        calculateIndex b s % 64 + j < calculateIndex b s % 64 + bitsToCheck b s high := by omega
      simp only [this, and_self, decide_true, Bool.and_true]
    by_cases hz : mismatches = 0#64
    · rw [if_neg (by simpa using hz)]
      refine ⟨by omega, by omega, fun t h1 h2 => ?_⟩
      obtain ⟨j, hj⟩ : ∃ j : Nat, t = s + j := ⟨(t - s).toNat, by omega⟩
      subst hj
      rw [hbit j (by omega), hz]
      simp
    · rw [if_pos (by simpa using hz)]
      have hset := BitVec.getLsbD_true_ctz_of_ne_zero hz
      have hrange : calculateIndex b s % 64 ≤ mismatches.ctz.toNat ∧
          mismatches.ctz.toNat < calculateIndex b s % 64 + bitsToCheck b s high := by
        rw [← hmis] at hz ⊢
        exact ctz_and_rangeMask hc hz
      refine ⟨by omega, by omega, fun t h1 h2 => ?_, ?_⟩
      · obtain ⟨j, hj⟩ : ∃ j : Nat, t = s + j := ⟨(t - s).toNat, by omega⟩
        subst hj
        rw [hbit j (by omega)]
        exact BitVec.getLsbD_false_of_lt_ctz (by omega)
      · obtain ⟨j, hj⟩ : ∃ j : Nat, calculateIndex b s % 64 + j = mismatches.ctz.toNat :=
          ⟨mismatches.ctz.toNat - calculateIndex b s % 64, by omega⟩
        have he : s + ((mismatches.ctz.toNat - calculateIndex b s % 64 : Nat) : Int) - 1 + 1 = s + j := by omega
        rw [he, Bool.eq_false_iff, ne_eq, hbit j (by omega), hj, hset]
        simp

end MultiProducerSequencer

end BadBatch
