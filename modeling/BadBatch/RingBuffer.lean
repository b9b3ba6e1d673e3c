import BadBatch.Sequencer.Availability
import Mathlib.Data.Int.ConditionallyCompleteOrder

/-!
# The ring buffer and the slot of a sequence

`RingBuffer`: its slots and its mask. The slots are reached by `slot_index` without a bounds check, so the record carries
the fact that makes this right: as many slots as the mask has values.

The slot of a sequence is computed in three places and in three types: `slot_index` masks an `i64` and casts,
`calculate_index` casts and masks a `usize`, `calculate_availability_indices` splits the masked `usize` into a word and a
bit. All of them are `s % N`, also for negative sequences, and the round flags are the parity of `s / N`:

* `slotIndex_eq_calculateIndex`, `wordBit_eq`, `calculateRoundFlag_toNat`: one decomposition for all of them;
* `eq_of_slot_flag`: slot and flag together tell sequences apart that are less than two laps from each other;
* `slots_of_lap`: `N` consecutive sequences occupy every slot once;
* `word_flag_of_block`: an aligned block of 64 sequences has one word and one flag.
-/

namespace BadBatch

open MultiProducerSequencer RingWindow

/-- `SlotPadding` -/
inductive SlotPadding
  | none
  | cacheLine64
  | cacheLine128
  deriving DecidableEq, Repr

/-- `SlotStorage` -/
inductive SlotStorage (α : Type*)
  | inline (slots : List α)
  | cacheLine64 (slots : List α)
  | cacheLine128 (slots : List α)
  deriving Repr

namespace SlotStorage

variable {α : Type*}

/-- The slots in order; the padding changes only where they are in memory. -/
def slots : SlotStorage α → List α
  | .inline slots => slots
  | .cacheLine64 slots => slots
  | .cacheLine128 slots => slots

/-- `SlotStorage::len` -/
def len (st : SlotStorage α) : Nat := st.slots.length

/-- `SlotStorage::padding` -/
def padding : SlotStorage α → SlotPadding
  | .inline _ => .none
  | .cacheLine64 _ => .cacheLine64
  | .cacheLine128 _ => .cacheLine128

/-- `get_ref_unchecked`: its safety condition is an argument. -/
def getRefUnchecked (st : SlotStorage α) (index : Nat) (h : index < st.len) : α := st.slots.get ⟨index, h⟩

/-- The storage that `new_with_padding` fills. -/
def filled (slots : List α) : SlotPadding → SlotStorage α
  | .none => .inline slots
  | .cacheLine64 => .cacheLine64 slots
  | .cacheLine128 => .cacheLine128 slots

@[simp] theorem slots_filled (xs : List α) (p : SlotPadding) : (filled xs p).slots = xs := by cases p <;> rfl

@[simp] theorem padding_filled (xs : List α) (p : SlotPadding) : (filled xs p).padding = p := by cases p <;> rfl

end SlotStorage

/-- `index_mask: i64`, `buffer_size_i64 - 1` -/
def ringIndexMask (b : BufferSize) : BitVec 64 := BitVec.ofInt 64 (b.sizeI64 - 1)

/-- `RingBuffer`. The last field is what the unchecked accesses rest on. -/
structure RingBuffer (α : Type*) where
  storage : SlotStorage α
  indexMask : BitVec 64
  wf : ∃ b : BufferSize, storage.len = b.size ∧ indexMask = ringIndexMask b

/-- `DisruptorError`, as far as `new_with_padding` returns it. -/
inductive RingBufferError
  | invalidBufferSize (bufferSize : Nat)
  deriving DecidableEq, Repr

/-- A size that passes both checks of the constructors is a `BufferSize`. -/
theorem exists_bufferSize {n : Nat} (hp : n.isPowerOfTwo) (hf : (n : Int) ≤ i64Max) : ∃ b : BufferSize, b.size = n := by
  obtain ⟨k, rfl⟩ := hp
  have hk : k ≤ 62 := by
    by_contra hlt
    have hle : (2 : Nat) ^ 63 ≤ 2 ^ k := Nat.pow_le_pow_right (by omega) (by omega)
    unfold i64Max at hf
    omega
  exact ⟨⟨k, hk⟩, rfl⟩

namespace RingBuffer

variable {α : Type*}

/-- `new_with_padding`; `newInstance i` is what the factory returns at its `i`-th call. -/
def newWithPadding (bufferSize : Nat) (newInstance : Nat → α) (slotPadding : SlotPadding) :
    Except RingBufferError (RingBuffer α) :=
  if hp : bufferSize.isPowerOfTwo then
    if hf : (bufferSize : Int) ≤ i64Max then
      .ok
        { storage := .filled ((List.range bufferSize).map newInstance) slotPadding
          indexMask := BitVec.ofInt 64 ((bufferSize : Int) - 1)
          wf := by
            obtain ⟨b, rfl⟩ := exists_bufferSize hp hf
            exact ⟨b, by simp [SlotStorage.len], rfl⟩ }
    else .error (.invalidBufferSize bufferSize)
  else .error (.invalidBufferSize bufferSize)

/-- `buffer_size` -/
def bufferSize (r : RingBuffer α) : Nat := r.storage.len

/-- `slot_index`: the mask, then the cast. -/
def slotIndex (r : RingBuffer α) (sequence : Int) : Nat := (BitVec.ofInt 64 sequence &&& r.indexMask).toNat

/-- `new_with_padding` accepts the ring sizes and nothing else. -/
theorem newWithPadding_isOk {n : Nat} {newInstance : Nat → α} {p : SlotPadding} :
    (∃ r, newWithPadding n newInstance p = .ok r) ↔ ∃ b : BufferSize, b.size = n := by
  unfold newWithPadding
  constructor
  · rintro ⟨r, hr⟩
    split at hr
    · split at hr
      · exact exists_bufferSize ‹_› ‹_›
      · cases hr
    · cases hr
  · rintro ⟨b, rfl⟩
    have hp : b.size.isPowerOfTwo := ⟨b.shift, rfl⟩
    have hf : ((b.size : Nat) : Int) ≤ i64Max := b.sizeI64_le
    rw [dif_pos hp, dif_pos hf]
    exact ⟨_, rfl⟩

/-- The ring that the constructor builds. -/
theorem newWithPadding_eq {b : BufferSize} {newInstance : Nat → α} {p : SlotPadding} {r : RingBuffer α}
    (h : newWithPadding b.size newInstance p = .ok r) :
    r.storage.slots = (List.range b.size).map newInstance ∧ r.storage.padding = p ∧ r.indexMask = ringIndexMask b := by
  have hp : b.size.isPowerOfTwo := ⟨b.shift, rfl⟩
  have hf : ((b.size : Nat) : Int) ≤ i64Max := b.sizeI64_le
  unfold newWithPadding at h
  rw [dif_pos hp, dif_pos hf, Except.ok.injEq] at h
  subst h
  exact ⟨by simp, by simp, rfl⟩

end RingBuffer

/-! ## One decomposition -/

section Decomposition

variable {b : BufferSize} {s t : Int}

/-- The two masks are the same bits. -/
theorem ringIndexMask_eq : ringIndexMask b = indexMask b := by
  have hpos := b.size_pos
  have hcast : b.sizeI64 - 1 = ((b.size - 1 : Nat) : Int) := by unfold BufferSize.sizeI64; omega
  unfold ringIndexMask indexMask
  rw [hcast, BitVec.ofInt_natCast]

/-- **`slot_index` is `calculate_index`.** -/
theorem slotIndex_eq_calculateIndex {α : Type*} {r : RingBuffer α} (h : r.indexMask = ringIndexMask b) (s : Int) :
    r.slotIndex s = calculateIndex b s := by
  unfold RingBuffer.slotIndex calculateIndex
  rw [h, ringIndexMask_eq]

/-- Every slot index of a ring is inside its storage. -/
theorem RingBuffer.slotIndex_lt {α : Type*} (r : RingBuffer α) (s : Int) : r.slotIndex s < r.storage.len := by
  obtain ⟨b, hlen, hmask⟩ := r.wf
  rw [slotIndex_eq_calculateIndex hmask, hlen]
  exact calculateIndex_lt b s

/-- `get`: the safety condition of the unchecked access holds at every sequence. -/
def RingBuffer.get {α : Type*} (r : RingBuffer α) (sequence : Int) : α :=
  r.storage.getRefUnchecked (r.slotIndex sequence) (r.slotIndex_lt sequence)

/-- The word and the bit put together again. -/
theorem wordBit_eq (b : BufferSize) (s : Int) :
    (64 * (calculateAvailabilityIndices b s).1 + (calculateAvailabilityIndices b s).2 : Int) = s % b.sizeI64 ∧
      (calculateAvailabilityIndices b s).2 < 64 := by
  have hdiv := Nat.div_add_mod (calculateIndex b s) 64
  rw [calculateAvailabilityIndices_eq, ← calculateIndex_cast]
  exact ⟨by exact_mod_cast hdiv, Nat.mod_lt _ (by omega)⟩

theorem word_lt (hs : 64 ≤ b.size) (s : Int) : (calculateAvailabilityIndices b s).1 < b.size / 64 := by
  obtain ⟨q, hq⟩ := sixtyFour_dvd_size b hs
  have := calculateIndex_lt b s
  rw [calculateAvailabilityIndices_eq]
  simp only
  omega

theorem calculateRoundFlag_toNat (b : BufferSize) (s : Int) :
    ((calculateRoundFlag b s).toNat : Int) = s / b.sizeI64 % 2 :=
  calculateAvailabilityFlag_eq b s

/-- The flags of two round computations are equal together. -/
theorem calculateRoundFlag_eq_iff :
    calculateRoundFlag b s = calculateRoundFlag b t ↔ s / b.sizeI64 % 2 = t / b.sizeI64 % 2 := by
  rw [← calculateRoundFlag_toNat, ← calculateRoundFlag_toNat, Int.natCast_inj, BitVec.toNat_inj]

/-- **Slot and flag tell sequences apart** that are less than two laps from each other. -/
theorem eq_of_slot_flag (hslot : calculateIndex b s = calculateIndex b t)
    (hflag : calculateRoundFlag b s = calculateRoundFlag b t) (hst : s < t + 2 * b.sizeI64) (hts : t < s + 2 * b.sizeI64) :
    s = t := by
  have hmod : s % b.sizeI64 = t % b.sizeI64 := by rw [← calculateIndex_cast, ← calculateIndex_cast, hslot]
  have hpar := calculateRoundFlag_eq_iff.mp hflag
  have hpos := b.sizeI64_pos
  have h1 := Int.emod_add_mul_ediv s b.sizeI64
  have h2 := Int.emod_add_mul_ediv t b.sizeI64
  -- the laps differ by less than two, and by an even number
  have hdiff : s - t = b.sizeI64 * (s / b.sizeI64 - t / b.sizeI64) := by rw [mul_sub]; omega
  have hlt : s / b.sizeI64 - t / b.sizeI64 < 2 := by
    by_contra hge
    have : b.sizeI64 * 2 ≤ b.sizeI64 * (s / b.sizeI64 - t / b.sizeI64) :=
      mul_le_mul_of_nonneg_left (by omega) hpos.le
    omega
  have hgt : -2 < s / b.sizeI64 - t / b.sizeI64 := by
    by_contra hge
    have : b.sizeI64 * (s / b.sizeI64 - t / b.sizeI64) ≤ b.sizeI64 * (-2) :=
      mul_le_mul_of_nonneg_left (by omega) hpos.le
    omega
  have hlap : s / b.sizeI64 - t / b.sizeI64 = 0 := by omega
  rw [hlap, mul_zero] at hdiff
  omega

/-- **`N` consecutive sequences occupy every slot once.** -/
theorem slots_of_lap (b : BufferSize) (lo : Int) :
    Set.BijOn (calculateIndex b) (Set.Ico lo (lo + b.sizeI64)) (Set.Iio b.size) := by
  have hpos := b.sizeI64_pos
  refine ⟨fun s _ => calculateIndex_lt b s, ?_, ?_⟩
  · intro s hs t ht hst
    obtain ⟨hs1, hs2⟩ := hs
    obtain ⟨ht1, ht2⟩ := ht
    exact eq_of_calculateIndex_eq b hst (by omega) (by omega)
  · intro i hi
    have hi' : (i : Int) < b.sizeI64 := by unfold BufferSize.sizeI64; exact_mod_cast hi
    -- the sequence of slot `i` in this lap
    refine ⟨lo + (i - lo) % b.sizeI64, ⟨?_, ?_⟩, ?_⟩
    · have := Int.emod_nonneg (i - lo) hpos.ne'
      omega
    · have := Int.emod_lt_of_pos (i - lo) hpos
      omega
    · have hmod : (lo + (i - lo) % b.sizeI64) % b.sizeI64 = i := by
        rw [Int.add_emod_emod, add_sub_cancel, Int.emod_eq_of_lt (by omega) hi']
      have := calculateIndex_cast b (lo + (i - lo) % b.sizeI64)
      rw [hmod] at this
      exact_mod_cast this

/-- A block of 64 starts in bit 0, so that its sequences are in the range of the first one's word. -/
theorem calculateIndex_block (hs : 64 ≤ b.size) (q : Int) : calculateIndex b (64 * q) % 64 = 0 := by
  obtain ⟨n, hn⟩ := sixtyFour_dvd_size b hs
  have hN : b.sizeI64 = 64 * n := by unfold BufferSize.sizeI64; exact_mod_cast hn
  have h := calculateIndex_cast b (64 * q)
  rw [hN, Int.mul_emod_mul_of_pos _ _ (by omega)] at h
  omega

/-- **An aligned block of 64 sequences has one word and one flag.** -/
theorem word_flag_of_block (hs : 64 ≤ b.size) (hst : s / 64 = t / 64) :
    (calculateAvailabilityIndices b s).1 = (calculateAvailabilityIndices b t).1 ∧
      calculateRoundFlag b s = calculateRoundFlag b t := by
  -- both are compared with the start of the block
  have hstart : ∀ u : Int, (calculateAvailabilityIndices b u).1 = (calculateAvailabilityIndices b (64 * (u / 64))).1 ∧
      calculateRoundFlag b u = calculateRoundFlag b (64 * (u / 64)) := by
    intro u
    have h0 := calculateIndex_block hs (u / 64)
    obtain ⟨j, hj⟩ : ∃ j : Nat, u = 64 * (u / 64) + j := ⟨(u % 64).toNat, by omega⟩
    have hlt : calculateIndex b (64 * (u / 64)) % 64 + j < 64 := by omega
    rw [calculateRoundFlag_eq_iff, calculateAvailabilityIndices_eq, calculateAvailabilityIndices_eq]
    constructor
    · show calculateIndex b u / 64 = calculateIndex b (64 * (u / 64)) / 64
      conv_lhs => rw [hj, calculateIndex_add b hs hlt]
      omega
    · conv_lhs => rw [hj, lap_add b hs hlt]
  obtain ⟨hw, hf⟩ := hstart s
  obtain ⟨hw', hf'⟩ := hstart t
  rw [hw, hf, hw', hf', hst]
  exact ⟨rfl, rfl⟩

/-- **Slot and round decomposition**: for every ring size the constructor returns a ring, its slot index, the index of the
sequencer and the pair of word and bit are all `s % N`, the flags are the parity of `s / N`, and so the slots and flags
tell the sequences of two laps apart. -/
theorem slot_round_decomposition {α : Type*} (b : BufferSize) (newInstance : Nat → α) (p : SlotPadding) :
    ∃ r, RingBuffer.newWithPadding b.size newInstance p = .ok r ∧
      (∀ s : Int, r.slotIndex s = calculateIndex b s ∧ (calculateIndex b s : Int) = s % b.sizeI64 ∧
        r.slotIndex s < b.size ∧ r.bufferSize = b.size ∧
        calculateAvailabilityFlag b s = s / b.sizeI64 % 2 ∧ ((calculateRoundFlag b s).toNat : Int) = s / b.sizeI64 % 2 ∧
        (64 ≤ b.size →
          (64 * (calculateAvailabilityIndices b s).1 + (calculateAvailabilityIndices b s).2 : Int) = s % b.sizeI64 ∧
            (calculateAvailabilityIndices b s).1 < b.size / 64 ∧ (calculateAvailabilityIndices b s).2 < 64)) ∧
      (∀ s t : Int, |s - t| < 2 * b.sizeI64 → r.slotIndex s = r.slotIndex t →
        calculateRoundFlag b s = calculateRoundFlag b t → s = t) ∧
      (∀ lo : Int, Set.BijOn r.slotIndex (Set.Ico lo (lo + b.sizeI64)) (Set.Iio b.size)) ∧
      (64 ≤ b.size → ∀ s t : Int, s / 64 = t / 64 →
        (calculateAvailabilityIndices b s).1 = (calculateAvailabilityIndices b t).1 ∧
          calculateRoundFlag b s = calculateRoundFlag b t) := by
  obtain ⟨r, hr⟩ : ∃ r, RingBuffer.newWithPadding b.size newInstance p = .ok r :=
    RingBuffer.newWithPadding_isOk.mpr ⟨b, rfl⟩
  obtain ⟨hslots, -, hmask⟩ := RingBuffer.newWithPadding_eq hr
  have hidx : ∀ s, r.slotIndex s = calculateIndex b s := slotIndex_eq_calculateIndex hmask
  refine ⟨r, hr, fun s => ⟨hidx s, calculateIndex_cast b s, ?_, ?_, calculateAvailabilityFlag_eq b s,
    calculateRoundFlag_toNat b s, fun hs => ?_⟩, fun s t hd hslot hflag => ?_, fun lo => ?_,
    fun hs s t => word_flag_of_block hs⟩
  · rw [hidx]
    exact calculateIndex_lt b s
  · simp [RingBuffer.bufferSize, SlotStorage.len, hslots]
  · obtain ⟨hsum, hbit⟩ := wordBit_eq b s
    exact ⟨hsum, word_lt hs s, hbit⟩
  · obtain ⟨h1, h2⟩ := abs_lt.mp hd
    rw [hidx, hidx] at hslot
    exact eq_of_slot_flag hslot hflag (by omega) (by omega)
  · have hfun : r.slotIndex = calculateIndex b := funext hidx
    rw [hfun]
    exact slots_of_lap b lo

end Decomposition

end BadBatch
