import BadBatch.Sequencer.Availability
import BadBatch.Lib.CheckedArith

/-!
# The bitmap scan against the naive scan

`get_highest_published_sequence_bitmap` and `get_highest_published_sequence_legacy` as whole functions, with every
operation of the bitmap scan checked: `i64` and `usize` arithmetic, shift amounts, word indices. The loops get a number of
turns; a scan that ends says nothing about its own end unless enough turns are named.

* `bitmapTurn_eq`: no operation of a turn stops, and the turn is `getHighestPublishedSequenceStep`;
* `Published`: the result that both scans share, as a greatest element;
* `bitmapLoop_published`, `legacy_published`: as many turns as there are sequences left are enough, and the result is the
  end of the published run.
-/

namespace BadBatch

open CheckedArith BitRange

namespace MultiProducerSequencer

variable (b : BufferSize) (m : MultiProducerSequencer)

/-- The expression of `range_mask`. -/
def rangeMaskExpr (startBit bitsToCheck : Nat) : Except Fault (BitVec 64) :=
  if 64 ≤ bitsToCheck then .ok (BitVec.allOnes 64)
  else do
    let bit ← shl 1#64 bitsToCheck
    let low ← u64Sub bit 1#64
    shl low startBit

/-- One turn of the loop of `get_highest_published_sequence_bitmap`: the next `sequence`, or the result. -/
def bitmapTurn (sequence availableSequence : Int) : Except Fault (Int ⊕ Int) := do
  let (wordIndex, startBit) := calculateAvailabilityIndices b sequence
  if m.availableBitmap.length ≤ wordIndex then
    let r ← i64 (sequence - 1)
    return .inr r
  let word ← index m.availableBitmap wordIndex
  let bitsRemainingInWord ← usizeSub 64 startBit
  let distance ← i64 (availableSequence - sequence)
  let sequencesRemaining ← i64 (distance + 1)
  let bitsToCheck := min bitsRemainingInWord (asUsize sequencesRemaining)
  let round ← sar (BitVec.ofInt 64 sequence) (indexShift b)
  let expectedFlag := round &&& 1#64
  let expectedWord := if expectedFlag = 0#64 then 0#64 else BitVec.allOnes 64
  let rangeMask ← rangeMaskExpr startBit bitsToCheck
  let mismatches := (word ^^^ expectedWord) &&& rangeMask
  if mismatches ≠ 0#64 then
    let firstMismatch := mismatches.ctz.toNat
    let offset ← usizeSub firstMismatch startBit
    let stop ← i64 (sequence + asI64 offset)
    let r ← i64 (stop - 1)
    return .inr r
  let sequence ← i64 (sequence + asI64 bitsToCheck)
  return .inl sequence

/-- The loop of `get_highest_published_sequence_bitmap`. -/
def bitmapLoop (availableSequence : Int) : Nat → Int → Except Fault Int
  | 0, _ => .error .turns
  | turns + 1, sequence =>
    if sequence ≤ availableSequence then do
      match ← m.bitmapTurn b sequence availableSequence with
      | .inl sequence => bitmapLoop availableSequence turns sequence
      | .inr r => return r
    else return availableSequence

/-- `get_highest_published_sequence_bitmap` -/
def getHighestPublishedSequenceBitmap (turns : Nat) (nextSequence availableSequence : Int) : Except Fault Int :=
  if nextSequence > availableSequence then .ok availableSequence
  else m.bitmapLoop b availableSequence turns nextSequence

/-- `get_highest_published_sequence_legacy` -/
def getHighestPublishedSequenceLegacy (availableSequence : Int) : Nat → Int → Except Fault Int
  | 0, _ => .error .turns
  | turns + 1, sequence =>
    if sequence ≤ availableSequence then do
      if m.isAvailableInternal b sequence = false then i64 (sequence - 1)
      else
        let sequence ← i64 (sequence + 1)
        getHighestPublishedSequenceLegacy availableSequence turns sequence
    else return availableSequence

/-- `r` ends the run of available sequences from `next` on, no further than `available`. -/
def Published (next available r : Int) : Prop :=
  IsGreatest {r : Int | r ≤ available ∧ ∀ t, next ≤ t → t ≤ r → m.isBitmapAvailable b t = true} r

variable {b : BufferSize} {m : MultiProducerSequencer}

/-! ## One turn -/

theorem rangeMaskExpr_ok {a c : Nat} (ha : a < 64) : rangeMaskExpr a c = .ok (rangeMask a c) := by
  unfold rangeMaskExpr rangeMask
  split
  · rfl
  · rename_i hc
    have hle : (1#64).toNat ≤ (1#64 <<< c).toNat := by
      have h1 : 2 ^ c < 2 ^ 64 := Nat.pow_lt_pow_right (by omega) (by omega)
      have h2 : 1 ≤ 2 ^ c := Nat.one_le_two_pow
      simp only [BitVec.toNat_shiftLeft, BitVec.toNat_ofNat, Nat.shiftLeft_eq]
      omega
    rw [shl_ok (by omega)]
    show (u64Sub (1#64 <<< c) 1#64 >>= fun low => shl low a) = _
    rw [u64Sub_ok hle]
    exact shl_ok ha

/-- No operation of a turn stops. -/
theorem bitmapTurn_eq (h : Laid b m) (hs : ¬b.size < 64) {s high : Int} (hle : s ≤ high) (hlo : InI64 (s - 1))
    (hhi : InI64 (high + 1)) (hlen : InI64 (high - s + 1)) :
    m.bitmapTurn b s high = .ok (m.getHighestPublishedSequenceStep b s high) := by
  have hw := h.word_lt hs s
  have hstart : calculateIndex b s % 64 < 64 := Nat.mod_lt _ (by omega)
  have hshift : indexShift b < 64 := by rw [indexShift_eq]; have := b.fits; omega
  obtain ⟨hc, hpos, hbound⟩ := bitsToCheck_bounds (b := b) hle
  have hbits : min (64 - calculateIndex b s % 64) (asUsize (high - s + 1)) = bitsToCheck b s high := by
    rw [asUsize_eq (by omega) hlen, bitsToCheck, calculateAvailabilityIndices_eq]
  have hmask := rangeMaskExpr_ok (a := calculateIndex b s % 64) (c := bitsToCheck b s high) hstart
  have hdist : InI64 (high - s) := by unfold InI64 at *; omega
  have hword : m.availabilityAt (calculateIndex b s / 64) = m.availableBitmap.getD (calculateIndex b s / 64) 0#64 := rfl
  have hflag : calculateRoundFlag b s = (BitVec.ofInt 64 s).sshiftRight (indexShift b) &&& 1#64 := rfl
  unfold bitmapTurn getHighestPublishedSequenceStep
  simp only [h.isEmpty, calculateAvailabilityIndices_eq, hs, decide_false, Bool.false_eq_true, if_false, hw, if_true,
    not_le.mpr hw, index_ok hw 0#64, usizeSub_ok hstart.le, sar_ok hshift, i64_ok hdist, i64_ok hlen, ok_bind,
    hbits, hmask, ← hword, ← hflag]
  generalize m.availabilityAt (calculateIndex b s / 64) ^^^
    (if calculateRoundFlag b s = 0#64 then 0#64 else BitVec.allOnes 64) = diff
  by_cases hz : diff &&& rangeMask (calculateIndex b s % 64) (bitsToCheck b s high) = 0#64
  · rw [if_neg (by simpa using hz), if_neg (by simpa using hz), asI64_eq (by omega),
      i64_ok (by unfold InI64 at *; omega)]
    rfl
  · have hrange := ctz_and_rangeMask hc hz
    rw [if_pos hz, if_pos hz, usizeSub_ok hrange.1, ok_bind, asI64_eq (by omega), i64_ok (by unfold InI64 at *; omega),
      ok_bind, i64_ok (by unfold InI64 at *; omega)]
    rfl

/-! ## The loops -/

theorem isAvailableInternal_bitmap (h : Laid b m) (hs : ¬b.size < 64) (s : Int) :
    m.isAvailableInternal b s = m.isBitmapAvailable b s := by
  unfold isAvailableInternal
  simp [h.isEmpty, hs]

/-- The scanned run stops at a gap, or reaches the end. -/
theorem published_of_run {next high r : Int} (hr : r ≤ high)
    (hrun : ∀ t, next ≤ t → t ≤ r → m.isBitmapAvailable b t = true)
    (hstop : r = high ∨ (next ≤ r + 1 ∧ m.isBitmapAvailable b (r + 1) = false)) : m.Published b next high r := by
  refine ⟨⟨hr, hrun⟩, ?_⟩
  rintro x ⟨hx, hxrun⟩
  rcases hstop with rfl | ⟨hn, hgap⟩
  · exact hx
  · by_contra hlt
    rw [hxrun (r + 1) hn (by omega)] at hgap
    cases hgap

/-- As many turns as there are sequences left end the bitmap scan. -/
theorem bitmapLoop_published (h : Laid b m) (hs : ¬b.size < 64) {next high : Int} (hlo : InI64 (next - 1))
    (hhi : InI64 (high + 1)) (hlen : InI64 (high - next + 1)) :
    ∀ (turns : Nat) {s : Int}, next ≤ s → s ≤ high + 1 → (∀ t, next ≤ t → t < s → m.isBitmapAvailable b t = true) →
      (high - s + 1).toNat < turns → ∃ r, m.bitmapLoop b high turns s = .ok r ∧ m.Published b next high r := by
  intro turns
  induction turns with
  | zero => intro s _ _ _ ht; omega
  | succ turns ih =>
    intro s hns hsh hrun ht
    unfold bitmapLoop
    by_cases hle : s ≤ high
    · have hspec := getHighestPublishedSequenceStep_spec h hle
      rw [if_pos hle, bitmapTurn_eq h hs hle (by unfold InI64 at *; omega) hhi (by unfold InI64 at *; omega), ok_bind]
      simp only [isAvailableInternal_bitmap h hs] at hspec
      -- what a turn shows goes after what the earlier turns showed
      have hjoin : ∀ {x : Int}, (∀ t, s ≤ t → t < x → m.isBitmapAvailable b t = true) →
          ∀ t, next ≤ t → t < x → m.isBitmapAvailable b t = true := by
        intro x hav t h1 h2
        by_cases hts : t < s
        · exact hrun t h1 hts
        · exact hav t (by omega) h2
      cases hstep : m.getHighestPublishedSequenceStep b s high with
      | inl s' =>
        rw [hstep] at hspec
        obtain ⟨hlt, hle', hav⟩ := hspec
        exact ih (by omega) hle' (hjoin hav) (by omega)
      | inr r =>
        rw [hstep] at hspec
        obtain ⟨hlo', hlt, hav, hgap⟩ := hspec
        have hav' := hjoin (x := r + 1) fun t h1 h2 => hav t h1 (by omega)
        exact ⟨r, rfl, published_of_run hlt.le (fun t h1 h2 => hav' t h1 (by omega)) (.inr ⟨by omega, hgap⟩)⟩
    · rw [if_neg hle]
      exact ⟨high, rfl, published_of_run le_rfl (fun t h1 h2 => hrun t h1 (by omega)) (.inl rfl)⟩

/-- The same for the naive scan. -/
theorem legacy_published (h : Laid b m) (hs : ¬b.size < 64) {next high : Int} (hlo : InI64 (next - 1))
    (hhi : InI64 (high + 1)) :
    ∀ (turns : Nat) {s : Int}, next ≤ s → (∀ t, next ≤ t → t < s → t ≤ high → m.isBitmapAvailable b t = true) →
      (high - s + 1).toNat < turns →
      ∃ r, m.getHighestPublishedSequenceLegacy b high turns s = .ok r ∧ m.Published b next high r := by
  intro turns
  induction turns with
  | zero => intro s _ _ ht; omega
  | succ turns ih =>
    intro s hns hrun ht
    unfold getHighestPublishedSequenceLegacy
    rw [isAvailableInternal_bitmap h hs]
    by_cases hle : s ≤ high
    · rw [if_pos hle]
      cases hav : m.isBitmapAvailable b s with
      | false =>
        rw [if_pos rfl, i64_ok (by unfold InI64 at *; omega)]
        exact ⟨s - 1, rfl, published_of_run (by omega) (fun t h1 h2 => hrun t h1 (by omega) (by omega))
          (.inr ⟨by omega, by rwa [sub_add_cancel]⟩)⟩
      | true =>
        rw [if_neg (by decide), i64_ok (by unfold InI64 at *; omega), ok_bind]
        refine ih (by omega) (fun t h1 h2 h3 => ?_) (by omega)
        by_cases hts : t < s
        · exact hrun t h1 hts h3
        · rwa [show t = s by omega]
    · rw [if_neg hle]
      exact ⟨high, rfl, published_of_run le_rfl (fun t h1 h2 => hrun t h1 (by omega) h2) (.inl rfl)⟩

/-- An empty range is answered with its upper end. -/
theorem published_of_lt {next high : Int} (h : high < next) : m.Published b next high high :=
  published_of_run le_rfl (fun t h1 h2 => by omega) (.inl rfl)

/-- **The bitmap scan is the naive scan**: on every content of the words and every range, both end within the number of
sequences of the range, no operation of the bitmap scan stops, its words are words of the bitmap, and the result is the
end of the published run. -/
theorem getHighestPublishedSequenceBitmap_eq_legacy (b : BufferSize) (m : MultiProducerSequencer) (hl : Laid b m)
    (hs : 64 ≤ b.size) (next available : Int) (hn : InI64 next) (hv : InI64 available) (hmin : -2 ^ 63 < next)
    (hmax : available < i64Max) (hlen : available - next < i64Max) :
    ∃ r, m.Published b next available r ∧
      (∀ turns, (available - next + 1).toNat < turns →
        m.getHighestPublishedSequenceBitmap b turns next available = .ok r ∧
          m.getHighestPublishedSequenceLegacy b available turns next = .ok r) ∧
      (∀ s, (calculateAvailabilityIndices b s).1 < m.availableBitmap.length ∧ (calculateAvailabilityIndices b s).2 < 64) ∧
      (next ≤ available → m.isBitmapAvailable b next = false → r = next - 1) ∧ (available < next → r = available) := by
  have hs' : ¬b.size < 64 := by omega
  have hword : ∀ s, (calculateAvailabilityIndices b s).1 < m.availableBitmap.length ∧
      (calculateAvailabilityIndices b s).2 < 64 := by
    intro s
    rw [calculateAvailabilityIndices_eq]
    exact ⟨hl.word_lt hs' s, Nat.mod_lt _ (by omega)⟩
  unfold i64Max at hmax hlen
  have hlo : InI64 (next - 1) := by unfold InI64 at *; omega
  have hhi : InI64 (available + 1) := by unfold InI64 at *; omega
  by_cases hlt : available < next
  · refine ⟨available, published_of_lt hlt, fun turns ht => ⟨if_pos hlt, ?_⟩, hword, by omega, fun _ => rfl⟩
    obtain ⟨r, hr, hp⟩ := legacy_published hl hs' hlo hhi turns le_rfl (fun t h1 h2 _ => by omega) ht
    rw [hr, hp.unique (published_of_lt hlt)]
  · have hlen' : InI64 (available - next + 1) := by unfold InI64 at *; omega
    have hscan : ∀ turns, (available - next + 1).toNat < turns →
        ∃ r, m.bitmapLoop b available turns next = .ok r ∧ m.Published b next available r := fun turns =>
      bitmapLoop_published hl hs' hlo hhi hlen' turns le_rfl (by omega) (fun t h1 h2 => by omega)
    obtain ⟨r, -, hp⟩ := hscan _ (Nat.lt_succ_self _)
    refine ⟨r, hp, fun turns ht => ⟨?_, ?_⟩, hword, fun _ hgap => ?_, fun h => absurd h hlt⟩
    · obtain ⟨r', hr, hp'⟩ := hscan turns ht
      rw [getHighestPublishedSequenceBitmap, if_neg hlt, hr, hp'.unique hp]
    · obtain ⟨r', hr, hp'⟩ := legacy_published hl hs' hlo hhi turns le_rfl (fun t h1 h2 _ => by omega) ht
      rw [hr, hp'.unique hp]
    · exact hp.unique (published_of_run (by omega) (fun t h1 h2 => by omega) (.inr ⟨by omega, by rwa [sub_add_cancel]⟩))

/-- A range across the end of the ring of a fresh sequencer of 64 slots: lap `-1` counts as published, lap `0` does not. -/
theorem getHighestPublishedSequenceBitmap_wrap :
    ∃ r, (new ⟨6, by decide⟩).Published ⟨6, by decide⟩ (-3) 70 r ∧
      (∀ turns, 74 < turns →
        (new ⟨6, by decide⟩).getHighestPublishedSequenceBitmap ⟨6, by decide⟩ turns (-3) 70 = .ok r ∧
          (new ⟨6, by decide⟩).getHighestPublishedSequenceLegacy ⟨6, by decide⟩ 70 turns (-3) = .ok r) ∧
      (∀ s, (calculateAvailabilityIndices ⟨6, by decide⟩ s).1 < (new ⟨6, by decide⟩).availableBitmap.length ∧
        (calculateAvailabilityIndices ⟨6, by decide⟩ s).2 < 64) ∧
      ((-3 : Int) ≤ 70 → (new ⟨6, by decide⟩).isBitmapAvailable ⟨6, by decide⟩ (-3) = false → r = -4) ∧
      ((70 : Int) < -3 → r = 70) :=
  getHighestPublishedSequenceBitmap_eq_legacy ⟨6, by decide⟩ (new ⟨6, by decide⟩) laid_new (by decide) (-3) 70
    (by decide) (by decide) (by decide) (by decide) (by decide)

end MultiProducerSequencer

end BadBatch
