import BadBatch.Sequencer.MultiClaims
import Mathlib.Data.Int.Range

/-!
# Exactness of the availability flags

Availability is only the parity of a lap, so `s` and `s - 2N` look alike. The flag of every slot is right because no
producer laps an unpublished sequence: in the window of the last `N` claimed sequences, the slot of `s` carries the flag
of `s` if `s` is published and of `s - N` if not (`AvailInv.flags`).

* `availInv_step`: every step keeps this, as long as the slowest gating sequence has passed published sequences only;
* `available_iff_published`: in the window a reader may ask about, `is_available` is publication.
-/

namespace BadBatch

open MultiProducerSequencer StepSys RingWindow

variable {b : BufferSize} {m m' : MultiProducerSequencer} {gating : List Nat} {w w' : MultiWorld} {s : Int}

/-- The flag of a slot whose last published sequence is `s`; negative sequences are the lap before the first. -/
def flagCode (b : BufferSize) (s : Int) : Int := if b.size < 64 ∧ s < 0 then -1 else s / b.sizeI64 % 2

/-- Nothing the slowest gating sequence has passed is unpublished. -/
def PrefixPublished (w : MultiWorld) : Prop :=
  ∀ s, 0 ≤ s → Below w.sequences w.sequencer.gatingSequences s → w.ledger.published s = true

/-- The slot of `s` carries the flag of `s` or of the sequence one lap before it. -/
def SlotRight (b : BufferSize) (m : MultiProducerSequencer) (l : Ledger) (s : Int) : Prop :=
  m.slotFlag (calculateIndex b s) = flagCode b (if s < 0 ∨ l.published s = true then s else s - b.sizeI64)

/-- The invariant of the flags. -/
structure AvailInv (b : BufferSize) (w : MultiWorld) : Prop where
  claims : ClaimInv b w
  passed : PrefixPublished w
  flags : ∀ s, w.sequencer.cursor - b.sizeI64 < s → s ≤ w.sequencer.cursor → SlotRight b w.sequencer w.ledger s

/-! ## Flag codes -/

theorem flagCode_of_nonneg (hs : 0 ≤ s) : flagCode b s = s / b.sizeI64 % 2 := by
  unfold flagCode
  rw [if_neg (by omega)]

/-- One lap back the slot carries another flag. -/
theorem flagCode_sub_ne : flagCode b (s - b.sizeI64) ≠ s / b.sizeI64 % 2 := by
  unfold flagCode
  have hp := Int.emod_two_eq_zero_or_one (s / b.sizeI64)
  split
  · omega
  · rw [lap_sub_parity b.sizeI64_pos]; omega

/-- In the bitmap, marking turns the flag of the lap before into the flag of this lap. -/
theorem one_sub_flagCode (hb : ¬b.size < 64) : 1 - flagCode b (s - b.sizeI64) = s / b.sizeI64 % 2 := by
  unfold flagCode
  rw [if_neg (fun h => hb h.1), lap_sub_parity b.sizeI64_pos]
  omega

theorem flagCode_first {i : Nat} (hi : i < b.size) : flagCode b ((i : Int) - b.sizeI64) = if b.size < 64 then -1 else 1 := by
  have hpos := b.sizeI64_pos
  have hlt : (i : Int) < b.sizeI64 := by unfold BufferSize.sizeI64; omega
  unfold flagCode
  by_cases hb : b.size < 64
  · simp [hb]; omega
  · rw [if_neg (fun h => hb h.1), if_neg hb, lap_sub_parity hpos, Int.ediv_eq_zero_of_lt (by omega) hlt]
    rfl

/-! ## Steps -/

/-- No slot is marked yet: all carry the lap before the first. -/
theorem flags_init {s : Int} (h1 : (MultiWorld.init b gating).sequencer.cursor - b.sizeI64 < s)
    (h2 : s ≤ (MultiWorld.init b gating).sequencer.cursor) :
    SlotRight b (MultiWorld.init b gating).sequencer (MultiWorld.init b gating).ledger s := by
  have hpos := b.sizeI64_pos
  have hneg : s < 0 := by simp only [MultiWorld.init, new, initialCursorValue] at h2; omega
  have hlo : -b.sizeI64 ≤ s := by simp only [MultiWorld.init, new, initialCursorValue] at h1; omega
  have hidx : s = (calculateIndex b s : Int) - b.sizeI64 := by
    rw [calculateIndex_cast, ← Int.add_emod_right, Int.emod_eq_of_lt (by omega) (by omega)]
    omega
  unfold SlotRight
  rw [if_pos (.inl hneg)]
  have hnew : (MultiWorld.init b gating).sequencer.slotFlag (calculateIndex b s) =
      (new b).slotFlag (calculateIndex b s) := rfl
  rw [hnew, slotFlag_new (calculateIndex_lt b s)]
  conv_rhs => rw [hidx]
  rw [flagCode_first (calculateIndex_lt b s)]

theorem availInv_init (hg : gating ≠ []) : AvailInv b (MultiWorld.init b gating) where
  claims := claimInv_init gating
  passed := by
    intro s hs hb
    obtain ⟨i, hi⟩ := List.exists_mem_of_ne_nil gating hg
    have := hb i (mem_addGatingSequencesRcu.mpr (.inr hi))
    simp only [MultiWorld.init, initialCursorValue] at this
    omega
  flags _ := flags_init

/-- A grant moves the window over slots whose previous sequence is published. -/
theorem flags_grant {n : Int} {p : Nat} (hI : w.ledger.Inv w.sequencer.cursor)
    (hflags : ∀ s, w.sequencer.cursor - b.sizeI64 < s → s ≤ w.sequencer.cursor → SlotRight b w.sequencer w.ledger s)
    (hn : 1 ≤ n) (hN : n ≤ b.sizeI64)
    (hprev : ∀ s, 0 ≤ s → s ≤ w.sequencer.cursor + n - b.sizeI64 → w.ledger.published s = true)
    (h1 : w.sequencer.cursor + n - b.sizeI64 < s) (h2 : s ≤ w.sequencer.cursor + n) :
    SlotRight b { w.sequencer with cursor := w.sequencer.cursor + n }
      (w.ledger.grant p n (w.sequencer.cursor + n)) s := by
  have hlow := hI.neg_one_le
  show w.sequencer.slotFlag (calculateIndex b s) =
    flagCode b (if s < 0 ∨ w.ledger.published s = true then s else s - b.sizeI64)
  by_cases hs : s ≤ w.sequencer.cursor
  · exact hflags s (by omega) hs
  · -- a fresh sequence: its slot still carries the previous lap, which every consumer has passed
    have hnot : ¬(s < 0 ∨ w.ledger.published s = true) := by
      rintro (hneg | hp)
      · omega
      · have := (hI.claimed hp).2; omega
    rw [if_neg hnot]
    have hlap := hflags (s - b.sizeI64) (by omega) (by omega)
    unfold SlotRight at hlap
    rw [calculateIndex_sub] at hlap
    rw [hlap, if_pos]
    by_cases hneg : s - b.sizeI64 < 0
    · exact .inl hneg
    · exact .inr (hprev _ (by omega) (by omega))

/-- A publication marks exactly the slots of its sequences, which lie in the window. -/
theorem flags_publish {lo hi : Int} (hI : w.ledger.Inv w.sequencer.cursor)
    (hflags : ∀ s, w.sequencer.cursor - b.sizeI64 < s → s ≤ w.sequencer.cursor → SlotRight b w.sequencer w.ledger s)
    (hm : Marks b w.sequencer m' lo hi)
    (hown : ∀ t, lo ≤ t → t < hi → (∃ p, w.ledger.owner t = some p) ∧ w.sequencer.cursor - b.sizeI64 < t)
    (h1 : w.sequencer.cursor - b.sizeI64 < s) (h2 : s ≤ w.sequencer.cursor) :
    SlotRight b m' (w.ledger.publish lo hi) s := by
  have hin : ∀ t, lo ≤ t → t < hi → 0 ≤ t ∧ w.sequencer.cursor - b.sizeI64 < t ∧ t ≤ w.sequencer.cursor ∧
      w.ledger.published t = false := by
    intro t ht1 ht2
    obtain ⟨⟨p, hp⟩, hlo⟩ := hown t ht1 ht2
    obtain ⟨h0, hle, hpub⟩ := hI.held hp
    exact ⟨h0, hlo, hle, hpub⟩
  unfold SlotRight
  by_cases hs : lo ≤ s ∧ s < hi
  · obtain ⟨h0, -, -, hpub⟩ := hin s hs.1 hs.2
    have hpub' : (w.ledger.publish lo hi).published s = true := by simp [Ledger.publish, hs]
    have hold := hflags s h1 h2
    unfold SlotRight at hold
    rw [if_neg (by simp [hpub]; omega)] at hold
    have hcode : (if s < 0 ∨ (w.ledger.publish lo hi).published s = true then s else s - b.sizeI64) = s :=
      if_pos (.inr hpub')
    rw [hcode, hm.marked s hs.1 hs.2, flagCode_of_nonneg h0, hold]
    split <;> rename_i hb
    · rfl
    · exact one_sub_flagCode hb
  · have hpub : (w.ledger.publish lo hi).published s = w.ledger.published s := by simp [Ledger.publish, hs]
    rw [hpub, hm.other _ (calculateIndex_lt b s)]
    · exact hflags s h1 h2
    · intro t ht1 ht2 heq
      obtain ⟨-, hlo, hhi, -⟩ := hin t ht1 ht2
      have := eq_of_calculateIndex_eq b heq (by omega) (by omega)
      subst this
      exact hs ⟨ht1, ht2⟩

/-- What is claimed and unpublished lies in the window: below it everything is published. -/
theorem AvailInv.held_window (h : AvailInv b w) {p : Nat} (hp : w.ledger.owner s = some p) :
    w.sequencer.cursor - b.sizeI64 < s := by
  obtain ⟨h0, -, hpub⟩ := h.claims.ledger.held hp
  by_contra hlt
  have := h.passed s h0 (h.claims.lap.le (by omega))
  rw [hpub] at this
  cases this

/-- Publications and flags under a step of a producer. -/
theorem availInv_claimStep (h : AvailInv b w) {p : Nat} {pc' : MultiPc} {e : LedgerEffect}
    (hst : claimStep b w.sequences w.sequencer (w.producers p) = some (m', pc', e)) :
    AvailInv b { w with
      sequencer := m'
      producers := Function.update w.producers p pc'
      ledger := e.apply p w.ledger } := by
  have hclaims := claimInv_claimStep h.claims hst
  have hpc := h.claims.pcs p
  rcases claimStep_cases hst with ⟨rfl, rfl⟩ | ⟨c, current, minimum, he, rfl, rfl⟩ | ⟨c, he, rfl, rfl⟩ |
    ⟨lo, hi, hpub, rfl⟩
  · exact ⟨hclaims, h.passed, h.flags⟩
  · exact ⟨hclaims, h.passed, h.flags⟩
  · rw [he] at hpc
    exact ⟨hclaims, h.passed, fun s h1 h2 => flags_grant h.claims.ledger h.flags hpc.1 hpc.2.1
      (fun t h0 ht => h.passed t h0 (hpc.2.2.le ht)) h1 h2⟩
  · obtain ⟨hm, hlt⟩ := hpub.marks h.claims.laid
    obtain ⟨hcur, hgat, -⟩ := hm.sameClaims
    have hown := publishing_owned h.claims hpub
    refine ⟨hclaims, fun s h0 hb => ?_, fun s h1 h2 => ?_⟩
    · exact Ledger.published_publish (h.passed s h0 (by simpa only [hgat] using hb))
    · simp only [hcur] at h1 h2
      exact flags_publish h.claims.ledger h.flags hm (fun t h1 h2 => ⟨⟨p, hown t h1 h2⟩, h.held_window (hown t h1 h2)⟩) h1 h2

/-- **Step lemma.** A step keeps the flags exact if it does not let the slowest gating sequence pass an unpublished
sequence; only `advance` can. -/
theorem availInv_step {a : SequencerAction} (h : AvailInv b w) (ha : a.KeepsGating) (hs : w.step b a = some w')
    (hadv : ∀ i v, a = .advance i v → PrefixPublished w') : AvailInv b w' := by
  have hclaims := claimInv_step h.claims ha hs
  cases multiWorldRule_of_step hs with
  | step hst => exact availInv_claimStep h hst
  | advance => exact ⟨hclaims, hadv _ _ rfl, h.flags⟩
  | call | publish | publishRange | close | reopen | poison => exact ⟨hclaims, h.passed, h.flags⟩
  | addGatingSequences | removeGatingSequence => exact ha.elim

/-! ## Reading the flags -/

/-- In the window a reader may ask about, availability is publication. -/
theorem AvailInv.available_iff (h : AvailInv b w) (h0 : 0 ≤ s) (h1 : w.sequencer.cursor - b.sizeI64 < s)
    (h2 : Below w.sequences w.sequencer.gatingSequences (s - b.sizeI64)) :
    w.sequencer.isAvailableInternal b s = true ↔ w.ledger.published s = true := by
  rw [isAvailableInternal_iff h.claims.laid]
  by_cases hs : s ≤ w.sequencer.cursor
  · have := h.flags s h1 hs
    unfold SlotRight at this
    rw [this]
    by_cases hp : w.ledger.published s = true
    · simp [hp, flagCode_of_nonneg h0]
    · rw [if_neg (by rintro (hn | hn) <;> [omega; exact hp hn])]
      simp [flagCode_sub_ne, hp]
  · -- a sequence that is not claimed yet: the slot carries the lap before
    have hnp : w.ledger.published s ≠ true := fun hp => by have := (h.claims.ledger.claimed hp).2; omega
    have hprevLe : s - b.sizeI64 ≤ w.sequencer.cursor := by
      by_contra hgt
      have hp := h.passed (s - b.sizeI64) (by have := h.claims.ledger.neg_one_le; omega) h2
      have := (h.claims.ledger.claimed hp).2
      omega
    have hprev := h.flags (s - b.sizeI64) (by omega) hprevLe
    unfold SlotRight at hprev
    rw [calculateIndex_sub, if_pos] at hprev
    · rw [hprev]
      simp [flagCode_sub_ne, hnp]
    · by_cases hneg : s - b.sizeI64 < 0
      · exact .inl hneg
      · exact .inr (h.passed _ (by omega) h2)

/-- Consumers move only over published sequences. -/
def ConsumesPublished (w : MultiWorld) : SequencerAction → Prop
  | .advance i v => i ∈ w.sequencer.gatingSequences → ∀ s, 0 ≤ s → s ≤ v → w.ledger.published s = true
  | a => a.KeepsGating

/-- The runs in which the gating sequences never pass an unpublished sequence. -/
def ConsumedReach (b : BufferSize) (gating : List Nat) (w : MultiWorld) : Prop :=
  Reach (MultiWorld.step b) ConsumesPublished (MultiWorld.init b gating) w

instance (w : MultiWorld) : DecidablePred (ConsumesPublished w)
  | .advance i v =>
    inferInstanceAs (Decidable
      (i ∈ w.sequencer.gatingSequences → ∀ s, 0 ≤ s → s ≤ v → w.ledger.published s = true))
  | .addGatingSequences _ | .removeGatingSequence _ => isFalse id
  | .call _ _ | .publish _ _ | .publishRange _ _ _ | .step _ | .close | .reopen | .poison => isTrue trivial

theorem ConsumesPublished.keepsGating {a : SequencerAction} (h : ConsumesPublished w a) : a.KeepsGating := by
  cases a <;> trivial

theorem ConsumedReach.gated (h : ConsumedReach b gating w) : GatedReach b gating w :=
  Reach.mono (fun _ _ ha => ha.keepsGating) h

theorem ConsumedReach.availInv (hg : gating ≠ []) (h : ConsumedReach b gating w) : AvailInv b w := by
  refine Reach.inv (I := AvailInv b) (availInv_init hg) (fun {w w' a} hI ha hs => ?_) h
  refine availInv_step hI ha.keepsGating hs ?_
  rintro i v rfl s h0 hb
  cases multiWorldRule_of_step hs
  by_cases hi : i ∈ w.sequencer.gatingSequences
  · have := hb i hi
    simp only [Function.update_self] at this
    exact ha hi s h0 this
  · refine hI.passed s h0 fun j hj => ?_
    have hne : j ≠ i := fun e => hi (e ▸ hj)
    simpa [Function.update_of_ne hne] using hb j hj

/-- **Availability is exact.** For every sequence between the oldest slot of the ring and the last one the slowest
gating sequence leaves free, `is_available` answers whether it was published. -/
theorem available_iff_published (hg : gating ≠ []) (h : ConsumedReach b gating w)
    (hlo : max 0 (w.sequencer.cursor - b.sizeI64 + 1) ≤ s)
    (hhi : s ≤ getMinimumSequence w.sequences gating + b.sizeI64) :
    w.sequencer.isAvailableInternal b s = true ↔ w.ledger.published s = true := by
  refine (h.availInv hg).available_iff (le_trans (le_max_left _ _) hlo) ?_ (h.gated.below_iff.mpr ?_)
  · have := le_trans (le_max_right _ _) hlo
    omega
  · exact (le_getMinimumSequence hg).mp (by omega)

/-- The first two sequences are published and the first is consumed; sequence 2 reuses its slot and is claimed, not
published: it is not available, although the slot was marked one lap before. -/
theorem available_iff_published_second_lap : ∃ w, ConsumedReach ⟨1, by decide⟩ [0] w ∧ w.sequencer.cursor = 2 ∧
    (w.sequencer.isAvailableInternal ⟨1, by decide⟩ 2 = true ↔ w.ledger.published 2 = true) ∧
    w.ledger.published 2 = false := by
  obtain ⟨w, hw, hc, hs, hp⟩ : ∃ w, ConsumedReach ⟨1, by decide⟩ [0] w ∧ w.sequencer.cursor = 2 ∧
      w.sequences 0 = 0 ∧ w.ledger.published 2 = false :=
    ⟨_, reach_of_exec [.call 0 (.nextN 2), .step 0, .step 0, .step 0, .step 0, .step 0,
      .publishRange 0 0 1, .step 0, .step 0, .step 0, .advance 0 0, .call 1 (.nextN 1), .step 1, .step 1, .step 1,
      .step 1, .step 1, .step 1, .step 1, .step 1, .step 1] rfl, rfl, rfl, rfl⟩
  refine ⟨w, hw, hc, available_iff_published (by decide) hw ?_ ?_, hp⟩
  · rw [hc]; decide
  · simp only [getMinimumSequence, getMinimumSequenceWithDefault, hs]; decide

end BadBatch
