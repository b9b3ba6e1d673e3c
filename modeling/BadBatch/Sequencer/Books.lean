import BadBatch.Sequencer.Single

/-!
# What the ledger says whatever the gating set

Claims are safe only against the gating sequences that were there when they were checked, and a sequence that is registered
late may be far behind. The books of both sequencers do not depend on it: grants follow each other without a gap, nobody
publishes what it does not hold, and what is published is at or below the cursor.

* `MultiBooks`, `multiBooks_step`: any number of producers;
* `SingleBooks`, `singleBooks_step`: one driver at a time, which publishes each claim before it starts the next one.
-/

namespace BadBatch

open MultiProducerSequencer

variable {b : BufferSize} {sequences : Nat → Int} {l : Ledger} {p q : Nat} {s : Int}

/-! ## Several producers -/

section Multi

variable {m m' : MultiProducerSequencer} {pc pc' : MultiPc} {e : LedgerEffect} {w w' : MultiWorld}

/-- What producer `p` knows where it stands, apart from gating sequences. -/
def MultiPc.Booked (b : BufferSize) (l : Ledger) (p : Nat) : MultiPc → Prop
  | .returned _ => True
  | .loadCursor c | .loadGating c _ | .scan c _ _ _ => c.Fits b
  | .loadClosed c | .loadPoisoned c | .loadGatingFirst c | .loadCursorUnder c _ | .loadCached c _ _ | .storeCached c _ _ =>
    c.Fits b ∧ c ≠ .remainingCapacity
  | .cas c _ => c.Fits b ∧ 1 ≤ c.n
  | .publish s => l.owner s = some p
  | .publishRange s high => ∀ t, s ≤ t → t ≤ high → l.owner t = some p

theorem PcOk.booked {gating : List Nat} (h : PcOk b sequences gating l p pc) : pc.Booked b l p := by
  cases pc with
  | returned r => trivial
  | loadClosed c | loadPoisoned c | loadGatingFirst c | loadCursor c | loadGating c current => exact h
  | loadCursorUnder c guard | loadCached c current guard | storeCached c current minimum => exact ⟨h.1, h.2.1⟩
  | scan c current rest minimum => exact h.1
  | cas c current =>
    refine ⟨?_, h.1⟩
    cases c with
    | nextN n | tryNextN n => exact ⟨h.1, h.2.1⟩
    | hasAvailableCapacity k | remainingCapacity => trivial
  | publish s | publishRange s high => exact h

theorem booked_claimStart (c : ClaimCall) : (claimStart b c).Booked b l p := by
  cases c with
  | nextN n | tryNextN n =>
    simp only [claimStart]
    split
    · trivial
    · exact ⟨⟨by omega, by omega⟩, by simp⟩
  | hasAvailableCapacity k => exact ⟨trivial, by simp⟩
  | remainingCapacity => trivial

/-- A step inside a call. -/
theorem booked_claimStep (h : claimStep b sequences m pc = some (m', pc', e)) (hl : Laid b m) (hp : pc.Booked b l p) :
    pc'.Booked b (e.apply p l) p := by
  cases multiRule_of_claimStep h with
  | closed | poisoned | overflow | freshAvailable | answerRemaining | storeFull | answerAvailable | grant | lost | publish
  | rangeDone => trivial
  | notPoisoned | staleNext | stale => exact hp.1
  | cursorNext | gatingTry | full => exact ⟨hp, nofun⟩
  | notClosed | cursor | gating | gatingFirst | cursorUnder | scan => exact hp
  | fresh hk => exact ⟨hp.1, (hp.1.bounds hp.2 hk).1⟩
  | scanned hr => exact ⟨hp, hr⟩
  | store hk => exact ⟨hp.1, (hp.1.bounds hp.2 hk).1⟩
  | lostNext => exact ⟨hp.1, nofun⟩
  | range hle =>
    -- what is left of the range is still held
    intro t ht1 ht2
    have := (publishRangeStep_marks hl hle).2.1
    rw [LedgerEffect.apply, Ledger.owner_publish_of_not (by omega)]
    exact hp t (by omega) ht2

/-- What `p` knows survives what the others do. -/
theorem MultiPc.Booked.mono {l' : Ledger} (h : pc.Booked b l p) (ho : ∀ s, l.owner s = some p → l'.owner s = some p) :
    pc.Booked b l' p := by
  cases pc with
  | publish s => exact ho s h
  | publishRange s high => exact fun t h1 h2 => ho t (h t h1 h2)
  | _ => exact h

/-- The books of the multi-producer sequencer. -/
structure MultiBooks (b : BufferSize) (w : MultiWorld) : Prop where
  laid : Laid b w.sequencer
  ledger : w.ledger.Inv w.sequencer.cursor
  pcs : ∀ p, (w.producers p).Booked b w.ledger p

theorem ClaimInv.books (h : ClaimInv b w) : MultiBooks b w := ⟨h.laid, h.ledger, fun p => (h.pcs p).booked⟩

/-- A producer publishes only what it holds. -/
theorem MultiBooks.owned (h : MultiBooks b w) {lo hi : Int} (hpub : Publishing b w.sequencer m' (w.producers p) lo hi) :
    ∀ s, lo ≤ s → s < hi → w.ledger.owner s = some p := by
  intro s h1 h2
  have hpc := h.pcs p
  cases hpc' : w.producers p with
  | publish s' =>
    rw [hpc'] at hpub hpc
    obtain ⟨rfl, rfl, -⟩ := hpub
    obtain rfl : s = lo := by omega
    exact hpc
  | publishRange s' high =>
    rw [hpc'] at hpub hpc
    obtain ⟨rfl, hle, he⟩ := hpub
    have hst := (publishRangeStep_marks h.laid hle).2.2
    rw [← he] at hst
    simp only at hst
    exact hpc s h1 (by omega)
  | _ => rw [hpc'] at hpub; exact hpub.elim

theorem MultiBooks.goto (h : MultiBooks b w) (hp : pc.Booked b w.ledger p) : MultiBooks b (w.goto p pc) := by
  refine ⟨h.laid, h.ledger, fun q => ?_⟩
  by_cases hq : q = p
  · subst hq
    simpa [MultiWorld.goto] using hp
  · simpa [MultiWorld.goto, Function.update_of_ne hq] using h.pcs q

/-- An atomic step of a producer. -/
theorem multiBooks_claimStep (h : MultiBooks b w)
    (hst : claimStep b w.sequences w.sequencer (w.producers p) = some (m', pc', e)) :
    MultiBooks b { w with
      sequencer := m'
      producers := Function.update w.producers p pc'
      ledger := e.apply p w.ledger } := by
  have hpcs : (∀ q, q ≠ p → ∀ s, w.ledger.owner s = some q → (e.apply p w.ledger).owner s = some q) →
      ∀ q, (Function.update w.producers p pc' q).Booked b (e.apply p w.ledger) q := by
    intro ho q
    by_cases hq : q = p
    · subst hq
      rw [Function.update_self]
      exact booked_claimStep hst h.laid (h.pcs q)
    · rw [Function.update_of_ne hq]
      exact (h.pcs q).mono (ho q hq)
  have hpc := h.pcs p
  rcases claimStep_cases hst with ⟨rfl, rfl⟩ | ⟨c, current, minimum, -, rfl, rfl⟩ | ⟨c, he, rfl, rfl⟩ | ⟨lo, hi, hpub, rfl⟩
  · exact ⟨h.laid, h.ledger, hpcs fun _ _ _ hs => hs⟩
  · exact ⟨⟨h.laid.bitmap, h.laid.buffer⟩, h.ledger, hpcs fun _ _ _ hs => hs⟩
  · rw [he] at hpc
    refine ⟨⟨h.laid.bitmap, h.laid.buffer⟩, Ledger.inv_grant h.ledger hpc.2, hpcs fun q _ s hs => ?_⟩
    have := (h.ledger.held hs).2.1
    rw [LedgerEffect.apply, Ledger.owner_grant_of_le (by omega)]
    exact hs
  · obtain ⟨hm, -⟩ := hpub.marks h.laid
    have hown := h.owned hpub
    refine ⟨hm.laid, by simp only [hm.sameClaims.1]; exact Ledger.inv_publish h.ledger hown, hpcs fun q hq s hs => ?_⟩
    rw [LedgerEffect.apply, Ledger.owner_publish_of_not]
    · exact hs
    · rintro ⟨h1, h2⟩
      rw [hown s h1 h2] at hs
      exact hq (Option.some.inj hs).symm

/-- **Step lemma.** -/
theorem multiBooks_step {a : SequencerAction} (h : MultiBooks b w) (hs : w.step b a = some w') : MultiBooks b w' := by
  cases multiWorldRule_of_step hs with
  | @call p c hr => exact h.goto (booked_claimStart c)
  | publish hr ho => exact h.goto (Ledger.owns_iff.mp ho _ le_rfl le_rfl)
  | publishRange hr ho => exact h.goto (Ledger.owns_iff.mp ho)
  | step hst => exact multiBooks_claimStep h hst
  | advance => exact ⟨h.laid, h.ledger, h.pcs⟩
  | close | reopen | poison | addGatingSequences | removeGatingSequence =>
    exact ⟨⟨h.laid.bitmap, h.laid.buffer⟩, h.ledger, h.pcs⟩

end Multi

/-! ## One driver -/

section Single

variable {unique : Bool} {m m' : SingleProducerSequencer} {pc pc' : SinglePc} {e : LedgerEffect} {w w' : SingleWorld}

/-- What the driver knows where it stands, apart from gating sequences. -/
def SinglePc.Booked (b : BufferSize) (m : SingleProducerSequencer) (l : Ledger) (driver : Nat) : SinglePc → Prop
  | .returned _ | .release _ => True
  | .loadClosed c | .loadPoisoned c => c.Fits b ∧ (m.nextValue = m.cursor ∨ m.poisoned = true)
  | .acquire c | .check c | .loadGating c | .scan c _ _ => c.Fits b ∧ (c.isClaim = true → m.nextValue = m.cursor)
  | .setVolatile c | .spinClosed c | .spinPoisoned c => c.Fits b ∧ m.nextValue = m.cursor
  | .publish high => l.owner high = some driver

theorem SinglePcOk.booked {driver : Nat} (h : SinglePcOk b sequences m l driver pc) : pc.Booked b m l driver := by
  cases pc with
  | scan c rest minimum => exact ⟨h.1, h.2.1⟩
  | _ => exact h

theorem booked_finish {driver : Nat} (r : ClaimResult) :
    (SingleProducerSequencer.finish unique r).Booked b m l driver := by
  unfold SingleProducerSequencer.finish
  split <;> trivial

/-- A step that neither grants nor publishes. -/
theorem booked_singleStep {driver : Nat}
    (h : SingleProducerSequencer.claimStep b unique sequences m pc = some (m', pc', .none))
    (hp : pc.Booked b m l driver) : pc'.Booked b m' l driver := by
  cases singleRule_of_claimStep h with
  | closed | poisoned | contended | release => trivial
  | overflow | askCached | answerRemaining | answerAvailable | tryFull | spinShutdown | spinPoisoned => exact booked_finish _
  | notClosed | acquire | remaining | askGating | loadGating | scan | spinNotClosed => exact hp
  | toCheck hnp | toAcquire hnp => exact ⟨hp.1, fun _ => hp.2.resolve_right (by rw [hnp]; exact Bool.false_ne_true)⟩
  | stale hc => exact ⟨hp.1, hp.2 hc⟩
  | setVolatile => exact ⟨hp.1, fun _ => rfl⟩
  | full => exact ⟨hp.1, hp.2 rfl⟩
  | spin => exact ⟨hp.1, fun _ => hp.2⟩

/-- The books of the single-producer sequencer. -/
structure SingleBooks (b : BufferSize) (w : SingleWorld) : Prop where
  low : -1 ≤ w.sequencer.cursor
  cursor_le : w.sequencer.cursor ≤ w.sequencer.nextValue
  ledger : w.ledger.Inv w.sequencer.nextValue
  published : ∀ s, w.ledger.published s = true ↔ 0 ≤ s ∧ s ≤ w.sequencer.cursor
  /-- What is claimed and unpublished belongs to one claim. -/
  holder : ∀ {s t p q}, w.ledger.owner s = some p → w.ledger.owner t = some q → p = q
  pc : w.pc.Booked b w.sequencer w.ledger w.driver

theorem singleBooks_init {unique : Bool} {gating : List Nat} : SingleBooks b (SingleWorld.init unique gating) where
  low := le_rfl
  cursor_le := le_rfl
  ledger := Ledger.inv_empty
  published := fun s => by
    simp only [SingleWorld.init, SingleProducerSequencer.new, Ledger.empty, initialCursorValue]
    constructor
    · intro h; cases h
    · omega
  holder := fun h => by simp [SingleWorld.init, Ledger.empty] at h
  pc := trivial

theorem SingleInv.books (h : SingleInv b w) : SingleBooks b w :=
  ⟨h.low, h.cursor_le, h.ledger, h.published, h.holder, h.pc.booked⟩

/-- A driver that publishes `high` holds everything between the cursor and `high`. -/
theorem SingleBooks.publishing (h : SingleBooks b w) {high : Int} (he : w.pc = .publish high) :
    w.sequencer.cursor < high ∧ high ≤ w.sequencer.nextValue ∧
      ∀ s, w.sequencer.cursor + 1 ≤ s → s < high + 1 → w.ledger.owner s = some w.driver := by
  have hown : w.ledger.owner high = some w.driver := by
    have := h.pc
    rwa [he] at this
  obtain ⟨h0, h1, h2⟩ := h.ledger.held hown
  refine ⟨?_, h1, fun s hs1 hs2 => ?_⟩
  · by_contra hle
    have := (h.published high).mpr ⟨h0, by omega⟩
    rw [h2] at this
    cases this
  · have hlow := h.low
    rcases h.ledger.settled (s := s) (by omega) (by omega) with hp | ⟨q, hq⟩
    · have := ((h.published s).mp hp).2
      omega
    · rw [hq, h.holder hq hown]

/-- A driver that is about to be granted a claim has published everything. -/
theorem SingleBooks.grants (h : SingleBooks b w) {c : ClaimCall} (hc : c.isClaim = true)
    (hpc : w.pc = .check c ∨ ∃ minimum, w.pc = .scan c [] minimum) :
    c.Fits b ∧ w.sequencer.nextValue = w.sequencer.cursor := by
  have hok := h.pc
  rcases hpc with hp | ⟨minimum, hp⟩ <;> rw [hp] at hok <;> exact ⟨hok.1, hok.2 hc⟩

/-- A step of the driver. -/
theorem singleBooks_claimStep (h : SingleBooks b w)
    (hst : SingleProducerSequencer.claimStep b w.unique w.sequences w.sequencer w.pc = some (m', pc', e)) :
    SingleBooks b { w with sequencer := m', pc := pc', ledger := e.apply w.driver w.ledger } := by
  have hpc := h.pc
  rcases singleStep_cases hst with ⟨rfl, hsame, -⟩ | ⟨c, he, rfl, rfl, rfl⟩ | ⟨c, hc, rfl, hm, -, rfl, hfrom⟩ |
    ⟨high, he, rfl, rfl, rfl⟩
  · have hok := booked_singleStep hst hpc
    obtain ⟨hcur, -, hnext, -⟩ := hsame
    exact ⟨by simpa only [hcur] using h.low, by simpa only [hcur, hnext] using h.cursor_le,
      by simp only [hnext]; exact h.ledger, by simp only [hcur]; exact h.published, h.holder, hok⟩
  · -- inside a claim the cursor already is `next_value`
    rw [he] at hpc
    have heq : w.sequencer.nextValue = w.sequencer.cursor := hpc.2
    exact ⟨heq ▸ h.low, le_rfl, h.ledger, by simp only [heq]; exact h.published, h.holder, ⟨hpc.1, fun _ => rfl⟩⟩
  · obtain ⟨hf, heq⟩ := h.grants hc (hfrom.imp And.left fun hp => ⟨_, hp⟩)
    have hn := hf.one_le hc
    rw [hm]
    refine ⟨h.low, ?_, Ledger.inv_grant h.ledger hn, h.published, ?_, booked_finish _⟩
    · simp only
      omega
    · -- before the grant nothing is held
      have hnone : ∀ {s p}, w.ledger.owner s = some p → False := fun {s p} ho => by
        obtain ⟨h0, h1, h2⟩ := h.ledger.held ho
        have := (h.published s).mpr ⟨h0, by omega⟩
        rw [h2] at this
        cases this
      intro s t p q hs ht
      simp only [LedgerEffect.apply, Ledger.grant] at hs ht
      split at hs
      · split at ht
        · exact (Option.some.inj hs).symm.trans (Option.some.inj ht)
        · exact (hnone ht).elim
      · exact (hnone hs).elim
  · obtain ⟨hgt, h1, hall⟩ := h.publishing he
    have hlow := h.low
    refine ⟨by simp only; omega, h1, Ledger.inv_publish h.ledger hall, fun s => ?_, ?_, trivial⟩
    · simp only [LedgerEffect.apply, Ledger.publish]
      split
      · simp only [true_iff]
        omega
      · rw [h.published s]
        omega
    · intro s t p q hs ht
      simp only [LedgerEffect.apply, Ledger.publish] at hs ht
      split at hs
      · cases hs
      · split at ht
        · cases ht
        · exact h.holder hs ht

/-- **Step lemma.** A claim starts only when the last one is published or the sequencer is poisoned. -/
theorem singleBooks_step {a : SequencerAction} (h : SingleBooks b w) (hs : w.step b a = some w')
    (hcall : ∀ p c, a = .call p c → w.sequencer.nextValue = w.sequencer.cursor ∨ w.sequencer.poisoned = true) :
    SingleBooks b w' := by
  obtain ⟨low, cursor_le, ledger, published, holder, pc⟩ := h
  cases singleWorldRule_of_step hs with
  | @call p c hr =>
    have hpc : SinglePcOk b w.sequences w.sequencer w.ledger p (SingleProducerSequencer.claimStart b w.unique c) :=
      singlePcOk_claimStart c fun _ => hcall p c rfl
    exact ⟨low, cursor_le, ledger, published, holder, hpc.booked⟩
  | publish hr ho => exact ⟨low, cursor_le, ledger, published, holder, Ledger.owns_iff.mp ho.2 _ le_rfl le_rfl⟩
  | publishRange hr ho => exact ⟨low, cursor_le, ledger, published, holder, Ledger.owns_iff.mp ho.2 _ ho.1 le_rfl⟩
  | step hst => exact singleBooks_claimStep ⟨low, cursor_le, ledger, published, holder, pc⟩ hst
  | advance => exact ⟨low, cursor_le, ledger, published, holder, pc⟩
  | close | reopen | addGatingSequences | removeGatingSequence =>
    refine ⟨low, cursor_le, ledger, published, holder, ?_⟩
    revert pc
    cases w.pc <;> exact id
  | poison =>
    refine ⟨low, cursor_le, ledger, published, holder, ?_⟩
    revert pc
    cases w.pc with
    | loadClosed c | loadPoisoned c => exact fun hp => ⟨hp.1, .inr rfl⟩
    | _ => exact id

end Single

end BadBatch
