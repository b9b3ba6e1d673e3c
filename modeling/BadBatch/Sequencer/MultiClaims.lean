import BadBatch.Sequencer.Multi

/-!
# Claim safety of the multi-producer sequencer

The capacity check of a claim works on a snapshot of the cursor, a scan of gating sequences that move while it runs,
and a cache that racing producers overwrite. It is sound because the cache, every partial scan and every finished check
are lower bounds of the gating sequences (`PcOk`), and lower bounds survive growth.

* `claimStep_cases`: what one atomic step can do to the shared fields;
* `claimStep_call`: inside a call only a grant ends with `Ok`;
* `ClaimInv`, `claimInv_step`: the invariant of the system and its step lemma;
* `multi_claims_safe`: granted ranges are disjoint and tile `[0, cursor]`, and the cursor is at most a lap ahead of
  every gating sequence.
-/

namespace BadBatch

open MultiProducerSequencer StepSys

variable {b : BufferSize} {sequences sequences' : Nat → Int} {m m' : MultiProducerSequencer} {pc pc' : MultiPc}
  {e : LedgerEffect} {l l' : Ledger} {gating : List Nat} {p : Nat} {w w' : MultiWorld}

/-! ## One atomic step -/

/-- The fields of the sequencer that only the claim path and the gating calls write. -/
def SameClaims (m m' : MultiProducerSequencer) : Prop :=
  m'.cursor = m.cursor ∧ m'.gatingSequences = m.gatingSequences ∧ m'.cachedGatingSequence = m.cachedGatingSequence

/-- The publications a producer inside `publish` or `publish_range` is about to make. -/
def Publishing (b : BufferSize) (m m' : MultiProducerSequencer) : MultiPc → Int → Int → Prop
  | .publish s, lo, hi => lo = s ∧ hi = s + 1 ∧ m' = m.setAvailable b s
  | .publishRange s high, lo, hi => lo = s ∧ s ≤ high ∧ (m', hi) = m.publishRangeStep b s high
  | _, _, _ => False

section Rules

variable (b sequences m)

/-- The steps of a producer, one rule for each. -/
inductive MultiRule : MultiPc → MultiProducerSequencer → MultiPc → LedgerEffect → Prop
  | closed {c} (h : m.closed = true) : MultiRule (.loadClosed c) m (.returned (claimRefused .shutdown c)) .none
  | notClosed {c} (h : m.closed = false) : MultiRule (.loadClosed c) m (.loadPoisoned c) .none
  | poisoned {c} (h : m.poisoned = true) : MultiRule (.loadPoisoned c) m (.returned (claimRefused .poisoned c)) .none
  | notPoisoned {c} (h : m.poisoned = false) : MultiRule (.loadPoisoned c) m (.loadCursor c) .none
  | cursorNext {n} : MultiRule (.loadCursor (.nextN n)) m (.loadCached (.nextN n) m.cursor []) .none
  | cursor {c} (hc : ∀ n, c ≠ .nextN n) : MultiRule (.loadCursor c) m (.loadGating c m.cursor) .none
  | gatingTry {n current} :
    MultiRule (.loadGating (.tryNextN n) current) m (.loadCached (.tryNextN n) current m.gatingSequences) .none
  | gating {c current} (hc : ∀ n, c ≠ .tryNextN n) :
    MultiRule (.loadGating c current) m (.scan c current m.gatingSequences current) .none
  | gatingFirst {c} : MultiRule (.loadGatingFirst c) m (.loadCursorUnder c m.gatingSequences) .none
  | cursorUnder {c guard} : MultiRule (.loadCursorUnder c guard) m (.loadCached c m.cursor guard) .none
  | overflow {k guard} : MultiRule (.loadCursorUnder (.hasAvailableCapacity k) guard) m (.returned .panicked) .none
  | staleNext {n current guard}
    (h : current + n - b.sizeI64 > m.cachedGatingSequence ∨ m.cachedGatingSequence > current) :
    MultiRule (.loadCached (.nextN n) current guard) m (.loadGating (.nextN n) current) .none
  | stale {c current guard} (hc : ∀ n, c ≠ .nextN n)
    (h : current + c.n - b.sizeI64 > m.cachedGatingSequence ∨ m.cachedGatingSequence > current) :
    MultiRule (.loadCached c current guard) m (.scan c current guard current) .none
  | fresh {c current guard} (hc : ∀ k, c ≠ .hasAvailableCapacity k)
    (h : ¬(current + c.n - b.sizeI64 > m.cachedGatingSequence ∨ m.cachedGatingSequence > current)) :
    MultiRule (.loadCached c current guard) m (.cas c current) .none
  | freshAvailable {k current guard} : MultiRule (.loadCached (.hasAvailableCapacity k) current guard) m
      (.returned (.bool true)) .none
  | scan {c current i rest minimum} :
    MultiRule (.scan c current (i :: rest) minimum) m (.scan c current rest (lower minimum (sequences i))) .none
  | full {n current minimum} (h : current + n - b.sizeI64 > minimum) :
    MultiRule (.scan (.nextN n) current [] minimum) m (.loadClosed (.nextN n)) .none
  | scanned {c current minimum} (hc : c ≠ .remainingCapacity) (h : ∀ n, c = .nextN n → current + n - b.sizeI64 ≤ minimum) :
    MultiRule (.scan c current [] minimum) m (.storeCached c current minimum) .none
  | answerRemaining {current minimum} : MultiRule (.scan .remainingCapacity current [] minimum) m
    (.returned (.capacity (b.sizeI64 - (current - minimum)))) .none
  | store {c current minimum} (hc : ∀ k, c ≠ .hasAvailableCapacity k)
    (h : (∃ n, c = .nextN n) ∨ current + c.n - b.sizeI64 ≤ minimum) :
    MultiRule (.storeCached c current minimum) { m with cachedGatingSequence := minimum } (.cas c current) .none
  | storeFull {c current minimum} (hc : ∀ n, c ≠ .nextN n) (h : current + c.n - b.sizeI64 > minimum) :
    MultiRule (.storeCached c current minimum) { m with cachedGatingSequence := minimum } (.returned .none) .none
  | answerAvailable {k : Nat} {current minimum} :
    MultiRule (.storeCached (.hasAvailableCapacity k) current minimum) { m with cachedGatingSequence := minimum }
      (.returned (.bool (decide ¬current + k - b.sizeI64 > minimum))) .none
  | grant {c} : MultiRule (.cas c m.cursor) { m with cursor := m.cursor + c.n } (.returned (.ok (m.cursor + c.n)))
    (.grant c.n (m.cursor + c.n))
  | lostNext {n current} (h : m.cursor ≠ current) : MultiRule (.cas (.nextN n) current) m (.loadClosed (.nextN n)) .none
  | lost {c current} (hc : ∀ n, c ≠ .nextN n) (h : m.cursor ≠ current) : MultiRule (.cas c current) m (.returned .none) .none
  | publish {s} : MultiRule (.publish s) (m.setAvailable b s) (.returned .unit) (.publish s (s + 1))
  | rangeDone {s high} (h : high < s) : MultiRule (.publishRange s high) m (.returned .unit) .none
  | range {s high} (h : s ≤ high) : MultiRule (.publishRange s high) (m.publishRangeStep b s high).1
    (.publishRange (m.publishRangeStep b s high).2 high) (.publish s (m.publishRangeStep b s high).2)

variable {b sequences m}

/-- Every step of a producer follows a rule. -/
theorem multiRule_of_claimStep (h : claimStep b sequences m pc = some (m', pc', e)) :
    MultiRule b sequences m pc m' pc' e := by
  cases pc with
  | returned r => cases h
  | loadClosed c =>
    simp only [claimStep] at h
    cases hc : m.closed <;> rw [hc] at h <;> cases h
    · exact .notClosed hc
    · exact .closed hc
  | loadPoisoned c =>
    simp only [claimStep] at h
    cases hp : m.poisoned <;> rw [hp] at h <;> cases h
    · exact .notPoisoned hp
    · exact .poisoned hp
  | loadCursor c =>
    cases c with
    | nextN n =>
      cases h
      exact .cursorNext
    | tryNextN n | hasAvailableCapacity k | remainingCapacity =>
      cases h
      exact .cursor nofun
  | loadGating c current =>
    cases c with
    | tryNextN n =>
      cases h
      exact .gatingTry
    | nextN n | hasAvailableCapacity k | remainingCapacity =>
      cases h
      exact .gating nofun
  | loadGatingFirst c =>
    cases h
    exact .gatingFirst
  | loadCursorUnder c guard =>
    cases c with
    | hasAvailableCapacity k =>
      simp only [claimStep] at h
      split at h <;> cases h
      · exact .cursorUnder
      · exact .overflow
    | nextN n | tryNextN n | remainingCapacity =>
      cases h
      exact .cursorUnder
  | loadCached c current guard =>
    simp only [claimStep] at h
    split at h <;> rename_i hwrap
    · cases c with
      | nextN n =>
        cases h
        exact .staleNext hwrap
      | tryNextN n | hasAvailableCapacity k | remainingCapacity =>
        cases h
        exact .stale nofun hwrap
    · cases c with
      | hasAvailableCapacity k =>
        cases h
        exact .freshAvailable
      | nextN n | tryNextN n | remainingCapacity =>
        cases h
        exact .fresh nofun hwrap
  | scan c current rest minimum =>
    cases rest with
    | cons i rest =>
      cases h
      exact .scan
    | nil =>
      cases c with
      | nextN n =>
        simp only [claimStep] at h
        split at h <;> cases h
        · exact .full ‹_›
        · refine .scanned nofun fun n' hn => ?_
          cases hn
          exact not_lt.mp ‹_›
      | remainingCapacity =>
        cases h
        exact .answerRemaining
      | tryNextN n | hasAvailableCapacity k =>
        cases h
        exact .scanned nofun nofun
  | storeCached c current minimum =>
    cases c with
    | nextN n =>
      cases h
      exact .store nofun (.inl ⟨n, rfl⟩)
    | hasAvailableCapacity k =>
      cases h
      exact .answerAvailable
    | tryNextN n | remainingCapacity =>
      simp only [claimStep] at h
      split at h <;> cases h
      · exact .storeFull nofun ‹_›
      · exact .store nofun (.inr (not_lt.mp ‹_›))
  | cas c current =>
    simp only [claimStep] at h
    split at h <;> rename_i hcur
    · subst hcur
      cases h
      exact .grant
    · cases c with
      | nextN n =>
        cases h
        exact .lostNext hcur
      | tryNextN n | hasAvailableCapacity k | remainingCapacity =>
        cases h
        exact .lost nofun hcur
  | publish s =>
    cases h
    exact .publish
  | publishRange s high =>
    simp only [claimStep] at h
    split at h <;> cases h
    · exact .rangeDone ‹_›
    · exact .range (not_lt.mp ‹_›)

end Rules

/-- Everything one step of a producer can do: nothing shared, a store to the cache, a grant, or a publication. -/
theorem claimStep_cases (h : claimStep b sequences m pc = some (m', pc', e)) :
    (m' = m ∧ e = .none) ∨
    (∃ c current minimum, pc = .storeCached c current minimum ∧ e = .none ∧
      m' = { m with cachedGatingSequence := minimum }) ∨
    (∃ c, pc = .cas c m.cursor ∧ e = .grant c.n (m.cursor + c.n) ∧ m' = { m with cursor := m.cursor + c.n }) ∨
    (∃ lo hi, Publishing b m m' pc lo hi ∧ e = .publish lo hi) := by
  cases multiRule_of_claimStep h with
  | store | storeFull | answerAvailable => exact .inr (.inl ⟨_, _, _, rfl, rfl, rfl⟩)
  | grant => exact .inr (.inr (.inl ⟨_, rfl, rfl, rfl⟩))
  | publish => exact .inr (.inr (.inr ⟨_, _, ⟨rfl, rfl, rfl⟩, rfl⟩))
  | range hle => exact .inr (.inr (.inr ⟨_, _, ⟨rfl, hle, rfl⟩, rfl⟩))
  | _ => exact .inl ⟨rfl, rfl⟩

/-- A publication writes flags only. -/
theorem Publishing.frame {lo hi : Int} (h : Publishing b m m' pc lo hi) :
    m' = { m with availableBitmap := m'.availableBitmap, availableBuffer := m'.availableBuffer } := by
  cases pc with
  | publish s =>
    obtain ⟨-, -, rfl⟩ := h
    unfold setAvailable publishBitmap
    split
    · rfl
    · simp only
      split <;> rfl
  | publishRange s high =>
    obtain ⟨-, -, he⟩ := h
    have hm : m' = (m.publishRangeStep b s high).1 := by rw [← he]
    rw [hm]
    unfold publishRangeStep
    split
    · rfl
    · simp only
      split <;> rfl
  | _ => exact h.elim

/-- Publishing marks do not concern the claim path. -/
theorem Publishing.cursor_eq {lo hi : Int} (h : Publishing b m m' pc lo hi) :
    m'.cursor = m.cursor ∧ m'.closed = m.closed := by
  rw [h.frame]
  exact ⟨rfl, rfl⟩

/-- A publication marks its sequences and leaves the claim fields alone. -/
theorem Publishing.marks {lo hi : Int} (h : Publishing b m m' pc lo hi) (hl : Laid b m) :
    Marks b m m' lo hi ∧ lo < hi := by
  cases pc with
  | publish s =>
    obtain ⟨rfl, rfl, rfl⟩ := h
    exact ⟨setAvailable_marks hl lo, by omega⟩
  | publishRange s high =>
    obtain ⟨rfl, hle, he⟩ := h
    have := publishRangeStep_marks hl hle
    rw [← he] at this
    exact ⟨this.1, this.2.1⟩
  | _ => exact h.elim

theorem MultiProducerSequencer.Marks.sameClaims {lo hi : Int} (h : Marks b m m' lo hi) : SameClaims m m' := by
  rw [h.frame]; exact ⟨rfl, rfl, rfl⟩

/-! ## Calls and their results -/

/-- The call a producer is inside. -/
def MultiPc.call : MultiPc → Option ClaimCall
  | .loadClosed c | .loadPoisoned c | .loadCursor c | .loadGating c _ | .loadGatingFirst c | .loadCursorUnder c _
  | .loadCached c _ _ | .scan c _ _ _ | .storeCached c _ _ | .cas c _ => some c
  | _ => none

/-- A step inside a call stays in the call, or ends it; only a grant ends it with `Ok`. -/
theorem claimStep_call {c : ClaimCall} (h : claimStep b sequences m pc = some (m', pc', e)) (hc : pc.call = some c) :
    (pc'.call = some c ∧ e = .none) ∨ (∃ r, pc' = .returned r ∧ (∀ high, r ≠ .ok high) ∧ e = .none) ∨
      ∃ high, pc' = .returned (.ok high) ∧ e = .grant c.n high := by
  cases multiRule_of_claimStep h with
  | closed | poisoned =>
    cases hc
    exact .inr (.inl ⟨_, rfl, by cases c <;> simp [claimRefused], rfl⟩)
  | overflow | freshAvailable | answerRemaining | storeFull | answerAvailable | lost =>
    exact .inr (.inl ⟨_, rfl, by simp, rfl⟩)
  | grant =>
    cases hc
    exact .inr (.inr ⟨_, rfl, rfl⟩)
  | publish | rangeDone | range => cases hc
  | _ => exact .inl ⟨hc, rfl⟩

/-- Outside a call only publications happen. -/
theorem claimStep_no_call (h : claimStep b sequences m pc = some (m', pc', e)) (hc : pc.call = none) :
    pc'.call = none ∧ (e = .none ∨ ∃ lo hi, e = .publish lo hi) := by
  cases multiRule_of_claimStep h with
  | publish | range => exact ⟨rfl, .inr ⟨_, _, rfl⟩⟩
  | rangeDone => exact ⟨rfl, .inl rfl⟩
  | _ => cases hc

/-! ## Local facts -/

/-- The request fits the ring. -/
def ClaimCall.Fits (b : BufferSize) : ClaimCall → Prop
  | .nextN n => 1 ≤ n ∧ n ≤ b.sizeI64
  | .tryNextN n => 1 ≤ n ∧ n ≤ b.sizeI64
  | _ => True

/-- A request that reaches the `compare_exchange` asks for sequences. -/
theorem ClaimCall.Fits.bounds {c : ClaimCall} (h : c.Fits b) (hr : c ≠ .remainingCapacity)
    (hk : ∀ k, c ≠ .hasAvailableCapacity k) : 1 ≤ c.n ∧ c.n ≤ b.sizeI64 := by
  cases c with
  | nextN n | tryNextN n => exact h
  | hasAvailableCapacity k => exact absurd rfl (hk k)
  | remainingCapacity => exact absurd rfl hr

/-- What producer `p` knows where it stands. -/
def PcOk (b : BufferSize) (sequences : Nat → Int) (gating : List Nat) (l : Ledger) (p : Nat) : MultiPc → Prop
  | .returned _ => True
  | .loadClosed c => c.Fits b ∧ c ≠ .remainingCapacity
  | .loadPoisoned c => c.Fits b ∧ c ≠ .remainingCapacity
  | .loadCursor c => c.Fits b
  | .loadGating c _ => c.Fits b
  | .loadGatingFirst c => c.Fits b ∧ c ≠ .remainingCapacity
  | .loadCursorUnder c guard => c.Fits b ∧ c ≠ .remainingCapacity ∧ guard = gating
  | .loadCached c _ guard => c.Fits b ∧ c ≠ .remainingCapacity ∧ (guard = gating ∨ ∃ n, c = .nextN n)
  -- the sequences already scanned are not below the running minimum
  | .scan c _ rest minimum => c.Fits b ∧ ∃ scanned, scanned ++ rest = gating ∧ Below sequences scanned minimum
  | .storeCached c current minimum =>
    c.Fits b ∧ c ≠ .remainingCapacity ∧ Below sequences gating minimum ∧
      (∀ n, c = .nextN n → current + n - b.sizeI64 ≤ minimum)
  -- the capacity check is passed: the claim stays within a lap of the gating sequences
  | .cas c current => 1 ≤ c.n ∧ c.n ≤ b.sizeI64 ∧ Below sequences gating (current + c.n - b.sizeI64)
  | .publish s => l.owner s = some p
  | .publishRange s high => ∀ t, s ≤ t → t ≤ high → l.owner t = some p

/-- Local facts survive what the others do: sequences grow, and nobody takes what `p` holds. -/
theorem PcOk.mono (h : PcOk b sequences gating l p pc) (hs : ∀ i, sequences i ≤ sequences' i)
    (ho : ∀ s, l.owner s = some p → l'.owner s = some p) : PcOk b sequences' gating l' p pc := by
  cases pc with
  | scan c current rest minimum =>
    obtain ⟨hf, scanned, he, hb⟩ := h
    exact ⟨hf, scanned, he, hb.mono hs⟩
  | storeCached c current minimum => exact ⟨h.1, h.2.1, h.2.2.1.mono hs, h.2.2.2⟩
  | cas c current => exact ⟨h.1, h.2.1, h.2.2.mono hs⟩
  | publish s => exact ho _ h
  | publishRange s high => exact fun t h1 h2 => ho _ (h t h1 h2)
  | _ => exact h

/-- The argument checks let only fitting requests in. -/
theorem pcOk_claimStart (c : ClaimCall) : PcOk b sequences gating l p (claimStart b c) := by
  cases c with
  | nextN n =>
    simp only [claimStart]
    split
    · trivial
    · exact ⟨⟨by omega, by omega⟩, by simp⟩
  | tryNextN n =>
    simp only [claimStart]
    split
    · trivial
    · exact ⟨⟨by omega, by omega⟩, by simp⟩
  | hasAvailableCapacity k => exact ⟨trivial, by simp⟩
  | remainingCapacity => trivial

/-- A producer's own step takes it from one local fact to the next. -/
theorem pcOk_claimStep (h : claimStep b sequences m pc = some (m', pc', e)) (hg : m.gatingSequences = gating)
    (hc : Below sequences gating m.cachedGatingSequence) (hl : Laid b m) (hp : PcOk b sequences gating l p pc) :
    PcOk b sequences gating (e.apply p l) p pc' := by
  cases multiRule_of_claimStep h with
  | closed | poisoned | overflow | freshAvailable | answerRemaining | storeFull | answerAvailable | grant | lost | publish
  | rangeDone => trivial
  | notClosed => exact hp
  | notPoisoned => exact hp.1
  | cursorNext => exact ⟨hp, nofun, .inr ⟨_, rfl⟩⟩
  | cursor => exact hp
  | gatingTry => exact ⟨hp, nofun, .inl hg⟩
  | gating => exact ⟨hp, [], hg, below_nil⟩
  | gatingFirst => exact ⟨hp.1, hp.2, hg⟩
  | cursorUnder => exact ⟨hp.1, hp.2.1, .inl hp.2.2⟩
  | staleNext => exact hp.1
  | stale hn =>
    refine ⟨hp.1, [], hp.2.2.resolve_right ?_, below_nil⟩
    rintro ⟨n, rfl⟩
    exact hn n rfl
  | fresh hk hw =>
    obtain ⟨h1, h2⟩ := hp.1.bounds hp.2.1 hk
    exact ⟨h1, h2, hc.le (by omega)⟩
  | scan =>
    obtain ⟨hf, scanned, he, hb⟩ := hp
    exact ⟨hf, scanned ++ [_], by rw [← he]; simp, hb.scan⟩
  | full => exact ⟨hp.1, nofun⟩
  | scanned hr hw =>
    obtain ⟨hf, scanned, he, hb⟩ := hp
    rw [List.append_nil] at he
    exact ⟨hf, hr, he ▸ hb, hw⟩
  | store hk hw =>
    obtain ⟨hf, hr, hb, hn⟩ := hp
    obtain ⟨h1, h2⟩ := hf.bounds hr hk
    refine ⟨h1, h2, hb.le ?_⟩
    rcases hw with ⟨n, rfl⟩ | hw
    · exact hn n rfl
    · exact hw
  | lostNext => exact ⟨⟨hp.1, hp.2.1⟩, nofun⟩
  | range hle =>
    -- what is left of the range is still held
    have hstep := publishRangeStep_marks hl hle
    intro t h1 h2
    rw [LedgerEffect.apply, Ledger.owner_publish_of_not (by omega)]
    exact hp t (by omega) h2

/-! ## The invariant of the system -/

/-- The gating set is not changed by this step. -/
def SequencerAction.KeepsGating : SequencerAction → Prop
  | .addGatingSequences _ => False
  | .removeGatingSequence _ => False
  | _ => True

instance : DecidablePred SequencerAction.KeepsGating
  | .addGatingSequences _ => isFalse id
  | .removeGatingSequence _ => isFalse id
  | .call _ _ | .publish _ _ | .publishRange _ _ _ | .step _ | .advance _ _ | .close | .reopen | .poison =>
    isTrue trivial

/-- The invariant of claims under a fixed gating set. -/
structure ClaimInv (b : BufferSize) (w : MultiWorld) : Prop where
  laid : Laid b w.sequencer
  /-- The cache is a lower bound of the gating sequences. -/
  cached : Below w.sequences w.sequencer.gatingSequences w.sequencer.cachedGatingSequence
  /-- The cursor is at most one lap ahead of every gating sequence. -/
  lap : Below w.sequences w.sequencer.gatingSequences (w.sequencer.cursor - b.sizeI64)
  ledger : w.ledger.Inv w.sequencer.cursor
  pcs : ∀ p, PcOk b w.sequences w.sequencer.gatingSequences w.ledger p (w.producers p)

theorem claimInv_init (gating : List Nat) : ClaimInv b (MultiWorld.init b gating) where
  laid := ⟨laid_new.bitmap, laid_new.buffer⟩
  cached := fun i _ => le_refl _
  lap := fun i _ => by
    have := b.sizeI64_pos
    simp only [MultiWorld.init, new]
    omega
  ledger := Ledger.inv_empty
  pcs := fun _ => trivial

/-- A producer that moves without touching shared state needs only its own local fact. -/
theorem ClaimInv.goto (h : ClaimInv b w)
    (hp : PcOk b w.sequences w.sequencer.gatingSequences w.ledger p pc) : ClaimInv b (w.goto p pc) := by
  refine ⟨h.laid, h.cached, h.lap, h.ledger, fun q => ?_⟩
  by_cases hq : q = p
  · subst hq; simpa [MultiWorld.goto] using hp
  · simpa [MultiWorld.goto, Function.update_of_ne hq] using h.pcs q

/-- Every producer keeps its local fact when `p` takes a step. -/
theorem pcs_step (h : ClaimInv b w) (hst : claimStep b w.sequences w.sequencer (w.producers p) = some (m', pc', e))
    (ho : ∀ q, q ≠ p → ∀ s, w.ledger.owner s = some q → (e.apply p w.ledger).owner s = some q) (q : Nat) :
    PcOk b w.sequences w.sequencer.gatingSequences (e.apply p w.ledger) q (Function.update w.producers p pc' q) := by
  by_cases hq : q = p
  · subst hq
    rw [Function.update_self]
    exact pcOk_claimStep hst rfl h.cached h.laid (h.pcs q)
  · rw [Function.update_of_ne hq]
    exact (h.pcs q).mono (fun _ => le_rfl) (ho q hq)

/-- A producer publishes only what it holds. -/
theorem publishing_owned (h : ClaimInv b w) {lo hi : Int} (hpub : Publishing b w.sequencer m' (w.producers p) lo hi) :
    ∀ s, lo ≤ s → s < hi → w.ledger.owner s = some p := by
  intro s h1 h2
  have hpc := h.pcs p
  cases hpc' : w.producers p with
  | publish s' =>
    rw [hpc'] at hpub hpc
    obtain ⟨rfl, rfl, -⟩ := hpub
    have : s = lo := by omega
    subst this; exact hpc
  | publishRange s' high =>
    rw [hpc'] at hpub hpc
    obtain ⟨rfl, hle, he⟩ := hpub
    have hst := publishRangeStep_marks h.laid hle
    rw [← he] at hst
    exact hpc s h1 (by have := hst.2.2; simp only at this; omega)
  | _ => rw [hpc'] at hpub; exact hpub.elim

/-- An atomic step of a producer keeps the invariant. -/
theorem claimInv_claimStep (h : ClaimInv b w)
    (hst : claimStep b w.sequences w.sequencer (w.producers p) = some (m', pc', e)) :
    ClaimInv b { w with
      sequencer := m'
      producers := Function.update w.producers p pc'
      ledger := e.apply p w.ledger } := by
  have hpc := h.pcs p
  rcases claimStep_cases hst with ⟨rfl, rfl⟩ | ⟨c, current, minimum, he, rfl, rfl⟩ | ⟨c, he, rfl, rfl⟩ |
    ⟨lo, hi, hpub, rfl⟩
  · exact ⟨h.laid, h.cached, h.lap, h.ledger, pcs_step h hst fun _ _ _ hs => hs⟩
  · rw [he] at hpc
    exact ⟨⟨h.laid.bitmap, h.laid.buffer⟩, hpc.2.2.1, h.lap, h.ledger, pcs_step h hst fun _ _ _ hs => hs⟩
  · rw [he] at hpc
    refine ⟨⟨h.laid.bitmap, h.laid.buffer⟩, h.cached, hpc.2.2, Ledger.inv_grant h.ledger hpc.1,
      pcs_step h hst fun q _ s hs => ?_⟩
    -- a held sequence is at or below the old cursor
    have := (h.ledger.held hs).2.1
    simp only [LedgerEffect.apply]
    rw [Ledger.owner_grant_of_le (by omega)]
    exact hs
  · obtain ⟨hm, hlt⟩ := hpub.marks h.laid
    obtain ⟨hcur, hgat, hcach⟩ := hm.sameClaims
    have hown := publishing_owned h hpub
    refine ⟨hm.laid, by simpa only [hgat, hcach] using h.cached, by simpa only [hgat, hcur] using h.lap,
      by simp only [hcur]; exact Ledger.inv_publish h.ledger hown, ?_⟩
    simp only [hgat]
    refine pcs_step h hst fun q hq s hs => ?_
    simp only [LedgerEffect.apply]
    rw [Ledger.owner_publish_of_not]
    · exact hs
    · rintro ⟨h1, h2⟩
      rw [hown s h1 h2] at hs
      exact hq (Option.some.inj hs).symm

/-- **Step lemma.** Every step that keeps the gating set keeps the invariant. -/
theorem claimInv_step {a : SequencerAction} (h : ClaimInv b w) (ha : a.KeepsGating) (hs : w.step b a = some w') :
    ClaimInv b w' := by
  cases multiWorldRule_of_step hs with
  | @call p c hr => exact h.goto (pcOk_claimStart c)
  | publish hr ho => exact h.goto (Ledger.owns_iff.mp ho _ le_rfl le_rfl)
  | publishRange hr ho => exact h.goto (Ledger.owns_iff.mp ho)
  | step hst => exact claimInv_claimStep h hst
  | advance hle =>
    exact ⟨h.laid, h.cached.mono (le_update hle), h.lap.mono (le_update hle), h.ledger,
      fun q => (h.pcs q).mono (le_update hle) fun _ hs => hs⟩
  | close | reopen | poison => exact ⟨⟨h.laid.bitmap, h.laid.buffer⟩, h.cached, h.lap, h.ledger, h.pcs⟩
  | addGatingSequences | removeGatingSequence => exact ha.elim

/-! ## Runs -/

/-- The runs of a sequencer whose gating set is registered before the first claim and not changed afterwards. -/
def GatedReach (b : BufferSize) (gating : List Nat) (w : MultiWorld) : Prop :=
  Reach (MultiWorld.step b) (fun _ a => a.KeepsGating) (MultiWorld.init b gating) w

theorem GatedReach.claimInv (h : GatedReach b gating w) : ClaimInv b w :=
  Reach.inv (I := ClaimInv b) (claimInv_init gating) claimInv_step h

theorem mem_foldl_dedup {x : Nat} : ∀ {xs acc : List Nat},
    x ∈ xs.foldl (fun updated i => if i ∈ updated then updated else updated ++ [i]) acc ↔ x ∈ acc ∨ x ∈ xs
  | [], acc => by simp
  | i :: xs, acc => by
    rw [List.foldl_cons, mem_foldl_dedup]
    split
    · rename_i hi
      simp only [List.mem_cons]
      constructor
      · rintro (h | h)
        · exact .inl h
        · exact .inr (.inr h)
      · rintro (h | rfl | h)
        · exact .inl h
        · exact .inl hi
        · exact .inr h
    · simp only [List.mem_append, List.mem_cons, List.not_mem_nil, or_false]
      tauto

/-- Registration adds the given sequences and drops none. -/
theorem mem_addGatingSequencesRcu {current toAdd : List Nat} {x : Nat} :
    x ∈ addGatingSequencesRcu current toAdd ↔ x ∈ current ∨ x ∈ toAdd := by
  unfold addGatingSequencesRcu
  split
  · rename_i h
    simp [List.isEmpty_iff.mp h]
  · rw [mem_foldl_dedup]
    simp

/-- A step that keeps the gating set keeps it. -/
theorem gatingSequences_step {a : SequencerAction} (ha : a.KeepsGating) (hs : w.step b a = some w')
    (hl : Laid b w.sequencer) : w'.sequencer.gatingSequences = w.sequencer.gatingSequences := by
  cases multiWorldRule_of_step hs with
  | step hst =>
    rcases claimStep_cases hst with ⟨rfl, -⟩ | ⟨c, current, minimum, -, -, rfl⟩ | ⟨c, -, -, rfl⟩ | ⟨lo, hi, hpub, -⟩
    · rfl
    · rfl
    · rfl
    · exact (hpub.marks hl).1.sameClaims.2.1
  | call | publish | publishRange | advance | close | reopen | poison => rfl
  | addGatingSequences | removeGatingSequence => exact ha.elim

/-- The gating set of a gated run is the registered one. -/
theorem GatedReach.below_iff (h : GatedReach b gating w) {x : Int} :
    Below w.sequences w.sequencer.gatingSequences x ↔ Below w.sequences gating x := by
  have hg : w.sequencer.gatingSequences = addGatingSequencesRcu [] gating := by
    have := Reach.inv (I := fun w => ClaimInv b w ∧ w.sequencer.gatingSequences = addGatingSequencesRcu [] gating)
      ⟨claimInv_init gating, rfl⟩
      (fun hI ha hs => ⟨claimInv_step hI.1 ha hs, (gatingSequences_step ha hs hI.1.laid).trans hI.2⟩) h
    exact this.2
  unfold Below
  rw [hg]
  simp only [mem_addGatingSequencesRcu, List.not_mem_nil, false_or]

/-- **Claim safety.** In every state of every interleaving the granted ranges are disjoint and tile `[0, cursor]`, the
cursor is at most one lap ahead of the slowest gating sequence, and so a granted sequence shares its slot only with
sequences that every gating sequence has passed. -/
theorem multi_claims_safe (hg : gating ≠ []) (h : GatedReach b gating w) :
    (w.ledger.granted.Pairwise fun g g' => ∀ s, ¬(g.Has s ∧ g'.Has s)) ∧
    (∀ s, (∃ g ∈ w.ledger.granted, g.Has s) ↔ 0 ≤ s ∧ s ≤ w.sequencer.cursor) ∧
    w.sequencer.cursor ≤ getMinimumSequence w.sequences gating + b.sizeI64 ∧
    (∀ s t, s < t → t ≤ w.sequencer.cursor → calculateIndex b s = calculateIndex b t →
      s ≤ getMinimumSequence w.sequences gating) := by
  have hI := h.claimInv
  have hlap : w.sequencer.cursor - b.sizeI64 ≤ getMinimumSequence w.sequences gating :=
    (le_getMinimumSequence hg).mpr (h.below_iff.mp hI.lap)
  refine ⟨hI.ledger.tiles.pairwise, hI.ledger.tiles.cover, by omega, fun s t hst ht hi => ?_⟩
  by_contra hlt
  have := eq_of_calculateIndex_eq b hi (by have := b.sizeI64_pos; omega) (by omega)
  omega

/-- Two producers race on a ring of two slots: the `try_next_n` loses its CAS, then both have one claim. -/
theorem multi_claims_safe_race : ∃ w, GatedReach ⟨1, by decide⟩ [0] w ∧ w.sequencer.cursor = 1 ∧
    w.ledger.granted = [⟨1, 1, 1⟩, ⟨0, 1, 0⟩] ∧ w.sequencer.cursor ≤ getMinimumSequence w.sequences [0] + 2 := by
  obtain ⟨w, hw, hc, hl⟩ : ∃ w, GatedReach ⟨1, by decide⟩ [0] w ∧ w.sequencer.cursor = 1 ∧
      w.ledger.granted = [⟨1, 1, 1⟩, ⟨0, 1, 0⟩] :=
    ⟨_, reach_of_exec [.call 0 (.nextN 1), .call 1 (.tryNextN 1), .step 0, .step 1, .step 0, .step 1, .step 0, .step 0,
      .step 0, .step 1, .step 1, .step 1, .step 1, .call 1 (.nextN 1), .step 1, .step 1, .step 1, .step 1, .step 1] rfl,
      rfl, rfl⟩
  exact ⟨w, hw, hc, hl, (multi_claims_safe (by decide) hw).2.2.1⟩

end BadBatch
