import BadBatch.Sequencer.World

/-!
# Claims without gating sequences

A `Disruptor` can be published to before a handler is registered. Nothing gates its claims then: the scan of an empty gating
list gives the cursor itself, and the ring is overwritten. The first lap is claimed on the fast path, which leaves the cache
as it was; only the claim that follows it asks for the gating sequences. So as long as at most one lap is claimed, and nobody
is inside a claim, a sequence that is registered finds everything as if it had been there from the start.

* `FirstLap`: what a late registration needs;
* `Early`, `Late`, `early_step`, `late_step`: before and after the claim that follows the first lap;
* `FirstLap.inv`: gating sequences that are registered in the first lap.
-/

namespace BadBatch

open MultiProducerSequencer

/-- A call of the DSL: one sequence, or the remaining capacity. -/
def ClaimCall.ofDsl : ClaimCall → Bool
  | nextN n => n == 1
  | tryNextN n => n == 1
  | remainingCapacity => true
  | hasAvailableCapacity _ => false

theorem ClaimCall.n_eq {c : ClaimCall} (h : c.ofDsl = true) (hc : c.isClaim = true) : c.n = 1 := by
  cases c <;> simp_all [ClaimCall.ofDsl, ClaimCall.isClaim, ClaimCall.n]

/-! ## Several producers -/

section Multi

variable {b : BufferSize} {sequences : Nat → Int} {m m' : MultiProducerSequencer} {pc pc' : MultiPc} {e : LedgerEffect}
  {w w' : MultiWorld} {p : Nat} {c : ClaimCall} {a : SequencerAction}

/-- At most one lap is claimed, the cache is untouched, and the flags are right. -/
structure MultiFirstLap (b : BufferSize) (w : MultiWorld) : Prop where
  cursor : w.sequencer.cursor < b.sizeI64
  cached : w.sequencer.cachedGatingSequence = initialCursorValue
  flags : ∀ s, w.sequencer.cursor - b.sizeI64 < s → s ≤ w.sequencer.cursor → SlotRight b w.sequencer w.ledger s

/-- Where a producer may stand in the first lap: on the slow path only for the claim that follows it. -/
def MultiPc.Early (b : BufferSize) (cursor : Int) : MultiPc → Prop
  | .loadGating c current => current ≤ cursor ∧ -1 ≤ current ∧ ((∃ n, c = .nextN n) → b.sizeI64 ≤ current + 1)
  | .loadGatingFirst _ | .loadCursorUnder _ _ => False
  | .loadCached c current guard => c.isClaim = true ∧ guard = [] ∧ current ≤ cursor ∧ -1 ≤ current
  | .scan c current rest minimum =>
    rest = [] ∧ minimum = current ∧ current ≤ cursor ∧ (c.isClaim = true → b.sizeI64 ≤ current + 1)
  | .storeCached c current minimum => c.isClaim = true ∧ minimum = current ∧ current ≤ cursor ∧ b.sizeI64 ≤ current + 1
  | .cas _ current => current + 1 < b.sizeI64
  | _ => True

/-- Before the claim that follows the first lap. -/
structure MultiEarly (b : BufferSize) (w : MultiWorld) : Prop where
  lap : MultiFirstLap b w
  gating : w.sequencer.gatingSequences = []
  calls : ∀ p c, (w.producers p).call = some c → c.ofDsl = true
  pcs : ∀ p, (w.producers p).Early b w.sequencer.cursor

/-- After it, or about to make it. -/
def MultiLate (b : BufferSize) (w : MultiWorld) : Prop :=
  b.sizeI64 ≤ w.sequencer.cursor ∨
    ∃ p c current, w.producers p = .cas c current ∧ b.sizeI64 ≤ current + 1 ∧ current ≤ w.sequencer.cursor

theorem MultiPc.Early.mono {cursor cursor' : Int} (h : pc.Early b cursor) (hle : cursor ≤ cursor') : pc.Early b cursor' := by
  cases pc with
  | loadGating c current => exact ⟨le_trans h.1 hle, h.2⟩
  | loadCached c current guard => exact ⟨h.1, h.2.1, le_trans h.2.2.1 hle, h.2.2.2⟩
  | scan c current rest minimum => exact ⟨h.1, h.2.1, le_trans h.2.2.1 hle, h.2.2.2⟩
  | storeCached c current minimum => exact ⟨h.1, h.2.1, le_trans h.2.2.1 hle, h.2.2.2⟩
  | _ => exact h

theorem early_claimStart (hc : c.ofDsl = true) {cursor : Int} :
    (claimStart b c).Early b cursor ∧ ∀ c', (claimStart b c).call = some c' → c'.ofDsl = true := by
  cases c with
  | nextN n | tryNextN n =>
    simp only [claimStart]
    split
    · exact ⟨trivial, by rintro _ ⟨⟩⟩
    · refine ⟨trivial, fun c' he => ?_⟩
      cases he
      exact hc
  | remainingCapacity =>
    refine ⟨trivial, fun c' he => ?_⟩
    cases he
    exact hc
  | hasAvailableCapacity k => cases hc

/-- A step of a claim: it stays early, or it stores the cache on its way to the claim that follows the first lap. -/
theorem early_claimStep (hl : Laid b m) (h : claimStep b sequences m pc = some (m', pc', e)) (hg : m.gatingSequences = [])
    (hcached : m.cachedGatingSequence = initialCursorValue) (hlow : -1 ≤ m.cursor)
    (hcall : ∀ c, pc.call = some c → c.ofDsl = true) (hp : pc.Early b m.cursor) :
    (pc'.Early b m'.cursor ∧ m'.cachedGatingSequence = m.cachedGatingSequence) ∨
      ∃ c current, pc' = .cas c current ∧ b.sizeI64 ≤ current + 1 ∧ current ≤ m'.cursor := by
  have hpos := b.sizeI64_pos
  cases multiRule_of_claimStep h with
  | closed | notClosed | poisoned | notPoisoned | answerRemaining | grant | lostNext | lost | rangeDone =>
    exact .inl ⟨trivial, rfl⟩
  | gatingFirst | cursorUnder | overflow => exact hp.elim
  | cursorNext => exact .inl ⟨⟨rfl, rfl, le_rfl, hlow⟩, rfl⟩
  | cursor hc =>
    refine .inl ⟨⟨le_rfl, hlow, ?_⟩, rfl⟩
    rintro ⟨n, rfl⟩
    exact absurd rfl (hc n)
  | gatingTry => exact .inl ⟨⟨rfl, hg, hp.1, hp.2.1⟩, rfl⟩
  | @gating c =>
    obtain ⟨hle, hcur, hlap⟩ := hp
    refine .inl ⟨⟨hg, rfl, hle, fun hc => ?_⟩, rfl⟩
    cases c <;> simp_all [ClaimCall.isClaim]
  | staleNext hwrap =>
    obtain ⟨hc, rfl, hle, hcur⟩ := hp
    have hn := ClaimCall.n_eq (hcall _ rfl) hc
    simp only [ClaimCall.n] at hn
    rw [hcached, initialCursorValue] at hwrap
    exact .inl ⟨⟨hle, hcur, fun _ => by omega⟩, rfl⟩
  | stale _ hwrap =>
    obtain ⟨hc, rfl, hle, hcur⟩ := hp
    have hn := ClaimCall.n_eq (hcall _ rfl) hc
    rw [hcached, initialCursorValue] at hwrap
    exact .inl ⟨⟨rfl, rfl, hle, fun _ => by omega⟩, rfl⟩
  | @fresh c current _ _ hwrap =>
    obtain ⟨hc, rfl, hle, hcur⟩ := hp
    have hn := ClaimCall.n_eq (hcall _ rfl) hc
    rw [hcached, initialCursorValue] at hwrap
    exact .inl ⟨show current + 1 < b.sizeI64 by omega, rfl⟩
  | freshAvailable | answerAvailable => cases hcall _ rfl
  | scan => cases hp.1
  | full hfull =>
    obtain ⟨-, rfl, -, -⟩ := hp
    have hn := ClaimCall.n_eq (hcall _ rfl) rfl
    simp only [ClaimCall.n] at hn
    omega
  | @scanned c _ _ hr =>
    obtain ⟨-, rfl, hle, hlap⟩ := hp
    have hc : c.isClaim = true := by
      have := hcall _ rfl
      cases c <;> simp_all [ClaimCall.isClaim, ClaimCall.ofDsl]
    exact .inl ⟨⟨hc, rfl, hle, hlap hc⟩, rfl⟩
  | store => exact .inr ⟨_, _, rfl, hp.2.2.2, hp.2.2.1⟩
  | storeFull _ hfull =>
    obtain ⟨hc, rfl, -, -⟩ := hp
    have hn := ClaimCall.n_eq (hcall _ rfl) hc
    omega
  | publish => exact .inl ⟨trivial, (setAvailable_marks hl _).sameClaims.2.2⟩
  | range hle => exact .inl ⟨trivial, (publishRangeStep_marks hl hle).1.sameClaims.2.2⟩

theorem call_of_claimStep (h : claimStep b sequences m pc = some (m', pc', e)) (hc : pc'.call = some c) :
    pc.call = some c := by
  cases hcall : pc.call with
  | some c₀ =>
    rcases claimStep_call h hcall with ⟨he, -⟩ | ⟨r, rfl, -⟩ | ⟨high, rfl, -⟩
    · exact he.symm.trans hc
    · cases hc
    · cases hc
  | none =>
    rw [(claimStep_no_call h hcall).1] at hc
    cases hc

/-- A step that leaves the cache alone stays in the first lap. -/
theorem firstLap_claimStep (hI : MultiBooks b w) (h : MultiEarly b w)
    (hst : claimStep b w.sequences w.sequencer (w.producers p) = some (m', pc', e)) :
    (w.sequencer.cursor ≤ m'.cursor ∧ m'.gatingSequences = w.sequencer.gatingSequences) ∧
      (m'.cachedGatingSequence = w.sequencer.cachedGatingSequence → MultiFirstLap b { w with
        sequencer := m'
        producers := Function.update w.producers p pc'
        ledger := e.apply p w.ledger }) := by
  have hcursor := h.lap.cursor
  have hpc := h.pcs p
  have hbooked := hI.pcs p
  rcases claimStep_cases hst with ⟨rfl, rfl⟩ | ⟨c, current, minimum, he, rfl, rfl⟩ | ⟨c, he, rfl, rfl⟩ | ⟨lo, hi, hpub, rfl⟩
  · exact ⟨⟨le_rfl, rfl⟩, fun _ => ⟨h.lap.cursor, h.lap.cached, h.lap.flags⟩⟩
  · exact ⟨⟨le_rfl, rfl⟩, fun hcached => ⟨h.lap.cursor, hcached.trans h.lap.cached, h.lap.flags⟩⟩
  · rw [he] at hpc hbooked
    have hn : c.n = 1 := ClaimCall.n_eq (h.calls p c (by rw [he]; rfl)) (by
      have := h.calls p c (by rw [he]; rfl)
      have := hbooked.2
      cases c <;> simp_all [ClaimCall.ofDsl, ClaimCall.isClaim, ClaimCall.n])
    have hlt : w.sequencer.cursor + 1 < b.sizeI64 := hpc
    refine ⟨⟨by simp only [hn]; omega, rfl⟩, fun _ => ⟨by simp only [hn]; exact hlt, h.lap.cached, fun s h1 h2 => ?_⟩⟩
    exact flags_grant hI.ledger h.lap.flags hbooked.2 (by omega) (fun t h0 ht => by omega) h1 h2
  · obtain ⟨hm, -⟩ := hpub.marks hI.laid
    obtain ⟨hcur, hgat, hcache⟩ := hm.sameClaims
    have hown := hI.owned hpub
    refine ⟨⟨le_of_eq hcur.symm, hgat⟩, fun _ => ⟨by simp only [hcur]; exact h.lap.cursor, hcache.trans h.lap.cached,
      fun s h1 h2 => ?_⟩⟩
    simp only [hcur] at h1 h2
    refine flags_publish hI.ledger h.lap.flags hm (fun t h1 h2 => ⟨⟨p, hown t h1 h2⟩, ?_⟩) h1 h2
    have := (hI.ledger.held (hown t h1 h2)).1
    omega

/-- **Step lemma of the first lap**: the claim that follows it ends it. -/
theorem multiEarly_step (hI : MultiBooks b w) (h : MultiEarly b w) (hs : w.step b a = some w') (ha : a.KeepsGating)
    (hdsl : ∀ p c, a = .call p c → c.ofDsl = true) : MultiEarly b w' ∨ MultiLate b w' := by
  have hgoto : ∀ {p pc}, pc.Early b w.sequencer.cursor → (∀ c, pc.call = some c → c.ofDsl = true) →
      MultiEarly b (w.goto p pc) := by
    intro p pc hp hc
    refine ⟨⟨h.lap.cursor, h.lap.cached, h.lap.flags⟩, h.gating, fun q c hq => ?_, fun q => ?_⟩ <;> by_cases hqp : q = p
    · subst hqp
      simp only [MultiWorld.goto, Function.update_self] at hq
      exact hc c hq
    · simp only [MultiWorld.goto, Function.update_of_ne hqp] at hq
      exact h.calls q c hq
    · subst hqp
      simpa only [MultiWorld.goto, Function.update_self] using hp
    · simpa only [MultiWorld.goto, Function.update_of_ne hqp] using h.pcs q
  cases multiWorldRule_of_step hs with
  | @call p c =>
    obtain ⟨h1, h2⟩ := early_claimStart (b := b) (hdsl p c rfl)
    exact .inl (hgoto h1 h2)
  | publish | publishRange => exact .inl (hgoto trivial (by rintro _ ⟨⟩))
  | @step p m' pc' e hst =>
    obtain ⟨hmove, hlap⟩ := firstLap_claimStep hI h hst
    rcases early_claimStep hI.laid hst h.gating h.lap.cached hI.ledger.neg_one_le (h.calls p) (h.pcs p) with
      ⟨hpc', hcached⟩ | ⟨c, current, rfl, hfull, hle⟩
    · refine .inl ?_
      have hcursor : w.sequencer.cursor ≤ m'.cursor := hmove.1
      refine ⟨hlap hcached, hmove.2.trans h.gating, fun q c hq => ?_, fun q => ?_⟩ <;> by_cases hqp : q = p
      · subst hqp
        simp only [Function.update_self] at hq
        exact h.calls q c (call_of_claimStep hst hq)
      · simp only [Function.update_of_ne hqp] at hq
        exact h.calls q c hq
      · subst hqp
        simpa only [Function.update_self] using hpc'
      · simpa only [Function.update_of_ne hqp] using (h.pcs q).mono hcursor
    · exact .inr (.inr ⟨p, c, current, by simp only [Function.update_self], hfull, hle⟩)
  | advance | close | reopen | poison =>
    exact .inl ⟨⟨h.lap.cursor, h.lap.cached, h.lap.flags⟩, h.gating, h.calls, h.pcs⟩
  | addGatingSequences | removeGatingSequence => exact ha.elim

/-- What is late stays late. -/
theorem multiLate_step (hI : MultiBooks b w) (h : MultiLate b w) (hs : w.step b a = some w') : MultiLate b w' := by
  -- the producer that is about to claim does not move, and the cursor grows
  have hkeep : ∀ {w'' : MultiWorld}, w.sequencer.cursor ≤ w''.sequencer.cursor →
      (∀ q c current, w.producers q = .cas c current → w''.producers q = .cas c current) → MultiLate b w'' := by
    intro w'' hle hpcs
    rcases h with h | ⟨q, c, current, hq, hlap, hcur⟩
    · exact .inl (le_trans h hle)
    · exact .inr ⟨q, c, current, hpcs q c current hq, hlap, le_trans hcur hle⟩
  have hrest : ∀ {p pc}, w.atRest p = true → MultiLate b (w.goto p pc) := by
    intro p pc hp
    refine hkeep le_rfl fun q c current hq => ?_
    have hqp : q ≠ p := by
      rintro rfl
      simp [MultiWorld.atRest, hq] at hp
    simpa only [MultiWorld.goto, Function.update_of_ne hqp] using hq
  have hcursor : ∀ p, a = .step p → w.sequencer.cursor ≤ w'.sequencer.cursor := by
    rintro p rfl
    have hworld : (SequencerWorld.multi w).step b (.step p) = some (.multi w') := by
      simp only [SequencerWorld.step, hs, Option.map_some]
    have hB : (SequencerWorld.multi w).Books b := hI
    exact (SequencerWorld.step_producer hB hworld).2.2.1
  cases multiWorldRule_of_step hs with
  | call hr | publish hr | publishRange hr => exact hrest hr
  | @step p m' pc' e hst =>
    have hle : w.sequencer.cursor ≤ m'.cursor := hcursor p rfl
    by_cases hcas : ∃ c current, w.producers p = .cas c current ∧ b.sizeI64 ≤ current + 1 ∧ current ≤ w.sequencer.cursor
    · -- its claim ends the first lap, or somebody else has
      obtain ⟨c, current, hp, hlap, hcur⟩ := hcas
      have hn := hI.pcs p
      rw [hp] at hst hn
      refine .inl ?_
      simp only [claimStep] at hst
      split at hst
      · simp only [Option.some.injEq, Prod.mk.injEq] at hst
        obtain ⟨rfl, -⟩ := hst
        have := hn.2
        simp only
        omega
      · simp only at hle ⊢
        omega
    · rcases h with h | ⟨q, c, current, hq, hlap, hcur⟩
      · exact .inl (le_trans h hle)
      · have hqp : q ≠ p := by
          rintro rfl
          exact hcas ⟨c, current, hq, hlap, hcur⟩
        exact .inr ⟨q, c, current, by simpa only [Function.update_of_ne hqp] using hq, hlap, le_trans hcur hle⟩
  | advance | close | reopen | poison | addGatingSequences | removeGatingSequence => exact hkeep le_rfl fun _ _ _ => id

end Multi

/-! ## One driver -/

section Single

variable {b : BufferSize} {unique : Bool} {sequences : Nat → Int} {m m' : SingleProducerSequencer} {pc pc' : SinglePc}
  {e : LedgerEffect} {w w' : SingleWorld} {c : ClaimCall} {a : SequencerAction}

/-- At most one lap is claimed, and the cache is untouched. -/
structure SingleFirstLap (b : BufferSize) (w : SingleWorld) : Prop where
  next : w.sequencer.nextValue < b.sizeI64
  cached : w.sequencer.cachedValue = initialCursorValue

/-- Where the driver may stand in the first lap: on the slow path only for the claim that follows it. -/
def SinglePc.Early (b : BufferSize) (nextValue : Int) : SinglePc → Prop
  | .setVolatile _ | .spinClosed _ | .spinPoisoned _ => b.sizeI64 ≤ nextValue + 1
  | .loadGating c => c.isClaim = true → b.sizeI64 ≤ nextValue + 1
  | .scan c rest minimum => rest = [] ∧ minimum = nextValue ∧ (c.isClaim = true → b.sizeI64 ≤ nextValue + 1)
  | _ => True

/-- Before the claim that follows the first lap. -/
structure SingleEarly (b : BufferSize) (w : SingleWorld) : Prop where
  lap : SingleFirstLap b w
  gating : w.sequencer.gatingSequences = []
  calls : ∀ c, w.pc.call = some c → c.ofDsl = true
  pc : w.pc.Early b w.sequencer.nextValue

theorem early_singleStart (hc : c.ofDsl = true) {nextValue : Int} :
    (SingleProducerSequencer.claimStart b unique c).Early b nextValue ∧
      ∀ c', (SingleProducerSequencer.claimStart b unique c).call = some c' → c'.ofDsl = true := by
  cases c with
  | nextN n | tryNextN n =>
    simp only [SingleProducerSequencer.claimStart]
    split
    · exact ⟨trivial, by rintro _ ⟨⟩⟩
    · refine ⟨trivial, fun c' he => ?_⟩
      cases he
      exact hc
  | remainingCapacity =>
    simp only [SingleProducerSequencer.claimStart]
    split <;> refine ⟨trivial, fun c' he => ?_⟩ <;> cases he <;> rfl
  | hasAvailableCapacity k => cases hc

theorem early_finish (r : ClaimResult) {nextValue : Int} :
    (SingleProducerSequencer.finish unique r).Early b nextValue := by
  unfold SingleProducerSequencer.finish
  split <;> trivial

/-- A step of the driver: it stays early, or it makes the claim that follows the first lap. -/
theorem early_singleStep (h : SingleProducerSequencer.claimStep b unique sequences m pc = some (m', pc', e))
    (hg : m.gatingSequences = []) (hcached : m.cachedValue = initialCursorValue) (hnext : m.nextValue < b.sizeI64)
    (hlow : -1 ≤ m.nextValue) (hcall : ∀ c, pc.call = some c → c.ofDsl = true) (hp : pc.Early b m.nextValue) :
    (pc'.Early b m'.nextValue ∧ m'.nextValue < b.sizeI64 ∧ m'.cachedValue = initialCursorValue ∧
      m'.gatingSequences = []) ∨ b.sizeI64 ≤ m'.nextValue := by
  have hpos := b.sizeI64_pos
  have hone : ∀ c, pc.call = some c → c.isClaim = true → c.n = 1 := fun c hc => ClaimCall.n_eq (hcall c hc)
  cases singleRule_of_claimStep h with
  | closed | notClosed | poisoned | toCheck | toAcquire | contended | acquire | release | publish =>
    exact .inl ⟨trivial, hnext, hcached, hg⟩
  | remaining => exact .inl ⟨nofun, hnext, hcached, hg⟩
  | overflow | askGating | askCached | answerAvailable => cases hcall _ rfl
  | stale hc hwrap =>
    have hn := hone _ rfl hc
    rw [hn, hcached, initialCursorValue] at hwrap
    exact .inl ⟨show b.sizeI64 ≤ m.nextValue + 1 by omega, hnext, hcached, hg⟩
  | grantCached hc hwrap =>
    have hn := hone _ rfl hc
    rw [hn, hcached, initialCursorValue] at hwrap
    refine .inl ⟨early_finish _, ?_, hcached, hg⟩
    simp only [hn]
    omega
  | setVolatile | spin => exact .inl ⟨fun _ => hp, hnext, hcached, hg⟩
  | loadGating => exact .inl ⟨⟨hg, rfl, hp⟩, hnext, hcached, hg⟩
  | scan => cases hp.1
  | answerRemaining | spinShutdown | spinPoisoned => exact .inl ⟨early_finish _, hnext, hcached, hg⟩
  | full hfull | tryFull hfull =>
    -- with no gating sequence the minimum is `next_value`
    obtain ⟨-, rfl, -⟩ := hp
    have hn := hone _ rfl rfl
    simp only [ClaimCall.n] at hn
    omega
  | grantScanned hc =>
    obtain ⟨-, rfl, hlap⟩ := hp
    refine .inr ?_
    simp only [hone _ rfl hc]
    exact hlap hc
  | spinNotClosed => exact .inl ⟨hp, hnext, hcached, hg⟩

/-- **Step lemma of the first lap**: the claim that follows it ends it. -/
theorem singleEarly_step (hI : SingleBooks b w) (h : SingleEarly b w) (hs : w.step b a = some w') (ha : a.KeepsGating)
    (hdsl : ∀ p c, a = .call p c → c.ofDsl = true) : SingleEarly b w' ∨ b.sizeI64 ≤ w'.sequencer.nextValue := by
  cases singleWorldRule_of_step hs with
  | @call p c =>
    obtain ⟨h1, h2⟩ := early_singleStart (b := b) (hdsl p c rfl)
    exact .inl ⟨⟨h.lap.next, h.lap.cached⟩, h.gating, h2, h1⟩
  | publish | publishRange => exact .inl ⟨⟨h.lap.next, h.lap.cached⟩, h.gating, by rintro _ ⟨⟩, trivial⟩
  | step hst =>
    rcases early_singleStep hst h.gating h.lap.cached h.lap.next (le_trans hI.low hI.cursor_le) h.calls h.pc with
      ⟨hpc, hnext, hcached, hgating⟩ | hfull
    · exact .inl ⟨⟨hnext, hcached⟩, hgating, fun c hc => h.calls c (call_claimStep hst hc), hpc⟩
    · exact .inr hfull
  | advance | close | reopen | poison => exact .inl ⟨⟨h.lap.next, h.lap.cached⟩, h.gating, h.calls, h.pc⟩
  | addGatingSequences | removeGatingSequence => exact ha.elim

end Single

/-! ## Either sequencer -/

namespace SequencerWorld

variable {b : BufferSize} {w w' : SequencerWorld} {a : SequencerAction} {ids : List Nat}

/-- What a late registration needs. -/
def FirstLap (b : BufferSize) : SequencerWorld → Prop
  | single w => SingleFirstLap b w
  | multi w => MultiFirstLap b w

/-- Before the claim that follows the first lap. -/
def Early (b : BufferSize) : SequencerWorld → Prop
  | single w => SingleEarly b w
  | multi w => MultiEarly b w

/-- After it, or about to make it. -/
def Late (b : BufferSize) : SequencerWorld → Prop
  | single w => b.sizeI64 ≤ w.sequencer.nextValue
  | multi w => MultiLate b w

theorem early_init {multiProducer unique : Bool} : (init b multiProducer unique []).Early b := by
  have hpos := b.sizeI64_pos
  unfold init
  split
  · exact ⟨⟨by simp only [MultiWorld.init, new, initialCursorValue]; omega, rfl, fun _ => flags_init⟩, rfl,
      by rintro _ _ ⟨⟩, fun _ => trivial⟩
  · exact ⟨⟨by simp only [SingleWorld.init, SingleProducerSequencer.new, initialCursorValue]; omega, rfl⟩, rfl, by rintro _ ⟨⟩,
      trivial⟩

/-- **Step lemma.** -/
theorem early_step (hI : w.Books b) (h : w.Early b) (hs : w.step b a = some w') (ha : a.KeepsGating)
    (hdsl : ∀ p c, a = .call p c → c.ofDsl = true) : w'.Early b ∨ w'.Late b := by
  cases w with
  | single w =>
    simp only [step, Option.map_eq_some_iff] at hs
    obtain ⟨w', hs, rfl⟩ := hs
    exact singleEarly_step hI h hs ha hdsl
  | multi w =>
    simp only [step, Option.map_eq_some_iff] at hs
    obtain ⟨w', hs, rfl⟩ := hs
    exact multiEarly_step hI h hs ha hdsl

theorem late_step (hI : w.Books b) (h : w.Late b) (hs : w.step b a = some w') (hhigh : w.high ≤ w'.high) : w'.Late b := by
  cases w with
  | single w =>
    simp only [step, Option.map_eq_some_iff] at hs
    obtain ⟨w', hs, rfl⟩ := hs
    exact le_trans h hhigh
  | multi w =>
    simp only [step, Option.map_eq_some_iff] at hs
    obtain ⟨w', hs, rfl⟩ := hs
    exact multiLate_step hI h hs

/-- Every producer is between two calls. -/
def Resting : SequencerWorld → Prop
  | single w => ∃ r, w.pc = .returned r
  | multi w => ∀ p, ∃ r, w.producers p = .returned r

theorem Early.firstLap (h : w.Early b) : w.FirstLap b := by
  cases w with
  | single w => exact SingleEarly.lap h
  | multi w => exact MultiEarly.lap h

/-- Between two calls, what is late has claimed more than a lap. -/
theorem Late.high (h : w.Late b) (hrest : w.Resting) : b.sizeI64 ≤ w.high := by
  cases w with
  | single w => exact h
  | multi w =>
    rcases h with h | ⟨p, c, current, hp, -⟩
    · exact h
    · obtain ⟨r, hr⟩ := hrest p
      rw [hr] at hp
      cases hp

theorem FirstLap.high (h : w.FirstLap b) : w.high < b.sizeI64 := by
  cases w with
  | single w => exact SingleFirstLap.next h
  | multi w => exact MultiFirstLap.cursor h

/-- A registration leaves the first lap as it is. -/
theorem FirstLap.addGatingSequences (h : w.FirstLap b) (hs : w.step b (.addGatingSequences ids) = some w') :
    w'.FirstLap b := by
  cases rule_of_step hs with
  | @single w w' _ hr =>
    cases hr
    have hlap : SingleFirstLap b w := h
    exact ⟨hlap.next, hlap.cached⟩
  | @multi w w' _ hr =>
    cases hr
    have hlap : MultiFirstLap b w := h
    exact ⟨hlap.cursor, hlap.cached, hlap.flags⟩

/-- **Late registration.** Fresh gating sequences that were registered in the first lap, between two calls, find the
invariant. -/
theorem FirstLap.inv (h : w.FirstLap b) (hI : w.Books b) (hrest : w.Resting) (hne : w.gatingSequences ≠ [])
    (hseq : ∀ i, w.sequences i = initialCursorValue) : w.Inv b := by
  obtain ⟨i, hi⟩ := List.exists_mem_of_ne_nil _ hne
  have hhigh := h.high
  cases w with
  | single w =>
    have hB : SingleBooks b w := hI
    have hcached : w.sequencer.cachedValue = initialCursorValue := SingleFirstLap.cached h
    obtain ⟨r, hr⟩ := hrest
    simp only [SequencerWorld.high, sequences] at hhigh hseq
    refine ⟨hB.low, hB.cursor_le, fun j _ => ?_, fun j _ => ?_, hB.ledger, hB.published, hB.holder, fun s h0 hb => ?_, ?_⟩
    · rw [hcached, hseq]
    · rw [hseq, initialCursorValue]
      omega
    · have := hb i hi
      rw [hseq, initialCursorValue] at this
      omega
    · rw [hr]
      trivial
  | multi w =>
    have hB : MultiBooks b w := hI
    have hcached : w.sequencer.cachedGatingSequence = initialCursorValue := MultiFirstLap.cached h
    simp only [SequencerWorld.high, sequences] at hhigh hseq
    refine ⟨⟨hB.laid, fun j _ => ?_, fun j _ => ?_, hB.ledger, fun p => ?_⟩, fun s h0 hb => ?_, MultiFirstLap.flags h⟩
    · rw [hcached, hseq]
    · rw [hseq, initialCursorValue]
      omega
    · obtain ⟨r, hr⟩ := hrest p
      rw [hr]
      trivial
    · have := hb i hi
      rw [hseq, initialCursorValue] at this
      omega

end SequencerWorld

end BadBatch
