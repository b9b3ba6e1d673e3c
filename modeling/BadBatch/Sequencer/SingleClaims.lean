import BadBatch.Sequencer.Single

/-!
# Claim safety of the single-producer sequencer

The one driver of a `SingleProducerSequencer` may leave any number of claims open and publish them as it likes; nothing
below depends on it. Gating sequences grow and may be removed, even between two loads of one scan. A claim is sound because
`cached_value` and every finished scan are lower bounds of the gating sequences that are left.

* `SingleWorld.rawStep`: the methods of the sequencer, whatever they are asked to publish;
* `SingleClaims`, `singleClaims_step`: the invariant of claims and its step lemma;
* `single_claims_safe`: granted ranges tile `[0, next_value]`, at most a lap ahead of the gating sequences.
-/

namespace BadBatch

open StepSys

variable {b : BufferSize} {unique : Bool} {sequences sequences' : Nat → Int} {m m' : SingleProducerSequencer}
  {pc pc' : SinglePc} {e : LedgerEffect} {gating : List Nat} {w w' : SingleWorld} {c : ClaimCall} {p : Nat}

/-- One step of the raw methods: `publish` and `publish_range` check nothing. -/
def SingleWorld.rawStep (b : BufferSize) (w : SingleWorld) : SequencerAction → Option SingleWorld
  | .publish p s => if w.atRest ∧ w.driver = p then some { w with pc := .publish s } else none
  | .publishRange p _ high => if w.atRest ∧ w.driver = p then some { w with pc := .publish high } else none
  | a => w.step b a

/-- A driver that publishes what it holds takes raw steps. -/
theorem rawStep_of_step {a : SequencerAction} (h : w.step b a = some w') : w.rawStep b a = some w' := by
  cases a with
  | publish p s =>
    simp only [SingleWorld.step, Option.ite_none_right_eq_some] at h
    obtain ⟨⟨h1, h2, -⟩, h⟩ := h
    simp only [SingleWorld.rawStep, if_pos (And.intro h1 h2), h]
  | publishRange p low high =>
    simp only [SingleWorld.step, Option.ite_none_right_eq_some] at h
    obtain ⟨⟨h1, h2, -⟩, h⟩ := h
    simp only [SingleWorld.rawStep, if_pos (And.intro h1 h2), h]
  | _ => exact h

/-- A raw step follows the same rules, and any publication is allowed. -/
theorem singleWorldRule_of_rawStep {a : SequencerAction} (h : w.rawStep b a = some w') :
    SingleWorldRule b w (fun _ _ _ => True) a w' := by
  cases a with
  | publish p s =>
    simp only [SingleWorld.rawStep, Option.ite_none_right_eq_some, Option.some.injEq] at h
    obtain ⟨⟨hr, rfl⟩, rfl⟩ := h
    exact .publish hr trivial
  | publishRange p low high =>
    simp only [SingleWorld.rawStep, Option.ite_none_right_eq_some, Option.some.injEq] at h
    obtain ⟨⟨hr, rfl⟩, rfl⟩ := h
    exact .publishRange hr trivial
  | _ => exact .mono (singleWorldRule_of_step h) fun _ _ _ _ => trivial

/-- Sequences are registered before the first claim; later they may only be removed. -/
def SequencerAction.addsNoGating : SequencerAction → Bool
  | addGatingSequences _ => false
  | _ => true

/-! ## The invariant -/

/-- What the driver knows where it stands. A scan goes over a snapshot that may name removed sequences. -/
def SingleClaimPc (b : BufferSize) (sequences : Nat → Int) (m : SingleProducerSequencer) : SinglePc → Prop
  | .returned _ | .release _ | .publish _ => True
  | .scan c rest minimum =>
    c.Fits b ∧ minimum ≤ m.nextValue ∧
      ∃ scanned, (∀ i ∈ m.gatingSequences, i ∈ scanned ∨ i ∈ rest) ∧ Below sequences scanned minimum
  | .loadClosed c | .loadPoisoned c | .acquire c | .check c | .setVolatile c | .loadGating c | .spinClosed c
  | .spinPoisoned c => c.Fits b

/-- The invariant of claims. -/
structure SingleClaims (b : BufferSize) (w : SingleWorld) : Prop where
  tiles : Ledger.Tiles w.ledger.granted w.sequencer.nextValue
  cached : Below w.sequences w.sequencer.gatingSequences w.sequencer.cachedValue
  cached_le : w.sequencer.cachedValue ≤ w.sequencer.nextValue
  lap : Below w.sequences w.sequencer.gatingSequences (w.sequencer.nextValue - b.sizeI64)
  pc : SingleClaimPc b w.sequences w.sequencer w.pc

theorem singleClaims_init (b : BufferSize) (unique : Bool) (gating : List Nat) :
    SingleClaims b (SingleWorld.init unique gating) where
  tiles := rfl
  cached i _ := le_rfl
  cached_le := le_rfl
  lap i _ := by
    have := b.sizeI64_pos
    simp only [SingleWorld.init, SingleProducerSequencer.new, initialCursorValue]
    omega
  pc := trivial

theorem singleClaimPc_claimStart (c : ClaimCall) :
    SingleClaimPc b sequences m (SingleProducerSequencer.claimStart b unique c) := by
  cases c with
  | nextN n | tryNextN n =>
    simp only [SingleProducerSequencer.claimStart]
    split
    · trivial
    · exact ⟨by omega, by omega⟩
  | hasAvailableCapacity k => trivial
  | remainingCapacity =>
    simp only [SingleProducerSequencer.claimStart]
    split <;> trivial

theorem singleClaimPc_finish (r : ClaimResult) :
    SingleClaimPc b sequences m (SingleProducerSequencer.finish unique r) := by
  unfold SingleProducerSequencer.finish
  split <;> trivial

/-- Local facts survive growth of the sequences and removal of gating sequences. -/
theorem SingleClaimPc.mono (h : SingleClaimPc b sequences m pc) (hs : ∀ i, sequences i ≤ sequences' i)
    (hn : m'.nextValue = m.nextValue) (hg : ∀ i ∈ m'.gatingSequences, i ∈ m.gatingSequences) :
    SingleClaimPc b sequences' m' pc := by
  cases pc with
  | scan c rest minimum =>
    obtain ⟨hf, hle, scanned, hcov, hb⟩ := h
    exact ⟨hf, by rw [hn]; exact hle, scanned, fun i hi => hcov i (hg i hi), hb.mono hs⟩
  | _ => exact h

/-- A finished scan is a lower bound of the gating sequences that are left. -/
theorem SingleClaimPc.below {minimum : Int} (h : SingleClaimPc b sequences m (.scan c [] minimum)) :
    minimum ≤ m.nextValue ∧ Below sequences m.gatingSequences minimum := by
  obtain ⟨-, hle, scanned, hcov, hb⟩ := h
  refine ⟨hle, fun i hi => hb i ?_⟩
  rcases hcov i hi with hi | hi
  · exact hi
  · cases hi

/-- A step that neither grants nor publishes takes the driver from one local fact to the next. -/
theorem singleClaimPc_claimStep (h : SingleProducerSequencer.claimStep b unique sequences m pc = some (m', pc', .none))
    (hp : SingleClaimPc b sequences m pc) : SingleClaimPc b sequences m' pc' := by
  cases singleRule_of_claimStep h with
  | closed | poisoned | contended | release => trivial
  | overflow | askCached | answerRemaining | answerAvailable | tryFull | spinShutdown | spinPoisoned =>
    exact singleClaimPc_finish _
  | loadGating => exact ⟨hp, le_rfl, [], fun i hi => .inr hi, below_nil⟩
  | @scan _ i =>
    obtain ⟨hf, hle, scanned, hcov, hb⟩ := hp
    refine ⟨hf, le_trans lower_le_left hle, scanned ++ [i], fun j hj => ?_, hb.scan⟩
    rcases hcov j hj with hj | hj
    · exact .inl (List.mem_append_left _ hj)
    · rcases List.mem_cons.mp hj with rfl | hj
      · exact .inl (by simp)
      · exact .inr hj
  | full => exact hp.1
  | _ => exact hp

/-- A step of the driver keeps the invariant. -/
theorem singleClaims_claimStep (h : SingleClaims b w)
    (hst : SingleProducerSequencer.claimStep b w.unique w.sequences w.sequencer w.pc = some (m', pc', e)) :
    SingleClaims b { w with sequencer := m', pc := pc', ledger := e.apply p w.ledger } := by
  have hpc := h.pc
  rcases singleStep_cases hst with ⟨rfl, ⟨-, hgat, hnext, -⟩, hcach⟩ | ⟨c, he, rfl, rfl, rfl⟩ |
    ⟨c, hc, rfl, hm, hwrap, rfl, hfrom⟩ | ⟨high, he, rfl, rfl, rfl⟩
  · have hbound : m'.cachedValue ≤ w.sequencer.nextValue ∧
        Below w.sequences w.sequencer.gatingSequences m'.cachedValue := by
      rcases hcach with hcach | ⟨c, hpc'⟩
      · rw [hcach]
        exact ⟨h.cached_le, h.cached⟩
      · rw [hpc'] at hpc
        exact hpc.below
    constructor
    · show Ledger.Tiles w.ledger.granted m'.nextValue
      rw [hnext]
      exact h.tiles
    · simpa only [hgat] using hbound.2
    · simpa only [hnext] using hbound.1
    · simpa only [hgat, hnext] using h.lap
    · exact singleClaimPc_claimStep hst hpc
  · rw [he] at hpc
    exact ⟨h.tiles, h.cached, h.cached_le, h.lap, hpc⟩
  · have hbound : c.Fits b ∧ m'.cachedValue ≤ w.sequencer.nextValue ∧
        Below w.sequences w.sequencer.gatingSequences m'.cachedValue := by
      rcases hfrom with ⟨he, hce⟩ | he
      · rw [he] at hpc
        exact ⟨hpc, hce ▸ h.cached_le, hce ▸ h.cached⟩
      · rw [he] at hpc
        exact ⟨hpc.1, hpc.below⟩
    obtain ⟨hfits, hle, hb⟩ := hbound
    have hn := hfits.one_le hc
    rw [hm]
    refine ⟨⟨rfl, hn, ?_⟩, hb, ?_, hb.le hwrap, singleClaimPc_finish _⟩
    · simpa using h.tiles
    · simp only
      omega
  · exact ⟨h.tiles, h.cached, h.cached_le, h.lap, trivial⟩

/-- **Step lemma.** Whatever the driver calls and publishes, and whichever gating sequences move or disappear. -/
theorem singleClaims_step {a : SequencerAction} (h : SingleClaims b w) (ha : a.addsNoGating = true)
    (hs : w.rawStep b a = some w') : SingleClaims b w' := by
  cases singleWorldRule_of_rawStep hs with
  | @call p c hr => exact ⟨h.tiles, h.cached, h.cached_le, h.lap, singleClaimPc_claimStart c⟩
  | publish | publishRange => exact ⟨h.tiles, h.cached, h.cached_le, h.lap, trivial⟩
  | step hst => exact singleClaims_claimStep h hst
  | advance hle =>
    exact ⟨h.tiles, h.cached.mono (le_update hle), h.cached_le, h.lap.mono (le_update hle),
      h.pc.mono (le_update hle) rfl fun _ hi => hi⟩
  | close | reopen | poison =>
    exact ⟨h.tiles, h.cached, h.cached_le, h.lap, h.pc.mono (fun _ => le_rfl) rfl fun _ hi => hi⟩
  | addGatingSequences => cases ha
  | @removeGatingSequence i =>
    have hleft : ∀ j ∈ removeGatingSequenceCas w.sequencer.gatingSequences i, j ∈ w.sequencer.gatingSequences :=
      fun j hj => (List.mem_filter.mp hj).1
    exact ⟨h.tiles, fun j hj => h.cached j (hleft j hj), h.cached_le, fun j hj => h.lap j (hleft j hj),
      h.pc.mono (fun _ => le_rfl) rfl hleft⟩

/-! ## Claims that fail -/

/-- The driver goes on with the call it is inside of; the others do as they like. -/
def SequencerAction.startsNothing : SequencerAction → Bool
  | call _ _ => false
  | publish _ _ => false
  | publishRange _ _ _ => false
  | _ => true

/-- The call has been granted a range. -/
def SinglePc.Succeeded : SinglePc → Prop
  | .returned (.ok _) | .release (.ok _) => True
  | _ => False

theorem succeeded_finish (high : Int) : (SingleProducerSequencer.finish unique (.ok high)).Succeeded := by
  unfold SingleProducerSequencer.finish
  split <;> trivial

/-- What follows a grant is its return. -/
theorem SinglePc.Succeeded.claimStep (h : pc.Succeeded)
    (hst : SingleProducerSequencer.claimStep b unique sequences m pc = some (m', pc', e)) : pc'.Succeeded := by
  cases singleRule_of_claimStep hst with
  | @release r => cases r <;> exact h
  | _ => exact h.elim

/-- Until a call is granted a range it leaves `next_value` alone. -/
theorem nextValue_claimStep (hst : SingleProducerSequencer.claimStep b unique sequences m pc = some (m', pc', e)) :
    m'.nextValue = m.nextValue ∨ pc'.Succeeded := by
  rcases singleStep_cases hst with ⟨-, ⟨-, -, hnext, -⟩, -⟩ | ⟨c, -, -, rfl, -⟩ | ⟨c, -, -, -, -, rfl, -⟩ |
    ⟨high, -, -, rfl, -⟩
  · exact .inl hnext
  · exact .inl rfl
  · exact .inr (succeeded_finish _)
  · exact .inl rfl

theorem nextValue_step {a : SequencerAction} {v : Int} (ha : a.startsNothing = true) (hs : w.rawStep b a = some w')
    (h : w.sequencer.nextValue = v ∨ w.pc.Succeeded) : w'.sequencer.nextValue = v ∨ w'.pc.Succeeded := by
  cases singleWorldRule_of_rawStep hs with
  | call | publish | publishRange => cases ha
  | step hst =>
    rcases h with h | h
    · exact (nextValue_claimStep hst).imp (fun he => he.trans h) id
    · exact .inr (h.claimStep hst)
  | advance | close | reopen | poison | addGatingSequences | removeGatingSequence => exact h

/-- The call that `p` makes in `w` returns `r` in `w'`, after any steps of the others. -/
def SingleWorld.Returns (b : BufferSize) (ok : SingleWorld → SequencerAction → Prop) (w : SingleWorld) (p : Nat)
    (c : ClaimCall) (r : ClaimResult) (w' : SingleWorld) : Prop :=
  ∃ w₁, w.rawStep b (.call p c) = some w₁ ∧
    Reach (SingleWorld.rawStep b) (fun w a => a.startsNothing = true ∧ ok w a) w₁ w' ∧ w'.pc = .returned r

/-- A call that is granted nothing leaves `next_value` as it was. -/
theorem SingleWorld.Returns.nextValue_eq {ok : SingleWorld → SequencerAction → Prop} {r : ClaimResult}
    (h : w.Returns b ok p c r w') (hr : ∀ high, r ≠ .ok high) : w'.sequencer.nextValue = w.sequencer.nextValue := by
  obtain ⟨w₁, hcall, hreach, hpc⟩ := h
  have hstart : w₁.sequencer = w.sequencer := by
    cases singleWorldRule_of_rawStep hcall
    rfl
  have hI := Reach.inv (I := fun x => x.sequencer.nextValue = w.sequencer.nextValue ∨ x.pc.Succeeded)
    (.inl (by rw [hstart])) (fun hI ha hs => nextValue_step ha.1 hs hI) hreach
  rcases hI with hI | hI
  · exact hI
  · rw [hpc] at hI
    cases r with
    | ok high => exact absurd rfl (hr high)
    | _ => exact hI.elim

/-! ## Runs -/

/-- The runs of one driver whose gating set is registered before the first claim and only shrinks. -/
def SingleReach (b : BufferSize) (unique : Bool) (gating : List Nat) (w : SingleWorld) : Prop :=
  Reach (SingleWorld.rawStep b) (fun _ a => a.addsNoGating = true) (SingleWorld.init unique gating) w

theorem SingleReach.claims (h : SingleReach b unique gating w) : SingleClaims b w :=
  Reach.inv (I := SingleClaims b) (singleClaims_init b unique gating) singleClaims_step h

/-- **Claim safety of the single driver.** In every reachable state the granted ranges follow each other from 0 up to
`next_value`; as long as a gating sequence is left, `next_value` is at most a lap ahead of the slowest one and `cached_value`
is not above it, nor ever above `next_value`; and a call that is granted nothing leaves `next_value` as it was. -/
theorem single_claims_safe (h : SingleReach b unique gating w) :
    Ledger.Tiles w.ledger.granted w.sequencer.nextValue ∧
    (w.sequencer.gatingSequences ≠ [] →
      w.sequencer.nextValue ≤ getMinimumSequence w.sequences w.sequencer.gatingSequences + b.sizeI64 ∧
      w.sequencer.cachedValue ≤ getMinimumSequence w.sequences w.sequencer.gatingSequences) ∧
    w.sequencer.cachedValue ≤ w.sequencer.nextValue ∧
    ∀ p c r w', w.Returns b (fun _ a => a.addsNoGating = true) p c r w' → (∀ high, r ≠ .ok high) →
      w'.sequencer.nextValue = w.sequencer.nextValue := by
  have hI := h.claims
  refine ⟨hI.tiles, fun hne => ⟨?_, (le_getMinimumSequence hne).mpr hI.cached⟩, hI.cached_le, ?_⟩
  · have := (le_getMinimumSequence hne).mpr hI.lap
    omega
  · intro p c r w' hcall hr
    exact hcall.nextValue_eq hr

/-- A ring of one slot is full; one consumer passes its event, the other one is removed, and the next claim is granted. -/
theorem single_claims_safe_removed : ∃ w, SingleReach ⟨0, by decide⟩ true [0, 1] w ∧
    w.ledger.granted = [⟨0, 1, 1⟩, ⟨0, 1, 0⟩] ∧ w.sequencer.gatingSequences = [0] ∧
    w.sequencer.nextValue ≤ getMinimumSequence w.sequences [0] + 1 := by
  obtain ⟨w, hw, hl, hg⟩ : ∃ w, SingleReach ⟨0, by decide⟩ true [0, 1] w ∧
      w.ledger.granted = [⟨0, 1, 1⟩, ⟨0, 1, 0⟩] ∧ w.sequencer.gatingSequences = [0] :=
    ⟨_, reach_of_exec [.call 0 (.nextN 1), .step 0, .step 0, .step 0, .advance 0 0, .call 0 (.nextN 1), .step 0, .step 0,
      .step 0, .removeGatingSequence 1, .step 0, .step 0, .step 0, .step 0] rfl, rfl, rfl⟩
  refine ⟨w, hw, hl, hg, ?_⟩
  have := ((single_claims_safe hw).2.1 (by rw [hg]; simp)).1
  rwa [hg] at this

end BadBatch
