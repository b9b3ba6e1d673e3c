import BadBatch.Sequencer.SingleClaims

/-!
# What the single-producer sequencer shows

The cursor is the publication mark, but the slow path of `next_n` and `try_next_n` stores `next_value` into it. A driver
that leaves a claim open and takes the slow path of another one shows the open claim to the consumers.

* `publishedLog`: the highest published sequence, as history beside the sequencer;
* `InClaimOrder`: the driver publishes upwards, and only what it claimed;
* `SettledClaim`: the slow path is only taken when every claim is published;
* `single_visible_published`: under both, what is available is published, and claims that fail leave no trace.
-/

namespace BadBatch

open StepSys

variable {b : BufferSize} {unique : Bool} {sequences : Nat → Int} {m m' : SingleProducerSequencer} {pc pc' : SinglePc}
  {e : LedgerEffect} {gating : List Nat} {w w' : SingleWorld} {x x' : SingleWorld × Int} {a : SequencerAction} {p : Nat}
  {c c' : ClaimCall}

/-- `is_available` -/
def SingleProducerSequencer.isAvailable (m : SingleProducerSequencer) (sequence : Int) : Bool :=
  decide (sequence ≤ m.cursor)

/-- The highest published sequence: it moves when `cursor.set` of a `publish` is done. -/
def publishedLog (w : SingleWorld) (a : SequencerAction) (high : Int) : Int :=
  match a, w.pc with
  | .step p, .publish s => if p = w.driver then max high s else high
  | _, _ => high

/-- Publications go upwards and stay below `next_value`; several claims may be open. -/
def InClaimOrder (x : SingleWorld × Int) : SequencerAction → Prop
  | .publish _ s => x.2 < s ∧ s ≤ x.1.sequencer.nextValue
  | .publishRange _ low high => low ≤ high ∧ x.2 < high ∧ high ≤ x.1.sequencer.nextValue
  | _ => True

instance : DecidablePred (InClaimOrder x) := fun a =>
  match a with
  | .publish _ s => inferInstanceAs (Decidable (x.2 < s ∧ s ≤ x.1.sequencer.nextValue))
  | .publishRange _ low high => inferInstanceAs (Decidable (low ≤ high ∧ x.2 < high ∧ high ≤ x.1.sequencer.nextValue))
  | .call _ _ | .step _ | .advance _ _ | .close | .reopen | .poison | .addGatingSequences _ | .removeGatingSequence _ =>
    .isTrue trivial

/-- The wrap check of the claim `c` does not settle it: the gating sequences have to be read. -/
def SlowPath (b : BufferSize) (m : SingleProducerSequencer) (c : ClaimCall) : Prop :=
  c.isClaim = true ∧ (m.nextValue + c.n - b.sizeI64 > m.cachedValue ∨ m.cachedValue > m.nextValue)

instance (b : BufferSize) (m : SingleProducerSequencer) (c : ClaimCall) : Decidable (SlowPath b m c) :=
  inferInstanceAs (Decidable (_ ∧ _))

/-- When the driver is about to enter the slow path of a claim, everything it claimed before is published. -/
def SettledClaim (b : BufferSize) (x : SingleWorld × Int) (a : SequencerAction) : Prop :=
  ∀ c, a = .step x.1.driver → x.1.pc = .check c → SlowPath b x.1.sequencer c → x.1.sequencer.nextValue = x.2

instance : DecidablePred (SettledClaim b x) := fun a =>
  match h : x.1.pc with
  | .check c =>
    decidable_of_iff (a = .step x.1.driver → SlowPath b x.1.sequencer c → x.1.sequencer.nextValue = x.2)
      ⟨fun hs c' ha hc' hslow => by
        rw [h] at hc'
        cases hc'
        exact hs ha hslow, fun hs ha hslow => hs c ha h hslow⟩
  | .returned _ | .loadClosed _ | .loadPoisoned _ | .acquire _ | .setVolatile _ | .loadGating _ | .scan _ _ _
  | .spinClosed _ | .spinPoisoned _ | .release _ | .publish _ =>
    .isTrue fun c _ hc => by rw [h] at hc; cases hc

/-! ## Where the cursor is stored -/

/-- The next step of the driver stores into the cursor. -/
def SinglePc.stores : SinglePc → Bool
  | .setVolatile _ => true
  | .publish _ => true
  | _ => false

theorem stores_claimStart (c : ClaimCall) : (SingleProducerSequencer.claimStart b unique c).stores = false := by
  cases c with
  | nextN n | tryNextN n =>
    simp only [SingleProducerSequencer.claimStart]
    split <;> rfl
  | hasAvailableCapacity k => rfl
  | remainingCapacity =>
    simp only [SingleProducerSequencer.claimStart]
    split <;> rfl

@[simp] theorem stores_finish (r : ClaimResult) : (SingleProducerSequencer.finish unique r).stores = false := by
  unfold SingleProducerSequencer.finish
  split <;> rfl

/-- Inside a call, the only store is the one that follows the wrap check of a claim. -/
theorem stores_claimStep (h : SingleProducerSequencer.claimStep b unique sequences m pc = some (m', pc', e))
    (hst : pc'.stores = true) : ∃ c, pc = .check c ∧ pc' = .setVolatile c ∧ m' = m ∧ SlowPath b m c := by
  cases singleRule_of_claimStep h with
  | stale hc hslow => exact ⟨_, rfl, rfl, rfl, hc, hslow⟩
  | overflow | askCached | grantCached | answerRemaining | answerAvailable | tryFull | grantScanned | spinShutdown
  | spinPoisoned => simp at hst
  | _ => cases hst

/-! ## The invariant -/

/-- The cursor is the highest published sequence, and the driver is about to keep it so. -/
structure ShownInv (b : BufferSize) (x : SingleWorld × Int) : Prop where
  cursor : x.1.sequencer.cursor = x.2
  le : x.2 ≤ x.1.sequencer.nextValue
  fits : ∀ c, x.1.pc.call = some c → c.Fits b
  store : ∀ c, x.1.pc = .setVolatile c → x.1.sequencer.nextValue = x.2
  publish : ∀ s, x.1.pc = .publish s → x.2 < s ∧ s ≤ x.1.sequencer.nextValue

theorem shownInv_init (b : BufferSize) (unique : Bool) (gating : List Nat) :
    ShownInv b (SingleWorld.init unique gating, initialCursorValue) where
  cursor := rfl
  le := le_rfl
  fits c h := by cases h
  store c h := by cases h
  publish s h := by cases h

/-- A driver that is not about to store keeps the invariant while its cells do. -/
theorem ShownInv.of_not_stores (h : ShownInv b x) (hc : x'.1.sequencer.cursor = x.1.sequencer.cursor)
    (hn : x.1.sequencer.nextValue ≤ x'.1.sequencer.nextValue) (hh : x'.2 = x.2) (hpc : x'.1.pc.stores = false)
    (hf : ∀ c, x'.1.pc.call = some c → c.Fits b) : ShownInv b x' where
  cursor := by rw [hc, hh, h.cursor]
  le := by
    have := h.le
    omega
  fits := hf
  store c he := by rw [he] at hpc; cases hpc
  publish s he := by rw [he] at hpc; cases hpc

theorem publishedLog_of_ne (hpc : ∀ s, w.pc ≠ .publish s) (high : Int) : publishedLog w a high = high := by
  unfold publishedLog
  split
  · rename_i s _ hs
    exact absurd hs (hpc _)
  · rfl

/-- A step of the driver keeps the invariant, if it takes the slow path only when nothing is left to publish. -/
theorem shownInv_claimStep (h : ShownInv b x) (hset : SettledClaim b x (.step x.1.driver))
    (hst : SingleProducerSequencer.claimStep b x.1.unique x.1.sequences x.1.sequencer x.1.pc = some (m', pc', e)) :
    ShownInv b ({ x.1 with sequencer := m', pc := pc', ledger := e.apply x.1.driver x.1.ledger },
      publishedLog x.1 (.step x.1.driver) x.2) := by
  have hfits : ∀ c, pc'.call = some c → c.Fits b := fun c hc => h.fits c (call_claimStep hst hc)
  rcases singleStep_cases hst with ⟨rfl, ⟨hcur, -, hnext, -⟩, -⟩ | ⟨c, he, rfl, rfl, rfl⟩ |
    ⟨c, hc, rfl, hm, hwrap, rfl, hfrom⟩ | ⟨high, he, rfl, rfl, rfl⟩
  · have hno : ∀ s, x.1.pc ≠ .publish s := by
      intro s he
      rw [he] at hst
      simp [SingleProducerSequencer.claimStep] at hst
    rw [publishedLog_of_ne hno]
    by_cases hs : pc'.stores = true
    · obtain ⟨c, he, rfl, rfl, hslow⟩ := stores_claimStep hst hs
      refine ⟨h.cursor, h.le, hfits, fun c' hc' => ?_, fun s hc' => by cases hc'⟩
      exact hset c rfl he hslow
    · exact h.of_not_stores hcur (le_of_eq hnext.symm) rfl (Bool.eq_false_iff.mpr hs) hfits
  · rw [publishedLog_of_ne (by rw [he]; exact fun s hs => by cases hs)]
    have heq := h.store c he
    exact ⟨heq, h.le, hfits, fun c' hc' => (by cases hc'), fun s hc' => (by cases hc')⟩
  · have hcall : x.1.pc.call = some c := by
      rcases hfrom with ⟨he, -⟩ | he <;> rw [he] <;> rfl
    have hn := (h.fits c hcall).one_le hc
    rw [publishedLog_of_ne (by rcases hfrom with ⟨he, -⟩ | he <;> rw [he] <;> exact fun s hs => by cases hs), hm]
    exact h.of_not_stores rfl (by simp only; omega) rfl (stores_finish _) hfits
  · obtain ⟨hlt, hle⟩ := h.publish high he
    have hlog : publishedLog x.1 (.step x.1.driver) x.2 = high := by
      simp only [publishedLog, he, if_true]
      omega
    rw [hlog]
    exact ⟨rfl, hle, hfits, fun c' hc' => (by cases hc'), fun s hc' => (by cases hc')⟩

/-- **Step lemma.** -/
theorem shownInv_step (h : ShownInv b x) (hord : InClaimOrder x a) (hset : SettledClaim b x a)
    (hstep : observed (SingleWorld.rawStep b) publishedLog x a = some x') : ShownInv b x' := by
  obtain ⟨w', high⟩ := x'
  obtain ⟨hs, rfl⟩ := observed_eq_some.mp hstep
  cases singleWorldRule_of_rawStep hs with
  | @call p c hr => exact h.of_not_stores rfl le_rfl rfl (stores_claimStart c) fun c' hc' => fits_claimStart hc'
  | publish =>
    refine ⟨h.cursor, h.le, fun c hc => (by cases hc), fun c hc => (by cases hc), fun s' hs' => ?_⟩
    cases hs'
    exact hord
  | publishRange =>
    refine ⟨h.cursor, h.le, fun c hc => (by cases hc), fun c hc => (by cases hc), fun s' hs' => ?_⟩
    cases hs'
    exact hord.2
  | step hst => exact shownInv_claimStep h hset hst
  | advance | close | reopen | poison | addGatingSequences | removeGatingSequence =>
    exact ⟨h.cursor, h.le, h.fits, h.store, h.publish⟩

/-! ## Runs -/

/-- The runs of one driver that publishes in claim order, beside the highest published sequence; `ok` restricts them. -/
def ShownReach (b : BufferSize) (unique : Bool) (gating : List Nat) (ok : SingleWorld × Int → SequencerAction → Prop) :
    SingleWorld × Int → Prop :=
  Reach (observed (SingleWorld.rawStep b) publishedLog) (fun x a => InClaimOrder x a ∧ ok x a)
    (SingleWorld.init unique gating, initialCursorValue)

/-- What `is_available` shows is published, and a `next_n` or `try_next_n` that is granted nothing, from here on, leaves
the cursor and `next_value` as they are. -/
def ShowsPublished (b : BufferSize) (ok : SingleWorld × Int → SequencerAction → Prop) (x : SingleWorld × Int) : Prop :=
  (∀ s, x.1.sequencer.isAvailable s = true → s ≤ x.2) ∧
    ∀ p c r x₁ x', observed (SingleWorld.rawStep b) publishedLog x (.call p c) = some x₁ →
      Reach (observed (SingleWorld.rawStep b) publishedLog)
        (fun x a => a.startsNothing = true ∧ InClaimOrder x a ∧ ok x a) x₁ x' →
      x'.1.pc = .returned r → (∀ high, r ≠ .ok high) →
      x'.1.sequencer.cursor = x.1.sequencer.cursor ∧ x'.1.sequencer.nextValue = x.1.sequencer.nextValue

theorem ShownReach.inv (h : ShownReach b unique gating (SettledClaim b) x) : ShownInv b x :=
  Reach.inv (I := ShownInv b) (shownInv_init b unique gating) (fun hI ha hs => shownInv_step hI ha.1 ha.2 hs) h

/-- Inside a call nothing is published. -/
theorem publishedLog_call (ha : a.startsNothing = true) (hpc : ∀ s, x.1.pc ≠ .publish s)
    (hs : observed (SingleWorld.rawStep b) publishedLog x a = some x') :
    (∀ s, x'.1.pc ≠ .publish s) ∧ x'.2 = x.2 := by
  obtain ⟨w', high⟩ := x'
  obtain ⟨hs, rfl⟩ := observed_eq_some.mp hs
  refine ⟨?_, publishedLog_of_ne hpc _⟩
  cases singleWorldRule_of_rawStep hs with
  | call | publish | publishRange => cases ha
  | step hst =>
    intro s hs
    obtain ⟨c, -, he, -⟩ := stores_claimStep hst (by simp only at hs; rw [hs]; rfl)
    simp only at hs
    rw [hs] at he
    cases he
  | advance | close | reopen | poison | addGatingSequences | removeGatingSequence => exact hpc

/-- A claim that enters the slow path with a sequence left to publish shows it with its next step. -/
theorem slowPath_exposes (h : ShownInv b x) (hset : ¬SettledClaim b x a)
    (hs : observed (SingleWorld.rawStep b) publishedLog x a = some x') :
    ∃ x'', observed (SingleWorld.rawStep b) publishedLog x' (.step x.1.driver) = some x'' ∧
      x''.1.sequencer.isAvailable x.1.sequencer.nextValue = true ∧ x''.2 < x.1.sequencer.nextValue := by
  simp only [SettledClaim, not_forall] at hset
  obtain ⟨c, rfl, he, hslow, hne⟩ := hset
  have hlt : x.2 < x.1.sequencer.nextValue := lt_of_le_of_ne h.le (Ne.symm hne)
  obtain ⟨w, high⟩ := x
  obtain ⟨w', high'⟩ := x'
  obtain ⟨hs, rfl⟩ := observed_eq_some.mp hs
  simp only at he hslow hs hlt ⊢
  have hcheck : SingleProducerSequencer.claimStep b w.unique w.sequences w.sequencer w.pc =
      some (w.sequencer, .setVolatile c, .none) := by
    rw [he]
    cases c with
    | nextN n | tryNextN n => simp only [SingleProducerSequencer.claimStep, if_pos hslow.2]
    | hasAvailableCapacity k | remainingCapacity => cases hslow.1
  simp only [SingleWorld.rawStep, SingleWorld.step, if_true, hcheck, Option.map_some, Option.some.injEq] at hs
  subst hs
  refine ⟨({ w with sequencer := { w.sequencer with cursor := w.sequencer.nextValue }, pc := .loadGating c }, high), ?_, ?_,
    hlt⟩
  · simp [observed, SingleWorld.rawStep, SingleWorld.step, SingleProducerSequencer.claimStep, publishedLog, he,
      LedgerEffect.apply]
  · simp [SingleProducerSequencer.isAvailable]

/-- **What the single driver shows is published.** As long as every slow path of a claim is entered with nothing left to
publish, and the driver publishes in claim order, `is_available` is true of published sequences only, and a claim that is
granted nothing leaves the cursor and `next_value` as they were. The first slow path entered otherwise shows a sequence that
is claimed and not published. -/
theorem single_visible_published (h : ShownReach b unique gating (SettledClaim b) x) :
    ShowsPublished b (SettledClaim b) x ∧
    ∀ a x', InClaimOrder x a → observed (SingleWorld.rawStep b) publishedLog x a = some x' → ¬SettledClaim b x a →
      ∃ x'', observed (SingleWorld.rawStep b) publishedLog x' (.step x.1.driver) = some x'' ∧
        x''.1.sequencer.isAvailable x.1.sequencer.nextValue = true ∧ x''.2 < x.1.sequencer.nextValue := by
  have hI := h.inv
  refine ⟨⟨fun s hs => ?_, ?_⟩, fun a x' _ hs hset => slowPath_exposes hI hset hs⟩
  · have : s ≤ x.1.sequencer.cursor := of_decide_eq_true hs
    have := hI.cursor
    omega
  · intro p c r x₁ x' hcall hrun hpc hr
    obtain ⟨hstep, hlog⟩ := observed_eq_some.mp hcall
    have hI₁ : ShownInv b x₁ := shownInv_step (a := .call p c) hI trivial (fun _ he => by cases he) hcall
    have hpc₁ : x₁.1.pc = SingleProducerSequencer.claimStart b x.1.unique c := by
      generalize x₁.1 = w₁ at hstep
      cases singleWorldRule_of_rawStep hstep
      rfl
    have hno₁ : ∀ s, x₁.1.pc ≠ .publish s := by
      intro s hs
      have : (SingleProducerSequencer.claimStart b x.1.unique c).stores = false := stores_claimStart c
      rw [← hpc₁, hs] at this
      cases this
    -- the cursor stays the highest published sequence, and nothing is published during the call
    have hrunInv := Reach.inv (I := fun y => ShownInv b y ∧ (∀ s, y.1.pc ≠ .publish s) ∧ y.2 = x.2)
      ⟨hI₁, hno₁, hlog⟩ (fun hI ha hs => ?_) hrun
    · refine ⟨?_, ?_⟩
      · rw [hrunInv.1.cursor, hrunInv.2.2, hI.cursor]
      · have hret : x.1.Returns b (fun _ _ => True) p c r x'.1 :=
          ⟨x₁.1, hstep, Reach.of_observed (fun y a ha => ⟨ha.1, trivial⟩) hrun, hpc⟩
        exact hret.nextValue_eq hr
    · obtain ⟨hno, hkeep⟩ := publishedLog_call ha.1 hI.2.1 hs
      exact ⟨shownInv_step hI.1 ha.2.1 ha.2.2 hs, hno, hkeep.trans hI.2.2⟩

/-- A full ring of one slot: sequence 0 is published, and a `try_next_n` takes the slow path and gets nothing. -/
theorem single_visible_published_full : ∃ x, ShownReach ⟨0, by decide⟩ false [0] (SettledClaim ⟨0, by decide⟩) x ∧
    x.1.pc = .returned .none ∧ x.1.sequencer.isAvailable 0 = true ∧ ∀ s, x.1.sequencer.isAvailable s = true → s ≤ 0 := by
  obtain ⟨x, hx, hpc, ha, h0⟩ : ∃ x, ShownReach ⟨0, by decide⟩ false [0] (SettledClaim ⟨0, by decide⟩) x ∧
      x.1.pc = .returned .none ∧ x.1.sequencer.isAvailable 0 = true ∧ x.2 = 0 :=
    ⟨_, reach_of_exec [.call 0 (.nextN 1), .step 0, .step 0, .step 0, .step 0, .step 0, .publish 0 0, .step 0,
      .call 0 (.tryNextN 1), .step 0, .step 0, .step 0, .step 0, .step 0, .step 0, .step 0, .step 0, .step 0] rfl,
      rfl, rfl, rfl⟩
  refine ⟨x, hx, hpc, ha, fun s hs => ?_⟩
  have := (single_visible_published hx).1.1 s hs
  omega

/-- On a ring of one slot the driver claims sequence 0 and leaves it open; a `try_next_n` that returns `None` moves the cursor
over it, and `is_available(0)` holds though nothing was ever published. -/
theorem single_open_claim_visible : ∃ x x₁ x', ShownReach ⟨0, by decide⟩ false [0] (fun _ _ => True) x ∧
    observed (SingleWorld.rawStep ⟨0, by decide⟩) publishedLog x (.call 0 (.tryNextN 1)) = some x₁ ∧
    Reach (observed (SingleWorld.rawStep ⟨0, by decide⟩) publishedLog) (fun x a => a.startsNothing = true ∧ InClaimOrder x a)
      x₁ x' ∧
    x'.1.pc = .returned .none ∧ x.1.sequencer.cursor = -1 ∧ x'.1.sequencer.cursor = 0 ∧ x'.2 = -1 ∧
    x'.1.sequencer.isAvailable 0 = true :=
  ⟨_, _, _, reach_of_exec [.call 0 (.nextN 1), .step 0, .step 0, .step 0, .step 0, .step 0] rfl, rfl,
    reach_of_exec [.step 0, .step 0, .step 0, .step 0, .step 0, .step 0, .step 0, .step 0, .step 0] rfl,
    rfl, rfl, rfl, rfl, rfl⟩

end BadBatch
