import BadBatch.Sequencer.Capacity
import BadBatch.Producer.Batch

/-!
# Refused publications

`try_publish` and `try_batch_publish` claim first and ask why afterwards: a refused claim is followed by
`remaining_capacity`, and the number of missing slots comes from there. The claim compares a position with a minimum, the
query subtracts the minimum from the position; here the two are one decision, so the reported deficit is exact.

* `refused`, `refused_asks`: what a refused claim leaves behind;
* `TryExact`: what a non-blocking publication reports, and what it leaves alone;
* `try_publish_exact`: it does so unless a refused claim makes an open claim visible.
-/

namespace BadBatch

open CheckedArith MultiProducerSequencer StepSys SequencerWorld

variable {E : Type}

/-- The sequences have moved, and nothing else. -/
def SequencerWorld.withSequences (sequences : Nat → Int) : SequencerWorld → SequencerWorld
  | single w => single { w with sequences := sequences }
  | multi w => multi { w with sequences := sequences }

/-- `w` after producer `p` was refused and has asked for the remaining capacity. -/
def SequencerWorld.refused (b : BufferSize) (p : Nat) : SequencerWorld → SequencerWorld
  | single w =>
    -- `set_volatile` has stored `next_value` into the cursor
    w.driven p { w.sequencer with cursor := w.sequencer.nextValue, cachedValue := w.gatingMinimum }
      (.returned (.capacity (b.sizeI64 - (w.sequencer.nextValue - w.gatingMinimum)))) w.ledger
  | multi w =>
    multi ({ w with sequencer := { w.sequencer with cachedGatingSequence := w.gatingMinimum } }.goto p
      (.returned (.capacity (b.sizeI64 - (w.sequencer.cursor - w.gatingMinimum)))))

/-- Producer `p` makes a call on a sequencer that is neither closed nor poisoned. -/
structure MayTry (b : BufferSize) (p : Nat) (w : SequencerWorld) : Prop where
  ready : w.Ready b
  rest : w.atRest p = true
  closed : w.closed = false
  poisoned : w.poisoned = false
  cached : Below w.sequences w.gatingSequences w.cachedMinimum
  lap : Below w.sequences w.gatingSequences (w.high - b.sizeI64)

section Refused

variable {b : BufferSize} {p : Nat} {w w' : SequencerWorld} {n : Int} {sequences : Nat → Int}

/-- Enough room is a matter of the remaining capacity. -/
theorem accepts_iff : w.Accepts b n ↔ n ≤ w.freeSlots b := by
  unfold SequencerWorld.Accepts SequencerWorld.freeSlots
  omega

theorem MayTry.hasRoom (h : MayTry b p w) (hn : n ≤ w.freeSlots b) : HasRoom b p w n :=
  ⟨h.ready, h.rest, h.closed, h.poisoned, accepts_iff.mpr hn⟩

/-- What `claim_remaining_capacity` computes. -/
theorem MayTry.freeSlots_eq (h : MayTry b p w) :
    w.freeSlots b = saturatingRemaining b w.sequences w.gatingSequences w.high ∧ 0 ≤ w.freeSlots b := by
  obtain ⟨heq, h0, -⟩ := saturatingRemaining_eq h.lap
  rw [show w.freeSlots b = saturatingRemaining b w.sequences w.gatingSequences w.high from heq.symm]
  exact ⟨rfl, h0⟩

/-- One call follows another. -/
theorem call_driven {w : SingleWorld} {m : SingleProducerSequencer} {l : Ledger} {r : ClaimResult} (c : ClaimCall) :
    (w.driven p m (.returned r) l).step b (.call p c) =
      some (w.driven p m (SingleProducerSequencer.claimStart b w.unique c) l) := rfl

theorem call_goto {w : MultiWorld} {r : ClaimResult} (c : ClaimCall) :
    (SequencerWorld.multi (w.goto p (.returned r))).step b (.call p c) = some (.multi (w.goto p (claimStart b c))) := by
  simp [SequencerWorld.step, MultiWorld.step, MultiWorld.atRest, MultiWorld.goto]

/-- **A refused claim**, and the question that follows it. -/
theorem refused_asks (h : MayTry b p w) (h1 : 1 ≤ n) (hn : n ≤ b.sizeI64) (hfree : w.freeSlots b < n) :
    ∃ w₁ k, ∀ fuel, k ≤ fuel → SimpleProducer.invoke b p fuel w (.call p (.tryNextN n)) = some (.none, w₁) ∧
      SimpleProducer.invoke b p fuel w₁ (.call p .remainingCapacity) =
        some (.capacity (w.freeSlots b), w.refused b p) := by
  have hvalid : ¬(n < 1 ∨ n > b.sizeI64) := by omega
  have ha : ¬w.Accepts b n := fun ha => absurd (accepts_iff.mp ha) (by omega)
  cases w with
  | single w =>
    have hrest : w.atRest = true := h.rest
    have hlock : w.unique = false → w.sequencer.claimLock = false := fun hu => h.ready hu (unguarded_of_atRest hrest)
    have hcall : (SequencerWorld.single w).step b (.call p (.tryNextN n)) =
        some (w.driven p w.sequencer (.loadClosed (.tryNextN n)) w.ledger) := by
      simp [SequencerWorld.step, SingleWorld.step, hrest, SingleProducerSequencer.claimStart, hvalid, SingleWorld.driven]
    obtain ⟨k, hk⟩ := invoke_of_alone hcall (single_refused h.cached hlock h.closed h.poisoned ha) result_driven
    -- the refused claim has put the lock back
    have hremaining := @single_remaining b p
      { w with sequencer := { w.sequencer with cursor := w.sequencer.nextValue, cachedValue := w.gatingMinimum } } hlock
    obtain ⟨k', hk'⟩ := invoke_of_alone (call_driven .remainingCapacity) hremaining result_driven
    exact ⟨_, max k k', fun fuel hfuel => ⟨hk fuel (by omega), hk' fuel (by omega)⟩⟩
  | multi w =>
    have hrest : w.atRest p = true := h.rest
    have hcall : (SequencerWorld.multi w).step b (.call p (.tryNextN n)) =
        some (.multi (w.goto p (.loadClosed (.tryNextN n)))) := by
      simp [SequencerWorld.step, MultiWorld.step, hrest, claimStart, hvalid]
    obtain ⟨k, hk⟩ := invoke_of_alone hcall (multi_refused h.cached h.closed h.poisoned ha) result_goto
    obtain ⟨k', hk'⟩ := invoke_of_alone (call_goto .remainingCapacity) multi_remaining result_goto
    exact ⟨_, max k k', fun fuel hfuel => ⟨hk fuel (by omega), hk' fuel (by omega)⟩⟩

theorem refused_high : (w.refused b p).high = w.high := by cases w <;> rfl

theorem refused_closed : (w.refused b p).closed = w.closed := by cases w <;> rfl

theorem refused_poisoned : (w.refused b p).poisoned = w.poisoned := by cases w <;> rfl

/-- Only behind a single-producer sequencer does the cursor move. -/
theorem refused_cursor : (w.refused b p).cursor = w.high := by cases w <;> rfl

/-- The producer may try again, after the sequences have moved up. -/
theorem MayTry.retry (h : MayTry b p w)
    (hs : Below sequences w.gatingSequences (getMinimumSequenceWithDefault w.sequences w.gatingSequences w.high)) :
    MayTry b p ((w.refused b p).withSequences sequences) := by
  have hpos := b.sizeI64_pos
  have hlap : Below sequences w.gatingSequences (w.high - b.sizeI64) :=
    hs.le (le_getMinimumSequenceWithDefault.mpr ⟨by omega, h.lap⟩)
  cases w with
  | single w => exact ⟨fun hu _ => h.ready hu (unguarded_of_atRest h.rest), rfl, h.closed, h.poisoned, hs, hlap⟩
  | multi w =>
    have hbooks : MultiBooks b w := h.ready
    have hready : MultiBooks b (({ w with
        sequencer := { w.sequencer with cachedGatingSequence := w.gatingMinimum }, sequences := sequences }).goto p
          (.returned (.capacity (b.sizeI64 - (w.sequencer.cursor - w.gatingMinimum))))) :=
      MultiBooks.goto ⟨⟨hbooks.laid.bitmap, hbooks.laid.buffer⟩, hbooks.ledger, hbooks.pcs⟩ trivial
    refine ⟨hready, ?_, h.closed, h.poisoned, hs, hlap⟩
    simp [SequencerWorld.atRest, SequencerWorld.refused, SequencerWorld.withSequences, MultiWorld.atRest, MultiWorld.goto]

/-- The clamped minimum. -/
theorem getMinimumSequenceWithDefault_eq {sequences : Nat → Int} {ids : List Nat} (hne : ids ≠ []) (m : Int) :
    getMinimumSequenceWithDefault sequences ids m = min m (getMinimumSequence sequences ids) := by
  refine eq_of_forall_le_iff fun x => ?_
  rw [le_getMinimumSequenceWithDefault, le_min_iff, le_getMinimumSequence hne]

/-- After a refusal the free slots follow the minimum of the gating sequences, up to what was missing. -/
theorem freeSlots_retry (hn : n ≤ b.sizeI64) (hfree : w.freeSlots b < n) {d : Int} (h0 : 0 ≤ d) (hd : d ≤ n - w.freeSlots b)
    (hmin : getMinimumSequence sequences w.gatingSequences = getMinimumSequence w.sequences w.gatingSequences + d) :
    ((w.refused b p).withSequences sequences).freeSlots b = w.freeSlots b + d ∧
      Below sequences w.gatingSequences (getMinimumSequenceWithDefault w.sequences w.gatingSequences w.high) := by
  have hne : w.gatingSequences ≠ [] := by
    intro he
    unfold SequencerWorld.freeSlots at hfree
    rw [he, getMinimumSequenceWithDefault] at hfree
    omega
  have hslots : ((w.refused b p).withSequences sequences).freeSlots b =
      b.sizeI64 - (w.high - getMinimumSequenceWithDefault sequences w.gatingSequences w.high) := by
    cases w <;> rfl
  rw [hslots]
  unfold SequencerWorld.freeSlots at *
  rw [getMinimumSequenceWithDefault_eq hne] at hd hfree ⊢
  rw [getMinimumSequenceWithDefault_eq hne, hmin]
  exact ⟨by omega, (below_getMinimumSequence hne).le (by omega)⟩

end Refused

/-! ## What is reported -/

/-- The call returns `r` and leaves `st'`, given enough steps. -/
def Returns {α σ : Type} (call : Nat → Option (α × σ)) (r : α) (st' : σ) : Prop :=
  ∃ k, ∀ fuel, k ≤ fuel → call fuel = some (r, st')

theorem Returns.unique {α σ : Type} {call : Nat → Option (α × σ)} {r r' : α} {st st' : σ}
    (h : Returns call r st) (h' : Returns call r' st') : r = r' ∧ st = st' := by
  obtain ⟨k, hk⟩ := h
  obtain ⟨k', hk'⟩ := h'
  have he := (hk (max k k') (by omega)).symm.trans (hk' (max k k') (by omega))
  simpa using he

/-- A refused call leaves the claims and the availability of every sequence alone, and the cursor where everything that is
claimed is published. -/
structure Unchanged (b : BufferSize) (w w' : SequencerWorld) : Prop where
  nextValue : w'.high = w.high
  isAvailable : ∀ s, w'.isAvailable b s = w.isAvailable b s
  cursor : w.cursor = w.high → w'.cursor = w.cursor

/-- A non-blocking publication of `n` events in the state `w`: it succeeds exactly when `n` is a batch size and there is
room, it tells an invalid size from missing slots, and no closure runs when it fails. The ring is passed through and no
closure shows in the result then. `call` is the publication with its closure, `refusal` its error for a number of missing
slots. -/
structure TryExact {U : Type} (b : BufferSize) (n : Nat) (refusal : Nat → TryPublishError)
    (call : U → SimpleProducer E → Nat → Option (Except TryPublishError Int × SimpleProducer E)) (w : SequencerWorld)
    (ring : Nat → E) : Prop where
  invalid : n = 0 ∨ b.size < n → ∀ update, Returns (call update ⟨w, ring⟩) (.error (.invalidBatchSize n b.size)) ⟨w, ring⟩
  accepted : 1 ≤ n → n ≤ b.size → (n : Int) ≤ w.freeSlots b → ∀ update, ∃ st',
    Returns (call update ⟨w, ring⟩) (.ok (w.high + n)) st'
  refused : 1 ≤ n → n ≤ b.size → w.freeSlots b < n → ∃ (d : Nat) (w' : SequencerWorld), (d : Int) = n - w.freeSlots b ∧ 1 ≤ d ∧
    (∀ update, Returns (call update ⟨w, ring⟩) (.error (refusal d)) ⟨w', ring⟩) ∧ Unchanged b w w' ∧
    -- the same call, after the minimum of the gating sequences has advanced
    ∀ sequences,
      (getMinimumSequence sequences w.gatingSequences = getMinimumSequence w.sequences w.gatingSequences + d →
        ∀ update, ∃ st', Returns (call update ⟨w'.withSequences sequences, ring⟩) (.ok (w.high + n)) st') ∧
      (getMinimumSequence sequences w.gatingSequences = getMinimumSequence w.sequences w.gatingSequences + (d - 1) →
        ∀ update, ∃ st', Returns (call update ⟨w'.withSequences sequences, ring⟩) (.error (refusal 1)) st')

section Exact

variable {U : Type} {b : BufferSize} {p n : Nat} {refusal : Nat → TryPublishError} {w : SequencerWorld} {ring : Nat → E}
  {call : U → SimpleProducer E → Nat → Option (Except TryPublishError Int × SimpleProducer E)}

/-- A refused call exposes no claim: behind a single-producer sequencer everything claimed is published. -/
def Covered (b : BufferSize) (w : SequencerWorld) (n : Nat) : Prop :=
  w.isMulti = false → 1 ≤ n → n ≤ b.size → w.freeSlots b < n → w.cursor = w.high

theorem unchanged_refused (h : w.isMulti = false → w.cursor = w.high) : Unchanged b w (w.refused b p) := by
  refine ⟨refused_high, fun s => ?_, fun hc => refused_cursor.trans hc.symm⟩
  cases w with
  | multi w => rfl
  | single w =>
    have hc : w.sequencer.cursor = w.sequencer.nextValue := h rfl
    simp only [SequencerWorld.isAvailable, SequencerWorld.refused, SingleWorld.driven,
      SingleProducerSequencer.isAvailable, hc]

/-- The cursor of a single-producer sequencer is what `is_available` looks at. -/
theorem Unchanged.settled (h : Unchanged b w (w.refused b p)) (hw : w.isMulti = false) : w.cursor = w.high := by
  cases w with
  | multi w => cases hw
  | single w =>
    have hany : ∀ s : Int, s ≤ w.sequencer.nextValue ↔ s ≤ w.sequencer.cursor := fun s => by
      have := h.isAvailable s
      simpa [SequencerWorld.isAvailable, SequencerWorld.refused, SingleWorld.driven,
        SingleProducerSequencer.isAvailable] using this
    exact le_antisymm ((hany _).mpr le_rfl) ((hany _).mp le_rfl)

/-- A publication that succeeds where there is room, and asks for the missing slots where there is none. -/
theorem tryExact_iff [Inhabited U] (h : MayTry b p w)
    (hinvalid : n = 0 ∨ b.size < n → ∀ update,
      Returns (call update ⟨w, ring⟩) (.error (.invalidBatchSize n b.size)) ⟨w, ring⟩)
    (hok : 1 ≤ n → n ≤ b.size → ∀ w, HasRoom b p w n → ∀ update, ∃ st', Returns (call update ⟨w, ring⟩) (.ok (w.high + n)) st')
    (hno : 1 ≤ n → n ≤ b.size → ∀ w, MayTry b p w → w.freeSlots b < n → ∀ update,
      Returns (call update ⟨w, ring⟩) (.error (refusal (n - (w.freeSlots b).toNat))) ⟨w.refused b p, ring⟩) :
    TryExact b n refusal call w ring ↔ Covered b w n := by
  constructor
  · intro hex hw h1 hn hfree
    obtain ⟨d, w', -, -, hreturns, hunchanged, -⟩ := hex.refused h1 hn hfree
    obtain ⟨-, he⟩ := (hreturns default).unique (hno h1 hn w h hfree default)
    rw [show w' = w.refused b p from congrArg SimpleProducer.world he] at hunchanged
    exact hunchanged.settled hw
  · intro hcov
    refine ⟨hinvalid, fun h1 hn hfree => hok h1 hn w (h.hasRoom hfree), fun h1 hn hfree => ?_⟩
    have h0 := h.freeSlots_eq.2
    have hsize : (n : Int) ≤ b.sizeI64 := Int.ofNat_le.mpr hn
    refine ⟨n - (w.freeSlots b).toNat, w.refused b p, by omega, by omega, hno h1 hn w h hfree,
      unchanged_refused fun hw => hcov hw h1 hn hfree, fun sequences => ⟨fun hmin update => ?_, fun hmin update => ?_⟩⟩
    · obtain ⟨hslots, hbelow⟩ := freeSlots_retry (p := p) hsize hfree (by omega) (by omega) hmin
      have hroom := (h.retry hbelow).hasRoom (n := n) (by rw [hslots]; omega)
      obtain ⟨st', hst⟩ := hok h1 hn _ hroom update
      rw [show ((w.refused b p).withSequences sequences).high = w.high by cases w <;> rfl] at hst
      exact ⟨st', hst⟩
    · obtain ⟨hslots, hbelow⟩ := freeSlots_retry (p := p) hsize hfree (by omega) (by omega) hmin
      have hst := hno h1 hn _ (h.retry hbelow) (by rw [hslots]; omega) update
      have hone : n - (((w.refused b p).withSequences sequences).freeSlots b).toNat = 1 := by
        rw [hslots]
        omega
      rw [hone] at hst
      exact ⟨_, hst⟩

end Exact

/-! ## Both publications -/

section Publications

variable {b : BufferSize} {p n : Nat} {w : SequencerWorld}

theorem classifyTryRejection_eq (h : MayTry b p w) (fallback : TryPublishError) :
    SimpleProducer.classifyTryRejection w fallback = fallback := by
  unfold SimpleProducer.classifyTryRejection
  rw [h.poisoned, h.closed]
  rfl

theorem classifyTryRejection_refused (h : MayTry b p w) (fallback : TryPublishError) :
    SimpleProducer.classifyTryRejection (w.refused b p) fallback = fallback := by
  unfold SimpleProducer.classifyTryRejection
  rw [refused_poisoned, refused_closed, h.poisoned, h.closed]
  rfl

theorem tryBatchPublish_refused (h : MayTry b p w) (h1 : 1 ≤ n) (hn : n ≤ b.size) (hfree : w.freeSlots b < n)
    (update : BatchIterMut → (Nat → E) → Nat → E) (ring : Nat → E) :
    Returns (fun fuel => SimpleProducer.tryBatchPublish b p fuel n update ⟨w, ring⟩)
      (.error (.missingFreeSlots (n - (w.freeSlots b).toNat))) ⟨w.refused b p, ring⟩ := by
  have h0 := h.freeSlots_eq.2
  obtain ⟨w₁, k, hk⟩ := refused_asks h (n := n) (by omega) (Int.ofNat_le.mpr hn) hfree
  refine ⟨k, fun fuel hfuel => ?_⟩
  obtain ⟨hclaim, hcapacity⟩ := hk fuel hfuel
  have hdeficit : n - (w.freeSlots b).toNat ≠ 0 := by omega
  simp only [SimpleProducer.tryBatchPublish, if_neg (show ¬(n = 0 ∨ n > b.size) by omega), hclaim, Option.bind_some,
    hcapacity, max_eq_left h0, if_neg hdeficit, classifyTryRejection_refused h]

theorem tryPublish_refused (h : MayTry b p w) (hfree : w.freeSlots b < 1) (update : E → E) (ring : Nat → E) :
    Returns (fun fuel => SimpleProducer.tryPublish b p fuel update ⟨w, ring⟩) (.error .full) ⟨w.refused b p, ring⟩ := by
  obtain ⟨w₁, k, hk⟩ := refused_asks h le_rfl b.sizeI64_pos hfree
  refine ⟨k, fun fuel hfuel => ?_⟩
  obtain ⟨hclaim, hcapacity⟩ := hk fuel hfuel
  simp only [SimpleProducer.tryPublish, hclaim, Option.bind_some, hcapacity, if_neg (show ¬w.freeSlots b > 0 by omega),
    classifyTryRejection_refused h]

/-- `try_batch_publish`, as a publication with its closure. -/
def tryBatchCall (b : BufferSize) (p n : Nat) (update : BatchIterMut → (Nat → E) → Nat → E) (st : SimpleProducer E)
    (fuel : Nat) : Option (Except TryPublishError Int × SimpleProducer E) :=
  SimpleProducer.tryBatchPublish b p fuel n update st

/-- `try_publish` -/
def tryCall (b : BufferSize) (p : Nat) (update : E → E) (st : SimpleProducer E) (fuel : Nat) :
    Option (Except TryPublishError Int × SimpleProducer E) :=
  SimpleProducer.tryPublish b p fuel update st

theorem tryBatch_exact (h : MayTry b p w) (ring : Nat → E) :
    TryExact b n .missingFreeSlots (tryBatchCall b p n) w ring ↔ Covered b w n := by
  have : Inhabited (BatchIterMut → (Nat → E) → Nat → E) := ⟨fun _ ring => ring⟩
  refine tryExact_iff h (fun hn update => ⟨0, fun fuel _ => ?_⟩) (fun h1 hn w hroom update => ?_)
    fun h1 hn w hw hfree update => tryBatchPublish_refused hw h1 hn hfree update ring
  · simp only [tryBatchCall, SimpleProducer.tryBatchPublish, gt_iff_lt, if_pos hn, classifyTryRejection_eq h]
  · obtain ⟨w', k, -, hk⟩ := batch_ok update ring hroom h1 hn
    exact ⟨_, k, fun fuel hfuel => (hk fuel hfuel).2⟩

theorem try_exact (h : MayTry b p w) (ring : Nat → E) :
    TryExact b 1 (fun _ => .full) (tryCall b p) w ring ↔ Covered b w 1 := by
  have : Inhabited (E → E) := ⟨id⟩
  have hsize := b.size_pos
  refine tryExact_iff h (fun hn _ => by omega) (fun _ _ w hroom update => ?_)
    fun _ _ w hw hfree update => tryPublish_refused hw hfree update ring
  obtain ⟨w', k, -, hk⟩ := publish_ok update ring hroom
  exact ⟨_, k, fun fuel hfuel => (hk fuel hfuel).2⟩

theorem MayTry.of_lap (hlap : w.Lap b) (hready : w.Ready b) (hrest : w.atRest p = true) (hclosed : w.closed = false)
    (hpoisoned : w.poisoned = false) : MayTry b p w :=
  ⟨hready, hrest, hclosed, hpoisoned, hlap.cached.below, hlap.below⟩

/-- **Refused publications are exact.** In every state that claims, publications, consumers and removals reach from a
sequencer with its gating sequences, without a terminal flag: `try_batch_publish` and `try_publish` report what
`remaining_capacity` says and change nothing when they fail, unless the claim is refused by a single-producer sequencer with
an open claim. -/
theorem try_publish_exact (b : BufferSize) (multiProducer unique : Bool) (gating : List Nat) (w : SequencerWorld)
    (h : Reach (SequencerWorld.step b) (fun _ a => a.registers = false) (.init b multiProducer unique gating) w) (p : Nat)
    (hrest : w.atRest p = true) (hclosed : w.closed = false) (hpoisoned : w.poisoned = false) (ring : Nat → E) :
    (∀ n, TryExact b n .missingFreeSlots (tryBatchCall b p n) w ring ↔ Covered b w n) ∧
    (TryExact b 1 (fun _ => .full) (tryCall b p) w ring ↔ Covered b w 1) ∧
    w.freeSlots b = saturatingRemaining b w.sequences w.gatingSequences w.high := by
  have hlap : w.Lap b := Reach.inv lap_init (fun hI ha hs => lap_step hI ha hs) h
  have hready : w.Ready b := Reach.inv ready_init (fun hI _ hs => ready_step hI hs) h
  have htry : MayTry b p w := .of_lap hlap hready hrest hclosed hpoisoned
  exact ⟨fun n => tryBatch_exact htry ring, try_exact htry ring, htry.freeSlots_eq.1⟩

/-- A ring of two slots is full: a batch of two misses two slots. -/
theorem try_publish_exact_full : ∃ w, w.freeSlots ⟨1, by decide⟩ = 0 ∧
    TryExact ⟨1, by decide⟩ 2 .missingFreeSlots (tryBatchCall ⟨1, by decide⟩ 1 2) w fun i => i := by
  obtain ⟨w, hreach, hrest, hclosed, hpoisoned, hfree, hcov⟩ : ∃ w, Reach (SequencerWorld.step ⟨1, by decide⟩)
      (fun _ a => a.registers = false) (.init ⟨1, by decide⟩ true false [0]) w ∧ w.atRest 1 = true ∧ w.closed = false ∧
      w.poisoned = false ∧ w.freeSlots ⟨1, by decide⟩ = 0 ∧ w.isMulti = true :=
    ⟨_, reach_of_exec (.call 0 (.tryNextN 2) :: List.replicate 6 (.step 0)) rfl, rfl, rfl, rfl, rfl, rfl⟩
  refine ⟨w, hfree, ?_⟩
  refine ((try_publish_exact ⟨1, by decide⟩ true false [0] w hreach 1 hrest hclosed hpoisoned fun i => i).1 2).mpr ?_
  intro hw
  rw [hcov] at hw
  cases hw

/-- Sequence 0 of a ring of one slot is claimed and not published: the refused `try_batch_publish(1)` makes it available. -/
theorem try_publish_exposes : ∃ w, Reach (SequencerWorld.step ⟨0, by decide⟩) (fun _ a => a.registers = false)
      (.init ⟨0, by decide⟩ false false [0]) w ∧ w.atRest 0 = true ∧ w.closed = false ∧ w.poisoned = false ∧
    w.isAvailable ⟨0, by decide⟩ 0 = false ∧
    (∃ w', tryBatchCall ⟨0, by decide⟩ 0 1 (fun _ ring => ring) ⟨w, fun _ => 7⟩ 40 =
      some (.error (.missingFreeSlots 1), ⟨w', fun _ => 7⟩) ∧ w'.isAvailable ⟨0, by decide⟩ 0 = true) ∧
    ¬TryExact ⟨0, by decide⟩ 1 .missingFreeSlots (tryBatchCall ⟨0, by decide⟩ 0 1) w fun _ => 7 := by
  obtain ⟨w, hreach, hrest, hclosed, hpoisoned, hav, hcall, hsingle, hfull, hopen⟩ : ∃ w,
      Reach (SequencerWorld.step ⟨0, by decide⟩) (fun _ a => a.registers = false) (.init ⟨0, by decide⟩ false false [0]) w ∧
      w.atRest 0 = true ∧ w.closed = false ∧ w.poisoned = false ∧ w.isAvailable ⟨0, by decide⟩ 0 = false ∧
      (∃ w', tryBatchCall ⟨0, by decide⟩ 0 1 (fun _ ring => ring) ⟨w, fun _ => 7⟩ 40 =
        some (.error (.missingFreeSlots 1), ⟨w', fun _ => 7⟩) ∧ w'.isAvailable ⟨0, by decide⟩ 0 = true) ∧
      w.isMulti = false ∧ w.freeSlots ⟨0, by decide⟩ = 0 ∧ w.cursor ≠ w.high :=
    ⟨_, reach_of_exec (.call 0 (.nextN 1) :: List.replicate 5 (.step 0)) rfl, rfl, rfl, rfl, rfl, ⟨_, rfl, rfl⟩, rfl, rfl,
      by decide⟩
  refine ⟨w, hreach, hrest, hclosed, hpoisoned, hav, hcall, fun hex => hopen ?_⟩
  have hlap : w.Lap ⟨0, by decide⟩ := Reach.inv lap_init (fun hI ha hs => lap_step hI ha hs) hreach
  have hready : w.Ready ⟨0, by decide⟩ := Reach.inv ready_init (fun hI _ hs => ready_step hI hs) hreach
  exact (tryBatch_exact (.of_lap hlap hready hrest hclosed hpoisoned) _).mp hex hsingle le_rfl le_rfl
    (by rw [hfull]; decide)

end Publications

end BadBatch
