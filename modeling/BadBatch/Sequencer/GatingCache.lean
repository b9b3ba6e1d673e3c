import BadBatch.Sequencer.World

/-!
# The cached gating minimum

Both sequencers keep the last minimum they read, and ask the gating sequences again only when the cached value does not
settle the question. The cache may be arbitrarily old, and a slow producer may put back an older minimum than the one that
was there. It never exceeds a registered sequence all the same, as long as sequences only grow and nothing is registered
after the first claim; so a claim that the cache lets through is let through by the sequences too.

* `MultiCache`, `SingleCache`: the cache is a lower bound, and so is every minimum still on its way into it;
* `Accepts`: the decision that a freshly computed minimum takes;
* `Alone`: a producer takes its steps while nothing else moves.
-/

namespace BadBatch

open MultiProducerSequencer StepSys

variable {b : BufferSize} {sequences sequences' : Nat → Int} {gating gating' rest : List Nat} {minimum : Int} {p : Nat}

/-- A registered sequence is still to be read, or not below the minimum so far. -/
def Covers (sequences : Nat → Int) (gating rest : List Nat) (minimum : Int) : Prop :=
  ∀ i ∈ gating, i ∈ rest ∨ minimum ≤ sequences i

theorem Covers.below (h : Covers sequences gating [] minimum) : Below sequences gating minimum :=
  fun i hi => (h i hi).resolve_left List.not_mem_nil

theorem Covers.scan {i : Nat} (h : Covers sequences gating (i :: rest) minimum) :
    Covers sequences gating rest (lower minimum (sequences i)) := by
  intro j hj
  rcases h j hj with hm | hle
  · rcases List.mem_cons.mp hm with rfl | hm
    · exact .inr lower_le_right
    · exact .inl hm
  · exact .inr (le_trans lower_le_left hle)

/-- Sequences grow, and sequences are removed. -/
theorem Covers.mono (h : Covers sequences gating rest minimum) (hs : ∀ i, sequences i ≤ sequences' i)
    (hg : ∀ i ∈ gating', i ∈ gating) : Covers sequences' gating' rest minimum :=
  fun i hi => (h i (hg i hi)).imp id fun hle => le_trans hle (hs i)

theorem Below.shrink {m : Int} (h : Below sequences gating m) (hs : ∀ i, sequences i ≤ sequences' i)
    (hg : ∀ i ∈ gating', i ∈ gating) : Below sequences' gating' m :=
  fun i hi => le_trans (h i (hg i hi)) (hs i)

theorem mem_of_mem_removeGatingSequenceCas {i j : Nat} (h : j ∈ removeGatingSequenceCas gating i) : j ∈ gating :=
  (List.mem_filter.mp h).1

/-- The step registers gating sequences. -/
def SequencerAction.registers : SequencerAction → Bool
  | .addGatingSequences _ => true
  | _ => false

/-! ## Several producers -/

section Multi

variable {m m' : MultiProducerSequencer} {pc pc' : MultiPc} {e : LedgerEffect} {w w' : MultiWorld} {a : SequencerAction}

/-- What a producer has read covers the gating set. `next_n` reads the gating list after the cache. -/
def MultiPc.Caches (sequences : Nat → Int) (gating : List Nat) : MultiPc → Prop
  | .loadCursorUnder _ guard => ∀ i ∈ gating, i ∈ guard
  | .loadCached c _ guard => (∃ n, c = .nextN n) ∨ ∀ i ∈ gating, i ∈ guard
  | .scan _ _ rest minimum => Covers sequences gating rest minimum
  | .storeCached _ _ minimum => Below sequences gating minimum
  | _ => True

/-- The cache and everything on its way into it are lower bounds. -/
structure MultiCache (w : MultiWorld) : Prop where
  cached : Below w.sequences w.sequencer.gatingSequences w.sequencer.cachedGatingSequence
  pcs : ∀ p, (w.producers p).Caches w.sequences w.sequencer.gatingSequences

theorem MultiPc.Caches.mono (h : pc.Caches sequences gating) (hs : ∀ i, sequences i ≤ sequences' i)
    (hg : ∀ i ∈ gating', i ∈ gating) : pc.Caches sequences' gating' := by
  cases pc with
  | loadCursorUnder c guard => exact fun i hi => h i (hg i hi)
  | loadCached c current guard => exact h.imp id fun h i hi => h i (hg i hi)
  | scan c current rest minimum => exact Covers.mono h hs hg
  | storeCached c current minimum => exact Below.shrink h hs hg
  | _ => trivial

theorem caches_claimStart (c : ClaimCall) : (claimStart b c).Caches sequences gating := by
  cases c with
  | nextN n | tryNextN n =>
    simp only [claimStart]
    split <;> trivial
  | hasAvailableCapacity k | remainingCapacity => trivial

/-- Only a covered minimum is stored. -/
theorem cached_claimStep (h : claimStep b sequences m pc = some (m', pc', e))
    (hcached : Below sequences m.gatingSequences m.cachedGatingSequence) (hp : pc.Caches sequences m.gatingSequences) :
    m'.gatingSequences = m.gatingSequences ∧ Below sequences m'.gatingSequences m'.cachedGatingSequence := by
  rcases claimStep_cases h with ⟨rfl, -⟩ | ⟨c, current, minimum, rfl, -, rfl⟩ | ⟨c, rfl, -, rfl⟩ | ⟨lo, hi, hpub, -⟩
  · exact ⟨rfl, hcached⟩
  · exact ⟨rfl, hp⟩
  · exact ⟨rfl, hcached⟩
  · rw [hpub.frame]
    exact ⟨rfl, hcached⟩

/-- A producer's next place. -/
theorem caches_claimStep (h : claimStep b sequences m pc = some (m', pc', e)) (hp : pc.Caches sequences m.gatingSequences) :
    pc'.Caches sequences m.gatingSequences := by
  cases multiRule_of_claimStep h with
  | cursorNext => exact .inl ⟨_, rfl⟩
  | gatingTry => exact .inr fun i hi => hi
  | gating => exact fun i hi => .inl hi
  | gatingFirst => exact fun i hi => hi
  | cursorUnder => exact .inr hp
  | stale hn =>
    rcases hp with ⟨n, rfl⟩ | hg
    · exact absurd rfl (hn n)
    · exact fun i hi => .inl (hg i hi)
  | scan => exact Covers.scan hp
  | scanned => exact Covers.below hp
  | _ => trivial

theorem MultiCache.goto (h : MultiCache w) (hp : pc.Caches w.sequences w.sequencer.gatingSequences) :
    MultiCache (w.goto p pc) := by
  refine ⟨h.cached, fun q => ?_⟩
  by_cases hq : q = p
  · subst hq
    simpa [MultiWorld.goto] using hp
  · simpa [MultiWorld.goto, Function.update_of_ne hq] using h.pcs q

/-- **Step lemma.** -/
theorem multiCache_step (h : MultiCache w) (ha : a.registers = false) (hs : w.step b a = some w') :
    MultiCache w' := by
  cases multiWorldRule_of_step hs with
  | @call p c => exact h.goto (caches_claimStart c)
  | publish | publishRange => exact h.goto trivial
  | @step p m' pc' e hst =>
    obtain ⟨hg, hcached⟩ := cached_claimStep hst h.cached (h.pcs p)
    refine ⟨hcached, fun q => ?_⟩
    simp only [hg]
    by_cases hq : q = p
    · subst hq
      simpa using caches_claimStep hst (h.pcs q)
    · simpa [Function.update_of_ne hq] using h.pcs q
  | advance hle => exact ⟨h.cached.mono (le_update hle), fun q => (h.pcs q).mono (le_update hle) fun i hi => hi⟩
  | close | reopen | poison => exact ⟨h.cached, h.pcs⟩
  | addGatingSequences => cases ha
  | removeGatingSequence =>
    exact ⟨h.cached.shrink (fun _ => le_rfl) fun j => mem_of_mem_removeGatingSequenceCas,
      fun q => (h.pcs q).mono (fun _ => le_rfl) fun j => mem_of_mem_removeGatingSequenceCas⟩

theorem multiCache_init {gating : List Nat} : MultiCache (MultiWorld.init b gating) :=
  ⟨fun _ _ => le_rfl, fun _ => trivial⟩

end Multi

/-! ## One driver -/

section Single

variable {unique : Bool} {m m' : SingleProducerSequencer} {pc pc' : SinglePc} {e : LedgerEffect} {w w' : SingleWorld}
  {a : SequencerAction}

/-- What the driver has read covers the gating set. -/
def SinglePc.Caches (sequences : Nat → Int) (gating : List Nat) : SinglePc → Prop
  | .scan _ rest minimum => Covers sequences gating rest minimum
  | _ => True

/-- The driver does not hold the claim guard. -/
def SinglePc.unguarded : SinglePc → Bool
  | .returned _ | .loadClosed _ | .loadPoisoned _ | .acquire _ | .publish _ => true
  | _ => false

/-- The cache is a lower bound, and on the checked path the claim lock is free between two claims. -/
structure SingleCache (w : SingleWorld) : Prop where
  cached : Below w.sequences w.sequencer.gatingSequences w.sequencer.cachedValue
  pc : w.pc.Caches w.sequences w.sequencer.gatingSequences
  lock : w.unique = false → w.pc.unguarded = true → w.sequencer.claimLock = false

theorem SinglePc.Caches.mono (h : pc.Caches sequences gating) (hs : ∀ i, sequences i ≤ sequences' i)
    (hg : ∀ i ∈ gating', i ∈ gating) : pc.Caches sequences' gating' := by
  cases pc with
  | scan c rest minimum => exact Covers.mono h hs hg
  | _ => trivial

theorem caches_singleStart (c : ClaimCall) :
    (SingleProducerSequencer.claimStart b unique c).Caches sequences gating := by
  cases c with
  | nextN n | tryNextN n =>
    simp only [SingleProducerSequencer.claimStart]
    split <;> trivial
  | hasAvailableCapacity k => trivial
  | remainingCapacity => cases unique <;> trivial

theorem caches_finish (r : ClaimResult) : (SingleProducerSequencer.finish unique r).Caches sequences gating := by
  cases unique <;> trivial

/-- The driver's next place. -/
theorem caches_singleStep (h : SingleProducerSequencer.claimStep b unique sequences m pc = some (m', pc', e))
    (hp : pc.Caches sequences m.gatingSequences) : pc'.Caches sequences m.gatingSequences := by
  cases singleRule_of_claimStep h with
  | overflow | askCached | grantCached | answerRemaining | answerAvailable | tryFull | grantScanned | spinShutdown
  | spinPoisoned => exact caches_finish _
  | loadGating => exact fun i hi => .inl hi
  | scan => exact Covers.scan hp
  | _ => trivial

/-- Only a covered minimum is stored. -/
theorem cached_singleStep (h : SingleProducerSequencer.claimStep b unique sequences m pc = some (m', pc', e))
    (hcached : Below sequences m.gatingSequences m.cachedValue) (hp : pc.Caches sequences m.gatingSequences) :
    m'.gatingSequences = m.gatingSequences ∧ Below sequences m'.gatingSequences m'.cachedValue := by
  rcases singleStep_cases h with ⟨-, ⟨-, hg, -, -⟩, hc⟩ | ⟨c, -, -, rfl, -⟩ | ⟨c, -, -, hm, -, -, hc⟩ | ⟨high, -, -, rfl, -⟩
  · rw [hg]
    rcases hc with hc | ⟨c, rfl⟩
    · exact ⟨rfl, by rw [hc]; exact hcached⟩
    · exact ⟨rfl, Covers.below hp⟩
  · exact ⟨rfl, hcached⟩
  · have hg : m'.gatingSequences = m.gatingSequences := by rw [hm]
    rw [hg]
    rcases hc with ⟨-, hc⟩ | rfl
    · exact ⟨rfl, by rw [hc]; exact hcached⟩
    · exact ⟨rfl, Covers.below hp⟩
  · exact ⟨rfl, hcached⟩

/-- The guard is dropped before the call returns. -/
theorem unguarded_singleStep (h : SingleProducerSequencer.claimStep b false sequences m pc = some (m', pc', e))
    (hl : pc.unguarded = true → m.claimLock = false) (hp : pc'.unguarded = true) : m'.claimLock = false := by
  cases singleRule_of_claimStep h with
  | closed | notClosed | poisoned | toAcquire | contended | publish => exact hl rfl
  | release => rfl
  | toCheck _ hu => cases hu
  | _ => cases hp

theorem unguarded_of_atRest (h : w.atRest = true) : w.pc.unguarded = true := by
  unfold SingleWorld.atRest at h
  split at h
  · rename_i hpc
    rw [hpc]
    rfl
  · cases h

/-- **Step lemma.** -/
theorem singleCache_step (h : SingleCache w) (ha : a.registers = false) (hs : w.step b a = some w') :
    SingleCache w' := by
  cases singleWorldRule_of_step hs with
  | @call p c hr => exact ⟨h.cached, caches_singleStart c, fun hu _ => h.lock hu (unguarded_of_atRest hr)⟩
  | publish hr | publishRange hr => exact ⟨h.cached, trivial, fun hu _ => h.lock hu (unguarded_of_atRest hr)⟩
  | step hst =>
    obtain ⟨hg, hcached⟩ := cached_singleStep hst h.cached h.pc
    refine ⟨hcached, ?_, fun hu hp => ?_⟩
    · simp only [hg]
      exact caches_singleStep hst h.pc
    · simp only at hu
      rw [hu] at hst
      exact unguarded_singleStep hst (h.lock hu) hp
  | advance hle => exact ⟨h.cached.mono (le_update hle), h.pc.mono (le_update hle) fun i hi => hi, h.lock⟩
  | close | reopen | poison => exact ⟨h.cached, h.pc, h.lock⟩
  | addGatingSequences => cases ha
  | removeGatingSequence =>
    exact ⟨h.cached.shrink (fun _ => le_rfl) fun j => mem_of_mem_removeGatingSequenceCas,
      h.pc.mono (fun _ => le_rfl) fun j => mem_of_mem_removeGatingSequenceCas, h.lock⟩

theorem singleCache_init {gating : List Nat} : SingleCache (SingleWorld.init unique gating) :=
  ⟨fun _ _ => le_rfl, trivial, fun hu _ => hu⟩

end Single

/-! ## The decision -/

namespace SequencerWorld

/-- `closed` -/
def closed : SequencerWorld → Bool
  | single w => w.sequencer.closed
  | multi w => w.sequencer.closed

/-- The claims go through the capability of the Builder, which keeps the claim lock. -/
def capability : SequencerWorld → Bool
  | single w => w.unique
  | multi _ => false

/-- The decision of a freshly computed minimum: `n` more sequences stay within a lap of the slowest gating sequence. -/
def Accepts (b : BufferSize) (w : SequencerWorld) (n : Int) : Prop :=
  w.high + n - b.sizeI64 ≤ getMinimumSequenceWithDefault w.sequences w.gatingSequences w.high

instance (b : BufferSize) (w : SequencerWorld) (n : Int) : Decidable (w.Accepts b n) :=
  inferInstanceAs (Decidable (_ ≤ _))

/-- Producer `p` takes its steps while nothing else moves. -/
def Alone (b : BufferSize) (p : Nat) : SequencerWorld → SequencerWorld → Prop :=
  Reach (SequencerWorld.step b) fun _ a => a = .step p

end SequencerWorld

open SequencerWorld

/-- What the cache lets through, the sequences let through. -/
theorem accepts_of_cached {cached position n : Int} (h : Below sequences gating cached)
    (hfast : ¬(position + n - b.sizeI64 > cached ∨ cached > position)) :
    position + n - b.sizeI64 ≤ getMinimumSequenceWithDefault sequences gating position :=
  le_getMinimumSequenceWithDefault.mpr ⟨by omega, h.le (by omega)⟩

section MultiDecision

variable {w : MultiWorld} {pc pc' : MultiPc} {c : ClaimCall} {current n : Int} {e : LedgerEffect}
  {m : MultiProducerSequencer}

theorem alone_multi (h : claimStep b w.sequences w.sequencer pc = some (m, pc', e)) :
    Alone b p (.multi (w.goto p pc))
      (.multi ({ w with sequencer := m, ledger := e.apply p w.ledger }.goto p pc')) := by
  refine Reach.tail .refl rfl ?_
  simp [SequencerWorld.step, MultiWorld.step, MultiWorld.goto, h]

/-- A load. -/
theorem alone_load (h : claimStep b w.sequences w.sequencer pc = some (w.sequencer, pc', .none)) :
    Alone b p (.multi (w.goto p pc)) (.multi (w.goto p pc')) := alone_multi h

theorem alone_scan : ∀ (rest : List Nat) (minimum : Int), Alone b p (.multi (w.goto p (.scan c current rest minimum)))
    (.multi (w.goto p (.scan c current [] (getMinimumSequenceWithDefault w.sequences rest minimum))))
  | [], _ => .refl
  | i :: rest, minimum => Reach.trans (alone_load rfl) (alone_scan rest (lower minimum (w.sequences i)))

theorem result_goto {r : ClaimResult} : (SequencerWorld.multi (w.goto p (.returned r))).result p = some r := by
  simp [SequencerWorld.result, MultiWorld.goto]

/-- The world after a claim of `n` by `p`, with what is left in the cache. -/
def MultiWorld.granted (w : MultiWorld) (p : Nat) (n cached : Int) : MultiWorld :=
  { w with
    sequencer := { w.sequencer with cursor := w.sequencer.cursor + n, cachedGatingSequence := cached }
    ledger := w.ledger.grant p n (w.sequencer.cursor + n) }.goto p (.returned (.ok (w.sequencer.cursor + n)))

/-- The claim itself, when no other producer steps. -/
theorem alone_cas (c : ClaimCall) (cached : Int) :
    Alone b p (.multi ({ w with sequencer := { w.sequencer with cachedGatingSequence := cached } }.goto p
      (.cas c w.sequencer.cursor))) (.multi (w.granted p c.n cached)) := by
  have hcas : claimStep b w.sequences { w.sequencer with cachedGatingSequence := cached } (.cas c w.sequencer.cursor) =
      some ({ w.sequencer with cursor := w.sequencer.cursor + c.n, cachedGatingSequence := cached },
        .returned (.ok (w.sequencer.cursor + c.n)), .grant c.n (w.sequencer.cursor + c.n)) := by
    unfold claimStep
    exact if_pos rfl
  exact alone_multi (w := { w with sequencer := { w.sequencer with cachedGatingSequence := cached } }) hcas

/-- The minimum over the gating set, clamped to the cursor. -/
def MultiWorld.gatingMinimum (w : MultiWorld) : Int :=
  getMinimumSequenceWithDefault w.sequences w.sequencer.gatingSequences w.sequencer.cursor

/-- The cached minimum does not settle the question. -/
def MultiWorld.Stale (b : BufferSize) (w : MultiWorld) (n : Int) : Prop :=
  w.sequencer.cursor + n - b.sizeI64 > w.sequencer.cachedGatingSequence ∨
    w.sequencer.cachedGatingSequence > w.sequencer.cursor

instance (b : BufferSize) (w : MultiWorld) (n : Int) : Decidable (w.Stale b n) := inferInstanceAs (Decidable (_ ∨ _))

theorem claimStep_stale {guard : List Nat} (hs : w.Stale b c.n) :
    claimStep b w.sequences w.sequencer (.loadCached c w.sequencer.cursor guard) = some (w.sequencer,
      match c with
      | .nextN _ => .loadGating c w.sequencer.cursor
      | _ => .scan c w.sequencer.cursor guard w.sequencer.cursor, .none) := by
  unfold claimStep
  refine (if_pos hs).trans ?_
  cases c <;> rfl

theorem claimStep_fresh {guard : List Nat} (hs : ¬w.Stale b c.n) :
    claimStep b w.sequences w.sequencer (.loadCached c w.sequencer.cursor guard) = some (w.sequencer,
      match c with
      | .hasAvailableCapacity _ => .returned (.bool true)
      | _ => .cas c w.sequencer.cursor, .none) := by
  unfold claimStep
  refine (if_neg hs).trans ?_
  cases c <;> rfl

/-- A claim starts with the terminal flags. -/
theorem alone_flags (hclosed : w.sequencer.closed = false) (hpoisoned : w.sequencer.poisoned = false) :
    Alone b p (.multi (w.goto p (.loadClosed c))) (.multi (w.goto p (.loadCursor c))) := by
  have hc : claimStep b w.sequences w.sequencer (.loadClosed c) = some (w.sequencer, .loadPoisoned c, .none) := by
    rw [claimStep, hclosed]
    rfl
  have hp : claimStep b w.sequences w.sequencer (.loadPoisoned c) = some (w.sequencer, .loadCursor c, .none) := by
    rw [claimStep, hpoisoned]
    rfl
  exact Reach.trans (alone_load hc) (alone_load hp)

/-- A claim up to the point where the cached minimum is read. -/
theorem alone_toCached (c : ClaimCall) (hc : c.isClaim = true) (hclosed : w.sequencer.closed = false)
    (hpoisoned : w.sequencer.poisoned = false) :
    ∃ guard, Alone b p (.multi (w.goto p (.loadClosed c))) (.multi (w.goto p (.loadCached c w.sequencer.cursor guard))) ∧
      (w.Stale b c.n → Alone b p (.multi (w.goto p (.loadCached c w.sequencer.cursor guard)))
        (.multi (w.goto p (.scan c w.sequencer.cursor [] w.gatingMinimum)))) := by
  cases c with
  | nextN n =>
    refine ⟨[], Reach.trans (alone_flags hclosed hpoisoned) (alone_load rfl), fun hs => ?_⟩
    exact Reach.trans (alone_load (claimStep_stale hs)) (Reach.trans (alone_load rfl) (alone_scan _ _))
  | tryNextN n =>
    refine ⟨w.sequencer.gatingSequences,
      Reach.trans (alone_flags hclosed hpoisoned) (Reach.trans (alone_load rfl) (alone_load rfl)), fun hs => ?_⟩
    exact Reach.trans (alone_load (claimStep_stale hs)) (alone_scan _ _)
  | hasAvailableCapacity k => cases hc
  | remainingCapacity => cases hc

/-- What a claim of `n` leaves in the cache. -/
def MultiWorld.cacheAfter (b : BufferSize) (w : MultiWorld) (n : Int) : Int :=
  if w.Stale b n then w.gatingMinimum else w.sequencer.cachedGatingSequence

/-- A claim is granted when the sequences let it through. -/
theorem multi_granted (c : ClaimCall) (hc : c.isClaim = true) (hclosed : w.sequencer.closed = false)
    (hpoisoned : w.sequencer.poisoned = false) (ha : (SequencerWorld.multi w).Accepts b c.n) :
    Alone b p (.multi (w.goto p (.loadClosed c))) (.multi (w.granted p c.n (w.cacheAfter b c.n))) := by
  unfold MultiWorld.cacheAfter
  obtain ⟨guard, hstart, hslow⟩ := alone_toCached (b := b) (p := p) c hc hclosed hpoisoned
  by_cases hs : w.Stale b c.n
  · have hwrap : ¬w.sequencer.cursor + c.n - b.sizeI64 > w.gatingMinimum := not_lt.mpr ha
    have hstore : Alone b p (.multi (w.goto p (.scan c w.sequencer.cursor [] w.gatingMinimum)))
        (.multi ({ w with sequencer := { w.sequencer with cachedGatingSequence := w.gatingMinimum } }.goto p
          (.cas c w.sequencer.cursor))) := by
      cases c with
      | nextN n =>
        have hscan : claimStep b w.sequences w.sequencer (.scan (.nextN n) w.sequencer.cursor [] w.gatingMinimum) =
            some (w.sequencer, .storeCached (.nextN n) w.sequencer.cursor w.gatingMinimum, .none) := by
          unfold claimStep
          exact congrArg (fun pc => some (w.sequencer, pc, LedgerEffect.none)) (if_neg hwrap)
        have hcas : claimStep b w.sequences w.sequencer (.storeCached (.nextN n) w.sequencer.cursor w.gatingMinimum) =
            some ({ w.sequencer with cachedGatingSequence := w.gatingMinimum }, .cas (.nextN n) w.sequencer.cursor, .none) :=
          rfl
        exact Reach.trans (alone_load hscan) (alone_multi hcas)
      | tryNextN n =>
        have hcas : claimStep b w.sequences w.sequencer (.storeCached (.tryNextN n) w.sequencer.cursor w.gatingMinimum) =
            some ({ w.sequencer with cachedGatingSequence := w.gatingMinimum }, .cas (.tryNextN n) w.sequencer.cursor,
              .none) := by
          unfold claimStep
          exact congrArg (fun pc => some (_, pc, LedgerEffect.none)) (if_neg hwrap)
        exact Reach.trans (alone_load rfl) (alone_multi hcas)
      | hasAvailableCapacity k => cases hc
      | remainingCapacity => cases hc
    rw [if_pos hs]
    exact Reach.trans hstart (Reach.trans (hslow hs) (Reach.trans hstore (alone_cas c _)))
  · have hload : Alone b p (.multi (w.goto p (.loadCached c w.sequencer.cursor guard)))
        (.multi (w.goto p (.cas c w.sequencer.cursor))) := by
      have hfresh := @claimStep_fresh b w c guard hs
      cases c with
      | nextN n => exact alone_load hfresh
      | tryNextN n => exact alone_load hfresh
      | hasAvailableCapacity k => cases hc
      | remainingCapacity => cases hc
    rw [if_neg hs]
    exact Reach.trans hstart (Reach.trans hload (alone_cas c w.sequencer.cachedGatingSequence))

/-- `try_next_n` fails when the sequences do not let it through; the minimum it has read stays in the cache. -/
theorem multi_refused (h : Below w.sequences w.sequencer.gatingSequences w.sequencer.cachedGatingSequence)
    (hclosed : w.sequencer.closed = false) (hpoisoned : w.sequencer.poisoned = false)
    (ha : ¬(SequencerWorld.multi w).Accepts b n) :
    Alone b p (.multi (w.goto p (.loadClosed (.tryNextN n))))
      (.multi ({ w with sequencer := { w.sequencer with cachedGatingSequence := w.gatingMinimum } }.goto p
        (.returned .none))) := by
  obtain ⟨guard, hstart, hslow⟩ := alone_toCached (b := b) (p := p) (.tryNextN n) rfl hclosed hpoisoned
  have hs : w.Stale b n := by
    by_contra hs
    exact ha (accepts_of_cached h hs)
  have hwrap : w.sequencer.cursor + n - b.sizeI64 > w.gatingMinimum := not_le.mp ha
  have hfull : claimStep b w.sequences w.sequencer (.storeCached (.tryNextN n) w.sequencer.cursor w.gatingMinimum) =
      some ({ w.sequencer with cachedGatingSequence := w.gatingMinimum }, .returned .none, .none) := by
    unfold claimStep
    exact congrArg (fun pc => some (_, pc, LedgerEffect.none)) (if_pos hwrap)
  exact Reach.trans hstart (Reach.trans (hslow hs) (Reach.trans (alone_load rfl) (alone_multi hfull)))

/-- The decision of `try_next_n`. -/
theorem multi_try (h : MultiCache w) (hclosed : w.sequencer.closed = false) (hpoisoned : w.sequencer.poisoned = false) :
    ∃ w', Alone b p (.multi (w.goto p (.loadClosed (.tryNextN n)))) w' ∧
      w'.result p = some (if (SequencerWorld.multi w).Accepts b n then .ok (w.sequencer.cursor + n) else .none) := by
  by_cases ha : (SequencerWorld.multi w).Accepts b n
  · rw [if_pos ha]
    exact ⟨_, multi_granted (.tryNextN n) rfl hclosed hpoisoned ha, result_goto⟩
  · rw [if_neg ha]
    exact ⟨_, multi_refused h.cached hclosed hpoisoned ha, result_goto⟩

/-- The decision of `has_available_capacity`. -/
theorem multi_capacity (h : MultiCache w) {k : Nat} (hmax : (k : Int) ≤ i64Max) :
    ∃ w', Alone b p (.multi (w.goto p (.loadGatingFirst (.hasAvailableCapacity k)))) w' ∧
      w'.result p = some (.bool (decide ((SequencerWorld.multi w).Accepts b k))) := by
  have hstart : Alone b p (.multi (w.goto p (.loadGatingFirst (.hasAvailableCapacity k))))
      (.multi (w.goto p (.loadCached (.hasAvailableCapacity k) w.sequencer.cursor w.sequencer.gatingSequences))) := by
    refine Reach.trans (alone_load rfl) (alone_load ?_)
    simp only [claimStep, if_pos hmax]
  by_cases hs : w.Stale b k
  · have hscan := Reach.trans hstart (Reach.trans (alone_load (claimStep_stale hs))
      (Reach.trans (alone_scan _ _) (alone_load rfl)))
    refine ⟨_, Reach.trans hscan (alone_multi rfl), ?_⟩
    rw [result_goto]
    simp only [gt_iff_lt, not_lt]
    rfl
  · have ha : (SequencerWorld.multi w).Accepts b k := accepts_of_cached h.cached hs
    exact ⟨_, Reach.trans hstart (alone_load (claimStep_fresh hs)), by rw [result_goto, decide_eq_true ha]⟩

/-- `next_n` claims at once when the sequences let it through. -/
theorem multi_next (hclosed : w.sequencer.closed = false) (hpoisoned : w.sequencer.poisoned = false)
    (ha : (SequencerWorld.multi w).Accepts b n) : ∃ w', Alone b p (.multi (w.goto p (.loadClosed (.nextN n)))) w' ∧
      w'.result p = some (.ok (w.sequencer.cursor + n)) := by
  exact ⟨_, multi_granted (.nextN n) rfl hclosed hpoisoned ha, result_goto⟩

/-- The places of a `next_n` that waits. -/
def MultiPc.Waits (w : MultiWorld) (n : Int) : MultiPc → Prop
  | .loadClosed c | .loadPoisoned c | .loadCursor c => c = .nextN n
  | .loadCached c current _ | .loadGating c current => c = .nextN n ∧ current = w.sequencer.cursor
  | .scan c current rest minimum => c = .nextN n ∧ current = w.sequencer.cursor ∧
    getMinimumSequenceWithDefault w.sequences rest minimum = w.gatingMinimum
  | _ => False

/-- `next_n` goes round its loop when the sequences do not let it through. -/
theorem waits_claimStep (h : MultiCache w) (hclosed : w.sequencer.closed = false)
    (hpoisoned : w.sequencer.poisoned = false) (ha : ¬(SequencerWorld.multi w).Accepts b n)
    (hpc : pc.Waits w n) (hst : claimStep b w.sequences w.sequencer pc = some (m, pc', e)) :
    m = w.sequencer ∧ e = .none ∧ pc'.Waits w n := by
  cases multiRule_of_claimStep hst with
  | closed hc =>
    rw [hclosed] at hc
    cases hc
  | poisoned hp =>
    rw [hpoisoned] at hp
    cases hp
  | notClosed | notPoisoned => exact ⟨rfl, rfl, hpc⟩
  | cursorNext => exact ⟨rfl, rfl, hpc, rfl⟩
  | cursor hc => exact absurd hpc (hc n)
  | gatingTry => cases hpc.1
  | gating =>
    obtain ⟨rfl, rfl⟩ := hpc
    exact ⟨rfl, rfl, rfl, rfl, rfl⟩
  | staleNext => exact ⟨rfl, rfl, hpc⟩
  | stale hc => exact absurd hpc.1 (hc n)
  | fresh hk hfresh =>
    -- a minimum in the cache is one the sequences have reached
    obtain ⟨rfl, rfl⟩ := hpc
    exact absurd (accepts_of_cached h.cached hfresh) ha
  | freshAvailable => cases hpc.1
  | scan => exact ⟨rfl, rfl, hpc⟩
  | full => exact ⟨rfl, rfl, hpc.1⟩
  | @scanned c current minimum hr hfits =>
    obtain ⟨rfl, rfl, hmin⟩ := hpc
    have hfits := hfits n rfl
    rw [show minimum = w.gatingMinimum from hmin] at hfits
    exact absurd hfits ha
  | answerRemaining => cases hpc.1
  | gatingFirst | cursorUnder | overflow | store | storeFull | answerAvailable | grant | lostNext | lost | publish | rangeDone
  | range => exact hpc.elim

/-- `next_n` waits as long as the sequences do not let it through. -/
theorem multi_waits (h : MultiCache w) (hclosed : w.sequencer.closed = false) (hpoisoned : w.sequencer.poisoned = false)
    (ha : ¬(SequencerWorld.multi w).Accepts b n) {w' : SequencerWorld}
    (hr : Alone b p (.multi (w.goto p (.loadClosed (.nextN n)))) w') : w'.result p = none := by
  have hinv : ∃ pc, w' = .multi (w.goto p pc) ∧ pc.Waits w n := by
    refine Reach.inv (I := fun w' => ∃ pc, w' = SequencerWorld.multi (w.goto p pc) ∧ pc.Waits w n)
      ⟨.loadClosed (.nextN n), rfl, rfl⟩ ?_ hr
    rintro s s' a ⟨pc, rfl, hpc⟩ rfl hs
    simp only [SequencerWorld.step, MultiWorld.step, Option.map_eq_some_iff] at hs
    obtain ⟨w₁, ⟨⟨m, pc', e⟩, hst, rfl⟩, rfl⟩ := hs
    have hpc₁ : (w.goto p pc).producers p = pc := by simp [MultiWorld.goto]
    rw [hpc₁] at hst
    obtain ⟨rfl, rfl, hpc'⟩ := waits_claimStep h hclosed hpoisoned ha hpc hst
    exact ⟨pc', by simp [MultiWorld.goto, LedgerEffect.apply], hpc'⟩
  obtain ⟨pc, rfl, hpc⟩ := hinv
  cases pc <;> first | exact hpc.elim | simp [SequencerWorld.result, MultiWorld.goto]

end MultiDecision

section SingleDecision

variable {w : SingleWorld} {pc pc' : SinglePc} {c : ClaimCall} {n : Int} {e : LedgerEffect}
  {m m' : SingleProducerSequencer} {l : Ledger}

/-- The world while `p` drives: its place, the fields it writes, and the ledger. -/
def SingleWorld.driven (w : SingleWorld) (p : Nat) (m : SingleProducerSequencer) (pc : SinglePc) (l : Ledger) :
    SequencerWorld :=
  .single { w with driver := p, sequencer := m, pc := pc, ledger := l }

theorem alone_single (h : SingleProducerSequencer.claimStep b w.unique w.sequences m pc = some (m', pc', e)) :
    Alone b p (w.driven p m pc l) (w.driven p m' pc' (e.apply p l)) := by
  refine Reach.tail .refl rfl ?_
  simp [SingleWorld.driven, SequencerWorld.step, SingleWorld.step, h]

/-- A step without a grant. -/
theorem alone_quiet (h : SingleProducerSequencer.claimStep b w.unique w.sequences m pc = some (m', pc', .none)) :
    Alone b p (w.driven p m pc l) (w.driven p m' pc' l) := alone_single h

theorem alone_singleScan : ∀ (rest : List Nat) (minimum : Int), Alone b p (w.driven p m (.scan c rest minimum) l)
    (w.driven p m (.scan c [] (getMinimumSequenceWithDefault w.sequences rest minimum)) l)
  | [], _ => .refl
  | i :: rest, minimum => Reach.trans (alone_quiet rfl) (alone_singleScan rest (lower minimum (w.sequences i)))

/-- The end of a call, with the guard dropped on the checked path. -/
theorem alone_finish (r : ClaimResult) : Alone b p (w.driven p m (SingleProducerSequencer.finish w.unique r) l)
    (w.driven p { m with claimLock := w.unique && m.claimLock } (.returned r) l) := by
  unfold SingleProducerSequencer.finish
  cases w.unique with
  | true => exact .refl
  | false => exact alone_quiet rfl

/-- A step to the end of a call. -/
theorem alone_end {r : ClaimResult} {w' : SequencerWorld} (u : SingleProducerSequencer) (e : LedgerEffect)
    (h : Alone b p w' (w.driven p m pc l))
    (hs : SingleProducerSequencer.claimStep b w.unique w.sequences m pc =
      some (u, SingleProducerSequencer.finish w.unique r, e)) :
    Alone b p w' (w.driven p { u with claimLock := w.unique && u.claimLock } (.returned r) (e.apply p l)) :=
  Reach.trans (Reach.trans h (alone_single hs)) (alone_finish r)

theorem result_driven {r : ClaimResult} : (w.driven p m (.returned r) l).result p = some r := by
  simp [SingleWorld.driven, SequencerWorld.result]

/-- The minimum over the gating set, clamped to `next_value`. -/
def SingleWorld.gatingMinimum (w : SingleWorld) : Int :=
  getMinimumSequenceWithDefault w.sequences w.sequencer.gatingSequences w.sequencer.nextValue

/-- The cached minimum does not settle the question. -/
def SingleWorld.Stale (b : BufferSize) (w : SingleWorld) (n : Int) : Prop :=
  w.sequencer.nextValue + n - b.sizeI64 > w.sequencer.cachedValue ∨ w.sequencer.cachedValue > w.sequencer.nextValue

instance (b : BufferSize) (w : SingleWorld) (n : Int) : Decidable (w.Stale b n) := inferInstanceAs (Decidable (_ ∨ _))

/-- The fields a decision depends on are those of `w`. -/
structure SingleWorld.Reads (w : SingleWorld) (m : SingleProducerSequencer) : Prop where
  nextValue : m.nextValue = w.sequencer.nextValue
  cachedValue : m.cachedValue = w.sequencer.cachedValue
  gatingSequences : m.gatingSequences = w.sequencer.gatingSequences
  closed : m.closed = w.sequencer.closed
  poisoned : m.poisoned = w.sequencer.poisoned

/-- The sequencer with the guard taken on the checked path. -/
def SingleWorld.guarded (w : SingleWorld) : SingleProducerSequencer :=
  { w.sequencer with claimLock := !w.unique || w.sequencer.claimLock }

theorem reads_guarded : w.Reads w.guarded := ⟨rfl, rfl, rfl, rfl, rfl⟩

/-- From the start of a claim to the wrap check. -/
theorem alone_toCheck (hlock : w.unique = false → w.sequencer.claimLock = false) (hclosed : w.sequencer.closed = false)
    (hpoisoned : w.sequencer.poisoned = false) :
    Alone b p (w.driven p w.sequencer (.loadClosed c) w.ledger) (w.driven p w.guarded (.check c) w.ledger) := by
  have hflags : Alone b p (w.driven p w.sequencer (.loadClosed c) w.ledger)
      (w.driven p w.sequencer (if w.unique then .check c else .acquire c) w.ledger) := by
    have hc : SingleProducerSequencer.claimStep b w.unique w.sequences w.sequencer (.loadClosed c) =
        some (w.sequencer, .loadPoisoned c, .none) := by
      simp [SingleProducerSequencer.claimStep, hclosed]
    refine Reach.trans (alone_quiet hc) (alone_quiet ?_)
    simp [SingleProducerSequencer.claimStep, hpoisoned]
  unfold SingleWorld.guarded
  cases hu : w.unique with
  | true =>
    rw [hu] at hflags
    exact hflags
  | false =>
    rw [hu] at hflags
    refine Reach.trans hflags (alone_quiet ?_)
    simp [SingleProducerSequencer.claimStep, hlock hu]

/-- `set_volatile`, then the scan over all gating sequences. -/
theorem alone_slow (hm : w.Reads m) (hc : c.isClaim = true) (hs : w.Stale b c.n) :
    Alone b p (w.driven p m (.check c) l) (w.driven p { m with cursor := m.nextValue } (.scan c [] w.gatingMinimum) l) := by
  have hcheck : Alone b p (w.driven p m (.check c) l) (w.driven p m (.setVolatile c) l) := by
    refine alone_quiet ?_
    unfold SingleWorld.Stale at hs
    cases c <;> simp only [ClaimCall.isClaim, Bool.false_eq_true] at hc <;>
      simp only [SingleProducerSequencer.claimStep, hm.nextValue, hm.cachedValue] <;> exact if_pos hs
  refine Reach.trans hcheck (Reach.trans (alone_quiet rfl) (Reach.trans (alone_quiet rfl) ?_))
  have hscan := alone_singleScan (b := b) (p := p) (w := w) (c := c) (m := { m with cursor := m.nextValue }) (l := l)
    m.gatingSequences m.nextValue
  rw [SingleWorld.gatingMinimum, ← hm.gatingSequences, ← hm.nextValue]
  exact hscan

/-- The world after a claim of `n` by `p`, with what is left in the cache and the cursor. -/
def SingleWorld.granted (w : SingleWorld) (p : Nat) (n cached cursor : Int) : SequencerWorld :=
  w.driven p { w.sequencer with nextValue := w.sequencer.nextValue + n, cachedValue := cached, cursor := cursor }
    (.returned (.ok (w.sequencer.nextValue + n))) (w.ledger.grant p n (w.sequencer.nextValue + n))

/-- What a claim of `n` leaves in the cache. -/
def SingleWorld.cacheAfter (b : BufferSize) (w : SingleWorld) (n : Int) : Int :=
  if w.Stale b n then w.gatingMinimum else w.sequencer.cachedValue

/-- What a claim of `n` leaves in the cursor: `set_volatile` writes it on the slow path. -/
def SingleWorld.cursorAfter (b : BufferSize) (w : SingleWorld) (n : Int) : Int :=
  if w.Stale b n then w.sequencer.nextValue else w.sequencer.cursor

/-- Between two calls the claim lock is what it was, whether it is taken for the call or reserved. -/
theorem released_eq (hlock : w.unique = false → w.sequencer.claimLock = false) :
    (w.unique && (!w.unique || w.sequencer.claimLock)) = w.sequencer.claimLock := by
  cases hu : w.unique with
  | true => rfl
  | false => exact (hlock hu).symm

/-- A claim is granted when the sequences let it through. -/
theorem single_granted (hlock : w.unique = false → w.sequencer.claimLock = false) (c : ClaimCall) (hc : c.isClaim = true)
    (hclosed : w.sequencer.closed = false) (hpoisoned : w.sequencer.poisoned = false)
    (ha : (SequencerWorld.single w).Accepts b c.n) :
    Alone b p (w.driven p w.sequencer (.loadClosed c) w.ledger)
      (w.granted p c.n (w.cacheAfter b c.n) (w.cursorAfter b c.n)) := by
  have hcheck := alone_toCheck (b := b) (p := p) (c := c) hlock hclosed hpoisoned
  have hrelease := released_eq hlock
  unfold SingleWorld.cacheAfter SingleWorld.cursorAfter
  by_cases hs : w.Stale b c.n
  · have hscan := Reach.trans hcheck (alone_slow reads_guarded hc hs)
    have hwrap : ¬w.sequencer.nextValue + c.n - b.sizeI64 > w.gatingMinimum := not_lt.mpr ha
    rw [if_pos hs, if_pos hs]
    have hend := alone_end (r := .ok (w.sequencer.nextValue + c.n))
      { w.guarded with
        cursor := w.sequencer.nextValue, cachedValue := w.gatingMinimum, nextValue := w.sequencer.nextValue + c.n }
      (.grant c.n (w.sequencer.nextValue + c.n)) hscan (by
        cases c <;> simp only [ClaimCall.isClaim, Bool.false_eq_true] at hc <;> exact if_neg hwrap)
    simpa only [SingleWorld.granted, SingleWorld.guarded, hrelease, LedgerEffect.apply] using hend
  · rw [if_neg hs, if_neg hs]
    have hend := alone_end (r := .ok (w.sequencer.nextValue + c.n))
      { w.guarded with nextValue := w.sequencer.nextValue + c.n } (.grant c.n (w.sequencer.nextValue + c.n)) hcheck (by
        cases c <;> simp only [ClaimCall.isClaim, Bool.false_eq_true] at hc <;> exact if_neg hs)
    simpa only [SingleWorld.granted, SingleWorld.guarded, hrelease, LedgerEffect.apply] using hend

/-- `try_next_n` fails when the sequences do not let it through. The minimum it has read stays in the cache, and `next_value`
stays in the cursor. -/
theorem single_refused (h : Below w.sequences w.sequencer.gatingSequences w.sequencer.cachedValue)
    (hlock : w.unique = false → w.sequencer.claimLock = false) (hclosed : w.sequencer.closed = false)
    (hpoisoned : w.sequencer.poisoned = false) (ha : ¬(SequencerWorld.single w).Accepts b n) :
    Alone b p (w.driven p w.sequencer (.loadClosed (.tryNextN n)) w.ledger)
      (w.driven p { w.sequencer with cursor := w.sequencer.nextValue, cachedValue := w.gatingMinimum } (.returned .none)
        w.ledger) := by
  have hs : w.Stale b n := by
    by_contra hs
    exact ha (accepts_of_cached h hs)
  have hscan := Reach.trans (alone_toCheck (b := b) (p := p) (c := .tryNextN n) hlock hclosed hpoisoned)
    (alone_slow reads_guarded rfl hs)
  have hwrap : w.sequencer.nextValue + n - b.sizeI64 > w.gatingMinimum := not_le.mp ha
  have hend := alone_end (r := .none)
    { w.guarded with cursor := w.sequencer.nextValue, cachedValue := w.gatingMinimum } .none hscan (if_pos hwrap)
  simpa only [SingleWorld.guarded, released_eq hlock, LedgerEffect.apply] using hend

/-- The decision of `try_next_n`. -/
theorem single_try (h : SingleCache w) (hrest : w.atRest = true) (hclosed : w.sequencer.closed = false)
    (hpoisoned : w.sequencer.poisoned = false) :
    ∃ w', Alone b p (w.driven p w.sequencer (.loadClosed (.tryNextN n)) w.ledger) w' ∧ w'.result p =
      some (if (SequencerWorld.single w).Accepts b n then .ok (w.sequencer.nextValue + n) else .none) := by
  have hlock := fun hu => h.lock hu (unguarded_of_atRest hrest)
  by_cases ha : (SequencerWorld.single w).Accepts b n
  · rw [if_pos ha]
    exact ⟨_, single_granted hlock (.tryNextN n) rfl hclosed hpoisoned ha, result_driven⟩
  · rw [if_neg ha]
    exact ⟨_, single_refused h.cached hlock hclosed hpoisoned ha, result_driven⟩

/-- `next_n` claims at once when the sequences let it through. -/
theorem single_next (h : SingleCache w) (hrest : w.atRest = true) (hclosed : w.sequencer.closed = false)
    (hpoisoned : w.sequencer.poisoned = false) (ha : (SequencerWorld.single w).Accepts b n) :
    ∃ w', Alone b p (w.driven p w.sequencer (.loadClosed (.nextN n)) w.ledger) w' ∧
      w'.result p = some (.ok (w.sequencer.nextValue + n)) := by
  have hlock := fun hu => h.lock hu (unguarded_of_atRest hrest)
  exact ⟨_, single_granted hlock (.nextN n) rfl hclosed hpoisoned ha, result_driven⟩

/-- The decision of `has_available_capacity`, on the checked path. -/
theorem single_capacity (h : SingleCache w) (hrest : w.atRest = true) (hu : w.unique = false) {k : Nat}
    (hk : (k : Int) ≤ i64Max) :
    ∃ w', Alone b p (w.driven p w.sequencer (.acquire (.hasAvailableCapacity k)) w.ledger) w' ∧
      w'.result p = some (.bool (decide ((SequencerWorld.single w).Accepts b k))) := by
  have hmax : ¬(k : Int) > i64Max := not_lt.mpr hk
  have hcheck : Alone b p (w.driven p w.sequencer (.acquire (.hasAvailableCapacity k)) w.ledger)
      (w.driven p { w.sequencer with claimLock := true } (.check (.hasAvailableCapacity k)) w.ledger) := by
    refine alone_quiet ?_
    simp [SingleProducerSequencer.claimStep, h.lock hu (unguarded_of_atRest hrest)]
  by_cases hs : w.Stale b k
  · have hload : SingleProducerSequencer.claimStep b w.unique w.sequences { w.sequencer with claimLock := true }
        (.check (.hasAvailableCapacity k)) =
        some ({ w.sequencer with claimLock := true }, .loadGating (.hasAvailableCapacity k), .none) := by
      unfold SingleProducerSequencer.claimStep
      simp only [if_neg hmax]
      exact if_pos hs
    have hscan := Reach.trans hcheck (Reach.trans (alone_quiet hload) (Reach.trans (alone_quiet rfl)
      (alone_singleScan (b := b) (p := p) (w := w) (c := .hasAvailableCapacity k)
        (m := { w.sequencer with claimLock := true }) (l := w.ledger) w.sequencer.gatingSequences w.sequencer.nextValue)))
    refine ⟨_, alone_end (r := .bool (decide ((SequencerWorld.single w).Accepts b k)))
      { w.sequencer with claimLock := true, cachedValue := w.gatingMinimum } .none hscan ?_, result_driven⟩
    simp only [SingleProducerSequencer.claimStep, gt_iff_lt, not_lt]
    rfl
  · have ha : (SequencerWorld.single w).Accepts b k := accepts_of_cached h.cached hs
    refine ⟨_, alone_end (r := .bool (decide ((SequencerWorld.single w).Accepts b k)))
      { w.sequencer with claimLock := true } .none hcheck ?_, result_driven⟩
    unfold SingleProducerSequencer.claimStep
    simp only [if_neg hmax, decide_eq_true ha]
    exact if_neg hs

/-- The places of a `next_n` that waits, and the claim lock before it is taken. -/
def SinglePc.Waits (w : SingleWorld) (m : SingleProducerSequencer) (n : Int) : SinglePc → Prop
  | .loadClosed c | .loadPoisoned c => c = .nextN n ∧ (w.unique = false → m.claimLock = false)
  | .acquire c => c = .nextN n ∧ m.claimLock = false
  | .check c | .setVolatile c | .loadGating c | .spinClosed c | .spinPoisoned c => c = .nextN n
  | .scan c rest minimum => c = .nextN n ∧ getMinimumSequenceWithDefault w.sequences rest minimum = w.gatingMinimum
  | _ => False

/-- `next_n` stays in its loop when the sequences do not let it through. -/
theorem waits_singleStep (h : SingleCache w) (hclosed : w.sequencer.closed = false)
    (hpoisoned : w.sequencer.poisoned = false) (ha : ¬(SequencerWorld.single w).Accepts b n) (hm : w.Reads m)
    (hpc : pc.Waits w m n) (hst : SingleProducerSequencer.claimStep b w.unique w.sequences m pc = some (m', pc', e)) :
    w.Reads m' ∧ e = .none ∧ pc'.Waits w m' n := by
  cases singleRule_of_claimStep hst with
  | closed hc | spinShutdown hc =>
    rw [hm.closed, hclosed] at hc
    cases hc
  | poisoned hp | spinPoisoned hp =>
    rw [hm.poisoned, hpoisoned] at hp
    cases hp
  | notClosed | spinNotClosed | spin => exact ⟨hm, rfl, hpc⟩
  | toCheck => exact ⟨hm, rfl, hpc.1⟩
  | toAcquire _ hu => exact ⟨hm, rfl, hpc.1, hpc.2 hu⟩
  | contended hl =>
    rw [hpc.2] at hl
    cases hl
  | acquire => exact ⟨⟨hm.nextValue, hm.cachedValue, hm.gatingSequences, hm.closed, hm.poisoned⟩, rfl, hpc.1⟩
  | remaining | overflow | askGating | askCached => cases hpc
  | stale => exact ⟨hm, rfl, hpc⟩
  | grantCached hc hfresh =>
    -- a minimum in the cache is one the sequences have reached
    obtain rfl : _ = ClaimCall.nextN n := hpc
    rw [hm.nextValue, hm.cachedValue] at hfresh
    exact absurd (accepts_of_cached h.cached hfresh) ha
  | setVolatile => exact ⟨⟨hm.nextValue, hm.cachedValue, hm.gatingSequences, hm.closed, hm.poisoned⟩, rfl, hpc⟩
  | loadGating => exact ⟨hm, rfl, hpc, by rw [hm.gatingSequences, hm.nextValue]; rfl⟩
  | scan => exact ⟨hm, rfl, hpc⟩
  | answerRemaining | answerAvailable | tryFull => cases hpc.1
  | full => exact ⟨hm, rfl, hpc.1⟩
  | @grantScanned _ minimum _ hfits =>
    obtain ⟨rfl, hmin⟩ := hpc
    rw [hm.nextValue, show minimum = w.gatingMinimum from hmin] at hfits
    exact absurd hfits ha
  | release | publish => exact hpc.elim

/-- `next_n` waits as long as the sequences do not let it through. -/
theorem single_waits (h : SingleCache w) (hrest : w.atRest = true) (hclosed : w.sequencer.closed = false)
    (hpoisoned : w.sequencer.poisoned = false) (ha : ¬(SequencerWorld.single w).Accepts b n) {w' : SequencerWorld}
    (hr : Alone b p (w.driven p w.sequencer (.loadClosed (.nextN n)) w.ledger) w') : w'.result p = none := by
  have hinv : ∃ m pc, w' = w.driven p m pc w.ledger ∧ w.Reads m ∧ pc.Waits w m n := by
    refine Reach.inv (I := fun w' => ∃ m pc, w' = w.driven p m pc w.ledger ∧ w.Reads m ∧ pc.Waits w m n)
      ⟨w.sequencer, .loadClosed (.nextN n), rfl, ⟨rfl, rfl, rfl, rfl, rfl⟩, rfl, fun hu => ?_⟩ ?_ hr
    · exact h.lock hu (unguarded_of_atRest hrest)
    · rintro s s' a ⟨m, pc, rfl, hm, hpc⟩ rfl hs
      simp only [SingleWorld.driven, SequencerWorld.step, SingleWorld.step, if_true, Option.map_eq_some_iff] at hs
      obtain ⟨w₁, ⟨⟨m', pc', e⟩, hst, rfl⟩, rfl⟩ := hs
      obtain ⟨hm', rfl, hpc'⟩ := waits_singleStep h hclosed hpoisoned ha hm hpc hst
      exact ⟨m', pc', rfl, hm', hpc'⟩
  obtain ⟨m, pc, rfl, -, hpc⟩ := hinv
  cases pc <;> first | exact hpc.elim | rfl

end SingleDecision

/-! ## Both sequencers -/

/-- The invariant of either sequencer. -/
def SequencerWorld.Cached : SequencerWorld → Prop
  | single w => SingleCache w
  | multi w => MultiCache w

theorem cached_init {multiProducer unique : Bool} {gating : List Nat} :
    (SequencerWorld.init b multiProducer unique gating).Cached := by
  cases multiProducer
  · exact singleCache_init
  · exact multiCache_init

theorem cached_step {w w' : SequencerWorld} {a : SequencerAction} (h : w.Cached)
    (ha : a.registers = false) (hs : w.step b a = some w') : w'.Cached := by
  cases w with
  | single w =>
    simp only [SequencerWorld.step, Option.map_eq_some_iff] at hs
    obtain ⟨w₁, hs, rfl⟩ := hs
    exact singleCache_step h ha hs
  | multi w =>
    simp only [SequencerWorld.step, Option.map_eq_some_iff] at hs
    obtain ⟨w₁, hs, rfl⟩ := hs
    exact multiCache_step h ha hs

/-- **The cached minimum never changes a decision.** In every state that claims, publications, consumers and removals reach
from a fresh sequencer with its gating sequences, a call that nobody disturbs decides as a freshly computed minimum does. -/
theorem cached_minimum_decides (b : BufferSize) (multiProducer unique : Bool) (gating : List Nat) (w : SequencerWorld)
    (h : Reach (SequencerWorld.step b) (fun _ a => a.registers = false)
      (SequencerWorld.init b multiProducer unique gating) w)
    (p n : Nat) (h1 : 1 ≤ n) (hn : n ≤ b.size) :
    (w.closed = false → w.poisoned = false → ∀ w₀, w.step b (.call p (.tryNextN n)) = some w₀ →
      ∃ w', Alone b p w₀ w' ∧ w'.result p = some (if w.Accepts b n then .ok (w.high + n) else .none)) ∧
    (w.closed = false → w.poisoned = false → ∀ w₀, w.step b (.call p (.nextN n)) = some w₀ →
      (w.Accepts b n → ∃ w', Alone b p w₀ w' ∧ w'.result p = some (.ok (w.high + n))) ∧
      (¬w.Accepts b n → ∀ w', Alone b p w₀ w' → w'.result p = none)) ∧
    (w.capability = false → ∀ w₀, w.step b (.call p (.hasAvailableCapacity n)) = some w₀ →
      ∃ w', Alone b p w₀ w' ∧ w'.result p = some (.bool (decide (w.Accepts b n)))) := by
  have hsize : (n : Int) ≤ b.sizeI64 := by
    unfold BufferSize.sizeI64
    exact_mod_cast hn
  have hvalid : ¬((n : Int) < 1 ∨ (n : Int) > b.sizeI64) := by omega
  have hinv : w.Cached := Reach.inv cached_init (fun hs ha he => cached_step hs ha he) h
  cases w with
  | single w =>
    refine ⟨fun hc hp w₀ hs => ?_, fun hc hp w₀ hs => ?_, fun hu w₀ hs => ?_⟩ <;>
      simp only [SequencerWorld.step, SingleWorld.step, SingleProducerSequencer.claimStart, if_neg hvalid,
        Option.map_eq_some_iff, Option.ite_none_right_eq_some, Option.some.injEq] at hs <;>
      obtain ⟨w₁, ⟨hrest, rfl⟩, rfl⟩ := hs
    · exact single_try hinv hrest hc hp
    · exact ⟨single_next hinv hrest hc hp, fun ha w' => single_waits hinv hrest hc hp ha⟩
    · exact single_capacity hinv hrest hu (le_trans hsize b.sizeI64_le)
  | multi w =>
    refine ⟨fun hc hp w₀ hs => ?_, fun hc hp w₀ hs => ?_, fun hu w₀ hs => ?_⟩ <;>
      simp only [SequencerWorld.step, MultiWorld.step, claimStart, if_neg hvalid,
        Option.map_eq_some_iff, Option.ite_none_right_eq_some, Option.some.injEq] at hs <;>
      obtain ⟨w₁, ⟨hrest, rfl⟩, rfl⟩ := hs
    · exact multi_try hinv hc hp
    · exact ⟨multi_next hc hp, fun ha w' => multi_waits hinv hc hp ha⟩
    · exact multi_capacity hinv (le_trans hsize b.sizeI64_le)

/-- A ring of two slots is full and its consumer has not moved: a second producer is refused. -/
theorem cached_minimum_decides_full :
    ∃ w : SequencerWorld, w.high = 1 ∧ ¬w.Accepts ⟨1, by decide⟩ 1 ∧ w.closed = false ∧ w.poisoned = false ∧
      (w.closed = false → w.poisoned = false → ∀ w₀, w.step ⟨1, by decide⟩ (.call 1 (.tryNextN 1)) = some w₀ →
        ∃ w', Alone ⟨1, by decide⟩ 1 w₀ w' ∧
          w'.result 1 = some (if w.Accepts ⟨1, by decide⟩ 1 then .ok (w.high + 1) else .none)) := by
  have hrun := @reach_of_exec _ _ (SequencerWorld.step ⟨1, by decide⟩) (fun _ a => a.registers = false) inferInstance
    (.call 0 (.tryNextN 2) :: List.replicate 6 (.step 0)) (SequencerWorld.init ⟨1, by decide⟩ true false [0]) _ rfl
  exact ⟨_, rfl, by decide, rfl, rfl,
    (cached_minimum_decides ⟨1, by decide⟩ true false [0] _ hrun 1 1 (by decide) (by decide)).1⟩

end BadBatch
