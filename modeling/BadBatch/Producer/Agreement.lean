import BadBatch.Producer.TryPublish

/-!
# Blocking and non-blocking publications

The blocking publications learn from the sequencer why a claim is refused, and the sequencer looks at `closed` first. The
non-blocking ones learn that there is no claim, and look at the flags themselves, at `poisoned` first. Everything else is the
same code after the same claim.

* `terminal_next`, `terminal_try`: a claim on a sequencer that is closed or poisoned;
* `publishEvent`, `tryPublishEvent`: the publications of the DSL, inside their claim guard;
* `publications_agree`: both kinds agree unless both flags are set.
-/

namespace BadBatch

open MultiProducerSequencer StepSys SequencerWorld

variable {E : Type}

/-! ## A terminal sequencer -/

/-- `w` with producer `p` back from a call that returned `r`; nothing else has changed. -/
def SequencerWorld.after (p : Nat) (r : ClaimResult) : SequencerWorld → SequencerWorld
  | single w => w.driven p w.sequencer (.returned r) w.ledger
  | multi w => multi (w.goto p (.returned r))

/-- The sequencer is closed or poisoned. -/
def SequencerWorld.Terminal (w : SequencerWorld) : Prop := w.closed = true ∨ w.poisoned = true

/-- What `next_n` reports then. -/
def SequencerWorld.claimStateError (w : SequencerWorld) : DisruptorError := if w.closed then .shutdown else .poisoned

section Terminal

variable {b : BufferSize} {p : Nat} {w : SequencerWorld} {c : ClaimCall} {n : Int}

theorem after_closed {r : ClaimResult} : (w.after p r).closed = w.closed := by cases w <;> rfl

theorem after_poisoned {r : ClaimResult} : (w.after p r).poisoned = w.poisoned := by cases w <;> rfl

/-- The flags come before anything else. -/
theorem alone_terminal_single {w : SingleWorld} (h : (SequencerWorld.single w).Terminal) :
    Alone b p (w.driven p w.sequencer (.loadClosed c) w.ledger)
      (w.driven p w.sequencer (.returned (claimRefused (SequencerWorld.single w).claimStateError c)) w.ledger) := by
  unfold SequencerWorld.claimStateError
  cases hc : w.sequencer.closed with
  | true =>
    refine alone_quiet ?_
    simp [SingleProducerSequencer.claimStep, SequencerWorld.closed, hc]
  | false =>
    have hp : w.sequencer.poisoned = true := h.resolve_left (by simp [SequencerWorld.closed, hc])
    have hload : SingleProducerSequencer.claimStep b w.unique w.sequences w.sequencer (.loadClosed c) =
        some (w.sequencer, .loadPoisoned c, .none) := by
      simp [SingleProducerSequencer.claimStep, hc]
    refine Reach.trans (alone_quiet hload) (alone_quiet ?_)
    simp [SingleProducerSequencer.claimStep, SequencerWorld.closed, hc, hp]

theorem alone_terminal_multi {w : MultiWorld} (h : (SequencerWorld.multi w).Terminal) :
    Alone b p (.multi (w.goto p (.loadClosed c)))
      (.multi (w.goto p (.returned (claimRefused (SequencerWorld.multi w).claimStateError c)))) := by
  unfold SequencerWorld.claimStateError
  cases hc : w.sequencer.closed with
  | true =>
    refine alone_load ?_
    simp [claimStep, SequencerWorld.closed, hc]
  | false =>
    have hp : w.sequencer.poisoned = true := h.resolve_left (by simp [SequencerWorld.closed, hc])
    have hload : claimStep b w.sequences w.sequencer (.loadClosed c) = some (w.sequencer, .loadPoisoned c, .none) := by
      simp [claimStep, hc]
    refine Reach.trans (alone_load hload) (alone_load ?_)
    simp [claimStep, SequencerWorld.closed, hc, hp]

/-- Either claim on a terminal sequencer. -/
theorem terminal_claim (h : w.Terminal) (hrest : w.atRest p = true) (h1 : 1 ≤ n) (hn : n ≤ b.sizeI64)
    (hc : c = .nextN n ∨ c = .tryNextN n) : ∃ k, ∀ fuel, k ≤ fuel →
      SimpleProducer.invoke b p fuel w (.call p c) =
        some (claimRefused w.claimStateError c, w.after p (claimRefused w.claimStateError c)) := by
  have hvalid : ¬(n < 1 ∨ n > b.sizeI64) := by omega
  cases w with
  | single w =>
    have hrest : w.atRest = true := hrest
    have hcall : (SequencerWorld.single w).step b (.call p c) = some (w.driven p w.sequencer (.loadClosed c) w.ledger) := by
      rcases hc with rfl | rfl <;>
        simp [SequencerWorld.step, SingleWorld.step, hrest, SingleProducerSequencer.claimStart, hvalid, SingleWorld.driven]
    exact invoke_of_alone hcall (alone_terminal_single h) result_driven
  | multi w =>
    have hrest : w.atRest p = true := hrest
    have hcall : (SequencerWorld.multi w).step b (.call p c) = some (.multi (w.goto p (.loadClosed c))) := by
      rcases hc with rfl | rfl <;> simp [SequencerWorld.step, MultiWorld.step, hrest, claimStart, hvalid]
    exact invoke_of_alone hcall (alone_terminal_multi h) result_goto

/-- The question after a refused claim changes nothing. -/
theorem asks_remaining (hready : w.Ready b) (hrest : w.atRest p = true) (r : ClaimResult) : ∃ k, ∀ fuel, k ≤ fuel →
    SimpleProducer.invoke b p fuel (w.after p r) (.call p .remainingCapacity) =
      some (.capacity (w.freeSlots b), w.after p (.capacity (w.freeSlots b))) := by
  cases w with
  | single w =>
    exact invoke_of_alone (call_driven .remainingCapacity) (single_remaining fun hu => hready hu (unguarded_of_atRest hrest))
      result_driven
  | multi w => exact invoke_of_alone (call_goto .remainingCapacity) multi_remaining result_goto

/-- `next_n` on a terminal sequencer. -/
theorem terminal_next (h : w.Terminal) (hrest : w.atRest p = true) (h1 : 1 ≤ n) (hn : n ≤ b.sizeI64) : ∃ k, ∀ fuel, k ≤ fuel →
    SimpleProducer.invoke b p fuel w (.call p (.nextN n)) =
      some (.err w.claimStateError, w.after p (.err w.claimStateError)) :=
  terminal_claim h hrest h1 hn (.inl rfl)

/-- `try_next_n` on a terminal sequencer, and the question after it. -/
theorem terminal_try (h : w.Terminal) (hready : w.Ready b) (hrest : w.atRest p = true) (h1 : 1 ≤ n) (hn : n ≤ b.sizeI64) :
    ∃ k, ∀ fuel, k ≤ fuel →
      SimpleProducer.invoke b p fuel w (.call p (.tryNextN n)) = some (.none, w.after p .none) ∧
      SimpleProducer.invoke b p fuel (w.after p .none) (.call p .remainingCapacity) =
        some (.capacity (w.freeSlots b), w.after p (.capacity (w.freeSlots b))) := by
  obtain ⟨k, hk⟩ := terminal_claim (b := b) (c := .tryNextN n) h hrest h1 hn (.inr rfl)
  obtain ⟨k', hk'⟩ := asks_remaining (b := b) hready hrest .none
  exact ⟨max k k', fun fuel hfuel => ⟨hk fuel (by omega), hk' fuel (by omega)⟩⟩

/-- The flags win over backpressure, `poisoned` over `closed`. -/
theorem classifyTryRejection_terminal (h : w.Terminal) (r : ClaimResult) (fallback : TryPublishError) :
    SimpleProducer.classifyTryRejection (w.after p r) fallback = if w.poisoned then .poisoned else .shutdown := by
  unfold SimpleProducer.classifyTryRejection
  rw [after_closed, after_poisoned]
  split
  · rfl
  · rw [if_pos (h.resolve_right ‹_›)]

end Terminal

/-! ## The producer -/

/-- Both errors say that the pipeline has been shut down, or both that it has been poisoned. -/
def SameClass (e : DisruptorError) (e' : TryPublishError) : Prop :=
  (e = .shutdown ∧ e' = .shutdown) ∨ (e = .poisoned ∧ e' = .poisoned)

/-- A blocking and a non-blocking publication have the same outcome in the state `w`: without a terminal flag the same
sequence and the same state, with one the same class of error and no change; the ring is passed through and no closure shows
in the result. -/
structure Agree {U : Type} (p : Nat)
    (blocking : U → SimpleProducer E → Nat → Option (Except DisruptorError Int × SimpleProducer E))
    (trying : U → SimpleProducer E → Nat → Option (Except TryPublishError Int × SimpleProducer E)) (w : SequencerWorld)
    (ring : Nat → E) : Prop where
  granted : ¬w.Terminal → ∀ update, ∃ sequence st', Returns (blocking update ⟨w, ring⟩) (.ok sequence) st' ∧
    Returns (trying update ⟨w, ring⟩) (.ok sequence) st'
  refused : w.Terminal → ∃ e e' r r', SameClass e e' ∧ ∀ update,
    Returns (blocking update ⟨w, ring⟩) (.error e) ⟨w.after p r, ring⟩ ∧
    Returns (trying update ⟨w, ring⟩) (.error e') ⟨w.after p r', ring⟩

/-- `batch_publish` -/
def batchCall (b : BufferSize) (p n : Nat) (update : BatchIterMut → (Nat → E) → Nat → E) (st : SimpleProducer E)
    (fuel : Nat) : Option (Except DisruptorError Int × SimpleProducer E) :=
  SimpleProducer.batchPublish b p fuel n update st

/-- `publish` -/
def publishCall (b : BufferSize) (p : Nat) (update : E → E) (st : SimpleProducer E) (fuel : Nat) :
    Option (Except DisruptorError Int × SimpleProducer E) :=
  SimpleProducer.publish b p fuel update st

section Producer

variable {b : BufferSize} {p n : Nat} {w : SequencerWorld} {ring : Nat → E}

theorem sameClass_iff (h : w.Terminal) :
    SameClass w.claimStateError (if w.poisoned then .poisoned else .shutdown) ↔ ¬(w.closed = true ∧ w.poisoned = true) := by
  unfold SequencerWorld.Terminal at h
  unfold SameClass SequencerWorld.claimStateError
  cases hc : w.closed <;> cases hp : w.poisoned <;> simp_all

/-- The two orders of the flags decide. -/
theorem agree_iff {U : Type} [Inhabited U]
    {blocking : U → SimpleProducer E → Nat → Option (Except DisruptorError Int × SimpleProducer E)}
    {trying : U → SimpleProducer E → Nat → Option (Except TryPublishError Int × SimpleProducer E)}
    (hok : ¬w.Terminal → ∀ update, ∃ sequence st', Returns (blocking update ⟨w, ring⟩) (.ok sequence) st' ∧
      Returns (trying update ⟨w, ring⟩) (.ok sequence) st')
    (hno : w.Terminal → ∃ r r', ∀ update,
      Returns (blocking update ⟨w, ring⟩) (.error w.claimStateError) ⟨w.after p r, ring⟩ ∧
      Returns (trying update ⟨w, ring⟩) (.error (if w.poisoned then .poisoned else .shutdown)) ⟨w.after p r', ring⟩) :
    Agree p blocking trying w ring ↔ ¬(w.closed = true ∧ w.poisoned = true) := by
  constructor
  · rintro hagree ⟨hc, hp⟩
    have hterm : w.Terminal := .inl hc
    obtain ⟨e, e', r, r', hclass, hreturns⟩ := hagree.refused hterm
    obtain ⟨s, s', hactual⟩ := hno hterm
    obtain ⟨he, -⟩ := (hreturns default).1.unique (hactual default).1
    obtain ⟨he', -⟩ := (hreturns default).2.unique (hactual default).2
    rw [Except.error.inj he, Except.error.inj he'] at hclass
    exact (sameClass_iff hterm).mp hclass ⟨hc, hp⟩
  · intro hflags
    refine ⟨hok, fun hterm => ?_⟩
    obtain ⟨r, r', hreturns⟩ := hno hterm
    exact ⟨_, _, r, r', (sameClass_iff hterm).mpr hflags, hreturns⟩

theorem HasRoom.of_not_terminal (hready : w.Ready b) (hrest : w.atRest p = true) (h : ¬w.Terminal)
    {n : Int} (hroom : w.Terminal ∨ n ≤ w.freeSlots b) : HasRoom b p w n := by
  unfold SequencerWorld.Terminal at h
  push Not at h
  exact ⟨hready, hrest, Bool.eq_false_of_not_eq_true h.1, Bool.eq_false_of_not_eq_true h.2,
    accepts_iff.mpr (hroom.resolve_left fun ht => ht.elim h.1 h.2)⟩

/-- `batch_publish` and `try_batch_publish`. -/
theorem batch_agree (hready : w.Ready b) (hrest : w.atRest p = true) (h1 : 1 ≤ n) (hn : n ≤ b.size)
    (hroom : w.Terminal ∨ (n : Int) ≤ w.freeSlots b) :
    Agree p (batchCall b p n) (tryBatchCall b p n) w ring ↔ ¬(w.closed = true ∧ w.poisoned = true) := by
  have : Inhabited (BatchIterMut → (Nat → E) → Nat → E) := ⟨fun _ ring => ring⟩
  have hvalid : ¬(n = 0 ∨ n > b.size) := by omega
  refine agree_iff (fun hterm update => ?_) fun hterm => ?_
  · obtain ⟨w', k, -, hk⟩ := batch_ok update ring (.of_not_terminal hready hrest hterm hroom) h1 hn
    exact ⟨_, _, ⟨k, fun fuel hfuel => (hk fuel hfuel).1⟩, k, fun fuel hfuel => (hk fuel hfuel).2⟩
  · obtain ⟨k, hk⟩ := terminal_next (b := b) (n := n) hterm hrest (by omega) (Int.ofNat_le.mpr hn)
    obtain ⟨k', hk'⟩ := terminal_try (b := b) (n := n) hterm hready hrest (by omega) (Int.ofNat_le.mpr hn)
    refine ⟨.err w.claimStateError, .capacity (w.freeSlots b), fun update => ⟨⟨k, fun fuel hfuel => ?_⟩, k',
      fun fuel hfuel => ?_⟩⟩
    · simp only [batchCall, SimpleProducer.batchPublish, if_neg hvalid, hk fuel hfuel, Option.bind_some]
    · obtain ⟨hclaim, hcapacity⟩ := hk' fuel hfuel
      simp only [tryBatchCall, SimpleProducer.tryBatchPublish, if_neg hvalid, hclaim, hcapacity, Option.bind_some,
        classifyTryRejection_terminal hterm]

/-- `publish` and `try_publish`. -/
theorem publish_agree (hready : w.Ready b) (hrest : w.atRest p = true) (hroom : w.Terminal ∨ 1 ≤ w.freeSlots b) :
    Agree p (publishCall b p) (tryCall b p) w ring ↔ ¬(w.closed = true ∧ w.poisoned = true) := by
  have : Inhabited (E → E) := ⟨id⟩
  refine agree_iff (fun hterm update => ?_) fun hterm => ?_
  · obtain ⟨w', k, -, hk⟩ := publish_ok update ring (.of_not_terminal hready hrest hterm hroom)
    exact ⟨_, _, ⟨k, fun fuel hfuel => (hk fuel hfuel).1⟩, k, fun fuel hfuel => (hk fuel hfuel).2⟩
  · obtain ⟨k, hk⟩ := terminal_next (b := b) hterm hrest le_rfl b.sizeI64_pos
    obtain ⟨k', hk'⟩ := terminal_try (b := b) hterm hready hrest le_rfl b.sizeI64_pos
    refine ⟨.err w.claimStateError, .capacity (w.freeSlots b), fun update => ⟨⟨k, fun fuel hfuel => ?_⟩, k',
      fun fuel hfuel => ?_⟩⟩
    · simp only [publishCall, SimpleProducer.publish, hk fuel hfuel, Option.bind_some]
    · obtain ⟨hclaim, hcapacity⟩ := hk' fuel hfuel
      simp only [tryCall, SimpleProducer.tryPublish, hclaim, hcapacity, Option.bind_some, classifyTryRejection_terminal hterm]

end Producer

/-! ## The DSL -/

/-- Why `publish_event` fails. -/
inductive PublishEventError
  | reentrantPublish
  | claim (e : DisruptorError)
  deriving DecidableEq, Repr

/-- A `Disruptor` and a thread that publishes to it: the sequencer and the ring, `single_publish_lock`, and
`DSL_SINGLE_CLAIM_HELD` of the thread. -/
structure DslPublisher (E : Type) where
  producer : SimpleProducer E
  singlePublishLock : Bool
  dslSingleClaimHeld : Bool

namespace DslPublisher

variable (b : BufferSize) (p fuel : Nat)

/-- `claim_guard`, and the state with the guard. The lock that another thread holds is waited for. -/
def claimGuard (st : DslPublisher E) : Option (Except PublishEventError (DslPublisher E)) :=
  if st.producer.world.isMulti then some (.ok st)
  else if st.dslSingleClaimHeld then some (.error .reentrantPublish)
  else if st.singlePublishLock then none
  else some (.ok { st with singlePublishLock := true, dslSingleClaimHeld := true })

/-- The guard is dropped at the end of the call. -/
def dropGuard (st : DslPublisher E) : DslPublisher E :=
  if st.producer.world.isMulti then st else { st with singlePublishLock := false, dslSingleClaimHeld := false }

def publishEvent (translator : E → Int → E) (st : DslPublisher E) :
    Option (Except PublishEventError Unit × DslPublisher E) :=
  st.claimGuard.bind fun guard =>
    match guard with
    | .error e => some (.error e, st)
    | .ok st =>
      (SimpleProducer.invoke b p fuel st.producer.world (.call p (.nextN 1))).bind fun (claim, w) =>
        match claim with
        | .ok sequence =>
          let i := calculateIndex b sequence
          let ring := Function.update st.producer.ring i (translator (st.producer.ring i) sequence)
          (SimpleProducer.invoke b p fuel w (.publish p sequence)).map fun (_, w) =>
            (.ok (), { st with producer := ⟨w, ring⟩ }.dropGuard)
        | .err e => some (.error (.claim e), { st with producer := ⟨w, st.producer.ring⟩ }.dropGuard)
        | _ => none

def tryPublishEvent (translator : E → Int → E) (st : DslPublisher E) :
    Option (Except TryPublishError Int × DslPublisher E) :=
  st.claimGuard.bind fun guard =>
    match guard with
    | .error .reentrantPublish => some (.error .reentrantPublish, st)
    | .error _ => some (.error .shutdown, st)
    | .ok st =>
      (SimpleProducer.invoke b p fuel st.producer.world (.call p (.tryNextN 1))).bind fun (claim, w) =>
        match claim with
        | .ok sequence =>
          let i := calculateIndex b sequence
          let ring := Function.update st.producer.ring i (translator (st.producer.ring i) sequence)
          (SimpleProducer.invoke b p fuel w (.publish p sequence)).map fun (_, w) =>
            (.ok sequence, { st with producer := ⟨w, ring⟩ }.dropGuard)
        | .none =>
          (SimpleProducer.invoke b p fuel w (.call p .remainingCapacity)).bind fun (capacity, w) =>
            match capacity with
            | .capacity remaining =>
              let transient := if remaining > 0 then TryPublishError.contended else .full
              let error := if w.poisoned then .poisoned else if w.closed then .shutdown else transient
              some (.error error, { st with producer := ⟨w, st.producer.ring⟩ }.dropGuard)
            | _ => none
        | _ => none

/-- The thread gets the claim guard without waiting. -/
def Enters (st : DslPublisher E) : Prop :=
  st.producer.world.isMulti = false → st.singlePublishLock = false ∧ st.dslSingleClaimHeld = false

end DslPublisher

/-- `publish_event` and `try_publish_event` have the same outcome. Only the second one returns the sequence. -/
structure EventAgree (b : BufferSize) (p : Nat) (st : DslPublisher E) : Prop where
  granted : ¬st.producer.world.Terminal → ∀ translator, ∃ sequence st',
    Returns (fun fuel => st.publishEvent b p fuel translator) (.ok ()) st' ∧
    Returns (fun fuel => st.tryPublishEvent b p fuel translator) (.ok sequence) st'
  refused : st.producer.world.Terminal → ∃ e e' r r', SameClass e e' ∧ ∀ translator,
    Returns (fun fuel => st.publishEvent b p fuel translator) (.error (.claim e))
      { st with producer := ⟨st.producer.world.after p r, st.producer.ring⟩ } ∧
    Returns (fun fuel => st.tryPublishEvent b p fuel translator) (.error e')
      { st with producer := ⟨st.producer.world.after p r', st.producer.ring⟩ }

section Dsl

variable {b : BufferSize} {p : Nat} {st : DslPublisher E}

/-- The guard is taken for the call, and put back. -/
theorem claimGuard_ok (h : st.Enters) : ∃ g : DslPublisher E, st.claimGuard = some (.ok g) ∧ g.producer = st.producer ∧
    ∀ producer : SimpleProducer E, producer.world.isMulti = st.producer.world.isMulti →
      ({ g with producer } : DslPublisher E).dropGuard = { st with producer } := by
  obtain ⟨producer, lock, held⟩ := st
  cases hkind : producer.world.isMulti with
  | true =>
    refine ⟨⟨producer, lock, held⟩, if_pos hkind, rfl, fun producer' he => ?_⟩
    exact if_pos he
  | false =>
    obtain ⟨rfl, rfl⟩ : lock = false ∧ held = false := h hkind
    refine ⟨⟨producer, true, true⟩, by simp [DslPublisher.claimGuard, hkind], rfl, fun producer' he => ?_⟩
    exact if_neg (Bool.eq_false_iff.mp he)

theorem after_isMulti {w : SequencerWorld} {r : ClaimResult} : (w.after p r).isMulti = w.isMulti := by cases w <;> rfl

theorem publishEvent_ok (henters : st.Enters) (h : HasRoom b p st.producer.world 1) (translator : E → Int → E) :
    ∃ sequence st', Returns (fun fuel => st.publishEvent b p fuel translator) (.ok ()) st' ∧
      Returns (fun fuel => st.tryPublishEvent b p fuel translator) (.ok sequence) st' := by
  obtain ⟨g, hguard, hproducer, hdrop⟩ := claimGuard_ok henters
  obtain ⟨w', hall, hp⟩ := h.publishes le_rfl b.sizeI64_pos (.inr ⟨rfl, rfl⟩)
  obtain ⟨w₁, k, hk⟩ := hall _ (.inl rfl)
  obtain ⟨w₂, k', hk'⟩ := hall _ (.inr rfl)
  let i := calculateIndex b (st.producer.world.high + 1)
  let ring := Function.update st.producer.ring i (translator (st.producer.ring i) (st.producer.world.high + 1))
  refine ⟨st.producer.world.high + 1, { st with producer := ⟨w', ring⟩ }, ⟨k, fun fuel hfuel => ?_⟩, k', fun fuel hfuel => ?_⟩
  · obtain ⟨hclaim, hpub⟩ := hk fuel hfuel
    simp only [DslPublisher.publishEvent, hguard, hproducer, hclaim, Option.bind_some, hpub, Option.map_some]
    rw [hdrop _ hp.isMulti]
  · obtain ⟨hclaim, hpub⟩ := hk' fuel hfuel
    simp only [DslPublisher.tryPublishEvent, hguard, hproducer, hclaim, Option.bind_some, hpub, Option.map_some]
    rw [hdrop _ hp.isMulti]

theorem publishEvent_terminal (henters : st.Enters) (hterm : st.producer.world.Terminal) (hready : st.producer.world.Ready b)
    (hrest : st.producer.world.atRest p = true) (translator : E → Int → E) :
    Returns (fun fuel => st.publishEvent b p fuel translator) (.error (.claim st.producer.world.claimStateError))
      { st with producer := ⟨st.producer.world.after p (.err st.producer.world.claimStateError), st.producer.ring⟩ } ∧
    Returns (fun fuel => st.tryPublishEvent b p fuel translator)
      (.error (if st.producer.world.poisoned then .poisoned else .shutdown))
      { st with
        producer := ⟨st.producer.world.after p (.capacity (st.producer.world.freeSlots b)), st.producer.ring⟩ } := by
  obtain ⟨g, hguard, hproducer, hdrop⟩ := claimGuard_ok henters
  obtain ⟨k, hk⟩ := terminal_next (b := b) hterm hrest le_rfl b.sizeI64_pos
  obtain ⟨k', hk'⟩ := terminal_try (b := b) hterm hready hrest le_rfl b.sizeI64_pos
  refine ⟨⟨k, fun fuel hfuel => ?_⟩, k', fun fuel hfuel => ?_⟩
  · simp only [DslPublisher.publishEvent, hguard, hproducer, hk fuel hfuel, Option.bind_some]
    rw [hdrop _ after_isMulti]
  · obtain ⟨hclaim, hcapacity⟩ := hk' fuel hfuel
    simp only [DslPublisher.tryPublishEvent, hguard, hproducer, hclaim, hcapacity, Option.bind_some, after_poisoned,
      after_closed]
    rw [hdrop _ after_isMulti]
    congr 3
    split
    · rfl
    · exact if_pos (hterm.resolve_right ‹_›)

/-- `publish_event` and `try_publish_event`. -/
theorem event_agree (henters : st.Enters) (hready : st.producer.world.Ready b) (hrest : st.producer.world.atRest p = true)
    (hroom : st.producer.world.Terminal ∨ 1 ≤ st.producer.world.freeSlots b) :
    EventAgree b p st ↔ ¬(st.producer.world.closed = true ∧ st.producer.world.poisoned = true) := by
  constructor
  · rintro hagree ⟨hc, hp⟩
    have hterm : st.producer.world.Terminal := .inl hc
    obtain ⟨e, e', r, r', hclass, hreturns⟩ := hagree.refused hterm
    obtain ⟨hblocking, htrying⟩ := publishEvent_terminal henters hterm hready hrest fun e _ => e
    obtain ⟨he, -⟩ := (hreturns fun e _ => e).1.unique hblocking
    obtain ⟨he', -⟩ := (hreturns fun e _ => e).2.unique htrying
    rw [PublishEventError.claim.inj (Except.error.inj he), Except.error.inj he'] at hclass
    exact (sameClass_iff hterm).mp hclass ⟨hc, hp⟩
  · intro hflags
    refine ⟨fun hterm => publishEvent_ok henters (.of_not_terminal hready hrest hterm hroom), fun hterm => ?_⟩
    exact ⟨_, _, _, _, (sameClass_iff hterm).mpr hflags, publishEvent_terminal henters hterm hready hrest⟩

/-- From inside a translator both are rejected, and nothing else happens. -/
theorem event_reentrant (hkind : st.producer.world.isMulti = false) (hheld : st.dslSingleClaimHeld = true)
    (translator : E → Int → E) (fuel : Nat) :
    st.publishEvent b p fuel translator = some (.error .reentrantPublish, st) ∧
      st.tryPublishEvent b p fuel translator = some (.error .reentrantPublish, st) := by
  have hguard : st.claimGuard = some (.error .reentrantPublish) := by
    simp [DslPublisher.claimGuard, hkind, hheld]
  simp [DslPublisher.publishEvent, DslPublisher.tryPublishEvent, hguard]

end Dsl

/-- **Blocking and non-blocking publications agree.** In every reachable state in which a terminal flag is set or there is room,
and for every size and closure: the two publications have the same outcome unless the sequencer is both closed and poisoned. -/
theorem publications_agree (b : BufferSize) (multiProducer unique : Bool) (gating : List Nat) (w : SequencerWorld)
    (h : Reach (SequencerWorld.step b) (fun _ _ => True) (.init b multiProducer unique gating) w) (p : Nat)
    (hrest : w.atRest p = true) (ring : Nat → E) :
    (∀ n, 1 ≤ n → n ≤ b.size → (w.Terminal ∨ (n : Int) ≤ w.freeSlots b) →
      (Agree p (batchCall b p n) (tryBatchCall b p n) w ring ↔ ¬(w.closed = true ∧ w.poisoned = true))) ∧
    ((w.Terminal ∨ 1 ≤ w.freeSlots b) →
      (Agree p (publishCall b p) (tryCall b p) w ring ↔ ¬(w.closed = true ∧ w.poisoned = true))) ∧
    -- the DSL keeps the checked claim path
    (w.capability = false → ∀ lock held,
      ((w.Terminal ∨ 1 ≤ w.freeSlots b) → DslPublisher.Enters ⟨⟨w, ring⟩, lock, held⟩ →
        (EventAgree b p ⟨⟨w, ring⟩, lock, held⟩ ↔ ¬(w.closed = true ∧ w.poisoned = true))) ∧
      (w.isMulti = false → held = true → ∀ translator fuel,
        DslPublisher.publishEvent b p fuel translator ⟨⟨w, ring⟩, lock, held⟩ =
          some (.error .reentrantPublish, ⟨⟨w, ring⟩, lock, held⟩) ∧
        DslPublisher.tryPublishEvent b p fuel translator ⟨⟨w, ring⟩, lock, held⟩ =
          some (.error .reentrantPublish, ⟨⟨w, ring⟩, lock, held⟩))) := by
  have hready : w.Ready b := Reach.inv ready_init (fun hI _ hs => ready_step hI hs) h
  exact ⟨fun n h1 hn hroom => batch_agree hready hrest h1 hn hroom, fun hroom => publish_agree hready hrest hroom,
    fun _ lock held => ⟨fun hroom henters => event_agree henters hready hrest hroom,
      fun hkind hheld translator fuel => event_reentrant hkind hheld translator fuel⟩⟩

/-- A batch of two on a shared ring of two slots that is closed: `Shutdown` both times. -/
theorem publications_agree_closed : ∃ w, w.closed = true ∧
    Agree 0 (batchCall ⟨1, by decide⟩ 0 2) (tryBatchCall ⟨1, by decide⟩ 0 2) w (fun i => i) := by
  obtain ⟨w, hreach, hrest, hclosed, hpoisoned⟩ : ∃ w, Reach (SequencerWorld.step ⟨1, by decide⟩) (fun _ _ => True)
      (.init ⟨1, by decide⟩ true false [0]) w ∧ w.atRest 0 = true ∧ w.closed = true ∧ w.poisoned = false :=
    ⟨_, reach_of_exec [.close] rfl, rfl, rfl, rfl⟩
  refine ⟨w, hclosed, ?_⟩
  refine ((publications_agree ⟨1, by decide⟩ true false [0] w hreach 0 hrest fun i => i).1 2 (by decide) (by decide)
    (.inl (.inl hclosed))).mpr ?_
  rw [hpoisoned]
  rintro ⟨-, h⟩
  cases h

/-- A sequencer that is closed and then poisoned: `batch_publish(1)` reports `Shutdown`, `try_batch_publish(1)` `Poisoned`. -/
theorem publications_disagree : ∃ w, Reach (SequencerWorld.step ⟨0, by decide⟩) (fun _ _ => True)
      (.init ⟨0, by decide⟩ true false [0]) w ∧ w.atRest 0 = true ∧ w.closed = true ∧ w.poisoned = true ∧
    (∃ st', batchCall ⟨0, by decide⟩ 0 1 (fun _ ring => ring) ⟨w, fun _ => 7⟩ 10 = some (.error .shutdown, st')) ∧
    (∃ st', tryBatchCall ⟨0, by decide⟩ 0 1 (fun _ ring => ring) ⟨w, fun _ => 7⟩ 10 = some (.error .poisoned, st')) ∧
    ¬Agree 0 (batchCall ⟨0, by decide⟩ 0 1) (tryBatchCall ⟨0, by decide⟩ 0 1) w fun _ => 7 := by
  obtain ⟨w, hreach, hrest, hclosed, hpoisoned, hblocking, htrying⟩ : ∃ w,
      Reach (SequencerWorld.step ⟨0, by decide⟩) (fun _ _ => True) (.init ⟨0, by decide⟩ true false [0]) w ∧
      w.atRest 0 = true ∧ w.closed = true ∧ w.poisoned = true ∧
      (∃ st', batchCall ⟨0, by decide⟩ 0 1 (fun _ ring => ring) ⟨w, fun _ => 7⟩ 10 = some (.error .shutdown, st')) ∧
      (∃ st', tryBatchCall ⟨0, by decide⟩ 0 1 (fun _ ring => ring) ⟨w, fun _ => 7⟩ 10 = some (.error .poisoned, st')) :=
    ⟨_, reach_of_exec [.close, .poison] rfl, rfl, rfl, rfl, ⟨_, rfl⟩, _, rfl⟩
  refine ⟨w, hreach, hrest, hclosed, hpoisoned, hblocking, htrying, fun hagree => ?_⟩
  have hready : w.Ready ⟨0, by decide⟩ := Reach.inv ready_init (fun hI _ hs => ready_step hI hs) hreach
  exact (batch_agree hready hrest le_rfl le_rfl (.inl (.inl hclosed))).mp hagree ⟨hclosed, hpoisoned⟩

end BadBatch
