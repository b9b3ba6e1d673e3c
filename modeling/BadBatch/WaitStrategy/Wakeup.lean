import BadBatch.WaitStrategy.Blocking
import BadBatch.Producer.Invariant
import BadBatch.Sequencer.SingleVisibility

/-!
# No lost wakeup

A consumer that has seen the cursor below its sequence holds the mutex until it is parked. Whoever moves the cursor in the
meantime, or sets a flag, has to take the mutex before it notifies, and so notifies after the consumer is parked. The
invariant says it the other way round: a consumer that watches a sequence the cursor has reached, or a flag that is set, is
never without somebody who still has to notify.

* `Grounded`, `grounded_step`: where the producers stand, without any assumption on the gating set;
* `Owing`: a producer that has moved the cursor is on its way to a notification;
* `WakeInv`, `wakeInv_step`: the invariant and its step lemma;
* `no_lost_wakeup`: the theorem.
-/

namespace BadBatch

open StepSys MultiProducerSequencer

variable {E : Type} {b : BufferSize} {deps : Nat → List Nat} {f f' : Feed E} {w w' : BlockingWorld E} {s : Int}
  {p q k : Nat}

/-! ## Where producers stand -/

/-- The driver has read both flags of a claim. -/
def SinglePc.pastFlags : SinglePc → Bool
  | .acquire _ | .check _ | .setVolatile _ | .loadGating _ | .scan _ _ _ | .spinClosed _ | .spinPoisoned _ => true
  | _ => false

/-- The single driver inside a claim: once it has read the flags, everything it claimed before is published. -/
structure DriverPc (b : BufferSize) (w : SingleWorld) : Prop where
  fits : ∀ c, w.pc.call = some c → c.Fits b
  settled : ∀ c, w.pc.call = some c → c.isClaim = true → w.pc.pastFlags = true →
    w.sequencer.nextValue = w.sequencer.cursor
  store : ∀ c, w.pc = .setVolatile c → w.sequencer.nextValue = w.sequencer.cursor

/-- A producer behind the multi-producer sequencer. -/
def MultiPlace (pc : MultiPc) : ProducerPhase → Prop
  | .claiming c => pc.call = some c ∨ ∃ r, pc = .returned r
  | .publishing => pc.call = none
  | _ => ∃ r, pc = .returned r

/-- Where producer `p` stands in its phase. -/
def PlaceOk : SequencerWorld → Nat → ProducerPhase → Prop
  | .single w, p => SinglePhaseOk w p
  | .multi w, p => MultiPlace (w.producers p)

def Driven (b : BufferSize) : SequencerWorld → Prop
  | .single w => DriverPc b w
  | .multi _ => True

/-- Where the producers stand. -/
structure Grounded (b : BufferSize) (w : SequencerWorld) (phases : Nat → ProducerPhase) : Prop where
  places : ∀ p, PlaceOk w p (phases p)
  driven : Driven b w

theorem grounded_init (b : BufferSize) (multiProducer unique : Bool) (gating : List Nat) :
    Grounded b (.init b multiProducer unique gating) fun _ => .idle := by
  unfold SequencerWorld.init
  split
  · exact ⟨fun p => ⟨_, rfl⟩, trivial⟩
  · refine ⟨fun p _ => ⟨⟨_, rfl⟩, .inl rfl⟩, ?_, ?_, ?_⟩ <;> intro c h <;> cases h

/-- The flags are behind the driver only after it has found them clear. -/
theorem pastFlags_claimStep {unique : Bool} {sequences : Nat → Int} {m m' : SingleProducerSequencer} {pc pc' : SinglePc}
    {e : LedgerEffect} (h : SingleProducerSequencer.claimStep b unique sequences m pc = some (m', pc', e))
    (hp : pc'.pastFlags = true) :
    pc.pastFlags = true ∨ (∃ c, pc = .loadPoisoned c) ∧ m.poisoned = false ∧ m' = m := by
  cases singleRule_of_claimStep h with
  | closed | notClosed | poisoned | release | publish => cases hp
  | toCheck hn | toAcquire hn => exact .inr ⟨⟨_, rfl⟩, hn, rfl⟩
  | _ => exact .inl rfl

/-- A driver inside a call has nothing left to publish, or will be refused. -/
theorem SinglePhaseOk.settled_of_call {w : SingleWorld} {phase : ProducerPhase} {c : ClaimCall}
    (h : SinglePhaseOk w w.driver phase) (hc : w.pc.call = some c) :
    w.sequencer.nextValue = w.sequencer.cursor ∨ w.sequencer.poisoned = true := by
  have hret : ∀ {r}, w.pc = .returned r → False := by
    intro r hr
    rw [hr] at hc
    cases hc
  cases phase with
  | idle => exact (h rfl).2
  | claiming c' =>
    obtain ⟨-, ⟨-, hs⟩ | ⟨r, hr | hr, -⟩⟩ := h
    · exact hs
    · exact (hret hr).elim
    · rw [hr] at hc
      cases hc
  | writing low high next => exact (hret h.2.1.choose_spec).elim
  | publishing =>
    obtain ⟨-, hp | ⟨⟨r, hr⟩, -⟩⟩ := h
    · rw [hp] at hc
      cases hc
    · exact (hret hr).elim
  | panicked low | poisoning => exact (hret h.2.choose_spec).elim

/-- Nobody but the driver is active. -/
theorem SinglePhaseOk.idle_of_ne {w : SingleWorld} {phase : ProducerPhase} (h : SinglePhaseOk w p phase)
    (hp : w.driver ≠ p) : phase = .idle := by
  cases phase with
  | idle => rfl
  | claiming c | writing low high next | publishing | panicked low | poisoning => exact absurd h.1 hp

/-- A step of the single driver. -/
theorem driverPc_claimStep {w : SingleWorld} {phases : Nat → ProducerPhase} (hph : ∀ p, SinglePhaseOk w p (phases p))
    (h : DriverPc b w) {m' : SingleProducerSequencer} {pc' : SinglePc} {e : LedgerEffect}
    (hst : SingleProducerSequencer.claimStep b w.unique w.sequences w.sequencer w.pc = some (m', pc', e)) :
    (∀ p, SinglePhaseOk { w with sequencer := m', pc := pc', ledger := e.apply w.driver w.ledger } p (phases p)) ∧
      DriverPc b { w with sequencer := m', pc := pc', ledger := e.apply w.driver w.ledger } := by
  refine ⟨fun q => ?_, fun c hc => h.fits c (call_claimStep hst hc), fun c hc hcl hp => ?_, ?_⟩
  · by_cases hq : w.driver = q
    · subst hq
      refine singlePhaseOk_step (hph _) (fun c hc hpc => ?_) hst
      have hcall : w.pc.call = some c ∧ w.pc.pastFlags = true := by
        rcases hpc with hp | ⟨minimum, hp⟩ <;> rw [hp] <;> exact ⟨rfl, rfl⟩
      exact ⟨h.fits c hcall.1, h.settled c hcall.1 hc hcall.2⟩
    · rw [(hph q).idle_of_ne hq]
      exact fun hd => absurd hd hq
  · have hcall := call_claimStep hst hc
    rcases pastFlags_claimStep hst hp with hpre | ⟨-, hnp, rfl⟩
    · have heq := h.settled c hcall hcl hpre
      rcases singleStep_cases hst with ⟨-, ⟨hcur, -, hnext, -⟩, -⟩ | ⟨_, -, -, rfl, -⟩ | ⟨_, -, -, -, -, rfl, -⟩ |
        ⟨_, -, -, -, rfl⟩
      · simp only [hcur, hnext]
        exact heq
      · rfl
      · simp at hc
      · cases hc
    · refine ((hph w.driver).settled_of_call hcall).resolve_right ?_
      rw [hnp]
      exact Bool.false_ne_true
  · rintro c rfl
    obtain ⟨c', he, hpc, rfl, hslow⟩ := stores_claimStep hst rfl
    exact h.settled c' (by rw [he]; rfl) hslow.1 (by rw [he]; rfl)

/-- A step of a producer behind the multi-producer sequencer. -/
theorem multiPlace_claimStep {sequences : Nat → Int} {m m' : MultiProducerSequencer} {pc pc' : MultiPc} {e : LedgerEffect}
    {phase : ProducerPhase} (h : MultiPlace pc phase) (hst : claimStep b sequences m pc = some (m', pc', e)) :
    MultiPlace pc' phase := by
  have hret : ∀ {r}, pc = .returned r → False := by
    intro r hr
    rw [hr] at hst
    simp [claimStep] at hst
  cases phase with
  | claiming c =>
    rcases h with hc | ⟨r, hr⟩
    · rcases claimStep_call hst hc with ⟨hc', -⟩ | ⟨r, rfl, -⟩ | ⟨high, rfl, -⟩
      · exact .inl hc'
      · exact .inr ⟨_, rfl⟩
      · exact .inr ⟨_, rfl⟩
    · exact (hret hr).elim
  | publishing => exact (claimStep_no_call hst h).1
  | idle | writing low high next | panicked low | poisoning => exact (hret h.choose_spec).elim

/-- The flags, the sequences and the gating set do not concern the producers' places. -/
theorem grounded_other {w w' : SequencerWorld} {phases : Nat → ProducerPhase} {a : SequencerAction}
    (h : Grounded b w phases) (ha : a.isConsumers = true ∨ a = .close ∨ a = .reopen ∨ a = .poison)
    (hs : w.step b a = some w') : Grounded b w' phases ∧ w'.cursor = w.cursor ∧ w'.result = w.result := by
  obtain ⟨hplaces, hdriven⟩ := h
  cases SequencerWorld.rule_of_step hs with
  | @single w w' _ hr =>
    have hsame : w'.driver = w.driver ∧ w'.pc = w.pc ∧ w'.ledger = w.ledger ∧
        w'.sequencer.nextValue = w.sequencer.nextValue ∧ w'.sequencer.cursor = w.sequencer.cursor ∧
        (w.sequencer.poisoned = true → w'.sequencer.poisoned = true) := by
      cases hr with
      | call | publish | publishRange | step =>
        simp only [SequencerAction.isConsumers, Bool.false_eq_true, reduceCtorEq, or_self] at ha
      | poison => exact ⟨rfl, rfl, rfl, rfl, rfl, fun _ => rfl⟩
      | advance | close | reopen | addGatingSequences | removeGatingSequence => exact ⟨rfl, rfl, rfl, rfl, rfl, id⟩
    obtain ⟨hd, hpc, hl, hn, hc, hp⟩ := hsame
    refine ⟨⟨fun p => SinglePhaseOk.frame (hplaces p) hd hpc hl hn hc hp, ?_⟩, hc, ?_⟩
    · have hdp : DriverPc b w := hdriven
      refine ⟨fun c => ?_, fun c => ?_, fun c => ?_⟩ <;> rw [hpc]
      · exact hdp.fits c
      · rw [hn, hc]
        exact hdp.settled c
      · rw [hn, hc]
        exact hdp.store c
    · funext p
      simp only [SequencerWorld.result, hpc, hd]
  | @multi w w' _ hr =>
    have hsame : w'.producers = w.producers ∧ w'.sequencer.cursor = w.sequencer.cursor := by
      cases hr with
      | call | publish | publishRange | step =>
        simp only [SequencerAction.isConsumers, Bool.false_eq_true, reduceCtorEq, or_self] at ha
      | advance | close | reopen | poison | addGatingSequences | removeGatingSequence => exact ⟨rfl, rfl⟩
    refine ⟨⟨fun p => ?_, trivial⟩, hsame.2, ?_⟩
    · show MultiPlace (w'.producers p) (phases p)
      rw [hsame.1]
      exact hplaces p
    · funext p
      simp only [SequencerWorld.result, hsame.1]

/-- What an atomic step of a producer does to the cursor: it moves it when it publishes on the single-producer sequencer,
or when it is granted a claim on the multi-producer one. -/
theorem grounded_producer {w w' : SequencerWorld} {phases : Nat → ProducerPhase} (h : Grounded b w phases)
    (hs : w.step b (.step p) = some w') :
    Grounded b w' phases ∧ (∀ q, q ≠ p → phases q ≠ .idle → w'.result q = w.result q) ∧ w.result p = none ∧
      (w'.cursor = w.cursor ∨ phases p = .publishing ∨
        ∃ c high, phases p = .claiming c ∧ w'.result p = some (.ok high)) := by
  obtain ⟨hplaces, hdriven⟩ := h
  cases SequencerWorld.rule_of_step hs with
  | @single w _ _ hr =>
    cases hr with | @step m' pc' e hst =>
    have hdp : DriverPc b w := hdriven
    obtain ⟨h1, h2⟩ := driverPc_claimStep hplaces hdp hst
    have hplace : SinglePhaseOk w w.driver (phases w.driver) := hplaces w.driver
    refine ⟨⟨h1, h2⟩, fun q hq hidle => absurd (SinglePhaseOk.idle_of_ne (hplaces q) (Ne.symm hq)) hidle, ?_, ?_⟩
    · cases hpc : w.pc with
      | returned r =>
        rw [hpc] at hst
        simp [SingleProducerSequencer.claimStep] at hst
      | _ => simp [SequencerWorld.result, hpc]
    · rcases singleStep_cases hst with ⟨-, ⟨hcur, -⟩, -⟩ | ⟨c, he, -, rfl, -⟩ | ⟨c, -, -, hm, -⟩ | ⟨high, he, -⟩
      · exact .inl hcur
      · exact .inl (hdp.store c he)
      · refine .inl ?_
        show m'.cursor = w.sequencer.cursor
        rw [hm]
      · refine .inr (.inl ?_)
        -- the driver is publishing: in every other phase it is inside a claim or at rest
        cases hph : phases w.driver with
        | publishing => rfl
        | idle =>
          rw [hph] at hplace
          obtain ⟨⟨r, hr⟩, -⟩ := hplace rfl
          rw [hr] at he
          cases he
        | claiming c =>
          rw [hph] at hplace
          obtain ⟨-, ⟨hc, -⟩ | ⟨r, hr | hr, -⟩⟩ := hplace
          · rw [he] at hc
            cases hc
          · rw [hr] at he
            cases he
          · rw [hr] at he
            cases he
        | writing low hi next =>
          rw [hph] at hplace
          obtain ⟨-, ⟨r, hr⟩, -⟩ := hplace
          rw [hr] at he
          cases he
        | panicked low | poisoning =>
          rw [hph] at hplace
          obtain ⟨-, r, hr⟩ := hplace
          rw [hr] at he
          cases he
  | @multi w _ _ hr =>
    cases hr with | @step _ m' pc' e hst =>
    have hplace : MultiPlace (w.producers p) (phases p) := hplaces p
    refine ⟨⟨fun q => ?_, trivial⟩, fun q hq _ => ?_, ?_, ?_⟩
    · show MultiPlace (Function.update w.producers p pc' q) (phases q)
      by_cases hq : q = p
      · subst hq
        rw [Function.update_self]
        exact multiPlace_claimStep hplace hst
      · rw [Function.update_of_ne hq]
        exact hplaces q
    · simp only [SequencerWorld.result, Function.update_of_ne hq]
    · cases hpc : w.producers p with
      | returned r =>
        rw [hpc] at hst
        simp [claimStep] at hst
      | _ => simp [SequencerWorld.result, hpc]
    · rcases claimStep_cases hst with ⟨rfl, -⟩ | ⟨_, _, _, -, -, rfl⟩ | ⟨c, he, hgrant, -⟩ | ⟨lo, hi, hpub, -⟩
      · exact .inl rfl
      · exact .inl rfl
      · refine .inr (.inr ?_)
        have hcall : (w.producers p).call = some c := by rw [he]; rfl
        have hpc' : ∃ high, pc' = .returned (.ok high) := by
          rcases claimStep_call hst hcall with ⟨-, hno⟩ | ⟨r, -, -, hno⟩ | ⟨high, hr, -⟩
          · rw [hgrant] at hno
            cases hno
          · rw [hgrant] at hno
            cases hno
          · exact ⟨high, hr⟩
        obtain ⟨high, rfl⟩ := hpc'
        cases hph : phases p with
        | claiming c' => exact ⟨c', high, rfl, by simp [SequencerWorld.result]⟩
        | publishing =>
          rw [hph] at hplace
          have hno : (w.producers p).call = none := hplace
          rw [hcall] at hno
          cases hno
        | idle | writing low hi next | panicked low | poisoning =>
          rw [hph] at hplace
          obtain ⟨r, hr⟩ := hplace
          rw [hr] at he
          cases he
      · exact .inl hpub.cursor_eq.1

/-! ## Producers that have moved the cursor -/

/-- A producer that has moved the cursor and not notified since is inside its claim with the grant in hand, writing,
publishing, poisoning the sequencer, or on its way to the notification (`due`). -/
def Owes (f : Feed E) (due : Bool) (p : Nat) : Prop :=
  match f.phases p with
  | .idle => due = true
  | .claiming _ => ∃ high, f.world.result p = some (.ok high)
  | .publishing => f.world.result p = none ∨ due = true
  | _ => True

/-- What a step of producer `p` means for all producers: their places, what the others see, and what `p` owes after it. -/
structure FeedMove (b : BufferSize) (f f' : Feed E) (p : Nat) (a : FeedAction E) : Prop where
  grounded : Grounded b f'.world f'.phases
  others : ∀ q, q ≠ p → f'.phases q = f.phases q ∧ (f.phases q ≠ .idle → f'.world.result q = f.world.result q)
  owes : (Owes f false p ∨ f'.world.cursor ≠ f.world.cursor) → Owes f' (BlockingWorld.signalsAfter f' p a) p

theorem grounded_goto {phase : ProducerPhase} (h : Grounded b f.world f.phases) (hp : PlaceOk f.world p phase) :
    Grounded b (f.goto p phase).world (f.goto p phase).phases := by
  refine ⟨fun q => ?_, h.driven⟩
  by_cases hq : q = p
  · subst hq
    simpa [Feed.goto] using hp
  · simpa [Feed.goto, Function.update_of_ne hq] using h.places q

theorem others_goto {phase : ProducerPhase} (hq : q ≠ p) : (f.goto p phase).phases q = f.phases q := by
  simp only [Feed.goto, Function.update_of_ne hq]

/-- A producer only changes its phase. -/
theorem feedMove_goto {a : FeedAction E} {phase : ProducerPhase} (h : Grounded b f.world f.phases)
    (hp : PlaceOk f.world p phase) (ho : Owes f false p → Owes (f.goto p phase)
      (BlockingWorld.signalsAfter (f.goto p phase) p a) p) :
    FeedMove b f (f.goto p phase) p a where
  grounded := grounded_goto h hp
  others q hq := ⟨others_goto hq, fun _ => rfl⟩
  owes := by
    rintro (hw | hc)
    · exact ho hw
    · exact absurd rfl hc

/-- A query reaches the cells without reading the flags; a claim does not. -/
theorem pastFlags_claimStart {unique : Bool} {c c' : ClaimCall}
    (hc : (SingleProducerSequencer.claimStart b unique c).call = some c') (hcl : c'.isClaim = true) :
    (SingleProducerSequencer.claimStart b unique c).pastFlags = false := by
  cases c with
  | nextN n | tryNextN n =>
    simp only [SingleProducerSequencer.claimStart]
    split <;> rfl
  | hasAvailableCapacity k =>
    cases hc
    cases hcl
  | remainingCapacity =>
    simp only [SingleProducerSequencer.claimStart] at hc
    split at hc <;> cases hc <;> cases hcl

/-- A producer that may call is idle, and so is the driver of a single-producer sequencer. -/
theorem idle_of_mayCall (h : Grounded b f.world f.phases) (hmay : f.mayCall p = true) : f.phases p = .idle := by
  have hp := h.places p
  cases hw : f.world with
  | single w =>
    rw [hw] at hp
    simp only [Feed.mayCall, hw, beq_iff_eq] at hmay
    by_cases hd : w.driver = p
    · rw [← hd]
      exact hmay
    · exact SinglePhaseOk.idle_of_ne hp hd
  | multi w =>
    simpa only [Feed.mayCall, hw, beq_iff_eq] using hmay

/-- A call begins. -/
theorem feedMove_call {c : ClaimCall} {w' : SequencerWorld} (h : Grounded b f.world f.phases) (hmay : f.mayCall p = true)
    (hs : f.world.step b (.call p c) = some w') :
    FeedMove b f ({ f with world := w' }.goto p (.claiming c)) p (.call p c) := by
  have hidle := idle_of_mayCall h hmay
  obtain ⟨hplaces, hdriven⟩ := h
  cases hw : f.world with
  | single w =>
    rw [hw] at hplaces hdriven hs
    simp only [Feed.mayCall, hw, beq_iff_eq] at hmay
    have hset : (SequencerWorld.single w).Settled := by
      have := hplaces w.driver
      rw [hmay] at this
      exact (this rfl).2
    have hphases : ∀ q, PhaseOk (.single w) q (f.phases q) := hplaces
    have hother : ∀ q, q ≠ p → PhaseOk w' q (f.phases q) := fun q hq =>
      phaseOk_call_other hq (hphases q) (fun w₁ hw₁ hd => by cases hw₁; rw [← hd]; exact hmay) hs
    have hown : PhaseOk w' p (.claiming c) := phaseOk_call hset hs
    cases SequencerWorld.rule_of_step hs with | single hr =>
    cases hr
    refine ⟨⟨fun q => ?_, ?_, ?_, ?_⟩, fun q hq => ⟨others_goto hq, fun hne => ?_⟩, ?_⟩
    · by_cases hq : q = p
      · subst hq
        simp only [Feed.goto, Function.update_self]
        exact hown
      · simp only [Feed.goto, Function.update_of_ne hq]
        exact hother q hq
    · exact fun c' hc' => fits_claimStart hc'
    · intro c' hc' hcl hpast
      rw [pastFlags_claimStart hc' hcl] at hpast
      cases hpast
    · intro c' hc'
      have hno : (SingleProducerSequencer.claimStart b w.unique c).stores = false := stores_claimStart c
      rw [show SingleProducerSequencer.claimStart b w.unique c = .setVolatile c' from hc'] at hno
      cases hno
    · -- an active producer is the driver, which is idle
      by_cases hd : w.driver = q
      · rw [hd] at hmay
        exact absurd hmay hne
      · exact absurd (SinglePhaseOk.idle_of_ne (hplaces q) hd) hne
    · rintro (ho | hc)
      · simp only [Owes, hidle] at ho
        cases ho
      · simp only [Feed.goto, hw] at hc
        exact absurd rfl hc
  | multi w =>
    rw [hw] at hplaces hs
    cases SequencerWorld.rule_of_step hs with | multi hr =>
    cases hr
    refine ⟨⟨fun q => ?_, trivial⟩, fun q hq => ⟨others_goto hq, fun hne => ?_⟩, ?_⟩
    · by_cases hq : q = p
      · subst hq
        simp only [Feed.goto, Function.update_self, PlaceOk, MultiWorld.goto, MultiPlace]
        cases c with
        | nextN n | tryNextN n =>
          simp only [claimStart]
          split
          · exact .inr ⟨_, rfl⟩
          · exact .inl rfl
        | hasAvailableCapacity k | remainingCapacity => exact .inl rfl
      · simpa [Feed.goto, Function.update_of_ne hq, PlaceOk, MultiWorld.goto] using hplaces q
    · simp only [Feed.goto, SequencerWorld.result, MultiWorld.goto, Function.update_of_ne hq, hw]
    · rintro (ho | hc)
      · simp only [Owes, hidle] at ho
        cases ho
      · simp only [Feed.goto, hw] at hc
        exact absurd rfl hc

/-- A publication begins. -/
theorem feedMove_publish {a : FeedAction E} (h : Grounded b f.world f.phases) (ha : a = .publish p ∨ a = .publishRange p)
    (hs : f.step b a = some f') : FeedMove b f f' p a := by
  obtain ⟨low, high, next, a', w', hph, -, ha', hst, rfl⟩ := feedStep_publish ha hs
  obtain ⟨hplaces, hdriven⟩ := h
  have hplace := hplaces p
  rw [hph] at hplace
  cases hw : f.world with
  | single w =>
    rw [hw] at hplaces hdriven hst hplace
    have hphase : PhaseOk (.single w) p (.writing low high next) := hplace
    obtain ⟨hown, hoth⟩ := phaseOk_publish ha' hphase hst
    have hw' : w' = .single { w with pc := .publish high } := by
      cases SequencerWorld.rule_of_step hst with | single hr =>
      rcases ha' with ⟨rfl, rfl⟩ | rfl <;> cases hr <;> rfl
    subst hw'
    refine ⟨⟨fun q => ?_, ?_⟩, fun q hq => ⟨others_goto hq, fun hne => ?_⟩, fun _ => ?_⟩
    · by_cases hq : q = p
      · subst hq
        simp only [Feed.goto, Function.update_self]
        exact hown
      · simp only [Feed.goto, Function.update_of_ne hq]
        exact hoth q _ hq (hplaces q)
    · refine ⟨?_, ?_, ?_⟩ <;> intro c hc <;> cases hc
    · exact absurd (SinglePhaseOk.idle_of_ne (hplaces q) (fun hd => hq (hd.symm.trans hplace.1))) hne
    · simp only [Owes, Feed.goto, Function.update_self, SequencerWorld.result]
      exact .inl trivial
  | multi w =>
    rw [hw] at hplaces hst
    obtain ⟨pc, hw', hcall, hres⟩ : ∃ pc, w' = .multi (w.goto p pc) ∧ pc.call = none ∧ ∀ r, pc ≠ .returned r := by
      cases SequencerWorld.rule_of_step hst with | multi hr =>
      rcases ha' with ⟨rfl, rfl⟩ | rfl <;> cases hr <;> exact ⟨_, rfl, rfl, fun _ hr => by cases hr⟩
    subst hw'
    refine ⟨⟨fun q => ?_, trivial⟩, fun q hq => ⟨others_goto hq, fun hne => ?_⟩, fun _ => ?_⟩
    · by_cases hq : q = p
      · subst hq
        simpa [Feed.goto, PlaceOk, MultiPlace, MultiWorld.goto] using hcall
      · simpa [Feed.goto, Function.update_of_ne hq, PlaceOk, MultiWorld.goto] using hplaces q
    · simp only [Feed.goto, SequencerWorld.result, MultiWorld.goto, Function.update_of_ne hq, hw]
    · simp only [Owes, Feed.goto, Function.update_self, SequencerWorld.result, MultiWorld.goto]
      exact .inl trivial

theorem placeOk_claimed {w : SequencerWorld} {c : ClaimCall} {r : ClaimResult} (h : PlaceOk w p (.claiming c))
    (hr : w.result p = some r) :
    (∀ high, r = .ok high → PlaceOk w p (.writing (high - c.n + 1) high (high - c.n + 1))) ∧
      ((∀ high, r ≠ .ok high) → PlaceOk w p .idle) := by
  cases w with
  | single w => exact phaseOk_claimed (w := .single w) h hr
  | multi w =>
    have hret : ∃ r, w.producers p = .returned r := by
      simp only [SequencerWorld.result] at hr
      split at hr
      · rename_i r' he
        exact ⟨r', he⟩
      · cases hr
    exact ⟨fun _ _ => hret, fun _ => hret⟩

theorem placeOk_published {w : SequencerWorld} {r : ClaimResult} (h : PlaceOk w p .publishing)
    (hr : w.result p = some r) : PlaceOk w p .idle := by
  cases w with
  | single w => exact phaseOk_published (w := .single w) h hr
  | multi w =>
    simp only [SequencerWorld.result] at hr
    split at hr
    · rename_i r' he
      exact ⟨r', he⟩
    · cases hr

/-- **Step lemma** for the places of the producers. -/
theorem feedMove_step {a : FeedAction E} (h : Grounded b f.world f.phases) (hs : f.step b a = some f')
    (ha : a.producer = some p) : FeedMove b f f' p a := by
  cases feedRule_of_step hs with
  | call hmay hst =>
    cases ha
    exact feedMove_call h hmay hst
  | @step q w' hst =>
    cases ha
    obtain ⟨hg, hoth, hnone, hcur⟩ := grounded_producer h hst
    refine ⟨hg, fun q hq => ⟨rfl, hoth q hq⟩, fun ho => ?_⟩
    -- a claim moves the cursor with its grant, a publication goes on to the signal with its last store
    cases hph : f.phases p with
    | idle =>
      simp only [Owes, hph, Bool.false_eq_true, false_or] at ho
      rcases hcur with hcur | hcur | ⟨c, high, hcur, -⟩
      · exact absurd hcur ho
      · rw [hph] at hcur
        cases hcur
      · rw [hph] at hcur
        cases hcur
    | claiming c =>
      simp only [Owes, hph]
      rcases ho with ho | ho
      · simp only [Owes, hph, hnone, reduceCtorEq, exists_false] at ho
      · rcases hcur with hcur | hcur | ⟨c, high, -, hr⟩
        · exact absurd hcur ho
        · rw [hph] at hcur
          cases hcur
        · exact ⟨high, hr⟩
    | publishing =>
      simp only [Owes, hph, BlockingWorld.signalsAfter]
      cases hr : w'.result p with
      | none => exact .inl rfl
      | some r => exact .inr rfl
    | writing low high next | panicked low | poisoning => simp only [Owes, hph]
  | @granted q c high hph hr =>
    cases ha
    refine feedMove_goto h ?_ fun _ => by simp only [Owes, Feed.goto, Function.update_self]
    exact (placeOk_claimed (hph ▸ h.places p) hr).1 high rfl
  | refused hph hr hno =>
    cases ha
    refine feedMove_goto h ((placeOk_claimed (hph ▸ h.places p) hr).2 fun high he => hno high he) fun ho => ?_
    simp only [Owes, hph, hr, Option.some.injEq] at ho
    obtain ⟨high, rfl⟩ := ho
    exact absurd rfl (hno high)
  | @write q value low high next hph hle =>
    cases ha
    have hplace : PlaceOk f.world p (.writing low high (next + 1)) := by
      have hp := h.places p
      rw [hph] at hp
      cases hw : f.world with
      | single w =>
        rw [hw] at hp
        obtain ⟨h1, h2, h3, h4, h5, h6⟩ := hp
        exact ⟨h1, h2, h3, by omega, by omega, h6⟩
      | multi w =>
        rw [hw] at hp
        exact hp
    have hmove : FeedMove b { f with
        ring := Function.update f.ring (calculateIndex b next) value
        written := Function.update f.written next (some value) } _ p (.write p value) :=
      feedMove_goto h hplace fun _ => by simp only [Owes, Feed.goto, Function.update_self]
    exact ⟨hmove.grounded, hmove.others, hmove.owes⟩
  | publish =>
    cases ha
    exact feedMove_publish h (.inl rfl) hs
  | publishRange =>
    cases ha
    exact feedMove_publish h (.inr rfl) hs
  | published hph hr =>
    cases ha
    refine feedMove_goto h (placeOk_published (hph ▸ h.places p) hr) fun ho => ?_
    simp [Owes, hph, hr] at ho
  | panic hph =>
    cases ha
    refine feedMove_goto h ?_ fun _ => by simp only [Owes, Feed.goto, Function.update_self]
    have hp := h.places p
    rw [hph] at hp
    cases hw : f.world with
    | single w =>
      rw [hw] at hp
      exact ⟨hp.1, hp.2.1⟩
    | multi w =>
      rw [hw] at hp
      exact hp
  | @record q low hph =>
    cases ha
    have hplace : PlaceOk f.world p .poisoning := by
      have hp := h.places p
      rw [hph] at hp
      cases hw : f.world with
      | single w | multi w =>
        rw [hw] at hp
        exact hp
    have hmove : FeedMove b (f.recordFailure ⟨.producerPanic, none, some low⟩) _ p (.record p) :=
      feedMove_goto h hplace fun _ => by simp only [Owes, Feed.goto, Function.update_self]
    exact ⟨hmove.grounded, hmove.others, hmove.owes⟩
  | @poison q w' hph hst =>
    cases ha
    obtain ⟨hg, -, hres⟩ := grounded_other h (.inr (.inr (.inr rfl))) hst
    have hplace : PlaceOk w' p .idle := by
      have hp := h.places p
      rw [hph] at hp
      generalize f.world = w at hp hst
      cases SequencerWorld.rule_of_step hst with
      | @single w _ _ _ =>
        have hidle : PhaseOk _ p .idle := phaseOk_poisoned (w := .single w) hp hst
        exact hidle
      | multi hr =>
        cases hr
        exact hp
    refine ⟨grounded_goto (f := { f with world := w' }) hg hplace, fun q hq => ⟨others_goto hq, fun _ => ?_⟩, fun _ => ?_⟩
    · exact congrFun hres q
    · simp only [Owes, Feed.goto, Function.update_self, BlockingWorld.signalsAfter]
  | close | reopen => cases ha

/-! ## The invariant -/

/-- The consumer has the mutex. -/
def WaiterPc.holds : WaiterPc → Bool
  | .loadCursor _ | .readAlerted _ | .loadAlert _ | .park _ | .unlock _ _ | .pollRead _ | .pollUnlock _ _ => true
  | _ => false

/-- The consumer has seen the cursor below the sequence, under the mutex. -/
def WaiterPc.watches : WaiterPc → Option Int
  | .readAlerted s | .loadAlert s | .park s | .parked s => some s
  | _ => none

/-- It has seen the flag behind the mutex down. -/
def WaiterPc.pastState : WaiterPc → Bool
  | .loadAlert _ | .park _ | .parked _ => true
  | _ => false

/-- It has seen the flag of its barrier down. -/
def WaiterPc.pastAlert : WaiterPc → Bool
  | .park _ | .parked _ => true
  | _ => false

/-- The signalling thread has the mutex. -/
def SignalPc.holds : SignalPc → Bool
  | .notify | .unlock | .alertStore | .clearStore => true
  | _ => false

/-- Somebody is on the way to a notification. -/
def BlockingWorld.Signalling (w : BlockingWorld E) : Prop := ∃ party, (w.signals party).due = true

/-- The invariant. -/
structure WakeInv (b : BufferSize) (w : BlockingWorld E) : Prop where
  grounded : Grounded b w.feed.world w.feed.phases
  owes : ∀ p, w.unsignalled p = true → Owes w.feed (w.signals (.producer p)).due p
  quiet : ∀ k, w.signals (.waiter k) = .none
  signalMutex : ∀ party, (w.signals party).holds = true → w.mutex = some party
  waiterMutex : ∀ k, (w.waiters k).pc.holds = true → w.mutex = some (.waiter k)
  cursor : ∀ k s, (w.waiters k).pc.watches = some s → s ≤ w.feed.world.cursor → ∃ p, w.unsignalled p = true
  state : ∀ k, (w.waiters k).pc.pastState = true → w.alerted = true → w.Signalling
  alert : ∀ k, (w.waiters k).pc.pastAlert = true → w.barriers (w.waiters k).barrier = true → w.Signalling

theorem wakeInv_init (b : BufferSize) (multiProducer unique : Bool) (gating : List Nat) (ring : Nat → E) :
    WakeInv b (BlockingWorld.init b multiProducer unique gating ring) where
  grounded := grounded_init b multiProducer unique gating
  owes p h := by cases h
  quiet k := rfl
  signalMutex party h := by cases h
  waiterMutex k h := by cases h
  cursor k s h := by cases h
  state k h := by cases h
  alert k h := by cases h

/-- A promise to notify is kept by whoever made it. -/
theorem Owes.mono {due due' : Bool} (h : Owes f due p) (hd : due = true → due' = true) : Owes f due' p := by
  unfold Owes at h ⊢
  split at h
  · exact hd h
  · exact h
  · exact h.imp id hd
  · trivial

/-- The feed looks the same to a producer that did not move. -/
theorem Owes.frame {due : Bool} (h : Owes f due p) (hp : f'.phases p = f.phases p)
    (hr : f.phases p ≠ .idle → f'.world.result p = f.world.result p) : Owes f' due p := by
  unfold Owes at h ⊢
  rw [hp]
  split at h
  · exact h
  · rename_i c hph
    rw [hr (by rw [hph]; exact fun he => by cases he)]
    exact h
  · rename_i hph
    rw [hr (by rw [hph]; exact fun he => by cases he)]
    exact h
  · trivial

/-- A thread that was not signalling starts a call that takes the mutex later. -/
theorem signalling_update {party : Party} {pc : SignalPc} {signals : Party → SignalPc} (hn : signals party = .none)
    (h : ∃ q, (signals q).due = true) : ∃ q, (Function.update signals party pc q).due = true := by
  obtain ⟨q, hq⟩ := h
  refine ⟨q, ?_⟩
  by_cases he : q = party
  · subst he
    rw [hn] at hq
    cases hq
  · rw [Function.update_of_ne he]
    exact hq

/-- A step of a producer. -/
theorem wakeInv_feed {a : FeedAction E} (h : WakeInv b w) (ha : a.producer = some p) (hs : w.feedStep b p a = some w') :
    WakeInv b w' := by
  simp only [BlockingWorld.feedStep, Option.ite_none_right_eq_some, Option.map_eq_some_iff] at hs
  obtain ⟨hnone, f, hst, rfl⟩ := hs
  have hmove := feedMove_step h.grounded hst ha
  have hsig : ∀ party, party ≠ .producer p →
      (if BlockingWorld.signalsAfter f p a then Function.update w.signals (.producer p) .lock else w.signals) party =
        w.signals party := by
    intro party hp
    split
    · rw [Function.update_of_ne hp]
    · rfl
  have hdue : ((if BlockingWorld.signalsAfter f p a then Function.update w.signals (.producer p) .lock else w.signals)
      (.producer p)).due = BlockingWorld.signalsAfter f p a := by
    split
    · rename_i hsa
      rw [Function.update_self, hsa]
      rfl
    · rename_i hsa
      rw [hnone, Bool.eq_false_iff.mpr hsa]
      rfl
  have hkeep : w.Signalling → ∃ q, ((if BlockingWorld.signalsAfter f p a then
      Function.update w.signals (.producer p) .lock else w.signals) q).due = true := by
    intro hx
    split
    · exact signalling_update hnone hx
    · exact hx
  constructor
  · exact hmove.grounded
  · intro q hq
    by_cases hqp : q = p
    · subst hqp
      simp only [Function.update_self, Bool.or_eq_true, decide_eq_true_eq] at hq
      simp only [hdue]
      refine hmove.owes (hq.imp (fun hu => ?_) id)
      have := h.owes q hu
      rwa [hnone] at this
    · simp only [Function.update_of_ne hqp] at hq
      simp only [hsig (.producer q) fun he => hqp (Party.producer.inj he)]
      exact (h.owes q hq).frame (hmove.others q hqp).1 (hmove.others q hqp).2
  · intro k
    simp only [hsig (.waiter k) fun he => by cases he]
    exact h.quiet k
  · intro party hp
    by_cases he : party = .producer p
    · subst he
      simp only at hp
      split at hp
      · rw [Function.update_self] at hp
        cases hp
      · rw [hnone] at hp
        cases hp
    · simp only [hsig party he] at hp
      exact h.signalMutex party hp
  · exact h.waiterMutex
  · intro k s hk hle
    by_cases hc : f.world.cursor = w.feed.world.cursor
    · obtain ⟨q, hq⟩ := h.cursor k s hk (by simpa only [hc] using hle)
      refine ⟨q, ?_⟩
      by_cases hqp : q = p
      · subst hqp
        simp only [Function.update_self, hq, Bool.true_or]
      · simp only [Function.update_of_ne hqp, hq]
    · refine ⟨p, ?_⟩
      simp only [Function.update_self, Bool.or_eq_true, decide_eq_true_eq]
      exact .inr hc
  · exact fun k hk hal => hkeep (h.state k hk hal)
  · exact fun k hk hal => hkeep (h.alert k hk hal)

/-! ### Consumers -/

/-- What a step of a consumer does to its place: it keeps, takes or releases the mutex, and it learns what it loads. -/
structure WaiterMove (cursor : Int) (alerted state : Bool) (pc pc' : WaiterPc) (e : MutexEffect) : Prop where
  keep : e = .keep → pc'.holds = pc.holds
  release : e = .release → pc.holds = true ∧ pc'.holds = false
  watches : ∀ s, pc'.watches = some s → pc.watches = some s ∨ cursor < s
  pastState : pc'.pastState = true → pc.pastState = true ∨ state = false
  pastAlert : pc'.pastAlert = true → pc.pastAlert = true ∨ alerted = false

/-- A place outside the loop under the mutex. -/
theorem waiterMove_out {cursor : Int} {alerted state : Bool} {pc pc' : WaiterPc} {e : MutexEffect}
    (hw : pc'.watches = none) (hs : pc'.pastState = false) (ha : pc'.pastAlert = false)
    (hk : e = .keep → pc'.holds = pc.holds) (hr : e = .release → pc.holds = true ∧ pc'.holds = false) :
    WaiterMove cursor alerted state pc pc' e where
  keep := hk
  release := hr
  watches s h := by
    rw [hw] at h
    cases h
  pastState h := by
    rw [hs] at h
    cases h
  pastAlert h := by
    rw [ha] at h
    cases h

theorem waiterMove_step {W : SequencerWorld} {ds : List Nat} {alerted state : Bool} {pc pc' : WaiterPc} {e : MutexEffect}
    (h : waiterStep b W ds alerted state pc = some (pc', e)) : WaiterMove W.cursor alerted state pc pc' e := by
  have hpolled : ∀ s v, (WaiterPc.polled s v).watches = none ∧ (WaiterPc.polled s v).pastState = false ∧
      (WaiterPc.polled s v).pastAlert = false ∧ (WaiterPc.polled s v).holds = false := by
    intro s v
    unfold WaiterPc.polled
    split <;> exact ⟨rfl, rfl, rfl, rfl⟩
  cases pc with
  | barrier pc =>
    simp only [waiterStep, Option.map_eq_some_iff, Prod.mk.injEq] at h
    obtain ⟨pc₁, -, rfl, rfl⟩ := h
    cases pc₁ <;> exact waiterMove_out rfl rfl rfl (fun _ => rfl) nofun
  | firstLoad s | pollAlert s =>
    simp only [waiterStep, Option.some.injEq, Prod.mk.injEq] at h
    obtain ⟨rfl, rfl⟩ := h
    split <;> exact waiterMove_out rfl rfl rfl (fun _ => rfl) nofun
  | lock s | relock s | pollLock s =>
    simp only [waiterStep, Option.some.injEq, Prod.mk.injEq] at h
    obtain ⟨rfl, rfl⟩ := h
    exact waiterMove_out rfl rfl rfl nofun nofun
  | loadCursor s =>
    simp only [waiterStep, Option.some.injEq, Prod.mk.injEq] at h
    obtain ⟨rfl, rfl⟩ := h
    split
    · rename_i hlt
      refine ⟨fun _ => rfl, nofun, fun s' hs' => ?_, nofun, nofun⟩
      cases hs'
      exact .inr hlt
    · exact waiterMove_out rfl rfl rfl (fun _ => rfl) nofun
  | readAlerted s =>
    simp only [waiterStep, Option.some.injEq, Prod.mk.injEq] at h
    obtain ⟨rfl, rfl⟩ := h
    split
    · exact waiterMove_out rfl rfl rfl (fun _ => rfl) nofun
    · rename_i hst
      exact ⟨fun _ => rfl, nofun, fun s' hs' => .inl hs', fun _ => .inr (Bool.eq_false_iff.mpr hst),
        nofun⟩
  | loadAlert s =>
    simp only [waiterStep, Option.some.injEq, Prod.mk.injEq] at h
    obtain ⟨rfl, rfl⟩ := h
    split
    · exact waiterMove_out rfl rfl rfl (fun _ => rfl) nofun
    · rename_i hal
      exact ⟨fun _ => rfl, nofun, fun s' hs' => .inl hs', fun _ => .inl rfl,
        fun _ => .inr (Bool.eq_false_iff.mpr hal)⟩
  | park s =>
    simp only [waiterStep, Option.some.injEq, Prod.mk.injEq] at h
    obtain ⟨rfl, rfl⟩ := h
    exact ⟨nofun, fun _ => ⟨rfl, rfl⟩, fun s' hs' => .inl hs', fun _ => .inl rfl, fun _ => .inl rfl⟩
  | parked s => simp [waiterStep] at h
  | unlock s reached =>
    simp only [waiterStep, Option.some.injEq, Prod.mk.injEq] at h
    obtain ⟨rfl, rfl⟩ := h
    split <;> exact waiterMove_out rfl rfl rfl nofun (fun _ => ⟨rfl, rfl⟩)
  | poll s =>
    obtain ⟨h1, h2, h3, h4⟩ := hpolled s W.cursor
    cases ds with
    | nil =>
      simp only [waiterStep, Option.some.injEq, Prod.mk.injEq] at h
      obtain ⟨rfl, rfl⟩ := h
      exact waiterMove_out h1 h2 h3 (fun _ => h4) nofun
    | cons i rest =>
      simp only [waiterStep, Option.some.injEq, Prod.mk.injEq] at h
      obtain ⟨rfl, rfl⟩ := h
      exact waiterMove_out rfl rfl rfl (fun _ => rfl) nofun
  | scan s rest minimum =>
    obtain ⟨h1, h2, h3, h4⟩ := hpolled s minimum
    cases rest with
    | nil =>
      simp only [waiterStep, Option.some.injEq, Prod.mk.injEq] at h
      obtain ⟨rfl, rfl⟩ := h
      exact waiterMove_out h1 h2 h3 (fun _ => h4) nofun
    | cons i rest =>
      simp only [waiterStep, Option.some.injEq, Prod.mk.injEq] at h
      obtain ⟨rfl, rfl⟩ := h
      exact waiterMove_out rfl rfl rfl (fun _ => rfl) nofun
  | pollRead s =>
    simp only [waiterStep, Option.some.injEq, Prod.mk.injEq] at h
    obtain ⟨rfl, rfl⟩ := h
    exact waiterMove_out rfl rfl rfl (fun _ => rfl) nofun
  | pollUnlock s al =>
    simp only [waiterStep, Option.some.injEq, Prod.mk.injEq] at h
    obtain ⟨rfl, rfl⟩ := h
    split <;> exact waiterMove_out rfl rfl rfl nofun (fun _ => ⟨rfl, rfl⟩)

/-- A consumer moves, and the mutex with it. -/
theorem wakeInv_goto {pc' : WaiterPc} {e : MutexEffect} {mutex : Option Party} (h : WakeInv b w)
    (hmove : WaiterMove w.feed.world.cursor (w.barriers (w.waiters k).barrier) w.alerted (w.waiters k).pc pc' e)
    (hsig : ∀ party, (w.signals party).holds = true → mutex = some party)
    (hown : pc'.holds = true → mutex = some (.waiter k))
    (hoth : ∀ q, q ≠ k → (w.waiters q).pc.holds = true → mutex = some (.waiter q)) :
    WakeInv b ({ w with mutex := mutex }.goto k pc') := by
  have hself : ({ w with mutex := mutex }.goto k pc').waiters k = ⟨(w.waiters k).barrier, pc'⟩ := by
    simp only [BlockingWorld.goto, Function.update_self]
  have hother : ∀ q, q ≠ k → ({ w with mutex := mutex }.goto k pc').waiters q = w.waiters q := by
    intro q hq
    simp only [BlockingWorld.goto, Function.update_of_ne hq]
  constructor
  · exact h.grounded
  · exact h.owes
  · exact h.quiet
  · exact hsig
  · intro q hq
    by_cases hqk : q = k
    · subst hqk
      rw [hself] at hq
      exact hown hq
    · rw [hother q hqk] at hq
      exact hoth q hqk hq
  · intro q s hq hle
    by_cases hqk : q = k
    · subst hqk
      rw [hself] at hq
      rcases hmove.watches s hq with hw | hlt
      · exact h.cursor q s hw hle
      · exact absurd hle (not_le.mpr hlt)
    · rw [hother q hqk] at hq
      exact h.cursor q s hq hle
  · intro q hq hst
    by_cases hqk : q = k
    · subst hqk
      rw [hself] at hq
      rcases hmove.pastState hq with hw | hf
      · exact h.state q hw hst
      · have hst' : w.alerted = true := hst
        rw [hf] at hst'
        cases hst'
    · rw [hother q hqk] at hq
      exact h.state q hq hst
  · intro q hq hal
    by_cases hqk : q = k
    · subst hqk
      rw [hself] at hq hal
      rcases hmove.pastAlert hq with hw | hf
      · exact h.alert q hw hal
      · have hal' : w.barriers (w.waiters q).barrier = true := hal
        rw [hf] at hal'
        cases hal'
    · rw [hother q hqk] at hq hal
      exact h.alert q hq hal

/-- A step of a consumer. -/
theorem wakeInv_waiter (h : WakeInv b w) (hs : w.step b deps (.waiter k) = some w') : WakeInv b w' := by
  simp only [BlockingWorld.step] at hs
  split at hs
  · rename_i pc' hst
    simp only [Option.some.injEq] at hs
    subst hs
    have hmove := waiterMove_step hst
    refine wakeInv_goto h hmove h.signalMutex (fun hh => ?_) fun q _ => h.waiterMutex q
    exact h.waiterMutex k (by rw [← hmove.keep rfl]; exact hh)
  · rename_i pc' hst
    simp only [Option.ite_none_right_eq_some, Option.some.injEq] at hs
    obtain ⟨hfree, rfl⟩ := hs
    refine wakeInv_goto h (waiterMove_step hst) (fun party hp => ?_) (fun _ => rfl) fun q _ hq => ?_
    · rw [h.signalMutex party hp] at hfree
      cases hfree
    · rw [h.waiterMutex q hq] at hfree
      cases hfree
  · rename_i pc' hst
    simp only [Option.some.injEq] at hs
    subst hs
    have hmove := waiterMove_step hst
    obtain ⟨hheld, hout⟩ := hmove.release rfl
    have hmutex := h.waiterMutex k hheld
    refine wakeInv_goto h hmove (fun party hp => ?_) (fun hh => ?_) fun q hq hh => ?_
    · -- a signalling thread that has the mutex would be the consumer itself
      have hparty := h.signalMutex party hp
      rw [hmutex] at hparty
      cases hparty
      rw [h.quiet k] at hp
      cases hp
    · rw [hout] at hh
      cases hh
    · have hother := h.waiterMutex q hh
      rw [hmutex] at hother
      cases hother
      exact absurd rfl hq
  · cases hs

/-! ### Signals -/

/-- A thread that does not notify with this step moves on in its call; the flag behind the mutex may change. -/
theorem wakeInv_gotoSignal {party : Party} {pc : SignalPc} {mutex : Option Party} {alerted : Bool} (h : WakeInv b w)
    (hparty : ∀ k, party ≠ .waiter k) (hdue : (w.signals party).due = true → pc.due = true)
    (hown : pc.holds = true → mutex = some party)
    (hsig : ∀ q, q ≠ party → (w.signals q).holds = true → mutex = some q)
    (hwait : ∀ k, (w.waiters k).pc.holds = true → mutex = some (.waiter k))
    (hal : alerted = true → w.alerted = true ∨ pc.due = true) :
    WakeInv b ({ w with mutex := mutex, alerted := alerted }.gotoSignal party pc) := by
  have hkeep : w.Signalling → ∃ q, (Function.update w.signals party pc q).due = true := by
    rintro ⟨q, hq⟩
    refine ⟨q, ?_⟩
    by_cases he : q = party
    · subst he
      rw [Function.update_self]
      exact hdue hq
    · rw [Function.update_of_ne he]
      exact hq
  constructor
  · exact h.grounded
  · intro p hp
    by_cases he : Party.producer p = party
    · subst he
      simp only [BlockingWorld.gotoSignal, Function.update_self]
      exact (h.owes p hp).mono hdue
    · simp only [BlockingWorld.gotoSignal, Function.update_of_ne he]
      exact h.owes p hp
  · intro k
    simp only [BlockingWorld.gotoSignal, Function.update_of_ne (hparty k).symm]
    exact h.quiet k
  · intro q hq
    by_cases he : q = party
    · subst he
      simp only [BlockingWorld.gotoSignal, Function.update_self] at hq
      exact hown hq
    · simp only [BlockingWorld.gotoSignal, Function.update_of_ne he] at hq
      exact hsig q he hq
  · exact hwait
  · exact h.cursor
  · intro k hk hst
    rcases hal hst with hst | hd
    · exact hkeep (h.state k hk hst)
    · refine ⟨party, ?_⟩
      simp only [BlockingWorld.gotoSignal, Function.update_self]
      exact hd
  · exact fun k hk hb => hkeep (h.alert k hk hb)

/-- Who neither has the mutex nor is parked does not watch. -/
theorem not_watching {pc : WaiterPc} (hh : pc.holds = false) (hp : ∀ s, pc ≠ .parked s) :
    pc.watches = none ∧ pc.pastState = false ∧ pc.pastAlert = false := by
  cases pc with
  | loadCursor s | readAlerted s | loadAlert s | park s | unlock s reached | pollRead s | pollUnlock s al => cases hh
  | parked s => exact absurd rfl (hp s)
  | barrier pc | firstLoad s | lock s | relock s | poll s | scan s rest minimum | pollLock s | pollAlert s =>
    exact ⟨rfl, rfl, rfl⟩

/-- A woken consumer has to take the mutex first. -/
theorem not_watching_wake {waiters : Nat → Waiter} (hh : (waiters k).pc.holds = false) :
    (BlockingWorld.wake waiters k).pc.holds = false ∧ (BlockingWorld.wake waiters k).pc.watches = none ∧
      (BlockingWorld.wake waiters k).pc.pastState = false ∧ (BlockingWorld.wake waiters k).pc.pastAlert = false := by
  unfold BlockingWorld.wake
  split
  · exact ⟨rfl, rfl, rfl, rfl⟩
  · rename_i hp
    exact ⟨hh, not_watching hh hp⟩

/-- `notify_all`: nobody watches any more, since the notifier has the mutex and the parked are woken. -/
theorem wakeInv_notify {party : Party} (h : WakeInv b w) (hn : w.signals party = .notify) :
    WakeInv b ({ w with
      waiters := BlockingWorld.wake w.waiters
      unsignalled := BlockingWorld.notified w.unsignalled party }.gotoSignal party .unlock) := by
  have hmutex : w.mutex = some party := h.signalMutex party (by rw [hn]; rfl)
  have hparty : ∀ k, party ≠ .waiter k := by
    rintro k rfl
    rw [h.quiet k] at hn
    cases hn
  have hfree : ∀ k, (w.waiters k).pc.holds = false := by
    intro k
    by_contra hk
    have := h.waiterMutex k (by simpa using hk)
    rw [hmutex] at this
    exact hparty k (Option.some.inj this)
  have hwoken := fun k => not_watching_wake (hfree k)
  constructor
  · exact h.grounded
  · intro p hp
    by_cases he : Party.producer p = party
    · subst he
      simp only [BlockingWorld.gotoSignal, BlockingWorld.notified, Function.update_self] at hp
      cases hp
    · simp only [BlockingWorld.gotoSignal, Function.update_of_ne he]
      refine h.owes p ?_
      cases party with
      | producer p' =>
        have hpp : p ≠ p' := fun hpp => he (by rw [hpp])
        simpa only [BlockingWorld.gotoSignal, BlockingWorld.notified, Function.update_of_ne hpp] using hp
      | waiter k | caller t => exact hp
  · intro k
    simp only [BlockingWorld.gotoSignal, Function.update_of_ne (hparty k).symm]
    exact h.quiet k
  · intro q hq
    by_cases he : q = party
    · subst he
      exact hmutex
    · simp only [BlockingWorld.gotoSignal, Function.update_of_ne he] at hq
      exact h.signalMutex q hq
  · intro k hk
    have hk' : (BlockingWorld.wake w.waiters k).pc.holds = true := hk
    rw [(hwoken k).1] at hk'
    cases hk'
  · intro k s hk
    have hk' : (BlockingWorld.wake w.waiters k).pc.watches = some s := hk
    rw [(hwoken k).2.1] at hk'
    cases hk'
  · intro k hk
    have hk' : (BlockingWorld.wake w.waiters k).pc.pastState = true := hk
    rw [(hwoken k).2.2.1] at hk'
    cases hk'
  · intro k hk
    have hk' : (BlockingWorld.wake w.waiters k).pc.pastAlert = true := hk
    rw [(hwoken k).2.2.2] at hk'
    cases hk'

/-- A step of a signalling thread. -/
theorem wakeInv_signal {party : Party} (h : WakeInv b w) (hs : w.signalStep party = some w') : WakeInv b w' := by
  have hparty : ∀ k, party ≠ .waiter k := by
    rintro k rfl
    simp [BlockingWorld.signalStep, h.quiet k] at hs
  -- taking the free mutex
  have htake : ∀ pc, w.mutex = none → (w.signals party).due = true ∧ pc.due = true ∨ (w.signals party).due = false →
      WakeInv b ({ w with mutex := some party, alerted := w.alerted }.gotoSignal party pc) := by
    intro pc hfree hdue
    refine wakeInv_gotoSignal h hparty (fun hd => ?_) (fun _ => rfl) (fun q _ hq => ?_) (fun k hk => ?_) .inl
    · rcases hdue with ⟨-, hd'⟩ | hd'
      · exact hd'
      · rw [hd] at hd'
        cases hd'
    · rw [h.signalMutex q hq] at hfree
      cases hfree
    · rw [h.waiterMutex k hk] at hfree
      cases hfree
  -- going on with the mutex in hand
  have hhold : ∀ pc alerted, (w.signals party).holds = true → (w.signals party).due = false → pc.holds = true →
      (alerted = true → w.alerted = true ∨ pc.due = true) →
      WakeInv b ({ w with mutex := w.mutex, alerted := alerted }.gotoSignal party pc) := by
    intro pc alerted hh hdue hpc hal
    have hmutex := h.signalMutex party hh
    refine wakeInv_gotoSignal h hparty (fun hd => ?_) (fun _ => hmutex) (fun q _ => h.signalMutex q) h.waiterMutex hal
    rw [hdue] at hd
    cases hd
  unfold BlockingWorld.signalStep at hs
  split at hs <;> rename_i hn
  · cases hs
  · simp only [Option.ite_none_right_eq_some, Option.some.injEq] at hs
    obtain ⟨hfree, rfl⟩ := hs
    exact htake .notify hfree (.inl ⟨by rw [hn]; rfl, rfl⟩)
  · simp only [Option.some.injEq] at hs
    subst hs
    exact wakeInv_notify h hn
  · simp only [Option.some.injEq] at hs
    subst hs
    have hmutex : w.mutex = some party := h.signalMutex party (by rw [hn]; rfl)
    refine wakeInv_gotoSignal h hparty (fun hd => ?_) nofun (fun q hq hh => ?_) (fun k hk => ?_) .inl
    · rw [hn] at hd
      cases hd
    · have := h.signalMutex q hh
      rw [hmutex] at this
      exact absurd (Option.some.inj this).symm hq
    · have := h.waiterMutex k hk
      rw [hmutex] at this
      exact absurd (Option.some.inj this) (hparty k)
  · simp only [Option.ite_none_right_eq_some, Option.some.injEq] at hs
    obtain ⟨hfree, rfl⟩ := hs
    exact htake .alertStore hfree (.inr (by rw [hn]; rfl))
  · simp only [Option.some.injEq] at hs
    subst hs
    exact hhold .notify true (by rw [hn]; rfl) (by rw [hn]; rfl) rfl fun _ => .inr rfl
  · simp only [Option.ite_none_right_eq_some, Option.some.injEq] at hs
    obtain ⟨hfree, rfl⟩ := hs
    exact htake .clearStore hfree (.inr (by rw [hn]; rfl))
  · simp only [Option.some.injEq] at hs
    subst hs
    exact hhold .unlock false (by rw [hn]; rfl) (by rw [hn]; rfl) rfl nofun

/-! ### All steps -/

/-- The sequencer changes outside the producers. -/
theorem wakeInv_world {a : SequencerAction} {s' : SequencerWorld} (h : WakeInv b w)
    (ha : a.isConsumers = true ∨ a = .close ∨ a = .reopen ∨ a = .poison) (hs : w.feed.world.step b a = some s') :
    WakeInv b { w with feed := { w.feed with world := s' } } := by
  obtain ⟨hg, hc, hr⟩ := grounded_other h.grounded ha hs
  constructor
  · exact hg
  · intro p hp
    exact (h.owes p hp).frame rfl fun _ => congrFun hr p
  · exact h.quiet
  · exact h.signalMutex
  · exact h.waiterMutex
  · intro k s hk hle
    exact h.cursor k s hk (by simpa only [hc] using hle)
  · exact h.state
  · exact h.alert

/-- A thread that was not signalling starts a call. -/
theorem wakeInv_begin {t : Nat} {pc : SignalPc} (h : WakeInv b w) (hn : w.signals (.caller t) = .none)
    (hpc : pc.holds = false) : WakeInv b (w.gotoSignal (.caller t) pc) := by
  refine @wakeInv_gotoSignal _ _ _ _ _ w.mutex w.alerted h nofun (fun hd => ?_) (fun hh => ?_)
    (fun q _ => h.signalMutex q) h.waiterMutex .inl
  · rw [hn] at hd
    cases hd
  · rw [hpc] at hh
    cases hh

/-- **Step lemma.** -/
theorem wakeInv_step {a : BlockingAction E} (h : WakeInv b w) (hs : w.step b deps a = some w') : WakeInv b w' := by
  cases a with
  | feed a =>
    simp only [BlockingWorld.step] at hs
    split at hs
    · rename_i p hp
      exact wakeInv_feed h hp hs
    · cases hs
  | sequences a =>
    simp only [BlockingWorld.step, Option.ite_none_right_eq_some, Option.map_eq_some_iff] at hs
    obtain ⟨ha, s', hst, rfl⟩ := hs
    exact wakeInv_world h (.inl ha) hst
  | waitFor k barrier s =>
    have hpc : w' = { w with
        waiters := Function.update w.waiters k ⟨barrier, .barrier (barrierStart .waitFor false s)⟩ } := by
      simp only [BlockingWorld.step] at hs
      split at hs <;> simp only [Option.some.injEq, reduceCtorEq] at hs <;> exact hs.symm
    subst hpc
    have hother : ∀ q, Function.update w.waiters k ⟨barrier, .barrier (barrierStart .waitFor false s)⟩ q = w.waiters q ∨
        ∃ pc, (Function.update w.waiters k ⟨barrier, .barrier (barrierStart .waitFor false s)⟩ q).pc = .barrier pc := by
      intro q
      by_cases hq : q = k
      · subst hq
        rw [Function.update_self]
        exact .inr ⟨_, rfl⟩
      · rw [Function.update_of_ne hq]
        exact .inl rfl
    refine ⟨h.grounded, h.owes, h.quiet, h.signalMutex, fun q hq => ?_, fun q s hq => ?_, fun q hq => ?_, fun q hq => ?_⟩ <;>
      rcases hother q with he | ⟨pc, he⟩ <;> simp only [he] at hq ⊢ <;> first | cases hq | skip
    · exact h.waiterMutex q hq
    · exact h.cursor q s hq
    · exact h.state q hq
    · exact h.alert q hq
  | waiter k => exact wakeInv_waiter h hs
  | alert t barrier =>
    simp only [BlockingWorld.step, Option.ite_none_right_eq_some, Option.some.injEq] at hs
    obtain ⟨hn, rfl⟩ := hs
    have hbegin : WakeInv b (w.gotoSignal (.caller t) .lock) := wakeInv_begin h hn rfl
    exact ⟨hbegin.grounded, hbegin.owes, hbegin.quiet, hbegin.signalMutex, hbegin.waiterMutex, hbegin.cursor, hbegin.state,
      fun q _ _ => ⟨.caller t, by simp only [BlockingWorld.gotoSignal, Function.update_self]; rfl⟩⟩
  | clearAlert barrier =>
    simp only [BlockingWorld.step, Option.some.injEq] at hs
    subst hs
    refine ⟨h.grounded, h.owes, h.quiet, h.signalMutex, h.waiterMutex, h.cursor, h.state, fun q hq hal => h.alert q hq ?_⟩
    by_cases he : (w.waiters q).barrier = barrier
    · simp only [he, Function.update_self] at hal
      cases hal
    · simpa only [Function.update_of_ne he] using hal
  | poison t =>
    simp only [BlockingWorld.step, Option.ite_none_right_eq_some, Option.map_eq_some_iff] at hs
    obtain ⟨hn, s', hst, rfl⟩ := hs
    exact wakeInv_begin (w := { w with feed := { w.feed with world := s' } }) (wakeInv_world h (.inr (.inr (.inr rfl))) hst) hn
      rfl
  | close t =>
    simp only [BlockingWorld.step, Feed.step, Option.ite_none_right_eq_some, Option.map_eq_some_iff] at hs
    obtain ⟨hn, f, ⟨s', hst, rfl⟩, rfl⟩ := hs
    exact wakeInv_begin (w := { w with feed := { w.feed with world := s' } }) (wakeInv_world h (.inr (.inl rfl)) hst) hn rfl
  | reopen =>
    simp only [BlockingWorld.step, Feed.step, Option.map_eq_some_iff] at hs
    obtain ⟨f, ⟨s', hst, rfl⟩, rfl⟩ := hs
    exact wakeInv_world h (.inr (.inr (.inl rfl))) hst
  | strategyAlert t | strategyClearAlert t =>
    simp only [BlockingWorld.step, Option.ite_none_right_eq_some, Option.some.injEq] at hs
    obtain ⟨hn, rfl⟩ := hs
    exact wakeInv_begin h hn rfl
  | signal party => exact wakeInv_signal h hs

/-! ## Runs -/

/-- All runs of any number of consumers, producers and other threads over one blocking strategy. -/
def BlockingReach (b : BufferSize) (deps : Nat → List Nat) (multiProducer unique : Bool) (gating : List Nat)
    (ring : Nat → E) (w : BlockingWorld E) : Prop :=
  Reach (BlockingWorld.step b deps) (fun _ _ => True) (BlockingWorld.init b multiProducer unique gating ring) w

/-- A thread is still due to notify: it stands before the notification of a signal, or it is a producer inside its publish
call that has moved the cursor and not notified since. -/
def BlockingWorld.Due (w : BlockingWorld E) : Prop :=
  w.Signalling ∨ ∃ p, w.unsignalled p = true ∧ w.feed.phases p ≠ .idle

/-- What ends the wait of a consumer for `s`: the cursor has reached it, or an alert flag is set. -/
def BlockingWorld.MayLeave (w : BlockingWorld E) (k : Nat) (s : Int) : Prop :=
  s ≤ w.feed.world.cursor ∨ w.barriers (w.waiters k).barrier = true ∨ w.alerted = true

/-- **No lost wakeup.** In no reachable state is a consumer parked that may leave while nobody is due to notify. -/
theorem no_lost_wakeup {multiProducer unique : Bool} {gating : List Nat} {ring : Nat → E}
    (h : BlockingReach b deps multiProducer unique gating ring w) :
    ¬∃ k s, (w.waiters k).pc = .parked s ∧ w.MayLeave k s ∧ ¬w.Due := by
  have hI : WakeInv b w := Reach.inv (I := WakeInv b) (wakeInv_init b multiProducer unique gating ring)
    (fun hI _ hs => wakeInv_step hI hs) h
  rintro ⟨k, s, hk, hleave, hdue⟩
  rcases hleave with hcur | hal | hst
  · obtain ⟨p, hp⟩ := hI.cursor k s (by rw [hk]; rfl) hcur
    by_cases hidle : w.feed.phases p = .idle
    · have howes := hI.owes p hp
      simp only [Owes, hidle] at howes
      exact hdue (.inl ⟨_, howes⟩)
    · exact hdue (.inr ⟨p, hp, hidle⟩)
  · exact hdue (.inl (hI.alert k (by rw [hk]; rfl) hal))
  · exact hdue (.inl (hI.state k (by rw [hk]; rfl) hst))

/-- A consumer parks for sequence 0, then a producer behind the multi-producer sequencer claims it: the cursor has passed the
consumer, and the producer is due to notify. -/
theorem no_lost_wakeup_claimed : ∃ w : BlockingWorld Unit,
    BlockingReach ⟨0, by decide⟩ (fun _ => []) true false [0] (fun _ => ()) w ∧
    (w.waiters 0).pc = .parked 0 ∧ 0 ≤ w.feed.world.cursor ∧ w.Due := by
  obtain ⟨w, hw, hk, hc⟩ : ∃ w : BlockingWorld Unit,
      BlockingReach ⟨0, by decide⟩ (fun _ => []) true false [0] (fun _ => ()) w ∧
        (w.waiters 0).pc = .parked 0 ∧ 0 ≤ w.feed.world.cursor :=
    ⟨_, reach_of_exec [.waitFor 0 0 0, .waiter 0, .waiter 0, .waiter 0, .waiter 0, .waiter 0, .waiter 0, .waiter 0,
      .feed (.call 0 (.nextN 1)), .feed (.step 0), .feed (.step 0), .feed (.step 0), .feed (.step 0), .feed (.step 0)] rfl,
      rfl, by decide⟩
  refine ⟨w, hw, hk, hc, ?_⟩
  by_contra hdue
  exact no_lost_wakeup hw ⟨0, 0, hk, .inl hc, hdue⟩

end BadBatch
