import BadBatch.Pipeline.Events

/-!
# A pipeline is never stuck

Producers wait for the last stage, every stage waits for the one before, and the first stage waits for the producers. When
nothing fails and nobody asks for a stop, this circle never closes: whoever waits has a `Sequence` one below what it waits
for, workers included (an idle worker advertises the work cursor), so if all consumers wait for something that is not there,
all of them have reached the cursor, and a claim of up to a whole ring fits.

* `calmInv_step`: without failures and stop requests every consumer stays in its loop;
* `passed_of_unavailable`: consumers that all wait in vain have passed everything published;
* `builder_never_stuck`: so some consumer can move while a producer waits for capacity.
-/

namespace BadBatch

open MultiProducerSequencer StepSys

variable {E : Type} {b : BufferSize} {t : Wiring} {handlers : Nat → E → Int → Bool → E} {st st' : Pipeline E} {c k : Nat}
  {s n : Int}

/-! ## Runs without failures and stop requests -/

/-- A step that fails nothing and asks nobody to stop. -/
def PipelineAction.calm : PipelineAction E → Bool
  | producer a =>
    match a with
    | .close => false
    | a => !a.fails
  | consumer _ i _ => !i.fails
  | wait _ _ | barrier _ _ => true
  | restart _ | raiseShutdown | setRunning _ _ | setAlert _ _ => false

/-- The runs of a Builder pipeline in which no handler fails, nothing is poisoned and nobody asks for a stop. -/
def CalmReach (b : BufferSize) (consumers : List ConsumerInfo) (handlers : Nat → E → Int → Bool → E) :
    Pipeline E → Pipeline E → Prop :=
  PipeReach b (createDisruptorCore consumers) handlers fun _ a => a.calm = true

/-- The thread is in a handler or in the code of its loop; a loop that failed or was stopped is not. -/
def SeqPc.inLoop : SeqPc → Bool
  | start | enter | loop _ | waiting _ | waitErr _ | batchStart _ _ | event _ _ | inEvent _ _ | store _ => true
  | freeze _ | record _ _ | poison _ _ | stopping | recordShutdown _ | done => false

/-- An input that lets a loop go on. -/
def EngineInput.calm : EngineInput → Bool
  | flag go => go
  | answer (.error e) => !endsLoop e
  | i => !i.fails

/-- A barrier that nobody stops returns an error only after a timeout. -/
def BarrierPc.calm : BarrierPc → Bool
  | returned (.error e) => !endsLoop e
  | _ => true

theorem seqStep_inLoop {cfg : EngineConfig} {sequence sequence' : Int} {l l' : SeqLoop} {i : EngineInput}
    (h : seqStep cfg sequence l i = some (sequence', l')) (hi : i.calm = true) (hl : l.pc.inLoop = true) :
    l'.pc.inLoop = true := by
  obtain ⟨pc, calls, ret, ends, failed⟩ := l
  cases seqRule_of_seqStep h with
  | panic | stop | giveUp | startFailed | batchStartFailed | skip | fail | shutdownFailed => cases hi
  | ended he =>
    simp only [EngineInput.calm, he, Bool.not_true, Bool.false_eq_true] at hi
  | freeze | record | poison | poisonLast | doneReadonly | done | recordShutdown => cases hl
  | _ => rfl

theorem workStep_inLoop {cfg : EngineConfig} {work work' sequence sequence' : Int} {l l' : WorkLoop} {i : EngineInput}
    (h : workStep cfg work sequence l i = some (work', sequence', l')) (hi : i.calm = true) (hl : l.pc.stopped = false) :
    l'.pc.stopped = false := by
  obtain ⟨pc, ca, la, calls, ret⟩ := l
  cases workRule_of_workStep h with
  | panic | stopOuter | stopInner | stopGuard | giveUp | startFailed | batchStartFailed | fail | shutdownFailed => cases hi
  | ended he =>
    simp only [EngineInput.calm, he, Bool.not_true, Bool.false_eq_true] at hi
  | record | poison | poisonLast | done | recordShutdown => cases hl
  | _ => rfl

theorem calm_resolved (call : BarrierCall) (r : Int) : (BarrierPc.resolved call r).calm = true := by
  cases call <;> rfl

theorem calm_resolveHighestPublished (w : SequencerWorld) (call : BarrierCall) (s r : Int) :
    (BarrierPc.resolveHighestPublished w call s r).calm = true := by
  cases w with
  | single w => exact calm_resolved call r
  | multi w =>
    simp only [BarrierPc.resolveHighestPublished]
    split
    · exact calm_resolved call r
    · rfl

theorem calm_polled (w : SequencerWorld) (call : BarrierCall) (s r : Int) : (BarrierPc.polled w call s r).calm = true := by
  cases call with
  | tryGetAvailableSequence => exact calm_resolveHighestPublished w _ s r
  | waitFor | waitForWithTimeout | waitForWithShutdown =>
    simp only [BarrierPc.polled]
    split <;> rfl

theorem barrierStep_calm {w : SequencerWorld} {deps : List Nat} {pc pc' : BarrierPc} {i : BarrierInput}
    (h : barrierStep b w deps false false pc i = some pc') : pc'.calm = true := by
  cases pc with
  | idle | returned r => cases i <;> simp [barrierStep] at h
  | checkStop call s | checkAlert call s | exitAlert r =>
    cases i <;> simp only [barrierStep, Option.some.injEq, reduceCtorEq] at h
    subst h
    rfl
  | timedOut =>
    cases i <;> simp only [barrierStep, Option.some.injEq, reduceCtorEq] at h
    subst h
    rfl
  | waiting call s =>
    cases i with
    | next =>
      cases deps <;> simp only [barrierStep, Option.some.injEq] at h <;> subst h
      · exact calm_polled w call s _
      · rfl
    | loadAlert | loadShutdown | timeout =>
      simp only [barrierStep, Option.ite_none_left_eq_some, Option.ite_none_right_eq_some, Option.some.injEq] at h
      obtain ⟨-, rfl⟩ := h
      rfl
  | poll call s rest minimum =>
    cases i <;> cases rest <;> simp only [barrierStep, Option.some.injEq, reduceCtorEq] at h <;> subst h
    · exact calm_polled w call s minimum
    · rfl
  | recheck call s available =>
    cases i <;> simp only [barrierStep, Option.some.injEq, reduceCtorEq] at h
    subst h
    exact calm_resolveHighestPublished w call s available
  | scan call s next available =>
    cases i <;> simp only [barrierStep, reduceCtorEq] at h
    cases w with
    | single w => cases h
    | multi w =>
      simp only at h
      split at h
      · split at h <;> simp only [Option.some.injEq] at h <;> subst h
        · rfl
        · exact calm_resolved call _
      · simp only [Option.some.injEq] at h
        subst h
        exact calm_resolved call available

/-- In a calm run nobody has been told to stop. -/
structure CalmInv (st : Pipeline E) : Prop where
  shutdown : st.shutdown = false
  alerted : ∀ c, st.alerted c = false
  barriers : ∀ c, (st.barriers c).calm = true
  sequential : ∀ c, (st.sequential c).pc.inLoop = true
  workers : ∀ c, (st.workers c).pc.stopped = false

theorem calmInv_init {multiProducer unique : Bool} {factory : Nat → E} :
    CalmInv (Pipeline.init b t multiProducer unique factory) where
  shutdown := rfl
  alerted _ := rfl
  barriers _ := rfl
  sequential _ := rfl
  workers _ := rfl

theorem CalmInv.shouldContinue (h : CalmInv st) (ht : t.stop = .external) : st.shouldContinue t c = true := by
  simp only [Pipeline.shouldContinue, ht, h.shutdown]
  rfl

/-- What the shared state lets the loop read does not stop it. -/
theorem CalmInv.input (h : CalmInv st) (ht : t.stop = .external) {i : EngineInput} (hin : st.inputOk t c i = true)
    (hi : i.fails = false) : i.calm = true := by
  cases i with
  | tick => rfl
  | flag go =>
    simp only [Pipeline.inputOk, h.shouldContinue ht, beq_iff_eq] at hin
    exact hin
  | answer r =>
    have hb := h.barriers c
    rw [inputOk_answer hin rfl] at hb
    cases r with
    | ok r => rfl
    | error e => exact hb
  | handler o => simp only [EngineInput.calm, hi, Bool.not_false]
  | panic => cases hi

/-- **Step lemma.** -/
theorem calmInv_step {a : PipelineAction E} (ht : t.stop = .external) (h : CalmInv st) (ha : a.calm = true)
    (hs : st.step b t handlers a = some st') : CalmInv st' := by
  cases pipelineRule_of_step hs with
  | producer => exact ⟨h.shutdown, h.alerted, h.barriers, h.sequential, h.workers⟩
  | @wait c =>
    refine ⟨h.shutdown, h.alerted, fun d => ?_, h.sequential, h.workers⟩
    by_cases hd : d = c
    · subst hd
      simp only [Function.update_self, barrierStart]
      split <;> rfl
    · simp only [Function.update_of_ne hd]
      exact h.barriers d
  | @barrier c i pc hc hst =>
    rw [h.alerted c, h.shouldContinue ht] at hst
    refine ⟨h.shutdown, h.alerted, fun d => ?_, h.sequential, h.workers⟩
    by_cases hd : d = c
    · subst hd
      simp only [Function.update_self]
      exact barrierStep_calm hst
    · simp only [Function.update_of_ne hd]
      exact h.barriers d
  | @consumer c i torn _ hstep =>
    have hi : i.fails = false := by simpa [PipelineAction.calm] using ha
    obtain ⟨-, hin, ⟨-, v, l, hst, rfl⟩ | ⟨-, work, v, l, hst, rfl⟩⟩ := consumerStep_cases hstep
    all_goals
      have hcalm := h.input ht hin hi
      obtain ⟨ring, held, received, doneBy, he⟩ := access_frame b t handlers _ c _ _ i torn
      rw [he]
      refine ⟨h.shutdown, h.alerted, fun d => ?_, fun d => ?_, fun d => ?_⟩ <;>
        simp only [Pipeline.settle] <;> by_cases hd : d = c
    · subst hd; simp only [Function.update_self]; rfl
    · simp only [Function.update_of_ne hd]; exact h.barriers d
    · subst hd; simp only [Function.update_self]; exact seqStep_inLoop hst hcalm (h.sequential d)
    · simp only [Function.update_of_ne hd]; exact h.sequential d
    · exact h.workers d
    · exact h.workers d
    · subst hd; simp only [Function.update_self]; rfl
    · simp only [Function.update_of_ne hd]; exact h.barriers d
    · exact h.sequential d
    · exact h.sequential d
    · subst hd; simp only [Function.update_self]; exact workStep_inLoop hst hcalm (h.workers d)
    · simp only [Function.update_of_ne hd]; exact h.workers d
  | restart | raiseShutdown | setRunning | setAlert => cases ha

/-! ## Waiting in vain -/

/-- The barrier of consumer `c` has `s` available: the cursor, or every sequence it depends on, has reached `s`, and behind a
multi-producer sequencer `s` is flagged. -/
def Pipeline.Available (b : BufferSize) (t : Wiring) (st : Pipeline E) (c : Nat) (s : Int) : Prop :=
  Offered st.feed.world (t.dependentSequences c) s ∧
    match st.feed.world with
    | .single _ => True
    | .multi w => w.sequencer.isAvailableInternal b s = true

/-- Consumer `c` executes a handler or the code of its loop. -/
def Pipeline.Executes (t : Wiring) (st : Pipeline E) (c : Nat) : Prop :=
  st.awaited t c = none ∧
    match t.runMode (t.stage c) with
    | .sequential => (st.sequential c).pc.inLoop = true
    | .workPool => (st.workers c).pc.stopped = false

/-- The call of the claim path that producer `p` is inside of. -/
def SequencerWorld.call : SequencerWorld → Nat → Option ClaimCall
  | single w, p => if w.driver = p then w.pc.call else none
  | multi w, p => (w.producers p).call

/-- The capacity test of `next_n(n)`: the wrap point against the minimum of the gating sequences and the claimed position,
which is `next_value` or the cursor. -/
def SequencerWorld.hasCapacity (b : BufferSize) (w : SequencerWorld) (n : Int) : Bool :=
  decide ¬w.high + n - b.sizeI64 > getMinimumSequenceWithDefault w.sequences w.gatingSequences w.high

/-- A producer inside `next_n(n)` asked for at least one sequence and at most a ring. -/
theorem SequencerWorld.Inv.call_bounds {w : SequencerWorld} {p : Nat} (h : w.Inv b) (hp : w.call p = some (.nextN n)) :
    1 ≤ n ∧ n ≤ b.sizeI64 := by
  cases w with
  | single w =>
    have hpc := SingleInv.pc h
    simp only [SequencerWorld.call] at hp
    split at hp
    · cases hw : w.pc <;> simp only [hw, SinglePc.call, Option.some.injEq, reduceCtorEq] at hp <;> subst hp <;>
        rw [hw] at hpc <;> exact hpc.1
    · cases hp
  | multi w =>
    have hpc := (AvailInv.claims h).pcs p
    simp only [SequencerWorld.call] at hp
    cases hw : w.producers p <;> simp only [hw, MultiPc.call, Option.some.injEq, reduceCtorEq] at hp <;> subst hp <;>
      rw [hw] at hpc
    case cas current => exact ⟨hpc.1, hpc.2.1⟩
    case loadCursor | loadGating => exact hpc
    all_goals exact hpc.1

/-- When nobody holds an unpublished claim, everything claimed is published. -/
theorem SequencerWorld.Inv.published_of_unheld {w : SequencerWorld} (h : w.Inv b) (hheld : ∀ s, w.ledger.owner s = none)
    (h0 : 0 ≤ s) (hs : s ≤ w.high) : w.ledger.published s = true := by
  rcases h.ledger.settled h0 hs with hp | ⟨p, hp⟩
  · exact hp
  · rw [hheld s] at hp
    cases hp

theorem SequencerWorld.Inv.cursor_eq_high {w : SequencerWorld} (h : w.Inv b) (hheld : ∀ s, w.ledger.owner s = none) :
    w.cursor = w.high := by
  have hpub := fun h0 => h.published_of_unheld hheld h0 (le_refl w.high)
  cases w with
  | single w =>
    have hI : SingleInv b w := h
    have hle := hI.cursor_le
    have hlow := hI.low
    simp only [SequencerWorld.high, SequencerWorld.cursor] at hpub ⊢
    by_cases h0 : 0 ≤ w.sequencer.nextValue
    · have := (hI.published _).mp (hpub h0)
      omega
    · omega
  | multi w => rfl

/-- What is published and offered is available to a consumer that has not passed it. -/
theorem PipeInv.available (hwf : t.Wf) (h : PipeInv b t st) (hc : c < t.count) (hs : st.sequences c < s)
    (ho : Offered st.feed.world (t.dependentSequences c) s) (hpub : st.feed.world.ledger.published s = true) :
    st.Available b t c s := by
  refine ⟨ho, ?_⟩
  have hworld := h.feed.world
  have hclaimed := hworld.ledger.claimed hpub
  have hhigh := h.high_le hwf hc
  have hlap := hworld.lap
  cases hw : st.feed.world with
  | single w => trivial
  | multi w =>
    rw [hw] at hworld hpub hclaimed hhigh hlap
    simp only [SequencerWorld.high] at hclaimed hhigh hlap
    exact (AvailInv.available_iff hworld hclaimed.1 (by omega) (Below.le hlap (by omega))).mpr hpub

/-- Consumers that all wait for something that is not there have reached the cursor. -/
theorem PipeInv.reached_of_unavailable (hwf : t.Wf) (h : PipeInv b t st) (hheld : ∀ s, st.feed.world.ledger.owner s = none)
    (hwait : ∀ c < t.count, ∃ s, st.awaited t c = some s ∧ ¬st.Available b t c s) :
    ∀ c < t.count, st.feed.world.cursor ≤ st.sequences c := by
  -- from the first stage up
  suffices hall : ∀ k, ∀ c < t.count, t.stage c = k → st.feed.world.cursor ≤ st.sequences c from
    fun c hc => hall _ c hc rfl
  intro k
  induction k using Nat.strongRecOn with
  | ind k ih =>
    intro c hc hk
    obtain ⟨s, ha, hno⟩ := hwait c hc
    obtain ⟨rfl, -⟩ := h.awaited hc ha
    by_contra hlt
    have hlow := (h.consumers.each c hc).low
    have hle := h.feed.world.cursor_le
    refine hno (h.available hwf hc (by omega) ?_ (h.feed.world.published_of_unheld hheld (by omega) (by omega)))
    unfold Offered
    split
    · omega
    · intro d hd
      obtain ⟨hd, -, hstage⟩ := (hwf.dependents c hc d).mp hd
      have hpassed : st.feed.world.cursor ≤ st.sequences d := ih (t.stage d) (by omega) d hd rfl
      simp only [Pipeline.sequences] at hpassed hlt ⊢
      omega

/-- Once every consumer has reached the cursor, a claim of up to a ring fits. -/
theorem PipeInv.hasCapacity (hwf : t.Wf) (h : PipeInv b t st) (hheld : ∀ s, st.feed.world.ledger.owner s = none)
    (hreached : ∀ c < t.count, st.feed.world.cursor ≤ st.sequences c) (hn : n ≤ b.sizeI64) :
    st.feed.world.hasCapacity b n = true := by
  have heq := h.feed.world.cursor_eq_high hheld
  have hmin : st.feed.world.high + n - b.sizeI64 ≤
      getMinimumSequenceWithDefault st.feed.world.sequences st.feed.world.gatingSequences st.feed.world.high := by
    refine le_getMinimumSequenceWithDefault.mpr ⟨by omega, fun i hi => ?_⟩
    have := hreached i (hwf.gating i ((h.gating i).mp hi))
    simp only [Pipeline.sequences] at this
    omega
  simpa [SequencerWorld.hasCapacity] using hmin

/-- **A failure-free pipeline is never stuck.** In every state that a Builder pipeline reaches without a handler failure, a
poison or a stop request, while a producer is inside `next_n(n)` and nobody holds an unpublished claim: if there is no
capacity for `n`, then some consumer executes its handler or loop code or waits for a sequence that its barrier has available;
and if every consumer waits for a sequence that is not available, then all of them have reached the cursor and there is
capacity for `n`. -/
theorem builder_never_stuck {first : ConsumerAccess} {calls : List BuilderCall} {consumers : List ConsumerInfo}
    {multiProducer : Bool} {factory : Nat → E} {p : Nat} (hcalls : builderConsumers first calls = some consumers)
    (h : CalmReach b consumers handlers (builderInit b consumers multiProducer factory) st)
    (hp : st.feed.world.call p = some (.nextN n)) (hheld : ∀ s, st.feed.world.ledger.owner s = none) :
    (st.feed.world.hasCapacity b n = false → ∃ c < consumers.length, st.Executes (createDisruptorCore consumers) c ∨
      ∃ s, st.awaited (createDisruptorCore consumers) c = some s ∧ st.Available b (createDisruptorCore consumers) c s) ∧
    ((∀ c < consumers.length, ∃ s, st.awaited (createDisruptorCore consumers) c = some s ∧
        ¬st.Available b (createDisruptorCore consumers) c s) →
      (∀ c < consumers.length, st.feed.world.cursor ≤ st.sequences c) ∧ st.feed.world.hasCapacity b n = true) := by
  have hwf := wf_createDisruptorCore hcalls
  obtain ⟨hI, hcalm⟩ : PipeInv b (createDisruptorCore consumers) st ∧ CalmInv st :=
    Reach.inv (I := fun q => PipeInv b (createDisruptorCore consumers) q ∧ CalmInv q)
      ⟨pipeInv_init hwf _ _ _, calmInv_init⟩
      (fun hI ha hs => ⟨pipeInv_step hwf hI.1 hs, calmInv_step rfl hI.2 ha hs⟩) h
  have hn := (hI.feed.world.call_bounds hp).2
  have hreached := hI.reached_of_unavailable hwf hheld
  constructor
  · intro hfull
    by_contra hnone
    -- a consumer that does not execute waits, and not for something available
    have hwait : ∀ c < consumers.length, ∃ s, st.awaited (createDisruptorCore consumers) c = some s ∧
        ¬st.Available b (createDisruptorCore consumers) c s := by
      intro c hc
      cases ha : st.awaited (createDisruptorCore consumers) c with
      | none =>
        refine absurd ⟨c, hc, .inl ⟨ha, ?_⟩⟩ hnone
        split
        · exact hcalm.sequential c
        · exact hcalm.workers c
      | some s => exact ⟨s, rfl, fun hav => hnone ⟨c, hc, .inr ⟨s, ha, hav⟩⟩⟩
    have hcap := hI.hasCapacity hwf hheld (hreached hwait) hn
    rw [hfull] at hcap
    cases hcap
  · intro hwait
    exact ⟨hreached hwait, hI.hasCapacity hwf hheld (hreached hwait) hn⟩

/-- The only slot holds sequence 0, its consumer still waits for it, and the producer waits for the slot. -/
theorem builder_never_stuck_full : ∃ st : Pipeline Nat,
    CalmReach ⟨0, by decide⟩ [⟨0, .mutable⟩] (fun _ e _ _ => e)
      (builderInit ⟨0, by decide⟩ [⟨0, .mutable⟩] true fun _ => 0) st ∧
    st.feed.world.call 0 = some (.nextN 1) ∧ st.feed.world.hasCapacity ⟨0, by decide⟩ 1 = false ∧
    ∃ c < 1, st.Executes (createDisruptorCore [⟨0, .mutable⟩]) c ∨
      ∃ s, st.awaited (createDisruptorCore [⟨0, .mutable⟩]) c = some s ∧
        st.Available ⟨0, by decide⟩ (createDisruptorCore [⟨0, .mutable⟩]) c s := by
  obtain ⟨st, hr, hcall, hfull, hheld⟩ : ∃ st : Pipeline Nat,
      CalmReach ⟨0, by decide⟩ [⟨0, .mutable⟩] (fun _ e _ _ => e)
        (builderInit ⟨0, by decide⟩ [⟨0, .mutable⟩] true fun _ => 0) st ∧
      st.feed.world.call 0 = some (.nextN 1) ∧ st.feed.world.hasCapacity ⟨0, by decide⟩ 1 = false ∧
      ∀ s, st.feed.world.ledger.owner s = none := by
    refine ⟨_, reach_of_exec [.consumer 0 (.handler .ok) none, .consumer 0 .tick none, .consumer 0 (.flag true) none,
      .wait 0 .waitForWithShutdown, .producer (.call 0 (.nextN 1)), .producer (.step 0), .producer (.step 0),
      .producer (.step 0), .producer (.step 0), .producer (.step 0), .producer (.claimed 0), .producer (.write 0 7),
      .producer (.publish 0), .producer (.step 0), .producer (.published 0), .producer (.call 0 (.nextN 1))] rfl, rfl, rfl,
      fun s => ?_⟩
    show (((Ledger.empty.grant 0 1 0).publish 0 1).owner s) = none
    simp only [Ledger.grant, Ledger.publish, Ledger.empty]
    split
    · rfl
    · rw [if_neg (by omega)]
  exact ⟨st, hr, hcall, hfull, (builder_never_stuck (show builderConsumers .mutable [] = some _ from rfl)
    hr hcall hheld).1 hfull⟩

end BadBatch
