import BadBatch.ConsumerEngine.Batch

/-!
# One processor, driven alone

`BatchEventProcessor::run` and `BatchEventProcessor::try_run_once` as functions on one processor. `run` hands its batches to
the sequential loop under a panic boundary; `try_run_once` is written out again by hand, with the boundary around the
events only.

* `probe_eq`: a probe is the reference batch, apart from a panic of `on_batch_start`;
* `Tidy`, `Frozen`: what a series of probes and runs keeps when no `on_event` panics behind the first event of its batch.
-/

namespace BadBatch

open MultiProducerSequencer StepSys

/-- A `BatchEventProcessor`. -/
structure Processor (E : Type) where
  consumer : Consumer E
  running : Bool

/-- How `try_run_once` and `run` end. -/
inductive ProcessorExit
  | returned (r : Except DisruptorError Bool)
  | panicked
  /-- `Err(AlreadyRunning)` of `run` -/
  | alreadyRunning
  /-- `run` is still in its loop. -/
  | waiting
  deriving DecidableEq, Repr

/-- The loop of a processor has an exception handler, and its records name no stage. -/
def processorConfig : EngineConfig := ⟨none, false, true⟩

variable {E : Type}

namespace Processor

/-- `BatchEventProcessor::new` -/
def new (ring : Nat → E) : Processor E := ⟨⟨ring, initialCursorValue, false, none, []⟩, false⟩

variable (b : BufferSize)

/-! ## `try_run_once` -/

/-- The closure under `catch_unwind`, with as many turns as sequences are left. -/
def probeLoop (p : BatchPattern E) (available : Int) : Nat → Int → Consumer E → ProcessorExit × Consumer E
  | 0, _, st => (.returned (.ok true), { st with sequence := available })
  | turns + 1, current, st =>
    let endOfBatch := current == available
    let event := st.ring (calculateIndex b current)
    let st := (st.store b current (p.edit current event)).called (.onEvent event current endOfBatch (p.onEvent current))
    match p.onEvent current with
    | .panic => (.panicked, st)
    | .ok => probeLoop p available turns (current + 1) st
    | .err =>
      let st := st.called (.handleEventException current (p.edit current event) (p.decision current))
      if p.decision current = .stop then
        let st := { st with sequence := current - 1 }
        (.returned (.error .poisoned), st.poisonWithFailure ⟨.eventProcessing, none, some current⟩)
      else probeLoop p available turns (current + 1) st

/-- What `try_run_once` does while it holds the claim; `answer` is the result of `try_get_available_sequence`. -/
def probe (p : BatchPattern E) (answer : Except DisruptorError Int) (st : Consumer E) : ProcessorExit × Consumer E :=
  let next := st.sequence + 1
  match answer with
  | .error e => (.returned (.error e), st)
  | .ok available =>
    if available < next then (.returned (.ok false), st)
    else
      let batchSpan := available - next + 1
      let queueDepth := available - st.sequence
      let st := st.called (.onBatchStart batchSpan queueDepth p.onBatchStart)
      match p.onBatchStart with
      -- not under `catch_unwind`
      | .panic => (.panicked, st)
      | .err =>
        let st := { st with sequence := next - 1 }
        (.returned (.error .poisoned), st.poisonWithFailure ⟨.batchStart, none, some next⟩)
      | .ok =>
        match probeLoop b p available (available - next + 1).toNat next st with
        | (.panicked, st) => (.panicked, st.poisonWithFailure ⟨.consumerPanic, none, some next⟩)
        | r => r

/-- `try_run_once`. The claim guard resets `running` on every way out, which hides the explicit stores before it from a
caller that is alone. -/
def tryRunOnce (p : BatchPattern E) (answer : Except DisruptorError Int) (st : Processor E) :
    ProcessorExit × Processor E :=
  if st.running then (.returned (.ok false), st)
  else
    let (e, consumer) := probe b p answer st.consumer
    (e, ⟨consumer, false⟩)

/-! ## `run` -/

/-- What others decide in one call of `run`. -/
structure RunInput (E : Type) where
  onStart : Callback
  /-- A halt came before the loop. -/
  haltedEarly : Bool
  rounds : List (Round E)
  onShutdown : Callback

/-- `invoke_on_shutdown` -/
def invokeOnShutdown (r : Callback) (st : Consumer E) : LoopExit × Consumer E :=
  let st := st.called (.onShutdown r)
  match r with
  | .panic => (.panicked, st)
  | .ok => (.returned, st)
  | .err =>
    let st := { st with firstFailure := st.firstFailure.or (some ⟨.handlerShutdown, none, none⟩) }
    (.returned, st.called .handleOnShutdownException)

/-- `process_events` -/
def processEvents (i : RunInput E) (st : Consumer E) : LoopExit × Consumer E :=
  let st := st.called (.onStart i.onStart)
  match i.onStart with
  | .panic => (.panicked, st)
  | .err => (.returned, (st.poisonWithFailure ⟨.handlerStart, none, none⟩).called .handleOnStartException)
  | .ok =>
    if i.haltedEarly then invokeOnShutdown i.onShutdown st
    else
      match runSequentialBatchLoop b processorConfig i.rounds st with
      | (.returned, st) => invokeOnShutdown i.onShutdown st
      | r => r

/-- The panic boundary of `run`. -/
def catchUnwind : LoopExit × Consumer E → LoopExit × Consumer E
  | (.panicked, st) => (.panicked, st.poisonWithFailure ⟨.consumerPanic, none, none⟩)
  | r => r

/-- `run` -/
def run (i : RunInput E) (st : Processor E) : ProcessorExit × Processor E :=
  if st.running then (.alreadyRunning, st)
  else
    match catchUnwind (processEvents b i st.consumer) with
    | (.panicked, consumer) => (.panicked, ⟨consumer, false⟩)
    | (.returned, consumer) => (.returned (.ok true), ⟨consumer, false⟩)
    | (_, consumer) => (.waiting, ⟨consumer, true⟩)

/-- The engine of `run` on the one batch that the barrier answers with. -/
def engineBatch (p : BatchPattern E) (answer : Except DisruptorError Int) (st : Consumer E) : Consumer E :=
  (catchUnwind (runSequentialBatchLoop b processorConfig [⟨true, answer, true, p⟩] st)).2

variable {b : BufferSize} {p : BatchPattern E} {answer : Except DisruptorError Int} {z : Int}
  {st : Consumer E}

/-! ## A probe against the engine -/

/-- How a probe reports the end of its batch. -/
def probeExit : LoopExit → ProcessorExit
  | .returned => .returned (.error .poisoned)
  | .panicked => .panicked
  | _ => .returned (.ok true)

/-- The hand-written loop of the probe delivers as the reference does. -/
theorem probeLoop_eq : ∀ (turns : Nat) (current : Int) (st : Consumer E), z - current + 1 = turns →
    probeLoop b p z turns current st = (probeExit (referenceEvents b processorConfig p current z st).1,
      (referenceEvents b processorConfig p current z st).2) := by
  intro turns
  induction turns with
  | zero =>
    intro current st h
    have hn : current = z + 1 := by omega
    rw [hn, referenceEvents_nil]
    rfl
  | succ turns ih =>
    intro current st h
    have hle : current ≤ z := by omega
    have hrest := ih (current + 1)
    cases hr : p.onEvent current with
    | panic =>
      rw [referenceEvents_stop hle (by simp [stops, hr]), if_pos hr]
      simp [probeLoop, deliver, deliveryCalls, Consumer.called, Consumer.store, hr, processorConfig, probeExit]
    | ok =>
      rw [referenceEvents_cons hle (by simp [stops, fatal, hr]), ← hrest _ (by omega)]
      simp [probeLoop, deliver, deliveryCalls, Consumer.called, Consumer.store, hr, processorConfig]
    | err =>
      cases hd : p.decision current with
      | stop =>
        rw [referenceEvents_stop hle (by simp [stops, fatal, hr, hd]), if_neg (by simp [hr])]
        simp [probeLoop, deliver, deliveryCalls, Consumer.called, Consumer.store, hr, hd, processorConfig, probeExit,
          EngineConfig.failure]
      | «continue» =>
        rw [referenceEvents_cons hle (by simp [stops, fatal, hr, hd, processorConfig]), ← hrest _ (by omega)]
        simp [probeLoop, deliver, deliveryCalls, Consumer.called, Consumer.store, hr, hd, processorConfig]

/-- What a probe is compared by: the callbacks with their arguments, the `Sequence`, the poison flag and the ring. -/
structure Agree (x y : Consumer E) : Prop where
  calls : x.calls = y.calls
  sequence : x.sequence = y.sequence
  poisoned : x.poisoned = y.poisoned
  ring : x.ring = y.ring

theorem Agree.refl (x : Consumer E) : Agree x x := ⟨rfl, rfl, rfl, rfl⟩

/-- Panic records may differ in the sequence they name. -/
theorem Agree.poisoning (x : Consumer E) (f g : FailureRecord) : Agree (x.poisonWithFailure f) (x.poisonWithFailure g) :=
  ⟨rfl, rfl, rfl, rfl⟩

/-- There is nothing to deliver. -/
theorem probe_empty (h : ∀ z, answer = .ok z → z ≤ st.sequence) : (probe b p answer st).2 = st := by
  cases answer with
  | error e => rfl
  | ok z =>
    have := h z rfl
    simp only [probe, show z < st.sequence + 1 by omega, if_true]

theorem engineBatch_empty (h : ∀ z, answer = .ok z → z ≤ st.sequence) : engineBatch b p answer st = st := by
  rw [engineBatch, runSequentialBatchLoop_eq rfl]
  cases answer with
  | error e =>
    simp only [referenceLoop, if_true]
    split <;> rfl
  | ok z =>
    simp only [referenceLoop, if_true, h z rfl]
    rfl

/-- The engine of `run` on a batch. -/
theorem engineBatch_eq (h : st.sequence < z) :
    engineBatch b p (.ok z) st = (catchUnwind (reference b processorConfig p (st.sequence + 1) z st)).2 := by
  rw [engineBatch, runSequentialBatchLoop_eq rfl]
  simp only [referenceLoop, if_true, not_le.mpr h, if_false]
  rcases reference b processorConfig p (st.sequence + 1) z st with ⟨e, st'⟩
  cases e <;> rfl

/-- A probe on a batch: the reference, but a panic of `on_batch_start` is not caught. -/
theorem probe_eq (h : st.sequence < z) : (probe b p (.ok z) st).2 =
    if p.onBatchStart = .panic then st.called (.onBatchStart (z - (st.sequence + 1) + 1) (z - st.sequence) .panic)
    else
      match reference b processorConfig p (st.sequence + 1) z st with
      | (.panicked, st') => st'.poisonWithFailure ⟨.consumerPanic, none, some (st.sequence + 1)⟩
      | (_, st') => st' := by
  simp only [probe, show ¬z < st.sequence + 1 by omega, if_false, reference, processorConfig, Bool.false_eq_true]
  cases p.onBatchStart with
  | panic => simp
  | err => simp [Consumer.poisonWithFailure, Consumer.called, EngineConfig.failure]
  | ok =>
    simp only [reduceCtorEq, if_false]
    rw [probeLoop_eq _ _ _ (by omega)]
    simp only [processorConfig]
    generalize referenceEvents b ⟨none, false, true⟩ p (st.sequence + 1) z
      (st.called (.onBatchStart (z - (st.sequence + 1) + 1) (z - st.sequence) .ok)) = out
    obtain ⟨e, st'⟩ := out
    cases e <;> rfl

end Processor

open Processor

/-- **A probe is one batch of `run`**, unless `on_batch_start` panics on a pipeline that is not poisoned yet: the probe does
not catch that panic, `run` poisons on it. -/
theorem try_run_once_one_batch (b : BufferSize) (p : BatchPattern E) (answer : Except DisruptorError Int) (st : Processor E)
    (hidle : st.running = false) :
    (Agree (tryRunOnce b p answer st).2.consumer (engineBatch b p answer st.consumer) ↔
      ¬∃ z, answer = .ok z ∧ st.consumer.sequence < z ∧ p.onBatchStart = .panic ∧ st.consumer.poisoned = false) ∧
    ((∀ z, answer = .ok z → z ≤ st.consumer.sequence) → (tryRunOnce b p answer st).2 = st) := by
  have hrun : (tryRunOnce b p answer st).2 = ⟨(probe b p answer st.consumer).2, false⟩ := by
    simp [tryRunOnce, hidle]
  obtain ⟨c, running⟩ := st
  simp only at hidle hrun ⊢
  subst hidle
  rw [hrun]
  refine ⟨?_, fun hempty => by rw [probe_empty hempty]⟩
  by_cases hempty : ∀ z, answer = .ok z → z ≤ c.sequence
  · rw [probe_empty hempty, engineBatch_empty hempty]
    refine iff_of_true (Agree.refl c) ?_
    rintro ⟨z, rfl, hlt, -⟩
    exact absurd (hempty z rfl) (by omega)
  · push Not at hempty
    obtain ⟨z, rfl, hlt⟩ := hempty
    rw [probe_eq hlt, engineBatch_eq hlt]
    by_cases hp : p.onBatchStart = .panic
    · rw [if_pos hp]
      simp only [reference, processorConfig, Bool.false_eq_true, if_false, hp, catchUnwind]
      constructor
      · rintro h ⟨-, -, -, -, hclean⟩
        have := h.poisoned
        simp [Consumer.called, Consumer.poisonWithFailure, hclean] at this
      · intro h
        have hpoisoned : c.poisoned = true := by
          by_contra hne
          exact h ⟨z, rfl, hlt, trivial, by simpa using hne⟩
        exact ⟨rfl, rfl, hpoisoned, rfl⟩
    · rw [if_neg hp]
      refine iff_of_true ?_ (by rintro ⟨-, -, -, h, -⟩; exact hp h)
      rcases reference b processorConfig p (c.sequence + 1) z c with ⟨e, st'⟩
      cases e with
      | panicked => exact Agree.poisoning st' _ _
      | went n => exact Agree.refl st'
      | waiting => exact Agree.refl st'
      | returned => exact Agree.refl st'

/-- The first event of two fails with an error that is skipped, the second panics. -/
def skipThenPanic : BatchPattern Nat :=
  ⟨.ok, fun t => if t = 0 then .err else .panic, fun t _ => t.toNat, fun _ => .continue⟩

theorem try_run_once_one_batch_two :
    (Agree (tryRunOnce ⟨3, by decide⟩ skipThenPanic (.ok 1) (Processor.new fun _ => 0)).2.consumer
      (engineBatch ⟨3, by decide⟩ skipThenPanic (.ok 1) (Processor.new fun _ => 0).consumer) ↔
        ¬∃ z, (Except.ok 1 : Except DisruptorError Int) = .ok z ∧ (-1 : Int) < z ∧ skipThenPanic.onBatchStart = .panic ∧
          false = false) ∧
    ((∀ z, (Except.ok 1 : Except DisruptorError Int) = .ok z → z ≤ -1) →
      (tryRunOnce ⟨3, by decide⟩ skipThenPanic (.ok 1) (Processor.new fun _ => 0)).2 = Processor.new fun _ => 0) :=
  try_run_once_one_batch ⟨3, by decide⟩ skipThenPanic (.ok 1) (Processor.new fun _ => 0) rfl

/-- `on_batch_start` panics. -/
def panicAtStart : BatchPattern Nat := ⟨.panic, fun _ => .ok, fun _ v => v, fun _ => .stop⟩

/-- One published event, and `on_batch_start` panics: the probe leaves the pipeline unpoisoned. -/
theorem try_run_once_start_panic :
    ¬Agree (tryRunOnce ⟨3, by decide⟩ panicAtStart (.ok 0) (Processor.new fun _ => 0)).2.consumer
      (engineBatch ⟨3, by decide⟩ panicAtStart (.ok 0) (Processor.new fun _ => 0).consumer) := by
  intro h
  have hp := h.poisoned
  revert hp
  decide

/-! ## Series of probes and runs -/

/-- The sequence that a callback finishes: `on_event` returned `Ok`, or its error was answered with `Continue`. -/
def Call.passes : Call E → Option Int
  | .onEvent _ t _ .ok => some t
  | .handleEventException t _ .continue => some t
  | _ => none

/-- The sequence that a callback delivers. -/
def Call.delivers : Call E → Option Int
  | .onEvent _ t _ _ => some t
  | _ => none

/-- The fatal failure that stands after one more callback. -/
def Call.failure (c : Call E) (before : Option Int) : Option Int :=
  match c with
  | .onEvent _ t _ .panic => some t
  | .onEvent _ _ _ _ => none
  | .handleEventException t _ .stop => some t
  | .handleEventException _ _ .continue => none
  | _ => before

/-- The sequence of the last fatal failure, as long as no event was delivered after it. -/
def failedAt (calls : List (Call E)) : Option Int := calls.foldl (fun before c => c.failure before) none

/-- No finished sequence is delivered a second time. -/
def NoRedelivery (calls : List (Call E)) : Prop :=
  calls.Pairwise fun c d => ∀ t, c.passes = some t → d.delivers ≠ some t

/-- After a fatal failure at `k` the `Sequence` is `k - 1`. -/
def Frozen (st : Consumer E) : Prop := ∀ k, failedAt st.calls = some k → st.sequence = k - 1

/-- Nothing is delivered again, and everything finished lies below `a`. -/
structure Tidy (calls : List (Call E)) (a : Int) : Prop where
  once : NoRedelivery calls
  below : ∀ c ∈ calls, ∀ t, c.passes = some t → t < a

section Series

variable {b : BufferSize} {p : BatchPattern E} {a z : Int} {st : Consumer E} {calls new : List (Call E)}

/-- New callbacks deliver nothing below `a`, so nothing finished is delivered again. -/
theorem Tidy.append {a' : Int} (h : Tidy calls a) (hnew : NoRedelivery new) (hle : a ≤ a')
    (hlow : ∀ d ∈ new, ∀ t, d.delivers = some t → a ≤ t) (hpass : ∀ d ∈ new, ∀ t, d.passes = some t → t < a') :
    Tidy (calls ++ new) a' := by
  constructor
  · refine List.pairwise_append.mpr ⟨h.once, hnew, ?_⟩
    intro c hc d hd t ht hdt
    have h1 := h.below c hc t ht
    have h2 := hlow d hd t hdt
    omega
  · intro c hc t ht
    rcases List.mem_append.mp hc with hc | hc
    · exact lt_of_lt_of_le (h.below c hc t ht) hle
    · exact hpass c hc t ht

theorem failedAt_append : failedAt (calls ++ new) = new.foldl (fun before c => c.failure before) (failedAt calls) :=
  List.foldl_append

/-- A finished event. -/
theorem tidy_deliver_pass (h : Tidy st.calls a) (hs : stops processorConfig p a = false) :
    Tidy (deliver b processorConfig p z st a).calls (a + 1) ∧
      failedAt (deliver b processorConfig p z st a).calls = none := by
  simp only [deliver, failedAt_append]
  cases hr : p.onEvent a with
  | panic => simp [stops, hr] at hs
  | ok =>
    simp only [deliveryCalls, hr, reduceCtorEq, false_and, if_false]
    exact ⟨h.append (by simp [NoRedelivery]) (by omega) (by simp [Call.delivers]) (by simp [Call.passes]), rfl⟩
  | err =>
    have hd : p.decision a = .continue := by
      cases hd : p.decision a with
      | stop => simp [stops, fatal, hr, hd] at hs
      | «continue» => rfl
    simp only [deliveryCalls, hr, processorConfig, and_self, if_true, hd]
    exact ⟨h.append (by simp [NoRedelivery, Call.passes]) (by omega) (by simp [Call.delivers]) (by simp [Call.passes]), rfl⟩

/-- A fatal event: delivered, not finished. -/
theorem tidy_deliver_stop (h : Tidy st.calls a) (hs : stops processorConfig p a = true) :
    Tidy (deliver b processorConfig p z st a).calls a ∧
      failedAt (deliver b processorConfig p z st a).calls = some a := by
  simp only [deliver, failedAt_append]
  cases hr : p.onEvent a with
  | ok => simp [stops, fatal, hr] at hs
  | panic =>
    simp only [deliveryCalls, hr, reduceCtorEq, false_and, if_false]
    exact ⟨h.append (by simp [NoRedelivery]) le_rfl (by simp [Call.delivers]) (by simp [Call.passes]), rfl⟩
  | err =>
    have hd : p.decision a = .stop := by
      cases hd : p.decision a with
      | stop => rfl
      | «continue» => simp [stops, fatal, hr, hd, processorConfig] at hs
    simp only [deliveryCalls, hr, processorConfig, and_self, if_true, hd]
    exact ⟨h.append (by simp [NoRedelivery, Call.passes]) le_rfl (by simp [Call.delivers]) (by simp [Call.passes]), rfl⟩

/-- The events of a batch: what was finished ends before the first that stops the loop. -/
theorem referenceEvents_tidy : ∀ (turns : Nat) (a : Int) (st : Consumer E), z - a + 1 = turns → Tidy st.calls a →
    (firstStop processorConfig p a z = none → Tidy (referenceEvents b processorConfig p a z st).2.calls (z + 1) ∧
      (a ≤ z → failedAt (referenceEvents b processorConfig p a z st).2.calls = none)) ∧
    ∀ k, firstStop processorConfig p a z = some k → Tidy (referenceEvents b processorConfig p a z st).2.calls k ∧
      failedAt (referenceEvents b processorConfig p a z st).2.calls = some k := by
  intro turns
  induction turns with
  | zero =>
    intro a st h ht
    have ha : a = z + 1 := by omega
    subst ha
    have hnone : firstStop processorConfig p (z + 1) z = none := by simp [firstStop, span_nil (show z < z + 1 by omega)]
    rw [referenceEvents_nil, hnone]
    exact ⟨fun _ => ⟨ht, fun h => by omega⟩, by simp⟩
  | succ turns ih =>
    intro a st h ht
    have hle : a ≤ z := by omega
    cases hs : stops processorConfig p a with
    | true =>
      have hcalls : (referenceEvents b processorConfig p a z st).2.calls = (deliver b processorConfig p z st a).calls := by
        rw [referenceEvents_stop hle hs]
        split <;> rfl
      rw [firstStop_pos hle hs, hcalls]
      refine ⟨by simp, ?_⟩
      rintro k ⟨⟩
      exact tidy_deliver_stop ht hs
    | false =>
      obtain ⟨hd, hf⟩ := tidy_deliver_pass (b := b) (z := z) ht hs
      obtain ⟨hnone, hsome⟩ := ih (a + 1) (deliver b processorConfig p z st a) (by omega) hd
      rw [referenceEvents_cons hle hs, firstStop_neg hle hs]
      refine ⟨fun hk => ⟨(hnone hk).1, fun _ => ?_⟩, hsome⟩
      by_cases hlast : a + 1 ≤ z
      · exact (hnone hk).2 hlast
      · have hz : z = a := by omega
        subst hz
        rw [referenceEvents_nil]
        exact hf

/-- What a series keeps between two callbacks of the claim, a batch apart. -/
structure Orderly (st : Consumer E) : Prop where
  tidy : Tidy st.calls (st.sequence + 1)
  frozen : Frozen st

/-- No `on_event` of the batch panics behind its first event. -/
def CleanBatch (p : BatchPattern E) (a z : Int) : Prop :=
  p.onBatchStart = .ok → ∀ k, firstStop processorConfig p a z = some k → p.onEvent k = .panic → k = a

/-- A lifecycle callback, or `on_batch_start`. -/
theorem Orderly.called {c : Call E} (h : Orderly st) (hp : c.passes = none) (hd : c.delivers = none)
    (hf : ∀ before, c.failure before = before) : Orderly (st.called c) := by
  constructor
  · exact h.tidy.append (List.pairwise_singleton _ _) le_rfl (by simp [hd]) (by simp [hp])
  · intro k hk
    rw [Consumer.called, failedAt_append] at hk
    simp only [List.foldl_cons, List.foldl_nil, hf] at hk
    exact h.frozen k hk

/-- Failure records and the poison flag do not matter. -/
theorem Orderly.of_eq {st' : Consumer E} (h : Orderly st) (hc : st'.calls = st.calls) (hs : st'.sequence = st.sequence) :
    Orderly st' := by
  obtain ⟨ht, hf⟩ := h
  exact ⟨by rw [hc, hs]; exact ht, fun k hk => by rw [hs]; exact hf k (by rw [← hc]; exact hk)⟩

/-- The events of a batch that starts after the `Sequence`. -/
theorem referenceEvents_orderly (h : Orderly st) (hlt : st.sequence < z)
    (hclean : ∀ k, firstStop processorConfig p (st.sequence + 1) z = some k → p.onEvent k = .panic → k = st.sequence + 1) :
    Orderly (referenceEvents b processorConfig p (st.sequence + 1) z st).2 := by
  obtain ⟨hnone, hsome⟩ := referenceEvents_tidy (b := b) (p := p) (z := z) _ (st.sequence + 1) st
    (Int.toNat_of_nonneg (by omega)).symm h.tidy
  cases hk : firstStop processorConfig p (st.sequence + 1) z with
  | none =>
    obtain ⟨-, -, hz, -⟩ := @referenceEvents_whole E b _ _ _ _ st hk
    obtain ⟨ht, hf⟩ := hnone hk
    exact ⟨by rw [hz]; exact ht, fun k hk' => by rw [hf (by omega)] at hk'; cases hk'⟩
  | some k =>
    obtain ⟨ht, hf⟩ := hsome k hk
    -- a panic leaves the `Sequence` before the batch, which is right only for its first event
    have hz : (referenceEvents b processorConfig p (st.sequence + 1) z st).2.sequence = k - 1 := by
      by_cases hp : p.onEvent k = .panic
      · have hka := hclean k hk hp
        simp only [referenceEvents, hk, hp, if_true]
        rw [(foldl_deliver_frame _ _).1, hka]
        omega
      · have hfatal : fatal processorConfig p k = true := by
          have := List.find?_some hk
          simpa [stops, hp] using this
        exact (referenceEvents_fatal hk hfatal).2.2.1
    refine ⟨by rw [hz]; simpa using ht, fun j hj => ?_⟩
    rw [hf] at hj
    cases hj
    exact hz

/-- **One batch.** -/
theorem reference_orderly (h : Orderly st) (hlt : st.sequence < z) (hclean : CleanBatch p (st.sequence + 1) z) :
    Orderly (reference b processorConfig p (st.sequence + 1) z st).2 := by
  have hstarted := fun r => h.called (c := .onBatchStart (z - (st.sequence + 1) + 1) (z - st.sequence) r) rfl rfl fun _ => rfl
  rw [reference, if_neg (by decide)]
  cases hr : p.onBatchStart with
  | panic => exact hstarted .panic
  | err => exact (hstarted .err).of_eq rfl rfl
  | ok => exact referenceEvents_orderly (hstarted .ok) hlt (hclean hr)

/-! ## The series -/

/-- A call on a processor. -/
inductive Drive (E : Type)
  | probe (answer : Except DisruptorError Int) (p : BatchPattern E)
  | run (i : RunInput E)

/-- The processor after a call. -/
def Drive.apply (b : BufferSize) (st : Processor E) : Drive E → Processor E
  | probe answer p => (tryRunOnce b p answer st).2
  | run i => (Processor.run b i st).2

/-- The batches of a run that starts after `sequence` are clean. -/
def CleanRounds : List (Round E) → Int → Prop
  | [], _ => True
  | r :: rs, sequence =>
    match r.answer with
    | .ok z => if z ≤ sequence then CleanRounds rs sequence else CleanBatch r.pattern (sequence + 1) z ∧ CleanRounds rs z
    | .error _ => CleanRounds rs sequence

/-- The batches that a call processes are clean. -/
def Clean (st : Processor E) : Drive E → Prop
  | .probe answer p => ∀ z, answer = .ok z → st.consumer.sequence < z → CleanBatch p (st.consumer.sequence + 1) z
  | .run i => CleanRounds i.rounds st.consumer.sequence

/-- A batch that ends moves the `Sequence` to its end. -/
theorem reference_went_sequence {n : Int} {st' : Consumer E}
    (h : reference b processorConfig p a z st = (.went n, st')) : st'.sequence = z := by
  rw [reference, if_neg (by decide)] at h
  cases hr : p.onBatchStart with
  | panic => simp [hr] at h
  | err => simp [hr] at h
  | ok =>
    simp only [hr] at h
    cases hk : firstStop processorConfig p a z with
    | none =>
      have hz := (@referenceEvents_whole E b _ _ _ _
        (st.called (.onBatchStart (z - a + 1) (z - st.sequence) .ok)) hk).2.2.1
      rw [h] at hz
      exact hz
    | some k =>
      simp only [referenceEvents, hk] at h
      split at h <;> simp at h

/-- The loop of a run. -/
theorem referenceLoop_orderly : ∀ (rounds : List (Round E)) (st : Consumer E), Orderly st →
    CleanRounds rounds st.sequence → Orderly (referenceLoop b processorConfig rounds st).2 := by
  intro rounds
  induction rounds with
  | nil => intro st h _; exact h
  | cons r rs ih =>
    intro st h hclean
    unfold referenceLoop
    unfold CleanRounds at hclean
    cases r.shouldContinue with
    | false => exact h
    | true =>
      simp only [if_true]
      cases hans : r.answer with
      | error e =>
        simp only [hans] at hclean
        simp only
        split
        · exact h
        · exact ih st h hclean
      | ok z =>
        simp only [hans] at hclean
        simp only
        by_cases hle : z ≤ st.sequence
        · rw [if_pos hle] at hclean ⊢
          exact ih st h hclean
        · rw [if_neg hle] at hclean ⊢
          have hout := reference_orderly (b := b) h (by omega) hclean.1
          rcases he : reference b processorConfig r.pattern (st.sequence + 1) z st with ⟨e, st'⟩
          rw [he] at hout
          cases e with
          | went n => exact ih st' hout (by rw [reference_went_sequence he]; exact hclean.2)
          | waiting => exact hout
          | returned => exact hout
          | panicked => exact hout

theorem invokeOnShutdown_orderly {r : Callback} (h : Orderly st) : Orderly (invokeOnShutdown r st).2 := by
  have hcalled := h.called (c := .onShutdown r) rfl rfl fun _ => rfl
  cases r with
  | ok => exact hcalled
  | panic => exact hcalled
  | err => exact (hcalled.called (c := .handleOnShutdownException) rfl rfl fun _ => rfl).of_eq rfl rfl

theorem processEvents_orderly {i : RunInput E} (h : Orderly st) (hclean : CleanRounds i.rounds st.sequence) :
    Orderly (processEvents b i st).2 := by
  have hcalled := h.called (c := .onStart i.onStart) rfl rfl fun _ => rfl
  unfold processEvents
  cases hr : i.onStart with
  | panic => rw [hr] at hcalled; exact hcalled
  | err =>
    rw [hr] at hcalled
    exact (hcalled.called (c := .handleOnStartException) rfl rfl fun _ => rfl).of_eq rfl rfl
  | ok =>
    rw [hr] at hcalled
    simp only
    split
    · exact invokeOnShutdown_orderly hcalled
    · have hloop := referenceLoop_orderly (b := b) i.rounds _ hcalled hclean
      rw [← runSequentialBatchLoop_eq rfl] at hloop
      split
      · rename_i st' he
        rw [he] at hloop
        exact invokeOnShutdown_orderly hloop
      · exact hloop

theorem catchUnwind_orderly {r : LoopExit × Consumer E} (h : Orderly r.2) : Orderly (catchUnwind r).2 := by
  obtain ⟨e, st⟩ := r
  cases e with
  | panicked => exact h.of_eq rfl rfl
  | went n => exact h
  | waiting => exact h
  | returned => exact h

/-- **One call.** -/
theorem drive_orderly {st : Processor E} {a : Drive E} (h : Orderly st.consumer) (hclean : Clean st a) :
    Orderly (a.apply b st).consumer := by
  cases a with
  | probe answer p =>
    unfold Drive.apply tryRunOnce
    cases st.running with
    | true => exact h
    | false =>
      show Orderly (Processor.probe b p answer st.consumer).2
      by_cases hempty : ∀ z, answer = .ok z → z ≤ st.consumer.sequence
      · rw [probe_empty hempty]
        exact h
      · push Not at hempty
        obtain ⟨z, rfl, hlt⟩ := hempty
        have hout := reference_orderly (b := b) h hlt (hclean z rfl hlt)
        rw [probe_eq hlt]
        split
        · exact h.called rfl rfl fun _ => rfl
        · split
          · rename_i he
            rw [he] at hout
            exact hout.of_eq rfl rfl
          · rename_i he
            rw [he] at hout
            exact hout
  | run i =>
    unfold Drive.apply Processor.run
    cases st.running with
    | true => exact h
    | false =>
      have hout := catchUnwind_orderly (processEvents_orderly (b := b) h hclean)
      simp only [Bool.false_eq_true, if_false]
      split <;> rename_i he <;> rw [he] at hout <;> exact hout

/-! ## Where a call resumes -/

/-- The delivered sequences. -/
def delivered (calls : List (Call E)) : List Int := (eventCalls calls).map Prod.fst

/-- `new` continues the deliveries after `sequence`, up to `m`. -/
def Resumes (st st' : Consumer E) (m : Int) : Prop :=
  st.sequence ≤ m ∧ delivered st'.calls = delivered st.calls ++ span (st.sequence + 1) m

theorem Resumes.none {st' : Consumer E} (h : eventCalls st'.calls = eventCalls st.calls) : Resumes st st' st.sequence :=
  ⟨le_rfl, by rw [delivered, delivered, h, span_nil (by omega), List.append_nil]⟩

theorem Resumes.trans {st' st'' : Consumer E} {m n : Int} (h : Resumes st st' m) (hs : st'.sequence = m)
    (h' : Resumes st' st'' n) : Resumes st st'' n := by
  obtain ⟨hle, hd⟩ := h
  obtain ⟨hle', hd'⟩ := h'
  rw [hs] at hle' hd'
  exact ⟨le_trans hle hle', by rw [hd', hd, List.append_assoc, span_append (by omega) hle']⟩

theorem Resumes.after {st' st'' : Consumer E} {m : Int} (h : Resumes st st' m)
    (hc : eventCalls st''.calls = eventCalls st'.calls) : Resumes st st'' m :=
  ⟨h.1, by rw [← h.2, delivered, delivered, hc]⟩

theorem eventCalls_called {c : Call E} (h : c.delivers = none) : eventCalls (st.called c).calls = eventCalls st.calls := by
  rw [Consumer.called, eventCalls_append]
  cases c <;> first | exact List.append_nil _ | cases h

/-- A batch delivers from the `Sequence` on. -/
theorem reference_resumes (hlt : st.sequence < z) :
    ∃ m, Resumes st (reference b processorConfig p (st.sequence + 1) z st).2 m ∧
      ∀ n, (reference b processorConfig p (st.sequence + 1) z st).1 = .went n →
        (reference b processorConfig p (st.sequence + 1) z st).2.sequence = m := by
  rw [reference, if_neg (by decide)]
  have hstart : ∀ r, eventCalls (st.called (.onBatchStart (z - (st.sequence + 1) + 1) (z - st.sequence) r)).calls =
      eventCalls st.calls := fun r => eventCalls_called rfl
  cases p.onBatchStart with
  | panic => exact ⟨_, .none (hstart .panic), by simp⟩
  | err => exact ⟨_, .none (hstart .err), by simp⟩
  | ok =>
    generalize hst : st.called (.onBatchStart (z - (st.sequence + 1) + 1) (z - st.sequence) .ok) = st₁
    refine ⟨(firstStop processorConfig p (st.sequence + 1) z).getD z, ⟨?_, ?_⟩, fun n hn => ?_⟩
    · cases hk : firstStop processorConfig p (st.sequence + 1) z with
      | none => exact hlt.le
      | some k =>
        have := (firstStop_le hk).1
        simp only [Option.getD_some]
        omega
    · simp only
      rw [delivered, referenceEvents_eventCalls, List.map_append, List.map_map, ← hst, hstart .ok]
      congr 1
      exact List.map_id _
    · cases hk : firstStop processorConfig p (st.sequence + 1) z with
      | none => exact (referenceEvents_whole hk).2.2.1
      | some k =>
        simp only [referenceEvents, hk] at hn
        split at hn <;> cases hn

theorem referenceLoop_resumes : ∀ (rounds : List (Round E)) (st : Consumer E),
    ∃ m, Resumes st (referenceLoop b processorConfig rounds st).2 m := by
  intro rounds
  induction rounds with
  | nil => intro st; exact ⟨_, .none rfl⟩
  | cons r rs ih =>
    intro st
    unfold referenceLoop
    cases r.shouldContinue with
    | false => exact ⟨_, .none rfl⟩
    | true =>
      simp only [if_true]
      cases r.answer with
      | error e =>
        simp only
        split
        · exact ⟨_, .none rfl⟩
        · exact ih st
      | ok z =>
        simp only
        by_cases hle : z ≤ st.sequence
        · rw [if_pos hle]
          exact ih st
        · rw [if_neg hle]
          obtain ⟨m, hm, hwent⟩ := @reference_resumes E b r.pattern z st (by omega)
          rcases he : reference b processorConfig r.pattern (st.sequence + 1) z st with ⟨e, st'⟩
          rw [he] at hm hwent
          cases e with
          | went n =>
            obtain ⟨m', hm'⟩ := ih st'
            exact ⟨m', hm.trans (hwent n rfl) hm'⟩
          | waiting => exact ⟨m, hm⟩
          | returned => exact ⟨m, hm⟩
          | panicked => exact ⟨m, hm⟩

theorem eventCalls_invokeOnShutdown {r : Callback} : eventCalls (invokeOnShutdown r st).2.calls = eventCalls st.calls := by
  have h := @eventCalls_called E st (.onShutdown r) rfl
  cases r with
  | ok => exact h
  | panic => exact h
  | err =>
    rw [← h]
    exact eventCalls_called (c := .handleOnShutdownException) rfl

theorem processEvents_resumes {i : RunInput E} : ∃ m, Resumes st (processEvents b i st).2 m := by
  have h := @eventCalls_called E st (.onStart i.onStart) rfl
  unfold processEvents
  cases hr : i.onStart with
  | panic => rw [hr] at h; exact ⟨_, .none h⟩
  | err =>
    rw [hr] at h
    refine ⟨_, .none (Eq.trans ?_ h)⟩
    exact eventCalls_called (c := .handleOnStartException) rfl
  | ok =>
    rw [hr] at h
    simp only
    split
    · exact ⟨_, .none (eventCalls_invokeOnShutdown.trans h)⟩
    · obtain ⟨m, hm⟩ := referenceLoop_resumes (b := b) i.rounds (st.called (.onStart .ok))
      have hm' : Resumes st (runSequentialBatchLoop b processorConfig i.rounds (st.called (.onStart .ok))).2 m := by
        rw [runSequentialBatchLoop_eq rfl]
        exact (Resumes.none h).trans rfl hm
      split
      · rename_i st' he
        rw [he] at hm'
        exact ⟨m, hm'.after eventCalls_invokeOnShutdown⟩
      · exact ⟨m, hm'⟩

theorem eventCalls_catchUnwind {r : LoopExit × Consumer E} :
    eventCalls (catchUnwind r).2.calls = eventCalls r.2.calls := by
  obtain ⟨e, st⟩ := r
  cases e <;> rfl

/-- Every call delivers from the `Sequence` on. -/
theorem drive_resumes (st : Processor E) (a : Drive E) : ∃ m, Resumes st.consumer (a.apply b st).consumer m := by
  cases a with
  | probe answer p =>
    unfold Drive.apply tryRunOnce
    cases st.running with
    | true => exact ⟨_, .none rfl⟩
    | false =>
      show ∃ m, Resumes st.consumer (Processor.probe b p answer st.consumer).2 m
      by_cases hempty : ∀ z, answer = .ok z → z ≤ st.consumer.sequence
      · rw [probe_empty hempty]
        exact ⟨_, .none rfl⟩
      · push Not at hempty
        obtain ⟨z, rfl, hlt⟩ := hempty
        obtain ⟨m, hm, -⟩ := reference_resumes (b := b) (p := p) hlt
        rw [probe_eq hlt]
        split
        · exact ⟨_, .none (eventCalls_called rfl)⟩
        · split
          · rename_i he
            rw [he] at hm
            exact ⟨m, hm⟩
          · rename_i he
            rw [he] at hm
            exact ⟨m, hm⟩
  | run i =>
    unfold Drive.apply Processor.run
    cases st.running with
    | true => exact ⟨_, .none rfl⟩
    | false =>
      obtain ⟨m, hm⟩ := @processEvents_resumes E b st.consumer i
      have hout := hm.after eventCalls_catchUnwind
      simp only [Bool.false_eq_true, if_false]
      split <;> rename_i he <;> rw [he] at hout <;> exact ⟨m, hout⟩

end Series

/-- **The `Sequence` freezes at the failed event**, in every series of probes and runs in which no `on_event` panics behind
the first event of its batch: every call resumes at the failed event, and nothing finished is delivered again. -/
theorem sequence_freezes (b : BufferSize) (ring : Nat → E) (st : Processor E)
    (h : Reach (fun st a => some (Drive.apply b st a)) Clean (Processor.new ring) st) :
    Frozen st.consumer ∧ NoRedelivery st.consumer.calls ∧
      ∀ a, ∃ m, Resumes st.consumer (Drive.apply b st a).consumer m := by
  have hinv : Orderly st.consumer := by
    refine Reach.inv (I := fun st : Processor E => Orderly st.consumer) ?_ ?_ h
    · exact ⟨⟨List.Pairwise.nil, nofun⟩, nofun⟩
    · intro s s' a hs hclean he
      simp only [Option.some.injEq] at he
      rw [← he]
      exact drive_orderly hs hclean
  exact ⟨hinv.frozen, hinv.tidy.once, fun a => drive_resumes st a⟩

/-- Every event panics. -/
def panicAlways : BatchPattern Nat := ⟨.ok, fun _ => .panic, fun _ v => v, fun _ => .stop⟩

/-- The first event is handled, every other one fails for good. -/
def stopBehindFirst : BatchPattern Nat := ⟨.ok, fun t => if t = 0 then .ok else .err, fun _ v => v, fun _ => .stop⟩

/-- A batch of three fails at its second event, and the next probe panics there: the `Sequence` stays at the first event,
which is not delivered again. -/
theorem sequence_freezes_second : ∃ st : Processor Nat,
    Reach (fun st a => some (Drive.apply ⟨3, by decide⟩ st a)) Clean (Processor.new fun _ => 0) st ∧
      eventCalls st.consumer.calls = [(0, false), (1, false), (1, false)] ∧ failedAt st.consumer.calls = some 1 ∧
      Frozen st.consumer ∧ NoRedelivery st.consumer.calls ∧
      ∀ a, ∃ m, Resumes st.consumer (Drive.apply ⟨3, by decide⟩ st a).consumer m := by
  have hstop : ∀ st : Processor Nat, Clean st (.probe (.ok 2) stopBehindFirst) := by
    rintro st z ⟨⟩ - - k - hk
    change (if k = 0 then Callback.ok else .err) = .panic at hk
    split at hk <;> cases hk
  have hpanic : ∀ st : Processor Nat, Clean st (.probe (.ok 2) panicAlways) := by
    rintro st z ⟨⟩ hlt - k hk -
    rw [firstStop_pos (by omega) rfl] at hk
    exact (Option.some.inj hk).symm
  have hreach : Reach (fun st a => some (Drive.apply ⟨3, by decide⟩ st a)) Clean (Processor.new fun _ => 0) _ :=
    .tail (.tail .refl (hstop _) rfl) (hpanic _) rfl
  exact ⟨_, hreach, rfl, rfl, sequence_freezes ⟨3, by decide⟩ (fun _ => 0) _ hreach⟩

/-- Two events in a batch, the second panics: the `Sequence` stays before the first one, and the next probe delivers the
first one again. -/
theorem panic_behind_first_redelivers :
    ¬Frozen (Drive.apply ⟨3, by decide⟩ (Processor.new fun _ => 0) (.probe (.ok 1) skipThenPanic)).consumer ∧
      ¬NoRedelivery (Drive.apply ⟨3, by decide⟩
        (Drive.apply ⟨3, by decide⟩ (Processor.new fun _ => 0) (.probe (.ok 1) skipThenPanic))
        (.probe (.ok 1) skipThenPanic)).consumer.calls := by
  constructor
  · intro h
    exact absurd (h 1 rfl) (by decide)
  · intro h
    have h0 := List.pairwise_iff_getElem.mp h 2 5 (by decide) (by decide) (by decide) 0
    exact absurd rfl (h0 rfl)

end BadBatch
