import BadBatch.Pipeline.Runs

/-!
# Delivery

Inside a pipeline a consumer still runs its own loop and nothing else (`step_loop`), so the trace law of
the loop holds in every run (`PipeReach.seqTrace`): whatever barriers answer and whoever stops or fails, `on_event` sees
`0, 1, 2, …` once each.
-/

namespace BadBatch

open MultiProducerSequencer StepSys

variable {E : Type} {b : BufferSize} {t : Wiring} {handlers : Nat → E → Int → Bool → E} {st st' : Pipeline E} {c : Nat}

theorem access_sequential {d : Nat} {before after : Option (Int × Bool)} {i : EngineInput} {torn : Option E} :
    (st.access b t handlers d before after i torn).sequential = st.sequential := by
  obtain ⟨ring, held, received, doneBy, he⟩ := access_frame b t handlers st d before after i torn
  rw [he]

theorem access_workers {d : Nat} {before after : Option (Int × Bool)} {i : EngineInput} {torn : Option E} :
    (st.access b t handlers d before after i torn).workers = st.workers := by
  obtain ⟨ring, held, received, doneBy, he⟩ := access_frame b t handlers st d before after i torn
  rw [he]

/-- What a step of the pipeline is to the loop of consumer `c`: nothing if somebody else takes it, or a step of that loop. -/
theorem step_loop {a : PipelineAction E} (h : FeedBooks b st.feed) (ha : a.isRestart = false)
    (hs : st.step b t handlers a = some st') (c : Nat) :
    (st'.sequences c = st.sequences c ∧ st'.sequential c = st.sequential c ∧ st'.workers c = st.workers c ∧
        ∀ i torn, a ≠ .consumer c i torn) ∨
      ∃ i torn, a = .consumer c i torn ∧
        ((t.runMode (t.stage c) = .sequential ∧
          seqStep (Pipeline.config t c) (st.sequences c) (st.sequential c) i =
            some (st'.sequences c, st'.sequential c)) ∨
        (t.runMode (t.stage c) = .workPool ∧ ∃ work,
          workStep (Pipeline.config t c) (st.work (t.stage c)) (st.sequences c) (st.workers c) i =
            some (work, st'.sequences c, st'.workers c))) := by
  cases pipelineRule_of_step hs with
  | producer hst => exact .inl ⟨congrFun (h.step_world hst).1 c, rfl, rfl, by simp⟩
  | @consumer d i torn _ hstep =>
    by_cases hcd : c = d
    · subst hcd
      refine .inr ⟨i, torn, rfl, ?_⟩
      obtain ⟨-, -, ⟨hm, v, l, hst, rfl⟩ | ⟨hm, work, v, l, hst, rfl⟩⟩ := consumerStep_cases hstep <;>
        rw [access_sequences, sequences_settle, Function.update_self]
      · refine .inl ⟨hm, ?_⟩
        rw [hst, access_sequential]
        simp only [Pipeline.settle, Function.update_self]
      · refine .inr ⟨hm, work, ?_⟩
        rw [hst, access_workers]
        simp only [Pipeline.settle, Function.update_self]
    · have hother : ∀ j torn', PipelineAction.consumer d i torn ≠ .consumer c j torn' := fun j torn' he =>
        hcd (by cases he; rfl)
      refine .inl ?_
      obtain ⟨-, -, ⟨hm, v, l, hst, rfl⟩ | ⟨hm, work, v, l, hst, rfl⟩⟩ := consumerStep_cases hstep <;>
        rw [access_sequences, access_sequential, access_workers, sequences_settle, Function.update_of_ne hcd]
      · exact ⟨rfl, Function.update_of_ne hcd _ _, rfl, hother⟩
      · exact ⟨rfl, rfl, Function.update_of_ne hcd _ _, hother⟩
  | restart => cases ha
  | wait | barrier | raiseShutdown | setRunning | setAlert => exact .inl ⟨rfl, rfl, rfl, by simp⟩

/-- **The trace law inside a pipeline.** -/
theorem PipeReach.seqTrace (hwf : t.Wf) (hm : t.runMode (t.stage c) = .sequential) (he : t.exceptionHandler c = false)
    {multiProducer unique : Bool} {factory : Nat → E}
    (h : PipeReach b t handlers (fun _ a => a.isRestart = false) (.init b t multiProducer unique factory) st) :
    SeqTrace (st.sequences c) (st.sequential c) := by
  have hinit : (Pipeline.init b t multiProducer unique factory).sequences c = initialCursorValue := by
    cases multiProducer <;> rfl
  have hI : PipeInv b t st ∧ SeqTrace (st.sequences c) (st.sequential c) := by
    refine Reach.inv (I := fun q => PipeInv b t q ∧ SeqTrace (q.sequences c) (q.sequential c))
      ⟨pipeInv_init hwf _ _ _, ?_⟩ ?_ h
    · rw [hinit]
      exact seqTrace_init
    · intro q q' a hq ha hs
      refine ⟨pipeInv_step hwf hq.1 hs, ?_⟩
      rcases step_loop hq.1.feed.books ha hs c with ⟨h1, h2, -⟩ | ⟨i, torn, -, ⟨-, hst⟩ | ⟨hm', -⟩⟩
      · rw [h1, h2]
        exact hq.2
      · refine seqTrace_step (fun hx => ?_) hst hq.2
        rw [show (Pipeline.config t c).hasExceptionHandler = t.exceptionHandler c from rfl, he] at hx
        cases hx
      · rw [hm] at hm'; cases hm'
  exact hI.2

/-- **Exactly-once, in-order delivery.** In every state of every run of a Builder pipeline, a sequential or fan-out
consumer was called for `0, 1, 2, …` without gap or repetition. Its `Sequence` never decreases from there on; it is `-1`,
the end of a batch, or one before the event that failed; and it covers only events whose handler returned `Ok`. -/
theorem builder_delivery_in_order {first : ConsumerAccess} {calls : List BuilderCall} {consumers : List ConsumerInfo}
    {multiProducer : Bool} {factory : Nat → E} (hcalls : builderConsumers first calls = some consumers)
    (h : BuilderReach b consumers handlers (builderInit b consumers multiProducer factory) st)
    (hc : stageRunMode consumers (stageOf consumers c) = .sequential) :
    (∃ n, (st.sequential c).calls = upTo n) ∧
      (∀ st', BuilderReach b consumers handlers st st' → st.sequences c ≤ st'.sequences c) ∧
      (st.sequences c = initialCursorValue ∨ st.sequences c ∈ (st.sequential c).batchEnds ∨
        ∃ f, (st.sequential c).failedAt = some f ∧ st.sequences c = f - 1) ∧
      ∀ s, 0 ≤ s → s ≤ st.sequences c → s ∈ (st.sequential c).returned := by
  have hwf := wf_createDisruptorCore hcalls
  have htrace := PipeReach.seqTrace (t := createDisruptorCore consumers) hwf hc rfl h
  refine ⟨⟨_, htrace.calls⟩, ?_, htrace.value, ?_⟩
  · intro st' h'
    exact (PipeReach.grows hwf h' (h.inv hcalls)).sequences c
  · intro s h0 hs
    have := htrace.covered
    rw [htrace.returned]
    exact mem_upTo.mpr ⟨h0, by omega⟩

/-- Two events in one batch: the consumer has stored 1. -/
theorem builder_delivery_in_order_two : ∃ st : Pipeline Nat,
    BuilderReach ⟨1, by decide⟩ [⟨0, .mutable⟩] (fun _ e _ _ => e)
      (builderInit ⟨1, by decide⟩ [⟨0, .mutable⟩] false fun _ => 0) st ∧
    st.sequences 0 = 1 ∧ (st.sequential 0).batchEnds = [1] ∧ (st.sequential 0).calls = [0, 1] ∧
    ∀ s, 0 ≤ s → s ≤ 1 → s ∈ (st.sequential 0).returned := by
  obtain ⟨st, hr, hs, hends, hcalls⟩ : ∃ st : Pipeline Nat,
      BuilderReach ⟨1, by decide⟩ [⟨0, .mutable⟩] (fun _ e _ _ => e)
        (builderInit ⟨1, by decide⟩ [⟨0, .mutable⟩] false fun _ => 0) st ∧
      st.sequences 0 = 1 ∧ (st.sequential 0).batchEnds = [1] ∧ (st.sequential 0).calls = [0, 1] :=
    ⟨_, reach_of_exec [.producer (.call 0 (.nextN 2)), .producer (.step 0), .producer (.step 0), .producer (.step 0),
      .producer (.claimed 0), .producer (.write 0 7), .producer (.write 0 8), .producer (.publishRange 0),
      .producer (.step 0), .producer (.published 0), .consumer 0 (.handler .ok) none, .consumer 0 .tick none,
      .consumer 0 (.flag true) none, .wait 0 .waitForWithShutdown, .barrier 0 .next, .barrier 0 .next, .barrier 0 .next,
      .barrier 0 .next, .consumer 0 (.answer (.ok 1)) none, .consumer 0 (.handler .ok) none, .consumer 0 .tick none,
      .consumer 0 (.handler .ok) none, .consumer 0 .tick none, .consumer 0 (.handler .ok) none, .consumer 0 .tick none,
      .consumer 0 .tick none] rfl, rfl, rfl, rfl⟩
  have hlaw := builder_delivery_in_order (show builderConsumers .mutable [] = some _ from rfl) hr (c := 0) rfl
  refine ⟨st, hr, hs, hends, hcalls, fun s h0 h1 => hlaw.2.2.2 s h0 ?_⟩
  rw [hs]
  exact h1

end BadBatch
