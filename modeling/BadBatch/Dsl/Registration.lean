import BadBatch.Dsl.Lifecycle
import BadBatch.Pipeline.Handled

/-!
# Registration of handlers

`handle_events_with`, `then` and `build` take the disruptor by value: no publisher is inside a call and the owner is between
two calls, but the processors of an earlier `start` may be running, and events may have been published. A new processor
starts with a fresh `Sequence`, which is added to the gating set of a sequencer that has been claimed from.

* `Disruptor.step`: registration, and the steps of owner, processors and publishers under the chain registered so far;
* `loopBooks_step`: what the books and the loops say, whatever is registered when.
-/

namespace BadBatch

open MultiProducerSequencer StepSys

variable {E : Type}

/-! ## The system -/

/-- A disruptor, or the builder that holds it: the registrations so far, and the publishers that have used it. -/
structure Disruptor (E : Type) where
  dsl : DslState
  life : Lifecycle E
  publishers : List Nat

/-- One step of one party. -/
inductive DisruptorAction (E : Type)
  | register (call : DslCall)
  | life (a : LifecycleAction E)

/-- `publish_event` and `try_publish_event` claim and publish one sequence; `get_remaining_capacity` claims none. -/
def FeedAction.ofDsl : FeedAction E → Bool
  | call _ (.nextN n) => n == 1
  | call _ (.tryNextN n) => n == 1
  | call _ .remainingCapacity => true
  | call _ (.hasAvailableCapacity _) => false
  | publishRange _ => false
  | close => false
  | reopen => false
  | _ => true

/-- Calls need a `Disruptor`; what is under way goes on. -/
def LifecycleAction.permitted (type : DslType) : LifecycleAction E → Bool
  | call _ => type == .disruptor
  | producer (.call p c) => type == .disruptor && (FeedAction.call (E := E) p c).ofDsl
  | producer a => a.ofDsl
  | _ => true

/-- Who uses the disruptor after a step. -/
def LifecycleAction.publishers (publishers : List Nat) : LifecycleAction E → List Nat
  | producer (.call p _) => p :: publishers
  | _ => publishers

namespace Disruptor

variable (b : BufferSize) (handlers : Nat → E → Int → Bool → E) (st : Disruptor E)

/-- `Disruptor::new` -/
def new (multiProducer : Bool) (factory : Nat → E) : Disruptor E where
  dsl := .new
  life := .init b [] multiProducer factory
  publishers := []

/-- The wiring of what is registered so far. -/
def wiring : Wiring := dslWiring st.dsl.eventProcessors

/-- No publisher is inside a call. -/
def unused : Bool := st.publishers.all fun p => st.life.pipeline.feed.phases p == .idle

/-- `handle_events_with`, `handle_events_with_exception_handler`, `then` and `build`. -/
def register (call : DslCall) : Option (Disruptor E) :=
  if st.life.owner.atRest ∧ st.unused then
    (st.dsl.call call).bind fun dsl =>
      -- the `Sequence` of the new processor, if there is one
      let new := (List.range dsl.eventProcessors.length).drop st.dsl.eventProcessors.length
      (st.life.pipeline.feed.world.step b (.addGatingSequences new)).map fun w =>
        { st with
          dsl := dsl
          life := { st.life with pipeline := { st.life.pipeline with feed := { st.life.pipeline.feed with world := w } } } }
  else none

/-- One step of the system. -/
def step : DisruptorAction E → Option (Disruptor E)
  | .register call => st.register b call
  | .life a =>
    if a.permitted st.dsl.type then
      (st.life.step b st.wiring handlers a).map fun life =>
        { st with life := life, publishers := a.publishers st.publishers }
    else none

/-- What the processors handle. -/
def log (st : Disruptor E) (a : DisruptorAction E) (handled : Nat → List Int) : Nat → List Int :=
  match a with
  | .life (.engine i e) => st.life.pipeline.logHandled st.wiring (e.toPipeline i) handled
  | _ => handled

/-- One step, with the history of what was handled. -/
def observe : Disruptor E × (Nat → List Int) → DisruptorAction E → Option (Disruptor E × (Nat → List Int)) :=
  observed (Disruptor.step b handlers) Disruptor.log

end Disruptor

/-! ## Whatever is registered when -/

variable {b : BufferSize} {handlers : Nat → E → Int → Bool → E} {w w' : SequencerWorld} {p : Nat}
  {phase : ProducerPhase}

theorem phaseOk_addGatingSequences {ids : List Nat} (h : PhaseOk w p phase)
    (hs : w.step b (.addGatingSequences ids) = some w') : PhaseOk w' p phase := by
  cases SequencerWorld.rule_of_step hs with
  | single hr =>
    cases hr
    exact SinglePhaseOk.frame h rfl rfl rfl rfl rfl id
  | multi hr =>
    cases hr
    cases phase <;> exact h

/-- Registration touches the gating set only. -/
theorem step_addGatingSequences {ids : List Nat} (hs : w.step b (.addGatingSequences ids) = some w') :
    w'.sequences = w.sequences ∧ w'.ledger = w.ledger ∧ w'.high = w.high ∧ w'.cursor = w.cursor ∧
      w'.gatingSequences = addGatingSequencesRcu w.gatingSequences ids := by
  cases SequencerWorld.rule_of_step hs with
  | single hr | multi hr =>
    cases hr
    exact ⟨rfl, rfl, rfl, rfl, rfl⟩

/-- The books of the producer side, and what each processor has handled. -/
structure LoopBooks (b : BufferSize) (q : Pipeline E) (handled : Nat → List Int) : Prop where
  feed : FeedBooks b q.feed
  handled : ∀ c, Handled (q.sequences c) (q.sequential c) (handled c)

section Steps

variable {q q' : Pipeline E} {t : Wiring} {handled : Nat → List Int}

theorem LoopBooks.handledInv (h : LoopBooks b q handled) (ht : ∀ k, t.runMode k = .sequential) : HandledInv t q handled where
  sequential c _ := h.handled c
  worker c hm := by
    rw [ht] at hm
    cases hm

/-- A step of the pipeline. -/
theorem LoopBooks.step {a : PipelineAction E} (h : LoopBooks b q handled) (ht : ∀ k, t.runMode k = .sequential)
    (hs : q.step b t handlers a = some q') :
    LoopBooks b q' (q.logHandled t a handled) ∧ Grows q.feed.world q'.feed.world := by
  have hH := handledInv_step h.feed (h.handledInv ht) hs
  refine ⟨⟨h.feed.pipeline hs, fun c => hH.sequential c (ht _)⟩, h.feed.grows hs ?_⟩
  rintro c i torn rfl
  obtain ⟨-, -, ⟨hm, v, l, hst, rfl⟩ | ⟨hm, -⟩⟩ := consumerStep_cases hs
  · rw [access_sequences, sequences_settle, Function.update_self]
    exact (seqPlace_step hst (h.handled c).place).2
  · rw [ht] at hm
    cases hm

/-- A step that handles nothing. -/
theorem LoopBooks.quiet (h : LoopBooks b q handled) (ht : ∀ k, t.runMode k = .sequential)
    (hs : QuietStep b t handlers q q') : LoopBooks b q' handled ∧ Grows q.feed.world q'.feed.world := by
  cases hs with
  | same => exact ⟨h, .refl _⟩
  | step a ha hs =>
    have hlog : q.logHandled t a handled = handled := by
      cases a with
      | consumer c i torn => exact absurd rfl (ha c i torn)
      | _ => rfl
    rw [← hlog]
    exact h.step ht hs
  | record f => exact ⟨⟨⟨h.feed.world, h.feed.phases⟩, h.handled⟩, .refl _⟩

/-- A new processor finds the books as they are. -/
theorem LoopBooks.addGatingSequences {ids : List Nat} (h : LoopBooks b q handled)
    (hs : q.feed.world.step b (.addGatingSequences ids) = some w) :
    LoopBooks b { q with feed := { q.feed with world := w } } handled ∧ Grows q.feed.world w := by
  obtain ⟨hseq, hledger, -, hcursor, -⟩ := step_addGatingSequences hs
  refine ⟨⟨⟨SequencerWorld.books_step h.feed.world hs nofun, fun p => phaseOk_addGatingSequences (h.feed.phases p) hs⟩,
    fun c => ?_⟩, ⟨le_of_eq hcursor.symm, fun i => by rw [hseq], fun s hp => by rw [hledger]; exact hp⟩⟩
  show Handled (w.sequences c) (q.sequential c) (handled c)
  rw [hseq]
  exact h.handled c

end Steps

section Runs

variable {st st' : Disruptor E} {handled : Nat → List Int}

theorem loopBooks_new {multiProducer : Bool} {factory : Nat → E} :
    LoopBooks b (Disruptor.new b multiProducer factory).life.pipeline fun _ => [] where
  feed := by
    refine ⟨SequencerWorld.books_init, fun p => ?_⟩
    cases multiProducer
    · exact fun _ => ⟨⟨_, rfl⟩, .inl rfl⟩
    · rfl
  handled c := (handledInv_init (t := dslWiring [])).sequential c rfl

/-- **Step lemma.** Whatever is registered when, the books stay, and sequences and publications only grow. -/
theorem loopBooks_step {a : DisruptorAction E} (h : LoopBooks b st.life.pipeline handled)
    (hs : st.step b handlers a = some st') :
    LoopBooks b st'.life.pipeline (st.log a handled) ∧ Grows st.life.pipeline.feed.world st'.life.pipeline.feed.world := by
  cases a with
  | register call =>
    simp only [Disruptor.step, Disruptor.register, Option.ite_none_right_eq_some, Option.bind_eq_some_iff,
      Option.map_eq_some_iff] at hs
    obtain ⟨-, dsl, -, w, hw, rfl⟩ := hs
    exact h.addGatingSequences hw
  | life a =>
    simp only [Disruptor.step, Option.ite_none_right_eq_some, Option.map_eq_some_iff] at hs
    obtain ⟨-, life, hlife, rfl⟩ := hs
    by_cases ha : ∀ i e, a ≠ .engine i e
    · have hlog : st.log (.life a) handled = handled := by
        cases a with
        | engine i e => exact absurd rfl (ha i e)
        | _ => rfl
      rw [hlog]
      exact h.quiet (fun _ => rfl) (quietStep_step ha hlife)
    · push Not at ha
      obtain ⟨i, e, rfl⟩ := ha
      exact h.step (fun _ => rfl) (engineStep_pipeline hlife)

end Runs

end BadBatch
