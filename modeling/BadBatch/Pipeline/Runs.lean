import BadBatch.Builder.Core
import BadBatch.Dsl.Assembly
import BadBatch.Pipeline.Steps

/-!
# Runs of a pipeline

* `pipeInv_init`, `PipeReach.inv`: the invariant holds after assembly, and so in every state of every run;
* `PipeReach.grows`: sequences and publications only grow along a run;
* `BuilderReach`: the runs of the pipelines that the Builder assembles;
* `Assembled`: the wirings of the Builder and of the DSL.
-/

namespace BadBatch

open MultiProducerSequencer StepSys

variable {E : Type} {b : BufferSize} {t : Wiring} {handlers : Nat → E → Int → Bool → E} {st st' : Pipeline E} {c : Nat}

/-! ## After assembly -/

theorem seqOk_init {w : SequencerWorld} (hw : w.sequences c = initialCursorValue) : SeqOk t w c .init .idle where
  place := trivial
  window hi hr := by cases hr
  covered s h0 h1 := by rw [hw, initialCursorValue] at h1; omega
  waits hne := absurd rfl hne

theorem workOk_init {w : SequencerWorld} (hw : w.sequences c = initialCursorValue) : WorkOk t w c .init .idle where
  cached s h1 h2 := by
    rw [hw] at h1
    simp only [WorkLoop.init] at h2
    omega
  accessing s hs := by cases hs
  processed s hs := by cases hs
  waits hne := absurd rfl hne

/-- The invariant holds after assembly. -/
theorem pipeInv_init (hwf : t.Wf) (multiProducer unique : Bool) (factory : Nat → E) :
    PipeInv b t (Pipeline.init b t multiProducer unique factory) := by
  have hseq : ∀ c, (Pipeline.init b t multiProducer unique factory).sequences c = initialCursorValue := by
    intro c
    cases multiProducer <;> rfl
  refine ⟨⟨SequencerWorld.inv_init hwf.gating_ne_nil, fun p => ?_⟩, fun i => ?_, fun c _ => ⟨?_, trivial, fun _ => ?_,
    fun _ => ?_⟩, fun k _ => ?_⟩
  · cases multiProducer
    · exact fun _ => ⟨⟨_, rfl⟩, .inl rfl⟩
    · rfl
  · have hmem : i ∈ addGatingSequencesRcu [] t.gatingSequences ↔ i ∈ t.gatingSequences := by
      simp [mem_addGatingSequencesRcu]
    cases multiProducer <;> exact hmem
  · rw [hseq, initialCursorValue]
  · exact seqOk_init (hseq c)
  · exact workOk_init (hseq c)
  · exact PoolInv.congr poolInv_init rfl fun i _ => ⟨hseq i, rfl⟩

/-! ## Runs -/

/-- The states of a pipeline after any interleaving of steps that `ok` allows. -/
def PipeReach (b : BufferSize) (t : Wiring) (handlers : Nat → E → Int → Bool → E)
    (ok : Pipeline E → PipelineAction E → Prop) : Pipeline E → Pipeline E → Prop :=
  Reach (Pipeline.step b t handlers) ok

/-- **Run lemma of a pipeline.** -/
theorem PipeReach.inv {ok : Pipeline E → PipelineAction E → Prop} (hwf : t.Wf) (h : PipeReach b t handlers ok st st')
    (h0 : PipeInv b t st) : PipeInv b t st' :=
  Reach.inv (I := PipeInv b t) h0 (fun hI _ hs => pipeInv_step hwf hI hs) h

theorem PipeReach.grows {ok : Pipeline E → PipelineAction E → Prop} (hwf : t.Wf) (h : PipeReach b t handlers ok st st')
    (h0 : PipeInv b t st) : Grows st.feed.world st'.feed.world := by
  have hI : PipeInv b t st' ∧ Grows st.feed.world st'.feed.world :=
    Reach.inv (I := fun q => PipeInv b t q ∧ Grows st.feed.world q.feed.world) ⟨h0, .refl _⟩
      (fun hI _ hs => ⟨pipeInv_step hwf hI.1 hs, hI.2.trans (hI.1.grows hs)⟩) h
  exact hI.2

/-! ## Assembled pipelines -/

section Builder

variable {first : ConsumerAccess} {calls : List BuilderCall} {consumers : List ConsumerInfo} {multiProducer : Bool}
  {factory : Nat → E}

/-- A pipeline that the Builder has assembled, before its first step. -/
def builderInit (b : BufferSize) (consumers : List ConsumerInfo) (multiProducer : Bool) (factory : Nat → E) :
    Pipeline E :=
  .init b (createDisruptorCore consumers) multiProducer true factory

/-- Any interleaving of the producers and the consumers of a Builder pipeline. Handlers may fail or panic, and the shutdown
flag may be raised, at any point; the gating sequences stay. -/
def BuilderReach (b : BufferSize) (consumers : List ConsumerInfo) (handlers : Nat → E → Int → Bool → E) :
    Pipeline E → Pipeline E → Prop :=
  PipeReach b (createDisruptorCore consumers) handlers fun _ a => a.isRestart = false

theorem BuilderReach.inv (hcalls : builderConsumers first calls = some consumers)
    (h : BuilderReach b consumers handlers (builderInit b consumers multiProducer factory) st) :
    PipeInv b (createDisruptorCore consumers) st :=
  PipeReach.inv (wf_createDisruptorCore hcalls) h (pipeInv_init (wf_createDisruptorCore hcalls) _ _ _)

end Builder

/-- The wirings that the Builder and the DSL assemble before the first claim. -/
inductive Assembled : Wiring → Prop
  | builder {first : ConsumerAccess} {calls : List BuilderCall} {consumers : List ConsumerInfo}
    (h : builderConsumers first calls = some consumers) : Assembled (createDisruptorCore consumers)
  | dsl {calls : List DslCall} {processors : List DslProcessor} (h : dslProcessors calls = some processors)
    (hne : processors ≠ []) : Assembled (dslWiring processors)

theorem Assembled.wf (h : Assembled t) : t.Wf := by
  cases h with
  | builder h => exact wf_createDisruptorCore h
  | dsl h hne => exact wf_dslWiring h hne

end BadBatch
