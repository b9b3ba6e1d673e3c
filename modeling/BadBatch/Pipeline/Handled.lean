import BadBatch.Pipeline.Events

/-!
# Which events were handled

History beside a pipeline: the sequences for which `on_event` of a consumer has returned, with `Ok` or with an error that its
exception handler answered with `Continue`. A sequential consumer has handled everything its `Sequence` covers, whatever it
was asked to do: batches may be cut off by a halt, a failure or a panic, and the loop may be entered again. This needs
nothing of the producers; the wiring and the gating set may be anything.

* `FeedBooks.pipeline`: the books of the producer side survive every step of a pipeline;
* `Pipeline.logHandled`: the history;
* `handled_step`, `processed_step`: what it says of sequential consumers and of workers.
-/

namespace BadBatch

open MultiProducerSequencer StepSys

variable {E : Type} {b : BufferSize} {t : Wiring} {handlers : Nat → E → Int → Bool → E} {st st' : Pipeline E} {c p : Nat}
  {s v : Int} {w : SequencerWorld} {phase : ProducerPhase}

/-! ## The books of a pipeline -/

theorem SequencerWorld.Books.store (h : w.Books b) : (w.store c v).Books b := by
  cases w with
  | single w =>
    obtain ⟨h1, h2, h3, h4, h5, h6⟩ := h
    exact ⟨h1, h2, h3, h4, h5, h6⟩
  | multi w =>
    obtain ⟨h1, h2, h3⟩ := h
    exact ⟨h1, h2, h3⟩

theorem SequencerWorld.Books.poison (h : w.Books b) : w.poison.Books b :=
  SequencerWorld.books_step (a := .poison) h (SequencerWorld.step_poison w) (by simp)

theorem PhaseOk.store (h : PhaseOk w p phase) : PhaseOk (w.store c v) p phase := by
  cases w with
  | single w => exact SinglePhaseOk.frame h rfl rfl rfl rfl rfl id
  | multi w => cases phase <;> exact h

theorem PhaseOk.poison (h : PhaseOk w p phase) : PhaseOk w.poison p phase := by
  cases w with
  | single w => exact SinglePhaseOk.frame h rfl rfl rfl rfl rfl fun _ => rfl
  | multi w => cases phase <;> exact h

theorem FeedBooks.settle {fault : Fault} (h : FeedBooks b st.feed) : FeedBooks b (st.settle c v fault).feed := by
  constructor
  · rw [world_settle]
    split
    · exact h.world.store.poison
    · exact h.world.store
  · intro p
    rw [world_settle]
    split
    · exact (h.phases p).store.poison
    · exact (h.phases p).store

theorem FeedBooks.access {before after : Option (Int × Bool)} {i : EngineInput} {torn : Option E}
    (h : FeedBooks b st.feed) : FeedBooks b (st.access b t handlers c before after i torn).feed := by
  obtain ⟨ring, held, received, doneBy, he⟩ := access_frame b t handlers st c before after i torn
  rw [he]
  exact ⟨h.world, h.phases⟩

/-- The books survive every step of a pipeline. -/
theorem FeedBooks.pipeline {a : PipelineAction E} (h : FeedBooks b st.feed) (hs : st.step b t handlers a = some st') :
    FeedBooks b st'.feed := by
  rcases step_feed hs with ⟨a', -, hst⟩ | ⟨c, i, torn, -, hst⟩ | he
  · exact feedBooks_step h hst
  · obtain ⟨-, -, ⟨-, v, l, -, rfl⟩ | ⟨-, work, v, l, -, rfl⟩⟩ := consumerStep_cases hst
    · exact .access (.settle h)
    · exact .access (.settle h)
  · rw [he]
    exact h

/-! ## Sequential loops -/

/-- The callback has returned and the loop goes on behind the event. -/
def EngineInput.handles (hasExceptionHandler : Bool) : EngineInput → Bool
  | handler .ok => true
  | handler (.err .continue) => hasExceptionHandler
  | _ => false

/-- How far the loop has handled events. -/
def SeqPc.reached (sequence : Int) : SeqPc → Int
  | event next _ | inEvent next _ | freeze next => next - 1
  | store available => available
  | _ => sequence

/-- The loop has handled every event up to where it stands. -/
structure Handled (sequence : Int) (l : SeqLoop) (handled : List Int) : Prop where
  place : SeqPlace sequence l
  all : ∀ s, 0 ≤ s → s ≤ l.pc.reached sequence → s ∈ handled

/-- What is handled after a step from `pc`. -/
def SeqPc.logHandled (hasExceptionHandler : Bool) (i : EngineInput) (handled : List Int) (pc : SeqPc) : List Int :=
  match pc.inside with
  | some (s, _) => if i.handles hasExceptionHandler then s :: handled else handled
  | none => handled

theorem SeqPlace.le_reached {sequence : Int} {l : SeqLoop} (h : SeqPlace sequence l) : sequence ≤ l.pc.reached sequence := by
  obtain ⟨pc, calls, ret, ends, failed⟩ := l
  cases pc <;> simp only [SeqPlace, SeqPc.reached] at h ⊢ <;> omega

theorem mem_logHandled {e : Bool} {i : EngineInput} {handled : List Int} {pc : SeqPc} (h : s ∈ handled) :
    s ∈ pc.logHandled e i handled := by
  unfold SeqPc.logHandled
  split
  · split
    · exact List.mem_cons_of_mem _ h
    · exact h
  · exact h

/-- Where a step leads: it stays behind what was handled, or it has handled the next event. -/
theorem seqStep_reached {cfg : EngineConfig} {sequence sequence' : Int} {l l' : SeqLoop} {i : EngineInput}
    (h : seqStep cfg sequence l i = some (sequence', l')) (hp : SeqPlace sequence l) :
    l'.pc.reached sequence' ≤ l.pc.reached sequence ∨
      ∃ next available, l.pc = .inEvent next available ∧ i.handles cfg.hasExceptionHandler = true ∧
        l'.pc.reached sequence' ≤ next := by
  have hle := hp.le_reached
  obtain ⟨pc, calls, ret, ends, failed⟩ := l
  cases seqRule_of_seqStep h with
  | panic => exact .inl hle
  | releasedReadonly | batchStart | call | batchEnd =>
    simp only [SeqPlace] at hp
    refine .inl ?_
    simp only [SeqPc.reached]
    omega
  | handled => exact .inr ⟨_, _, rfl, rfl, by simp only [SeqPc.reached]; omega⟩
  | skip he => exact .inr ⟨_, _, rfl, he, by simp only [SeqPc.reached]; omega⟩
  | _ => exact .inl le_rfl

/-- **Step lemma of one loop.** -/
theorem handled_seqStep {cfg : EngineConfig} {sequence sequence' : Int} {l l' : SeqLoop} {i : EngineInput} {handled : List Int}
    (h : seqStep cfg sequence l i = some (sequence', l')) (hl : Handled sequence l handled) :
    Handled sequence' l' (l.pc.logHandled cfg.hasExceptionHandler i handled) := by
  refine ⟨(seqPlace_step h hl.place).1, fun s h0 hs => ?_⟩
  rcases seqStep_reached h hl.place with hle | ⟨next, available, hpc, hi, hle⟩
  · exact mem_logHandled (hl.all s h0 (by omega))
  · by_cases hn : s = next
    · subst hn
      simp only [SeqPc.logHandled, hpc, SeqPc.inside, hi, if_true]
      exact List.mem_cons_self
    · refine mem_logHandled (hl.all s h0 ?_)
      simp only [hpc, SeqPc.reached]
      omega

/-- What the `Sequence` covers is handled. -/
theorem Handled.covers {sequence : Int} {l : SeqLoop} {handled : List Int} (h : Handled sequence l handled) (h0 : 0 ≤ s)
    (hs : s ≤ sequence) : s ∈ handled :=
  h.all s h0 (le_trans hs h.place.le_reached)

/-! ## Workers -/

/-- What a worker has handled after a step from `pc`. -/
def WorkPc.logHandled (i : EngineInput) (handled : List Int) (pc : WorkPc) : List Int :=
  match pc with
  | .inEvent claimed => if i.handles false then claimed :: handled else handled
  | _ => handled

/-- **Step lemma of one worker.** -/
theorem processed_workStep {cfg : EngineConfig} {work work' sequence sequence' : Int} {l l' : WorkLoop} {i : EngineInput}
    {handled : List Int} (h : workStep cfg work sequence l i = some (work', sequence', l'))
    (hl : ∀ s, s ∈ handled ↔ s ∈ l.returned) (s : Int) : s ∈ l.pc.logHandled i handled ↔ s ∈ l'.returned := by
  obtain ⟨pc, ca, la, calls, ret⟩ := l
  cases workRule_of_workStep h with
  | @handled claimed =>
    show s ∈ claimed :: handled ↔ s ∈ ret ++ [claimed]
    rw [List.mem_cons, List.mem_append, List.mem_singleton, hl s, or_comm]
  | @fail claimed d => cases d <;> exact hl s
  | @panic pc => cases pc <;> exact hl s
  | _ => exact hl s

/-! ## The history of a pipeline -/

/-- The events each consumer has handled. -/
def Pipeline.logHandled (t : Wiring) (st : Pipeline E) : PipelineAction E → (Nat → List Int) → Nat → List Int
  | .consumer c i _, handled =>
    Function.update handled c (match t.runMode (t.stage c) with
      | .sequential => (st.sequential c).pc.logHandled (t.exceptionHandler c) i (handled c)
      | .workPool => (st.workers c).pc.logHandled i (handled c))
  | _, handled => handled

theorem logHandled_other {a : PipelineAction E} {handled : Nat → List Int} (h : ∀ i torn, a ≠ .consumer c i torn) :
    st.logHandled t a handled c = handled c := by
  cases a with
  | consumer d i torn =>
    simp only [Pipeline.logHandled]
    exact Function.update_of_ne (fun hc => h i torn (by rw [hc])) _ _
  | _ => rfl

/-- What the history says of every consumer. -/
structure HandledInv (t : Wiring) (st : Pipeline E) (handled : Nat → List Int) : Prop where
  sequential : ∀ c, t.runMode (t.stage c) = .sequential → Handled (st.sequences c) (st.sequential c) (handled c)
  worker : ∀ c, t.runMode (t.stage c) = .workPool → ∀ s, s ∈ handled c ↔ s ∈ (st.workers c).returned

theorem handledInv_init {multiProducer unique : Bool} {factory : Nat → E} :
    HandledInv t (.init b t multiProducer unique factory) fun _ => [] where
  sequential c _ := by
    refine ⟨trivial, fun s h0 hs => ?_⟩
    have hinit : (Pipeline.init b t multiProducer unique factory).sequences c = initialCursorValue := by
      cases multiProducer <;> rfl
    rw [hinit] at hs
    simp only [Pipeline.init, SeqLoop.init, SeqPc.reached, initialCursorValue] at hs
    omega
  worker _ _ _ := Iff.rfl

/-- **Step lemma of the history.** -/
theorem handledInv_step {a : PipelineAction E} {handled : Nat → List Int} (hB : FeedBooks b st.feed)
    (h : HandledInv t st handled) (hs : st.step b t handlers a = some st') :
    HandledInv t st' (st.logHandled t a handled) := by
  by_cases hr : a.isRestart = true
  · -- a loop that starts anew stands at its `Sequence`
    cases pipelineRule_of_step hs with
    | @restart d =>
      refine ⟨fun c hm => ?_, h.worker⟩
      by_cases hc : c = d
      · subst hc
        simp only [Function.update_self]
        have hc := h.sequential c hm
        exact ⟨trivial, fun s h0 hs => hc.covers h0 hs⟩
      · simp only [Function.update_of_ne hc]
        exact h.sequential c hm
    | _ => cases hr
  · have hr := Bool.eq_false_iff.mpr hr
    constructor
    · intro c hm
      rcases step_loop hB hr hs c with ⟨h1, h2, -, hother⟩ | ⟨i, torn, rfl, ⟨-, hst⟩ | ⟨hm', -⟩⟩
      · rw [h1, h2, logHandled_other hother]
        exact h.sequential c hm
      · simp only [Pipeline.logHandled, Function.update_self, hm]
        exact handled_seqStep hst (h.sequential c hm)
      · rw [hm] at hm'
        cases hm'
    · intro c hm
      rcases step_loop hB hr hs c with ⟨-, -, h3, hother⟩ | ⟨i, torn, rfl, ⟨hm', -⟩ | ⟨-, work, hst⟩⟩
      · rw [h3, logHandled_other hother]
        exact h.worker c hm
      · rw [hm] at hm'
        cases hm'
      · simp only [Pipeline.logHandled, Function.update_self, hm]
        exact processed_workStep hst (h.worker c hm)

end BadBatch
