import BadBatch.Dsl.Registration
import BadBatch.Pipeline.Trail
import BadBatch.Sequencer.Ungated
import BadBatch.WaitStrategy.Wakeup

/-!
# Handlers that are registered after events were published

Publishing needs no handler. The processors of the first chain start at the beginning, so they see their own events as long
as the ring still holds all of them: at most one lap was claimed when the chain was opened. From then on they gate the
producers like processors that were there from the start. A second chain has no such moment, since its processors share the
windows of the first one.

* `SeesOwnEvents`: what a handler is given, and what a publisher may write;
* `InTime`: the steps under which it holds;
* `RegistrationInv`: before, inside and after the registration of the chain;
* `late_handlers_see_own_events`: the theorem over every run.
-/

namespace BadBatch

open MultiProducerSequencer StepSys

variable {E : Type} {b : BufferSize} {handlers : Nat → E → Int → Bool → E} {st st' : Disruptor E} {h : Trail E}

/-! ## The statement -/

namespace Disruptor

/-- What a step adds to the trail. -/
def logTrail (handlers : Nat → E → Int → Bool → E) (st : Disruptor E) (a : DisruptorAction E) (h : Trail E) : Trail E :=
  match a with
  | .life (.engine i e) => st.life.pipeline.logTrail handlers (e.toPipeline i) h
  | .life (.producer a) => st.life.pipeline.logTrail handlers (.producer a) h
  | _ => h

/-- One step, with the trail of every event. -/
def follow (b : BufferSize) (handlers : Nat → E → Int → Bool → E) :
    Disruptor E × Trail E → DisruptorAction E → Option (Disruptor E × Trail E) :=
  observed (Disruptor.step b handlers) (Disruptor.logTrail handlers)

end Disruptor

/-- Processor `d` is an earlier one of the chain of `c`. -/
def Wiring.Before (t : Wiring) (d c : Nat) : Prop := d < c ∧ ∀ j, d < j → j ≤ c → t.root j = false

/-- Handlers see the events of their sequences, and publishers write no slot that a processor has not passed. -/
structure SeesOwnEvents (b : BufferSize) (st : Disruptor E) (h : Trail E) : Prop where
  /-- The event given to `on_event(event, s)` is the value written for `s`, as changed by earlier processors of the chain. -/
  events : ∀ c < st.wiring.count, ∀ s e, (st.life.pipeline.sequential c).pc.inside = some (s, e) →
    (∃ v, h.expected s = some v ∧ st.life.pipeline.held c = some v) ∧ ∀ d, (d, s) ∈ h.changes → st.wiring.Before d c
  /-- Every event that the slot of `next` held before is passed. -/
  writes : ∀ p low high next, st.life.pipeline.feed.phases p = .writing low high next → next ≤ high →
    ∀ c < st.wiring.count, ∀ s, 0 ≤ s → s < next → calculateIndex b s = calculateIndex b next →
      s ≤ st.life.pipeline.sequences c

/-- The owner does not start a processor again that has changed an event beyond its `Sequence`. -/
def OwnerPc.StartsClean (changes : List (Nat × Int)) (sequences : Nat → Int) : OwnerPc → Prop
  | spawn i => ∀ y ∈ changes, y.1 = i → y.2 ≤ sequences i
  | _ => True

instance (changes : List (Nat × Int)) (sequences : Nat → Int) : DecidablePred (OwnerPc.StartsClean changes sequences)
  | .spawn i => inferInstanceAs (Decidable (∀ y ∈ changes, y.1 = i → y.2 ≤ sequences i))
  | .idle | .returned _ _ | .reopen | .poll _ | .pollFinished _ | .exited _ | .checkPoisoned _ _ | .close _ | .drainCursor _
  | .drainPoisoned _ _ | .drainFinished _ _ _ | .drainScan _ _ _ _ | .drainDeadline _ | .halt _ _ | .alert _ _ | .join _ _ =>
    isTrue trivial

/-- The one chain is opened while everything claimed fits into the ring, and processors are started clean. -/
def InTime (b : BufferSize) (x : Disruptor E × Trail E) : DisruptorAction E → Prop
  | .register .handleEventsWith | .register .handleEventsWithExceptionHandler =>
    x.1.dsl.eventProcessors = [] ∧ x.1.life.pipeline.feed.world.high < b.sizeI64
  | .life .owner => x.1.life.owner.StartsClean x.2.changes x.1.life.pipeline.sequences
  | _ => True

instance (x : Disruptor E × Trail E) : DecidablePred (InTime b x)
  | .register .handleEventsWith | .register .handleEventsWithExceptionHandler =>
    inferInstanceAs (Decidable (x.1.dsl.eventProcessors = [] ∧ x.1.life.pipeline.feed.world.high < b.sizeI64))
  | .life .owner => inferInstanceAs (Decidable (x.1.life.owner.StartsClean x.2.changes x.1.life.pipeline.sequences))
  | .register .then | .register .build => isTrue trivial
  | .life (.call _) | .life .expire | .life (.thread _) | .life (.engine _ _) | .life (.producer _) => isTrue trivial

/-! ## Before the chain is built -/

theorem SequencerWorld.Resting.not_step {w : SequencerWorld} (h : w.Resting) (p : Nat) : w.step b (.step p) = none := by
  cases w with
  | single w =>
    obtain ⟨r, hr⟩ := h
    simp [SequencerWorld.step, SingleWorld.step, SingleProducerSequencer.claimStep, hr]
  | multi w =>
    obtain ⟨r, hr⟩ := h p
    simp [SequencerWorld.step, MultiWorld.step, claimStep, hr]

theorem Grounded.resting {w : SequencerWorld} {phases : Nat → ProducerPhase} (h : Grounded b w phases)
    (hidle : ∀ p, phases p = .idle) : w.Resting := by
  cases w with
  | single w =>
    have hp := h.places w.driver
    rw [hidle] at hp
    exact (hp rfl).1
  | multi w =>
    intro p
    have hp := h.places p
    rw [hidle] at hp
    exact hp

theorem grounded_feedStep {f f' : Feed E} {a : FeedAction E} (h : Grounded b f.world f.phases) (hs : f.step b a = some f') :
    Grounded b f'.world f'.phases := by
  cases ha : a.producer with
  | some p => exact (feedMove_step h hs ha).grounded
  | none =>
    cases a <;> simp only [FeedAction.producer, reduceCtorEq] at ha <;>
      simp only [Feed.step, Option.map_eq_some_iff] at hs <;> obtain ⟨w', hst, rfl⟩ := hs
    · exact (grounded_other h (.inr (.inl rfl)) hst).1
    · exact (grounded_other h (.inr (.inr (.inl rfl))) hst).1

/-- No processor has ever run. -/
structure Unstarted (b : BufferSize) (st : Lifecycle E) : Prop where
  books : FeedBooks b st.pipeline.feed
  grounded : Grounded b st.pipeline.feed.world st.pipeline.feed.phases
  threads : ∀ i, st.threads i = .idle
  sequences : ∀ c, st.pipeline.sequences c = initialCursorValue
  loops : ∀ c, st.pipeline.sequential c = .init ∧ st.pipeline.barriers c = .idle

section Unstarted

variable {t : Wiring} {l l' : Lifecycle E}

/-- Without a thread the engine does not move. -/
theorem engineStep_idle {i : Nat} {e : EngineAction E} (hidle : l.threads i = .idle) :
    l.engineStep b t handlers i e = none := by
  simp only [Lifecycle.engineStep, hidle]

theorem threadStep_idle {i : Nat} (hidle : l.threads i = .idle) : l.threadStep b t handlers i = none := by
  simp only [Lifecycle.threadStep, hidle]

/-- Without a processor no thread is spawned. -/
theorem threads_idle {a : LifecycleAction E} (hcount : t.count = 0) (h : ∀ i, l.threads i = .idle)
    (hs : l.step b t handlers a = some l') (i : Nat) : l'.threads i = .idle := by
  cases a with
  | call c =>
    simp only [Lifecycle.step] at hs
    split at hs <;> simp only [Option.some.injEq, reduceCtorEq] at hs <;> subst hs
    all_goals
      cases c <;> simp only [Lifecycle.callStep] <;> split <;> exact h i
  | owner =>
    obtain ⟨pc, -, hr⟩ := ownerRule_of_ownerStep hs
    cases hr with
    | spawn hj | halt hj =>
      rw [hcount] at hj
      exact absurd hj (Nat.not_lt_zero _)
    | join _ hpc =>
      rw [h] at hpc
      cases hpc
    | _ => exact h i
  | expire =>
    simp only [Lifecycle.step] at hs
    split at hs <;> simp only [Option.some.injEq, reduceCtorEq] at hs
    subst hs
    exact h i
  | thread j =>
    simp only [Lifecycle.step, threadStep_idle (h j), reduceCtorEq] at hs
  | engine j e =>
    simp only [Lifecycle.step, engineStep_idle (h j), reduceCtorEq] at hs
  | producer a =>
    obtain ⟨p, -, rfl⟩ := act_some hs
    exact h i

/-- The steps that touch neither a sequence nor a loop. -/
theorem Unstarted.flag (h : Unstarted b l) (ht : ∀ i, l'.threads i = .idle)
    (hfeed : ∃ failure, l'.pipeline.feed = { l.pipeline.feed with firstFailure := failure })
    (hseq : l'.pipeline.sequential = l.pipeline.sequential) (hbar : l'.pipeline.barriers = l.pipeline.barriers) :
    Unstarted b l' := by
  obtain ⟨failure, hfeed⟩ := hfeed
  refine ⟨?_, ?_, ht, fun c => ?_, fun c => ?_⟩
  · rw [hfeed]
    exact ⟨h.books.world, h.books.phases⟩
  · rw [hfeed]
    exact h.grounded
  · rw [Pipeline.sequences, hfeed]
    exact h.sequences c
  · rw [hseq, hbar]
    exact h.loops c

/-- A step of a producer, or of the flags it reads. -/
theorem Unstarted.feed {a : FeedAction E} (h : Unstarted b l) (ht : ∀ i, l'.threads i = .idle)
    (hs : l.pipeline.step b t handlers (.producer a) = some l'.pipeline) : Unstarted b l' := by
  simp only [Pipeline.step, Option.map_eq_some_iff] at hs
  obtain ⟨feed, hst, he⟩ := hs
  have hseq := (h.books.step_world hst).1
  refine ⟨?_, ?_, ht, fun c => ?_, fun c => ?_⟩ <;> rw [← he]
  · exact feedBooks_step h.books hst
  · exact grounded_feedStep h.grounded hst
  · show feed.world.sequences c = initialCursorValue
    rw [hseq]
    exact h.sequences c
  · exact h.loops c

end Unstarted

/-! ## The invariant -/

/-- Nothing is registered. -/
structure Bare (b : BufferSize) (st : Disruptor E) (h : Trail E) : Prop where
  dsl : st.dsl = .new
  unstarted : Unstarted b st.life
  used : ∀ p, st.life.pipeline.feed.phases p ≠ .idle → p ∈ st.publishers
  gating : st.life.pipeline.feed.world.gatingSequences = []
  lap : st.life.pipeline.feed.world.Late b ∨
    st.life.pipeline.feed.world.Early b ∧ TrailInv b (dslWiring []) st.life.pipeline h

/-- The caller holds the builder of the chain. -/
structure Building (b : BufferSize) (st : Disruptor E) (h : Trail E) : Prop where
  calls : ∃ calls : List DslCall, calls.foldlM DslState.call .new = some st.dsl ∧ rootCalls calls ≤ 1
  type : st.dsl.type = .disruptorBuilder
  unstarted : Unstarted b st.life
  idle : ∀ p, st.life.pipeline.feed.phases p = .idle
  owner : st.life.owner.atRest = true
  gating : ∀ i, i ∈ st.life.pipeline.feed.world.gatingSequences ↔ i < st.dsl.eventProcessors.length
  lap : st.life.pipeline.feed.world.FirstLap b
  trail : TrailInv b (dslWiring []) st.life.pipeline h

/-- The chain is complete. -/
structure Built (b : BufferSize) (st : Disruptor E) (h : Trail E) : Prop where
  calls : ∃ calls, dslProcessors calls = some st.dsl.eventProcessors ∧ rootCalls calls ≤ 1
  type : st.dsl.type = .disruptor
  processors : st.dsl.eventProcessors ≠ []
  pipe : PipeInv b st.wiring st.life.pipeline
  trail : TrailInv b st.wiring st.life.pipeline h

/-- Before, inside and after the registration of the chain. -/
inductive RegistrationInv (b : BufferSize) (st : Disruptor E) (h : Trail E) : Prop
  | bare (hI : Bare b st h)
  | building (hI : Building b st h)
  | built (hI : Built b st h)

theorem bare_new {multiProducer : Bool} {factory : Nat → E} : Bare b (Disruptor.new b multiProducer factory) .empty := by
  have hseq : ∀ c, (Disruptor.new b multiProducer factory).life.pipeline.sequences c = initialCursorValue := by
    intro c
    cases multiProducer <;> rfl
  refine ⟨rfl, ⟨loopBooks_new.feed, grounded_init b multiProducer false [], fun _ => rfl, hseq, fun _ => ⟨rfl, rfl⟩⟩,
    fun p hp => absurd rfl hp, ?_, .inr ⟨SequencerWorld.early_init, ?_⟩⟩
  · cases multiProducer <;> rfl
  · refine ⟨⟨⟨fun p s hp => ?_, fun s hp => ?_⟩, nofun, fun s hs => absurd rfl hs⟩, fun s => ⟨fun _ => rfl, fun _ => rfl⟩,
      nofun, nofun, nofun⟩
    · cases multiProducer
      · obtain ⟨-, high, hpc, -⟩ := hp
        cases hpc
      · exact hp.elim
    · cases multiProducer <;> cases hp

/-- One chain: the wiring is well-formed, and only its first processor is a root. -/
theorem Built.wf (hI : Built b st h) : st.wiring.Wf ∧ ∀ k, 0 < k → st.wiring.root k = false := by
  obtain ⟨calls, hcalls, hone⟩ := hI.calls
  exact ⟨wf_dslWiring hcalls hI.processors, fun k => root_of_rootCalls hcalls hone⟩

/-- **The invariant is enough.** -/
theorem RegistrationInv.sees (h' : RegistrationInv b st h) : SeesOwnEvents b st h := by
  cases h' with
  | bare hI =>
    have hcount : st.wiring.count = 0 := by rw [Disruptor.wiring, hI.dsl]; rfl
    refine ⟨fun c hc => ?_, fun p low high next _ _ c hc => ?_⟩ <;> rw [hcount] at hc <;> exact absurd hc (Nat.not_lt_zero c)
  | building hI =>
    refine ⟨fun c _ s e hin => ?_, fun p low high next hph => ?_⟩
    · rw [(hI.unstarted.loops c).1] at hin
      cases hin
    · rw [hI.idle] at hph
      cases hph
  | built hI =>
    obtain ⟨hwf, hroot⟩ := hI.wf
    have hpipe := hI.pipe
    refine ⟨fun c hc s e hin => ⟨hI.trail.held c hc s e hin, fun d hd => ?_⟩,
      fun p low high next hph hle c hc s h0 hlt hslot => ?_⟩
    · have hstage : d < c := hI.trail.earlier hwf hroot (fun _ => rfl) (fun _ => rfl) hpipe hc hin hd
      exact ⟨hstage, fun j hj _ => hroot j (by omega)⟩
    · -- an earlier sequence of the slot is a lap back, and claims stay within a lap of every processor
      have hp := hpipe.feed.phases p
      rw [hph] at hp
      obtain ⟨-, hln, -, hown⟩ := hp.writing
      have hhigh := (hpipe.feed.world.ledger.held (hown next hln hle)).2.1
      have hpassed := hpipe.high_le hwf hc
      by_contra hno
      have := eq_of_calculateIndex_eq b hslot (by omega) (by omega)
      omega

/-! ## Steps -/

theorem ofDsl_call {p : Nat} {c : ClaimCall} : (FeedAction.call (E := E) p c).ofDsl = c.ofDsl := by
  cases c <;> rfl

/-- The first lap under a step of a producer. -/
theorem lap_feedStep {f f' : Feed E} {a : FeedAction E} (hB : FeedBooks b f)
    (hdsl : ∀ p c, a = .call p c → c.ofDsl = true) (hs : f.step b a = some f') :
    (f.world.Late b → f'.world.Late b) ∧ (f.world.Early b → f'.world.Early b ∨ f'.world.Late b) := by
  obtain ⟨-, -, -, q, hmove⟩ := hB.step_world hs
  rcases feedStep_action hs with he | ⟨a', hst, hkeep, -, hcall⟩
  · rw [he]
    exact ⟨id, .inl⟩
  · exact ⟨fun hl => SequencerWorld.late_step hB.world hl hst hmove.high_le,
      fun hl => SequencerWorld.early_step hB.world hl hst hkeep fun p c he => hdsl p c (hcall p c he).1⟩

/-- In the first lap everything claimed lies in the window. -/
theorem early_window {w : SequencerWorld} {p : Nat} {s : Int} (hB : w.Books b) (hlap : w.FirstLap b)
    (hs : w.ledger.owner s = some p) : w.high - b.sizeI64 < s := by
  have h0 := (hB.ledger.held hs).1
  have := hlap.high
  omega

section Bare

variable {l : Lifecycle E}

/-- A producer steps before anything is registered. -/
theorem Bare.feed {a : FeedAction E} (hI : Bare b st h)
    (hcall : ∀ p c, a = .call p c → c.ofDsl = true) (hthreads : ∀ i, l.threads i = .idle) {publishers : List Nat}
    (hpub : ∀ p, (p ∈ st.publishers ∨ ∃ c, a = .call p c) → p ∈ publishers)
    (hs : st.life.pipeline.step b (dslWiring []) handlers (.producer a) = some l.pipeline) :
    Bare b { st with life := l, publishers := publishers } (st.life.pipeline.logTrail handlers (.producer a) h) := by
  have hun := hI.unstarted
  have hun' := hun.feed hthreads hs
  simp only [Pipeline.step, Option.map_eq_some_iff] at hs
  obtain ⟨feed, hst, he⟩ := hs
  obtain ⟨-, hgat, -⟩ := hun.books.step_world hst
  obtain ⟨hlate, hearly⟩ := lap_feedStep hun.books hcall hst
  refine ⟨hI.dsl, hun', fun p hp => hpub p ?_, ?_, ?_⟩
  · simp only [← he] at hp
    by_cases hc : ∃ c, a = .call p c
    · exact .inr hc
    · exact .inl (hI.used p fun hidle => hp (feedStep_idle hst hidle fun c hca => hc ⟨c, hca⟩))
  · simp only [← he]
    exact hgat.trans hI.gating
  · simp only [← he]
    rcases hI.lap with hl | ⟨hl, hT⟩
    · exact .inl (hlate hl)
    · rcases hearly hl with hl' | hl'
      · exact .inr ⟨hl', hT.producer hun.books (fun p s => early_window hun.books.world hl.firstLap)
          (fun c hc => absurd hc c.not_lt_zero) hst⟩
      · exact .inl hl'

/-- A step before anything is registered. -/
theorem Bare.step {a : LifecycleAction E} (hI : Bare b st h) (hs : st.step b handlers (.life a) = some st') :
    Bare b st' (st.logTrail handlers (.life a) h) := by
  simp only [Disruptor.step, Option.ite_none_right_eq_some, Option.map_eq_some_iff] at hs
  obtain ⟨hok, l, hlife, rfl⟩ := hs
  have hw : st.wiring = dslWiring [] := by rw [Disruptor.wiring, hI.dsl]; rfl
  rw [hw] at hlife
  have hun := hI.unstarted
  have hthreads := threads_idle rfl hun.threads hlife
  -- flags are no part of the invariant
  have hflags : (∃ failure, l.pipeline.feed = { st.life.pipeline.feed with firstFailure := failure }) →
      l.pipeline.sequential = st.life.pipeline.sequential → l.pipeline.barriers = st.life.pipeline.barriers →
      l.pipeline.held = st.life.pipeline.held → a.publishers st.publishers = st.publishers →
      Bare b { st with life := l, publishers := a.publishers st.publishers } h := by
    intro hfeed hseq hbar hheld hpub
    have hun' := hun.flag hthreads hfeed hseq hbar
    obtain ⟨failure, hfeed⟩ := hfeed
    refine ⟨hI.dsl, hun', fun p hp => ?_, ?_, ?_⟩
    · simp only [hfeed] at hp
      rw [hpub]
      exact hI.used p hp
    · simp only [hfeed]
      exact hI.gating
    · simp only [hfeed]
      refine hI.lap.imp id fun hlap => ⟨hlap.1, ?_⟩
      have hT := hlap.2
      have hsame : ∀ d, l.pipeline.sequences d = st.life.pipeline.sequences d := fun d => by
        rw [Pipeline.sequences, hfeed, Pipeline.sequences]
      refine hT.frame ?_ ?_ ?_ ?_ ?_ hheld (fun c => by rw [hseq]) fun d => .of_eq (by rw [hseq]) (hsame d)
      all_goals rw [hfeed]
      · exact .refl _
      · exact ⟨hT.writes.publications, hT.writes.writing, hT.writes.claimed⟩
  rcases lifeStep_cases hlife with ⟨i, e, rfl, -⟩ | ⟨f, rfl, hp⟩ | ⟨i, rfl, ho, hp⟩ | ⟨hne, hnp, hflag⟩
  · simp only [Lifecycle.step, engineStep_idle (hun.threads i), reduceCtorEq] at hlife
  · refine hI.feed ?_ hthreads (fun p hmem => ?_) hp
    · rintro p c rfl
      simp only [LifecycleAction.permitted, Bool.and_eq_true] at hok
      rw [← ofDsl_call (E := E) (p := p)]
      exact hok.2
    · rcases hmem with hmem | ⟨c, rfl⟩
      · cases f with
        | call q c => exact List.mem_cons_of_mem _ hmem
        | _ => exact hmem
      · exact List.mem_cons_self
  · simp [Pipeline.step, dslWiring] at hp
  · have hpub : a.publishers st.publishers = st.publishers := by
      cases a with
      | producer f => exact absurd rfl (hnp f)
      | _ => rfl
    have hlog : st.logTrail handlers (.life a) h = h := by
      cases a with
      | engine i e => exact absurd rfl (hne i e)
      | producer f => exact absurd rfl (hnp f)
      | _ => rfl
    rw [hlog]
    generalize hp' : l.pipeline = p' at hflag
    cases hflag with
    | same => exact hflags ⟨_, by rw [hp']⟩ (by rw [hp']) (by rw [hp']) (by rw [hp']) hpub
    | running c value | alert c value => exact hflags ⟨_, by rw [hp']⟩ (by rw [hp']) (by rw [hp']) (by rw [hp']) hpub
    | record f => exact hflags ⟨_, by rw [hp']; rfl⟩ (by rw [hp']) (by rw [hp']) (by rw [hp']) hpub
    | feed f hf hst =>
      have hno : ∀ p c, f ≠ .call p c := by
        rintro p c rfl
        rcases hf with hf | hf <;> cases hf
      have hlog' : st.life.pipeline.logTrail handlers (.producer f) h = h := by
        rcases hf with rfl | rfl <;> rfl
      rw [← hlog', hpub]
      refine hI.feed (fun p c he => absurd he (hno p c)) hthreads (fun p hp => ?_) (by rw [hp']; exact hst)
      rcases hp with hp | ⟨c, hc⟩
      · exact hp
      · exact absurd hc (hno p c)

end Bare

/-- While the caller holds the builder nobody else moves. -/
theorem Building.no_step {a : LifecycleAction E} (hI : Building b st h) : st.step b handlers (.life a) = none := by
  have hidle := hI.idle
  have hrest := hI.unstarted.grounded.resting hidle
  simp only [Disruptor.step]
  split
  · rename_i hok
    rw [Option.map_eq_none_iff]
    cases a with
    | call c => simp [LifecycleAction.permitted, hI.type] at hok
    | owner =>
      have howner := hI.owner
      cases ho : st.life.owner <;> rw [ho] at howner <;> simp only [OwnerPc.atRest, Bool.false_eq_true] at howner <;>
        simp only [Lifecycle.step, Lifecycle.ownerStep, ho]
    | expire =>
      have howner := hI.owner
      cases ho : st.life.owner <;> rw [ho] at howner <;> simp only [OwnerPc.atRest, Bool.false_eq_true] at howner <;>
        simp only [Lifecycle.step, ho]
    | thread i => simp only [Lifecycle.step, threadStep_idle (hI.unstarted.threads i)]
    | engine i e => simp only [Lifecycle.step, engineStep_idle (hI.unstarted.threads i)]
    | producer f =>
      simp only [Lifecycle.step, Lifecycle.act, Pipeline.step, Option.map_eq_none_iff]
      cases f with
      | call p c => simp [LifecycleAction.permitted, hI.type] at hok
      | step p => simp only [Feed.step, hrest.not_step, Option.map_none]
      | close | reopen => simp [LifecycleAction.permitted, FeedAction.ofDsl] at hok
      | claimed p | write p value | publish p | publishRange p | published p | panic p | record p | poison p =>
        simp only [Feed.step, hidle]
  · rfl

/-! ## Registration -/

section Register

variable {call : DslCall} {dsl : DslState} {w : SequencerWorld}

/-- What `register` does. -/
theorem register_cases (hs : st.step b handlers (.register call) = some st') :
    st.life.owner.atRest = true ∧ st.unused = true ∧ ∃ dsl w, st.dsl.call call = some dsl ∧
      st.life.pipeline.feed.world.step b (.addGatingSequences
        ((List.range dsl.eventProcessors.length).drop st.dsl.eventProcessors.length)) = some w ∧
      st' = { st with
        dsl := dsl
        life := { st.life with pipeline := { st.life.pipeline with feed := { st.life.pipeline.feed with world := w } } } } := by
  simp only [Disruptor.step, Disruptor.register, Option.ite_none_right_eq_some, Option.bind_eq_some_iff,
    Option.map_eq_some_iff] at hs
  obtain ⟨⟨howner, hunused⟩, dsl, hdsl, w, hw, rfl⟩ := hs
  exact ⟨howner, hunused, dsl, w, hdsl, hw, rfl⟩

/-- Registration does not touch the processors that are not there yet, nor the trail. -/
theorem Unstarted.register {l : Lifecycle E} {ids : List Nat} (h : Unstarted b l)
    (hw : l.pipeline.feed.world.step b (.addGatingSequences ids) = some w) :
    Unstarted b { l with pipeline := { l.pipeline with feed := { l.pipeline.feed with world := w } } } := by
  refine ⟨⟨SequencerWorld.books_step h.books.world hw nofun, fun p => phaseOk_addGatingSequences (h.books.phases p) hw⟩,
    (grounded_other h.grounded (.inl rfl) hw).1, h.threads, fun c => ?_, h.loops⟩
  show w.sequences c = initialCursorValue
  rw [(step_addGatingSequences hw).1]
  exact h.sequences c

theorem TrailInv.register {t : Wiring} {q : Pipeline E} {ids : List Nat} (hT : TrailInv b t q h)
    (hw : q.feed.world.step b (.addGatingSequences ids) = some w) :
    TrailInv b t { q with feed := { q.feed with world := w } } h := by
  obtain ⟨hseq, hledger, hhigh, hcursor, -⟩ := step_addGatingSequences hw
  have hpub := (publishing_other hw nofun nofun nofun).2
  refine hT.frame ⟨le_of_eq hcursor.symm, fun i => by rw [hseq], fun s hp => by rw [hledger]; exact hp⟩ (le_of_eq hhigh.symm)
    (hT.writes.congr hledger hhigh hpub rfl rfl) rfl rfl rfl (fun _ => rfl) fun d => .of_eq rfl (congrFun hseq d)

/-- The gating sequences after a registration. -/
theorem mem_gating_register {m n : Nat} (hw : st.life.pipeline.feed.world.step b (.addGatingSequences
      ((List.range n).drop m)) = some w) (hmn : m ≤ n)
    (hgating : ∀ i, i ∈ st.life.pipeline.feed.world.gatingSequences ↔ i < m) (i : Nat) : i ∈ w.gatingSequences ↔ i < n := by
  rw [(step_addGatingSequences hw).2.2.2.2, mem_addGatingSequencesRcu, hgating, List.range_eq_range', List.drop_range',
    List.mem_range'_1]
  omega

/-- A call that adds a processor, in the first lap and between two claims. -/
theorem building_of_push (hw : st.life.pipeline.feed.world.step b (.addGatingSequences
      ((List.range dsl.eventProcessors.length).drop st.dsl.eventProcessors.length)) = some w)
    (hlen : st.dsl.eventProcessors.length ≤ dsl.eventProcessors.length)
    (hcalls : ∃ calls : List DslCall, calls.foldlM DslState.call .new = some dsl ∧ rootCalls calls ≤ 1)
    (htype : dsl.type = .disruptorBuilder) (hun : Unstarted b st.life)
    (hidle : ∀ p, st.life.pipeline.feed.phases p = .idle) (howner : st.life.owner.atRest = true)
    (hgating : ∀ i, i ∈ st.life.pipeline.feed.world.gatingSequences ↔ i < st.dsl.eventProcessors.length)
    (hlap : st.life.pipeline.feed.world.FirstLap b) (hT : TrailInv b (dslWiring []) st.life.pipeline h) :
    Building b { st with
      dsl := dsl
      life := { st.life with pipeline := { st.life.pipeline with feed := { st.life.pipeline.feed with world := w } } } } h := by
  exact ⟨hcalls, htype, hun.register hw, hidle, howner, mem_gating_register hw hlen hgating, hlap.addGatingSequences hw,
    hT.register hw⟩

/-- The root of the chain. -/
theorem Bare.register (hI : Bare b st h) (hroot : call = .handleEventsWith ∨ call = .handleEventsWithExceptionHandler)
    (hhigh : st.life.pipeline.feed.world.high < b.sizeI64) (hs : st.step b handlers (.register call) = some st') :
    Building b st' h := by
  obtain ⟨howner, hunused, dsl, w, hdsl, hw, rfl⟩ := register_cases hs
  have hidle : ∀ p, st.life.pipeline.feed.phases p = .idle := by
    intro p
    by_contra hne
    have := List.all_eq_true.mp hunused p (hI.used p hne)
    exact hne (by simpa using this)
  have hrest := hI.unstarted.grounded.resting hidle
  -- what is late has claimed more than a lap
  obtain ⟨hearly, hT⟩ := hI.lap.resolve_left fun hlate => by
    have := hlate.high hrest
    omega
  have hcalls : [call].foldlM DslState.call .new = some dsl := by
    rw [hI.dsl] at hdsl
    simp [hdsl]
  refine building_of_push hw ?_ ⟨[call], hcalls, ?_⟩ ?_ hI.unstarted hidle howner (fun i => ?_) hearly.firstLap hT
  · rw [hI.dsl]
    exact Nat.zero_le _
  · rcases hroot with rfl | rfl <;> decide
  · rw [hI.dsl] at hdsl
    rcases hroot with rfl | rfl <;> simp only [DslState.call, DslState.new, if_true, Option.some.injEq] at hdsl <;>
      rw [← hdsl] <;> rfl
  · rw [hI.gating, hI.dsl]
    simp [DslState.new]

/-- `then` extends the chain. -/
theorem Building.register_then (hI : Building b st h) (hs : st.step b handlers (.register .then) = some st') :
    Building b st' h := by
  obtain ⟨howner, -, dsl, w, hdsl, hw, rfl⟩ := register_cases hs
  obtain ⟨calls, hcalls, hone⟩ := hI.calls
  have hpush : dsl = st.dsl.push st.dsl.lastProcessorSequences false := by
    simp only [DslState.call, hI.type, if_true, Option.some.injEq] at hdsl
    exact hdsl.symm
  refine building_of_push hw ?_ ⟨calls ++ [.then], ?_, ?_⟩ ?_ hI.unstarted hI.idle howner hI.gating hI.lap hI.trail
  · rw [hpush]
    simp [DslState.push]
  · simp [List.foldlM_append, hcalls, hdsl]
  · simpa [rootCalls, List.countP_append] using hone
  · rw [hpush]
    rfl

/-- `build`: the processors gate the producers as if they had been there from the start. -/
theorem Building.register_build (hI : Building b st h) (hs : st.step b handlers (.register .build) = some st') :
    Built b st' h := by
  obtain ⟨-, -, dsl, w, hdsl, hw, rfl⟩ := register_cases hs
  obtain ⟨calls, hcalls, hone⟩ := hI.calls
  have hdsl' : dsl = { st.dsl with type := .disruptor } := by
    simp only [DslState.call, hI.type, if_true, Option.some.injEq] at hdsl
    exact hdsl.symm
  subst hdsl'
  have hne : st.dsl.eventProcessors ≠ [] :=
    List.length_pos_iff.mp ((dslOk_calls dslOk_new hcalls).last hI.type).1
  have hprocessors : dslProcessors (calls ++ [.build]) = some st.dsl.eventProcessors := by
    simp [dslProcessors, List.foldlM_append, hcalls, hdsl]
  have hone' : rootCalls (calls ++ [.build]) ≤ 1 := by simpa [rootCalls, List.countP_append] using hone
  have hun := hI.unstarted.register hw
  have hgating := mem_gating_register hw le_rfl hI.gating
  have hrest := hun.grounded.resting hI.idle
  have hwf := wf_dslWiring hprocessors hne
  have hgne : w.gatingSequences ≠ [] := by
    intro he
    have := (hgating 0).mpr (List.length_pos_iff.mpr hne)
    rw [he] at this
    cases this
  have hinv := (hI.lap.addGatingSequences hw).inv hun.books.world hrest hgne hun.sequences
  refine ⟨⟨_, hprocessors, hone'⟩, rfl, hne, ⟨⟨hinv, hun.books.phases⟩, fun i => ?_,
    ⟨fun c _ => ⟨?_, ?_, fun _ => ?_, by rintro ⟨⟩⟩,
    fun c hc => by cases hc⟩⟩, ?_⟩
  · show i ∈ w.gatingSequences ↔ i ∈ List.range st.dsl.eventProcessors.length
    rw [hgating, List.mem_range]
  · rw [hun.sequences, initialCursorValue]
  · rw [(hun.loops c).2]
    trivial
  · rw [(hun.loops c).1, (hun.loops c).2]
    exact seqOk_init (hun.sequences c)
  · have hT := hI.trail.register hw
    refine ⟨hT.writes, hT.known, hT.ring, fun c _ s e hin => ?_, fun d s hs => ?_⟩
    · rw [(hun.loops c).1] at hin
      cases hin
    · exact absurd (hT.changed d s hs).1 (Nat.not_lt_zero d)

end Register

/-! ## After the chain is built -/

theorem Built.step {a : LifecycleAction E} (hI : Built b st h) (ha : InTime b (st, h) (.life a))
    (hs : st.step b handlers (.life a) = some st') : Built b st' (st.logTrail handlers (.life a) h) := by
  simp only [Disruptor.step, Option.ite_none_right_eq_some, Option.map_eq_some_iff] at hs
  obtain ⟨-, l, hlife, rfl⟩ := hs
  obtain ⟨hwf, hroot⟩ := hI.wf
  refine ⟨hI.calls, hI.type, hI.processors, pipeInv_pipelineStep hwf hI.pipe (pipelineStep_step hlife), ?_⟩
  have htrail : ∀ pa : PipelineAction E, st.life.pipeline.step b st.wiring handlers pa = some l.pipeline →
      (∀ c, pa = .restart c → ∀ s, (c, s) ∈ h.changes → s ≤ st.life.pipeline.sequences c) →
      TrailInv b st.wiring l.pipeline (st.life.pipeline.logTrail handlers pa h) :=
    fun pa hp hr => trailInv_step hwf hroot (fun _ => rfl) (fun _ => rfl) hI.pipe hI.trail hp hr
  rcases lifeStep_cases hlife with ⟨i, e, rfl, hp⟩ | ⟨f, rfl, hp⟩ | ⟨i, rfl, ho, hp⟩ | ⟨hne, hnp, hflag⟩
  · refine htrail _ hp fun c he => ?_
    cases e <;> cases he
  · exact htrail _ hp (by simp)
  · refine htrail _ hp fun c he s hs => ?_
    cases he
    have hclean : st.life.owner.StartsClean h.changes st.life.pipeline.sequences := ha
    rw [ho] at hclean
    exact hclean (i, s) hs rfl
  · have hlog : st.logTrail handlers (.life a) h = h := by
      cases a with
      | engine i e => exact absurd rfl (hne i e)
      | producer f => exact absurd rfl (hnp f)
      | _ => rfl
    rw [hlog]
    show TrailInv b st.wiring l.pipeline h
    generalize hp' : l.pipeline = p' at hflag htrail
    have hT := hI.trail
    cases hflag with
    | same => exact hT
    | feed f hf hst =>
      have hlog' : st.life.pipeline.logTrail handlers (.producer f) h = h := by
        rcases hf with rfl | rfl <;> rfl
      rw [← hlog']
      exact htrail _ hst (by simp)
    | running c value => exact htrail (.setRunning c value) rfl (by simp)
    | alert c value => exact htrail (.setAlert c value) rfl (by simp)
    | record f =>
      exact hT.frame (.refl _) le_rfl (hT.writes.congr rfl rfl (fun _ _ => id) rfl rfl) rfl rfl rfl (fun _ => rfl)
        fun _ => .of_eq rfl rfl

/-- **Step lemma.** -/
theorem registrationInv_step {a : DisruptorAction E} (hI : RegistrationInv b st h) (ha : InTime b (st, h) a)
    (hs : st.step b handlers a = some st') : RegistrationInv b st' (st.logTrail handlers a h) := by
  cases a with
  | life a =>
    cases hI with
    | bare hI => exact .bare (hI.step hs)
    | building hI =>
      rw [hI.no_step] at hs
      cases hs
    | built hI => exact .built (hI.step ha hs)
  | register call =>
    have hcall : ∃ dsl, st.dsl.call call = some dsl := by
      obtain ⟨-, -, dsl, -, hdsl, -⟩ := register_cases hs
      exact ⟨dsl, hdsl⟩
    obtain ⟨dsl, hdsl⟩ := hcall
    cases call with
    | handleEventsWith | handleEventsWithExceptionHandler =>
      obtain ⟨hnone, hhigh⟩ := ha
      cases hI with
      | bare hI => exact .building (hI.register (by simp) hhigh hs)
      | building hI => simp [DslState.call, hI.type] at hdsl
      | built hI => exact absurd hnone hI.processors
    | «then» =>
      cases hI with
      | bare hI => simp [DslState.call, hI.dsl, DslState.new] at hdsl
      | building hI => exact .building (hI.register_then hs)
      | built hI => simp [DslState.call, hI.type] at hdsl
    | build =>
      cases hI with
      | bare hI => simp [DslState.call, hI.dsl, DslState.new] at hdsl
      | building hI => exact .built (hI.register_build hs)
      | built hI => simp [DslState.call, hI.type] at hdsl

/-- **Late registration.** In every run whose one chain is opened in time, every handler is given the event of its sequence,
as changed by earlier processors of its chain, and no publisher writes a slot that a registered processor has not passed:
single or multi producer, any ring size, any order of publications, registration and starts. -/
theorem late_handlers_see_own_events {multiProducer : Bool} {factory : Nat → E} {x : Disruptor E × Trail E}
    (hr : Reach (Disruptor.follow b handlers) (InTime b) (.new b multiProducer factory, .empty) x) :
    SeesOwnEvents b x.1 x.2 := by
  refine RegistrationInv.sees (Reach.inv (I := fun x => RegistrationInv b x.1 x.2) (.bare bare_new) ?_ hr)
  intro x x' a hI ha hs
  obtain ⟨hst, hlog⟩ := observed_eq_some.mp hs
  rw [hlog]
  exact registrationInv_step hI ha hst

/-! ## One slot -/

/-- `publish_event` of a value, with `n` steps on the claim path. -/
def publishAlone (n value : Nat) : List (DisruptorAction Nat) :=
  let calls : List (FeedAction Nat) :=
    .call 0 (.nextN 1) :: (List.replicate n (.step 0) ++ [.claimed 0, .write 0 value, .publish 0, .step 0, .published 0])
  calls.map fun a => .life (.producer a)

/-- `handle_events_with(..).build()`, and the owner starts the processor. -/
def startFirst : List (DisruptorAction Nat) :=
  let calls : List (LifecycleAction Nat) :=
    [.call .start, .owner, .owner, .thread 0, .thread 0, .thread 0, .engine 0 (.consumer (.handler .ok) none), .thread 0,
      .engine 0 (.consumer .tick none)]
  [.register .handleEventsWith, .register .build] ++ calls.map .life

/-- The processor is released a batch up to `available` and takes its first event. -/
def deliverFirst (available : Int) : List (DisruptorAction Nat) :=
  let calls : List (EngineAction Nat) :=
    [.consumer (.flag true) none, .wait .waitFor, .barrier .next, .barrier .next, .barrier .next, .barrier .next,
      .consumer (.answer (.ok available)) none, .consumer (.handler .ok) none, .consumer .tick none]
  calls.map fun e => .life (.engine 0 e)

set_option maxRecDepth 4000 in
/-- One event that was published before its handler was registered. -/
theorem late_handlers_see_own_events_one : ∃ x : Disruptor Nat × Trail Nat,
    Reach (Disruptor.follow ⟨0, by decide⟩ fun _ e _ _ => e) (InTime ⟨0, by decide⟩)
      (.new ⟨0, by decide⟩ false fun _ => 0, .empty) x ∧
    (x.1.life.pipeline.sequential 0).pc.inside = some (0, true) ∧
    ∃ v, x.2.expected 0 = some v ∧ x.1.life.pipeline.held 0 = some v := by
  obtain ⟨x, hr, hcount, hin⟩ : ∃ x : Disruptor Nat × Trail Nat,
      Reach (Disruptor.follow ⟨0, by decide⟩ fun _ e _ _ => e) (InTime ⟨0, by decide⟩)
        (.new ⟨0, by decide⟩ false fun _ => 0, .empty) x ∧
      x.1.wiring.count = 1 ∧ (x.1.life.pipeline.sequential 0).pc.inside = some (0, true) := by
    refine ⟨_, reach_of_exec (publishAlone 5 7 ++ startFirst ++ deliverFirst 0) rfl, rfl, rfl⟩
  exact ⟨x, hr, hin, ((late_handlers_see_own_events hr).events 0 (by rw [hcount]; decide) 0 true hin).1⟩

set_option maxRecDepth 4000 in
/-- Two events in a ring of one slot, published before the handler was registered: it is given the second one for sequence
`0`. -/
theorem late_handler_sees_other_event : ∃ x : Disruptor Nat × Trail Nat,
    Reach (Disruptor.follow ⟨0, by decide⟩ fun _ e _ _ => e) (fun _ _ => True)
      (.new ⟨0, by decide⟩ false fun _ => 0, .empty) x ∧
    (x.1.life.pipeline.sequential 0).pc.inside = some (0, false) ∧ x.2.expected 0 = some 7 ∧
    x.1.life.pipeline.held 0 = some 8 ∧ ¬SeesOwnEvents ⟨0, by decide⟩ x.1 x.2 := by
  obtain ⟨x, hr, hcount, hin, hexpected, hheld⟩ : ∃ x : Disruptor Nat × Trail Nat,
      Reach (Disruptor.follow ⟨0, by decide⟩ fun _ e _ _ => e) (fun _ _ => True)
        (.new ⟨0, by decide⟩ false fun _ => 0, .empty) x ∧
      x.1.wiring.count = 1 ∧ (x.1.life.pipeline.sequential 0).pc.inside = some (0, false) ∧ x.2.expected 0 = some 7 ∧
      x.1.life.pipeline.held 0 = some 8 := by
    refine ⟨_, reach_of_exec (publishAlone 5 7 ++ publishAlone 8 8 ++ startFirst ++ deliverFirst 1) rfl, rfl, rfl, rfl, rfl⟩
  refine ⟨x, hr, hin, hexpected, hheld, fun hsees => ?_⟩
  obtain ⟨⟨v, hv, hv'⟩, -⟩ := hsees.events 0 (by rw [hcount]; decide) 0 false hin
  rw [hexpected] at hv
  rw [hheld, ← hv] at hv'
  cases hv'

end BadBatch
