import BadBatch.Dsl.Registration
import BadBatch.Pipeline.Panic

/-!
# The publish lock of the DSL

`publish_event`, `try_publish_event` and `get_remaining_capacity` take `&self`. With `ProducerType::Single` they run under
`single_publish_lock`; the thread-local `DSL_SINGLE_CLAIM_HELD` makes a publish from inside a translator fail instead of
waiting for the lock that its own thread holds. The locals of a call are dropped in reverse order, also when the translator
unwinds: first `PoisonOnPanic`, then the mutex guard, then the hold flag. With `ProducerType::Multi` there is no lock.

* `PublishLock.step`: the guard of `claim_guard` around the steps of a publisher;
* `GuardInv`, `guardInv_step`: whoever is inside a call holds the lock;
* `publish_panic_safe`: panic safety of producers and of the DSL.

Threads are publishers; a translator that publishes again behind a multi-producer sequencer does so as another publisher.
-/

namespace BadBatch

open MultiProducerSequencer StepSys

variable {E : Type}

/-! ## The system -/

/-- Where a thread stands with its claim guard. -/
inductive GuardPc
  | outside
  /-- `single_publish_lock.lock()` -/
  | lock
  /-- `DSL_SINGLE_CLAIM_HELD.set(true)` -/
  | setHeld
  | inside
  /-- `DslClaimHoldFlag::drop`; the mutex guard is gone. -/
  | clearHeld
  deriving DecidableEq, Repr

/-- A pipeline of the DSL with its publish lock; `dslSingleClaimHeld` is one flag per thread. -/
structure PublishLock (E : Type) where
  pipeline : Pipeline E
  singlePublishLock : Option Nat
  guards : Nat → GuardPc
  dslSingleClaimHeld : Nat → Bool

/-- One step of one party. -/
inductive PublishAction (E : Type)
  /-- A thread calls `claim_guard`. -/
  | claimGuard (p : Nat)
  | lock (p : Nat)
  | setHeld (p : Nat)
  /-- The mutex guard is dropped at the end of the call. -/
  | dropGuard (p : Nat)
  | clearHeld (p : Nat)
  | pipeline (a : PipelineAction E)

def SequencerWorld.isSingle : SequencerWorld → Bool
  | single _ => true
  | multi _ => false

namespace PublishLock

variable (b : BufferSize) (t : Wiring) (handlers : Nat → E → Int → Bool → E) (st : PublishLock E)

/-- After assembly; the DSL keeps the checked claim path. -/
def init (multiProducer : Bool) (factory : Nat → E) : PublishLock E where
  pipeline := .init b t multiProducer false factory
  singlePublishLock := none
  guards := fun _ => .outside
  dslSingleClaimHeld := fun _ => false

def goto (p : Nat) (pc : GuardPc) : PublishLock E := { st with guards := Function.update st.guards p pc }

/-- Publishers act inside their guard; the other parties need none. -/
def permits : PipelineAction E → Bool
  | .producer a =>
    match a.producer with
    | some p => a.ofDsl && st.guards p == .inside
    | none => true
  | _ => true

/-- One step of the system. -/
def step : PublishAction E → Option (PublishLock E)
  | .claimGuard p =>
    if st.pipeline.feed.world.isSingle then
      -- `Err(ReentrantPublish)`
      if st.dslSingleClaimHeld p then some st
      else if st.guards p = .outside then some (st.goto p .lock)
      else none
    else if st.guards p = .outside then some (st.goto p .inside)
    else none
  | .lock p =>
    if st.guards p = .lock ∧ st.singlePublishLock = none then
      some ({ st with singlePublishLock := some p }.goto p .setHeld)
    else none
  | .setHeld p =>
    if st.guards p = .setHeld then
      some ({ st with dslSingleClaimHeld := Function.update st.dslSingleClaimHeld p true }.goto p .inside)
    else none
  -- the body is over: the claim was refused, the publication has returned, or `PoisonOnPanic` was dropped
  | .dropGuard p =>
    if st.guards p = .inside ∧ st.pipeline.feed.phases p = .idle then
      if st.pipeline.feed.world.isSingle then some ({ st with singlePublishLock := none }.goto p .clearHeld)
      else some (st.goto p .outside)
    else none
  | .clearHeld p =>
    if st.guards p = .clearHeld then
      some ({ st with dslSingleClaimHeld := Function.update st.dslSingleClaimHeld p false }.goto p .outside)
    else none
  | .pipeline a =>
    if st.permits a then (st.pipeline.step b t handlers a).map fun q => { st with pipeline := q } else none

/-- What a step adds to the history of the translators. -/
def logClosures (st : PublishLock E) (a : PublishAction E) (h : Closures) : Closures :=
  match a with
  | .pipeline a => st.pipeline.logClosures a h
  | _ => h

/-- One step, with the history of the translators. -/
def observeClosures : PublishLock E × Closures → PublishAction E → Option (PublishLock E × Closures) :=
  observed (PublishLock.step b t handlers) PublishLock.logClosures

end PublishLock

/-! ## The invariant -/

variable {b : BufferSize} {t : Wiring} {handlers : Nat → E → Int → Bool → E} {st st' : PublishLock E} {p : Nat}

/-- The thread has the mutex guard. -/
def GuardPc.holds : GuardPc → Bool
  | setHeld => true
  | inside => true
  | _ => false

/-- The hold flag of the thread is set. -/
def GuardPc.held : GuardPc → Bool
  | inside => true
  | clearHeld => true
  | _ => false

/-- Whoever has the mutex guard holds the lock, whoever is in the middle of a call is inside its guard, and the hold flag
tells a thread that it is inside. -/
structure GuardInv (st : PublishLock E) : Prop where
  lock : st.pipeline.feed.world.isSingle = true → ∀ p, (st.guards p).holds = true ↔ st.singlePublishLock = some p
  body : ∀ p, st.pipeline.feed.phases p ≠ .idle → st.guards p = .inside
  held : st.pipeline.feed.world.isSingle = true → ∀ p, st.dslSingleClaimHeld p = (st.guards p).held

theorem guardInv_init {multiProducer : Bool} {factory : Nat → E} : GuardInv (.init b t multiProducer factory) where
  lock _ p := by simp [PublishLock.init, GuardPc.holds]
  body p hp := absurd rfl hp
  held _ p := rfl

theorem SequencerWorld.isSingle_step {w w' : SequencerWorld} {a : SequencerAction} (hs : w.step b a = some w') :
    w'.isSingle = w.isSingle := by
  cases w <;> simp only [SequencerWorld.step, Option.map_eq_some_iff] at hs <;> obtain ⟨w', -, rfl⟩ := hs <;> rfl

/-- The kind of the sequencer is settled at assembly. -/
theorem pipelineStep_isSingle {q q' : Pipeline E} {a : PipelineAction E} (hs : q.step b t handlers a = some q') :
    q'.feed.world.isSingle = q.feed.world.isSingle := by
  rcases step_feed hs with ⟨a', -, hst⟩ | ⟨c, i, torn, -, hst⟩ | he
  · rcases feedStep_action hst with he | ⟨a', hst, -⟩
    · rw [he]
    · exact SequencerWorld.isSingle_step hst
  · obtain ⟨v, he | he⟩ := consumerStep_world hst <;> rw [he] <;> cases q.feed.world <;> rfl
  · rw [he]

/-- A thread that is not in the middle of a call, or goes inside, moves along its guard. -/
theorem GuardInv.move {pc : GuardPc} (h : GuardInv st) (hpipe : st'.pipeline = st.pipeline)
    (hguards : st'.guards = Function.update st.guards p pc) (hbody : st.pipeline.feed.phases p = .idle ∨ pc = .inside)
    (hlock : st.pipeline.feed.world.isSingle = true → (pc.holds = true ↔ st'.singlePublishLock = some p) ∧
      ∀ q, q ≠ p → (st.singlePublishLock = some q ↔ st'.singlePublishLock = some q))
    (hheld : st.pipeline.feed.world.isSingle = true → st'.dslSingleClaimHeld p = pc.held ∧
      ∀ q, q ≠ p → st'.dslSingleClaimHeld q = st.dslSingleClaimHeld q) : GuardInv st' := by
  constructor
  · intro hw q
    rw [hpipe] at hw
    by_cases hq : q = p
    · subst hq
      rw [hguards, Function.update_self]
      exact (hlock hw).1
    · rw [hguards, Function.update_of_ne hq]
      exact (h.lock hw q).trans ((hlock hw).2 q hq)
  · intro q hq
    rw [hpipe] at hq
    by_cases hqp : q = p
    · subst hqp
      rw [hguards, Function.update_self]
      exact hbody.resolve_left hq
    · rw [hguards, Function.update_of_ne hqp]
      exact h.body q hq
  · intro hw q
    rw [hpipe] at hw
    by_cases hq : q = p
    · subst hq
      rw [hguards, Function.update_self]
      exact (hheld hw).1
    · rw [hguards, Function.update_of_ne hq, (hheld hw).2 q hq]
      exact h.held hw q

theorem GuardInv.idle (h : GuardInv st) (hp : st.guards p ≠ .inside) : st.pipeline.feed.phases p = .idle := by
  by_contra hne
  exact hp (h.body p hne)

/-- **Step lemma.** -/
theorem guardInv_step {a : PublishAction E} (h : GuardInv st) (hs : st.step b t handlers a = some st') : GuardInv st' := by
  cases a with
  | claimGuard p =>
    simp only [PublishLock.step] at hs
    split at hs
    · rename_i hw
      split at hs
      · simp only [Option.some.injEq] at hs
        exact hs ▸ h
      · rename_i hheld
        simp only [Option.ite_none_right_eq_some, Option.some.injEq] at hs
        obtain ⟨hout, rfl⟩ := hs
        have hl := h.lock hw p
        rw [hout] at hl
        exact h.move rfl rfl (.inl (h.idle (by rw [hout]; nofun))) (fun _ => ⟨hl, fun _ _ => .rfl⟩)
          fun _ => ⟨Bool.eq_false_of_not_eq_true hheld, fun _ _ => rfl⟩
    · rename_i hw
      simp only [Option.ite_none_right_eq_some, Option.some.injEq] at hs
      obtain ⟨hout, rfl⟩ := hs
      exact h.move rfl rfl (.inr rfl) (fun hw' => absurd hw' hw) fun hw' => absurd hw' hw
  | lock p =>
    simp only [PublishLock.step, Option.ite_none_right_eq_some, Option.some.injEq] at hs
    obtain ⟨⟨hpc, hfree⟩, rfl⟩ := hs
    refine h.move rfl rfl (.inl (h.idle (by rw [hpc]; nofun))) (fun hw => ⟨by simp [PublishLock.goto, GuardPc.holds],
      fun q hq => ?_⟩) fun hw => ⟨?_, fun _ _ => rfl⟩
    · simp [PublishLock.goto, hfree, hq.symm]
    · have := h.held hw p
      rw [hpc] at this
      exact this
  | setHeld p =>
    simp only [PublishLock.step, Option.ite_none_right_eq_some, Option.some.injEq] at hs
    obtain ⟨hpc, rfl⟩ := hs
    refine h.move rfl rfl (.inr rfl) (fun hw => ⟨?_, fun _ _ => .rfl⟩) fun hw =>
      ⟨by simp [PublishLock.goto, GuardPc.held], fun q hq => by simp [PublishLock.goto, Function.update_of_ne hq]⟩
    have := h.lock hw p
    rw [hpc] at this
    exact this
  | dropGuard p =>
    simp only [PublishLock.step, Option.ite_none_right_eq_some] at hs
    obtain ⟨⟨hpc, hidle⟩, hs⟩ := hs
    split at hs <;> rename_i hw <;> simp only [Option.some.injEq] at hs <;> subst hs
    · have hl := (h.lock hw p).mp (by rw [hpc]; rfl)
      refine h.move rfl rfl (.inl hidle) (fun _ => ⟨by simp [PublishLock.goto, GuardPc.holds], fun q hq => ?_⟩) fun _ =>
        ⟨?_, fun _ _ => rfl⟩
      · simp [PublishLock.goto, hl, hq.symm]
      · have := h.held hw p
        rw [hpc] at this
        exact this
    · exact h.move rfl rfl (.inl hidle) (fun hw' => absurd hw' hw) fun hw' => absurd hw' hw
  | clearHeld p =>
    simp only [PublishLock.step, Option.ite_none_right_eq_some, Option.some.injEq] at hs
    obtain ⟨hpc, rfl⟩ := hs
    refine h.move rfl rfl (.inl (h.idle (by rw [hpc]; nofun))) (fun hw => ⟨?_, fun _ _ => .rfl⟩) fun hw =>
      ⟨by simp [PublishLock.goto, GuardPc.held], fun q hq => by simp [PublishLock.goto, Function.update_of_ne hq]⟩
    have := h.lock hw p
    rw [hpc] at this
    exact this
  | pipeline a =>
    simp only [PublishLock.step, Option.ite_none_right_eq_some, Option.map_eq_some_iff] at hs
    obtain ⟨hok, q, hst, rfl⟩ := hs
    have hkind := pipelineStep_isSingle hst
    refine ⟨fun hw => h.lock (hkind ▸ hw), fun p hp => ?_, fun hw => h.held (hkind ▸ hw)⟩
    by_contra hpc
    have hidle := h.idle hpc
    refine hp ?_
    rcases step_feed hst with ⟨a', rfl, hfeed⟩ | ⟨c, i, torn, rfl, hcons⟩ | he
    · rw [feedStep_phases_other hfeed, hidle]
      intro hown
      simp only [PublishLock.permits, hown, Bool.and_eq_true, beq_iff_eq] at hok
      exact hpc hok.2
    · rw [(consumerStep_feed hcons).2.2.1, hidle]
    · rw [he, hidle]

/-! ## Panic safety -/

/-- Panic safety of the DSL in one state. -/
structure PublishLockSafe (b : BufferSize) (t : Wiring) (handlers : Nat → E → Int → Bool → E) (st : PublishLock E)
    (h : Closures) : Prop where
  safe : PanicSafe b t handlers st.pipeline h
  /-- One publisher at a time, and nothing else keeps the holder of the lock from claiming. -/
  exclusive : st.pipeline.feed.world.isSingle = true → ∀ p, st.pipeline.feed.phases p ≠ .idle →
    st.singlePublishLock = some p
  mayCall : ∀ p, st.guards p = .inside → st.pipeline.feed.phases p = .idle → st.pipeline.feed.mayCall p = true
  /-- A publish from inside a translator leaves everything as it is. -/
  reentrant : st.pipeline.feed.world.isSingle = true → ∀ p, st.guards p = .inside →
    st.step b t handlers (.claimGuard p) = some st
  /-- While the lock is free, `next_value` is the cursor, or the sequencer is poisoned. -/
  settled : ∀ w, st.pipeline.feed.world = .single w → st.singlePublishLock = none →
    w.sequencer.nextValue = w.sequencer.cursor ∨ w.sequencer.poisoned = true
  /-- A panicking call gives the lock back after the poison. -/
  unlocked : ∀ p a st', st.step b t handlers a = some st' → st.singlePublishLock = some p →
    st'.singlePublishLock ≠ some p → h.panicked p = true → st.pipeline.feed.world.poisoned = true
  /-- When it has unwound out of the method, the sequencer is poisoned. -/
  unwound : ∀ p, h.panicked p = true → st.guards p ≠ .inside → PoisonedForGood b t handlers st.pipeline

/-- The lock is given back by its holder, at the end of the call. -/
theorem dropGuard_of_unlock {a : PublishAction E} (hs : st.step b t handlers a = some st')
    (hl : st.singlePublishLock = some p) (hl' : st'.singlePublishLock ≠ some p) :
    ∃ q, a = .dropGuard q ∧ st.guards q = .inside ∧ st.pipeline.feed.phases q = .idle ∧
      st.pipeline.feed.world.isSingle = true := by
  cases a with
  | dropGuard q =>
    simp only [PublishLock.step, Option.ite_none_right_eq_some] at hs
    obtain ⟨⟨hpc, hidle⟩, hs⟩ := hs
    split at hs
    · exact ⟨q, rfl, hpc, hidle, ‹_›⟩
    · simp only [Option.some.injEq] at hs
      subst hs
      exact absurd hl hl'
  | claimGuard q =>
    simp only [PublishLock.step] at hs
    split at hs
    · split at hs
      · simp only [Option.some.injEq] at hs
        subst hs
        exact absurd hl hl'
      · simp only [Option.ite_none_right_eq_some, Option.some.injEq] at hs
        obtain ⟨-, rfl⟩ := hs
        exact absurd hl hl'
    · simp only [Option.ite_none_right_eq_some, Option.some.injEq] at hs
      obtain ⟨-, rfl⟩ := hs
      exact absurd hl hl'
  | lock q =>
    simp only [PublishLock.step, Option.ite_none_right_eq_some] at hs
    rw [hl] at hs
    exact nomatch hs.1.2
  | setHeld q | clearHeld q =>
    simp only [PublishLock.step, Option.ite_none_right_eq_some, Option.some.injEq] at hs
    obtain ⟨-, rfl⟩ := hs
    exact absurd hl hl'
  | pipeline a =>
    simp only [PublishLock.step, Option.ite_none_right_eq_some, Option.map_eq_some_iff] at hs
    obtain ⟨-, q, -, rfl⟩ := hs
    exact absurd hl hl'

theorem publishLockSafe_of_inv {h : Closures} (hG : GuardInv st) (hI : PipeInv b t st.pipeline)
    (hP : PanicInv st.pipeline h) : PublishLockSafe b t handlers st h := by
  have hsafe : PanicSafe b t handlers st.pipeline h := panicSafe_of_inv hI hP
  have hexcl : st.pipeline.feed.world.isSingle = true → ∀ p, st.pipeline.feed.phases p ≠ .idle →
      st.singlePublishLock = some p := fun hw p hp => (hG.lock hw p).mp (by rw [hG.body p hp]; rfl)
  refine ⟨hsafe, hexcl, fun p hpc hidle => ?_, fun hw p hpc => ?_, fun w hw hfree => ?_, fun p a st' hs hl hl' hp => ?_,
    fun p hp hpc => hsafe.unwound p hp (hG.idle hpc)⟩
  · cases hw : st.pipeline.feed.world with
    | multi w => simp only [Feed.mayCall, hw, hidle, beq_self_eq_true]
    | single w =>
      simp only [Feed.mayCall, hw, beq_iff_eq]
      by_contra hdriver
      have hsingle : st.pipeline.feed.world.isSingle = true := by rw [hw]; rfl
      have hl := (hG.lock hsingle p).mp (by rw [hpc]; rfl)
      rw [hexcl hsingle _ hdriver] at hl
      cases hl
      exact hdriver hidle
  · have hheld := hG.held hw p
    rw [hpc] at hheld
    simp only [PublishLock.step, hw, hheld, GuardPc.held, if_true]
  · refine hsafe.settled w hw fun p => ?_
    by_contra hp
    rw [hexcl (by rw [hw]; rfl) p hp] at hfree
    cases hfree
  · obtain ⟨q, rfl, hpc, hidle, hw⟩ := dropGuard_of_unlock hs hl hl'
    have hq := (hG.lock hw q).mp (by rw [hpc]; rfl)
    rw [hl] at hq
    cases hq
    exact (hsafe.unwound p hp hidle st.pipeline .refl).1

/-- The guard does not touch the pipeline. -/
theorem publishStep_pipeline {a : PublishAction E} (hs : st.step b t handlers a = some st') :
    (∃ a', a = .pipeline a' ∧ st.pipeline.step b t handlers a' = some st'.pipeline) ∨
      ((∀ a', a ≠ .pipeline a') ∧ st'.pipeline = st.pipeline) := by
  cases a with
  | pipeline a =>
    simp only [PublishLock.step, Option.ite_none_right_eq_some, Option.map_eq_some_iff] at hs
    obtain ⟨-, q, hst, rfl⟩ := hs
    exact .inl ⟨a, rfl, hst⟩
  | claimGuard p =>
    refine .inr ⟨nofun, ?_⟩
    simp only [PublishLock.step] at hs
    split at hs
    · split at hs
      · simp only [Option.some.injEq] at hs
        rw [hs]
      · simp only [Option.ite_none_right_eq_some, Option.some.injEq] at hs
        rw [← hs.2]
        rfl
    · simp only [Option.ite_none_right_eq_some, Option.some.injEq] at hs
      rw [← hs.2]
      rfl
  | lock p | setHeld p | clearHeld p =>
    simp only [PublishLock.step, Option.ite_none_right_eq_some, Option.some.injEq] at hs
    refine .inr ⟨nofun, ?_⟩
    rw [← hs.2]
    rfl
  | dropGuard p =>
    simp only [PublishLock.step, Option.ite_none_right_eq_some] at hs
    obtain ⟨-, hs⟩ := hs
    refine .inr ⟨nofun, ?_⟩
    split at hs <;> simp only [Option.some.injEq] at hs <;> rw [← hs] <;> rfl

/-- The pipeline under the lock runs as it does without. -/
theorem PublishLock.proj {multiProducer : Bool} {factory : Nat → E} {x : PublishLock E × Closures}
    (h : Reach (PublishLock.observeClosures b t handlers) (fun _ _ => True) (.init b t multiProducer factory, .none) x) :
    Reach (Pipeline.observeClosures b t handlers) (fun _ _ => True) (.init b t multiProducer false factory, .none)
      (x.1.pipeline, x.2) := by
  refine Reach.proj (fun x : PublishLock E × Closures => (x.1.pipeline, x.2)) (I := fun _ => True) (fun _ => trivial) rfl
    (fun {x x' a} _ _ hs => ?_) h
  obtain ⟨hs, hlog⟩ := observed_eq_some.mp hs
  rcases publishStep_pipeline hs with ⟨a', rfl, hst⟩ | ⟨ha, he⟩
  · exact .inr ⟨a', trivial, observed_eq_some.mpr ⟨hst, hlog⟩⟩
  · have hlog' : x'.2 = x.2 := by
      cases a with
      | pipeline a' => exact absurd rfl (ha a')
      | _ => exact hlog
    exact .inl (Prod.ext he hlog')

/-! ## Every run -/

theorem PanicInv.of_reach {multiProducer unique : Bool} {factory : Nat → E} {x : Pipeline E × Closures} (hwf : t.Wf)
    (h : Reach (Pipeline.observeClosures b t handlers) (fun _ _ => True) (.init b t multiProducer unique factory, .none) x) :
    PipeInv b t x.1 ∧ PanicInv x.1 x.2 := by
  refine Reach.inv (I := fun x : Pipeline E × Closures => PipeInv b t x.1 ∧ PanicInv x.1 x.2)
    ⟨pipeInv_init hwf multiProducer unique factory, panicInv_init⟩ (fun {x x' a} hI _ hs => ?_) h
  obtain ⟨hs, hlog⟩ := observed_eq_some.mp hs
  rw [hlog]
  exact ⟨pipeInv_step hwf hI.1 hs, panicInv_step hI.1.feed.books hI.2 hs⟩

/-- **Panic safety of publishing.** In every run of producers and consumers, and of the publishers of a DSL disruptor under
their lock, whichever closures panic: barriers release completed sequences only, `next_value` is the cursor between two
calls unless the sequencer is poisoned, and when a panicking call has unwound the sequencer is poisoned for good, before the
lock is given back. -/
theorem publish_panic_safe (b : BufferSize) (handlers : Nat → E → Int → Bool → E) :
    (∀ t multiProducer unique factory st h, Assembled t →
      Reach (Pipeline.observeClosures b t handlers) (fun _ _ => True) (.init b t multiProducer unique factory, .none) (st, h) →
      PanicSafe b t handlers st h) ∧
    ∀ calls processors multiProducer factory st h, dslProcessors calls = some processors → processors ≠ [] →
      Reach (PublishLock.observeClosures b (dslWiring processors) handlers) (fun _ _ => True)
        (.init b (dslWiring processors) multiProducer factory, .none) (st, h) →
      PublishLockSafe b (dslWiring processors) handlers st h := by
  refine ⟨fun t multiProducer unique factory st h ht hrun => ?_,
    fun calls processors multiProducer factory st h hcalls hne hrun => ?_⟩
  · obtain ⟨hI, hP⟩ := PanicInv.of_reach ht.wf hrun
    exact panicSafe_of_inv hI hP
  · obtain ⟨hI, hP⟩ := PanicInv.of_reach (wf_dslWiring hcalls hne) (PublishLock.proj hrun)
    have hG : GuardInv st := Reach.inv (I := fun x : PublishLock E × Closures => GuardInv x.1) guardInv_init
      (fun hG _ hs => guardInv_step hG (observed_eq_some.mp hs).1) hrun
    exact publishLockSafe_of_inv hG hI hP

/-- Thread `p` claims one sequence of a DSL disruptor, and goes on with `body`, inside its guard. -/
def publishOne (p : Nat) (body : List (FeedAction Nat)) : List (PublishAction Nat) :=
  let claim : List (FeedAction Nat) := [.call p (.nextN 1), .step p, .step p, .step p, .step p, .step p, .claimed p]
  [.claimGuard p, .lock p, .setHeld p] ++ (claim ++ body).map (fun a => .pipeline (.producer a)) ++ [.dropGuard p, .clearHeld p]

/-- Processor 0 waits for its first sequence, and is released. -/
def awaitOne : List (PublishAction Nat) :=
  [.pipeline (.consumer 0 (.handler .ok) none), .pipeline (.consumer 0 .tick none), .pipeline (.consumer 0 (.flag true) none),
    .pipeline (.wait 0 .waitFor), .pipeline (.barrier 0 .next), .pipeline (.barrier 0 .next), .pipeline (.barrier 0 .next),
    .pipeline (.barrier 0 .next)]

set_option maxRecDepth 4000 in
/-- Two producers behind a multi-producer sequencer: one publishes beyond the claim that the other has abandoned. Two threads
of a DSL disruptor: the event of the first one is released, the translator of the second one panics. -/
theorem publish_panic_safe_gap :
    (∃ (st : Pipeline Nat) (h : Closures),
      Reach (Pipeline.observeClosures ⟨1, by decide⟩ (createDisruptorCore [⟨0, .mutable⟩]) fun _ e _ _ => e)
        (fun _ _ => True) (.init ⟨1, by decide⟩ (createDisruptorCore [⟨0, .mutable⟩]) true true fun _ => 0, .none) (st, h) ∧
      h.completed 0 = false ∧ st.feed.world.ledger.published 1 = true ∧
      PoisonedForGood ⟨1, by decide⟩ (createDisruptorCore [⟨0, .mutable⟩]) (fun _ e _ _ => e) st) ∧
    ∃ (st : PublishLock Nat) (h : Closures),
      Reach (PublishLock.observeClosures ⟨1, by decide⟩ (dslWiring [⟨[], false⟩]) fun _ e _ _ => e)
        (fun _ _ => True) (.init ⟨1, by decide⟩ (dslWiring [⟨[], false⟩]) false fun _ => 0, .none) (st, h) ∧
      st.pipeline.barriers 0 = .returned (.ok 0) ∧ h.completed 0 = true ∧ st.singlePublishLock = none ∧
      PoisonedForGood ⟨1, by decide⟩ (dslWiring [⟨[], false⟩]) (fun _ e _ _ => e) st.pipeline := by
  refine ⟨?_, ?_⟩
  · obtain ⟨st, h, hr, hgap, hpub, hp, hidle⟩ : ∃ (st : Pipeline Nat) (h : Closures),
        Reach (Pipeline.observeClosures ⟨1, by decide⟩ (createDisruptorCore [⟨0, .mutable⟩]) fun _ e _ _ => e)
          (fun _ _ => True) (.init ⟨1, by decide⟩ (createDisruptorCore [⟨0, .mutable⟩]) true true fun _ => 0, .none) (st, h) ∧
        h.completed 0 = false ∧ st.feed.world.ledger.published 1 = true ∧ h.panicked 0 = true ∧
        st.feed.phases 0 = .idle := by
      refine ⟨_, _, reach_of_exec [.producer (.call 0 (.nextN 1)), .producer (.step 0), .producer (.step 0),
        .producer (.step 0), .producer (.step 0), .producer (.step 0), .producer (.claimed 0),
        .producer (.call 1 (.nextN 1)), .producer (.step 1), .producer (.step 1), .producer (.step 1), .producer (.step 1),
        .producer (.step 1), .producer (.claimed 1), .producer (.panic 0), .producer (.write 1 7), .producer (.publish 1),
        .producer (.step 1), .producer (.published 1), .producer (.record 0), .producer (.poison 0)] rfl, rfl, rfl, rfl, rfl⟩
    have hsafe := (publish_panic_safe ⟨1, by decide⟩ fun _ e _ _ => e).1 _ _ _ _ _ _
      (.builder (show builderConsumers .mutable [] = some [⟨0, .mutable⟩] from rfl)) hr
    exact ⟨st, h, hr, hgap, hpub, hsafe.unwound 0 hp hidle⟩
  · obtain ⟨st, h, hr, hb, ha, hfree, hp, hout⟩ : ∃ (st : PublishLock Nat) (h : Closures),
        Reach (PublishLock.observeClosures ⟨1, by decide⟩ (dslWiring [⟨[], false⟩]) fun _ e _ _ => e)
          (fun _ _ => True) (.init ⟨1, by decide⟩ (dslWiring [⟨[], false⟩]) false fun _ => 0, .none) (st, h) ∧
        st.pipeline.barriers 0 = .returned (.ok 0) ∧ st.pipeline.awaited (dslWiring [⟨[], false⟩]) 0 = some 0 ∧
        st.singlePublishLock = none ∧ h.panicked 1 = true ∧ st.guards 1 = .outside := by
      refine ⟨_, _, reach_of_exec (publishOne 0 [.write 0 7, .publish 0, .step 0, .published 0] ++ awaitOne ++
        publishOne 1 [.panic 1, .record 1, .poison 1]) rfl, rfl, rfl, rfl, rfl, rfl⟩
    have hsafe := (publish_panic_safe ⟨1, by decide⟩ fun _ e _ _ => e).2 [.handleEventsWith, .build] _ _ _ _ _
      rfl (by decide) hr
    exact ⟨st, h, hr, hb, hsafe.safe.released 0 (by decide) 0 0 ha hb 0 le_rfl le_rfl, hfree,
      hsafe.unwound 1 hp (by rw [hout]; decide)⟩

end BadBatch
