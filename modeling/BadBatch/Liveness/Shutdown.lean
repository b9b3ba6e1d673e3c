import BadBatch.Liveness.Failure

/-!
# A core while it is stopped

The owner of a core closes the claim path, waits for the backlog, raises the shutdown flag, joins the consumers and removes the
gating sequences, while producers and consumers go on, fail or leave. Up to the flag the pipeline is as assembled; after it
consumers only leave.

* `CoreInv`: the invariant, with what holds at each place of the owner;
* `CoreStep`, `coreInv_step`: it holds along any run of the core;
* `CoreStep.pipeline`: what a step of a core is to its pipeline;
* `ownerStep_isSome`: the owner waits for nothing but the end of a thread.
-/

namespace BadBatch

open MultiProducerSequencer

variable {E : Type} {b : BufferSize} {t : Wiring} {handlers : Nat → E → Int → Bool → E} {st st' p : Pipeline E}
  {core core' : DisruptorCore E} {c : Nat} {a : PipelineAction E}

/-! ## The invariant -/

/-- A stopping call returns `Ok` if the sequencer is not poisoned and no deadline passes. -/
def Accounted (w : SequencerWorld) (call : CoreCall) (r : Except DrainError Unit) : Prop :=
  r = .ok () ∨ w.poisoned = true ∨ call = .shutdownWithTimeout true ∧ r = .error .timeout

/-- A core that is down has no gating sequences left. -/
def DisruptorCore.Dismantled (core : DisruptorCore E) : Prop :=
  core.pipeline.shutdown = true → core.gatingSequences = []

/-- What holds where the owner stands. -/
def DisruptorCore.OwnerOk (t : Wiring) (core : DisruptorCore E) : CorePc → Prop
  | .idle | .close _ | .drainFlag _ => core.Dismantled
  | .drainCursor _ => core.pipeline.shutdown = false
  | .drainPoisoned _ cursor | .drainScan _ cursor _ _ | .drainDeadline cursor =>
    core.pipeline.shutdown = false ∧ cursor ≤ core.pipeline.feed.world.cursor
  | .drainFinished _ cursor rest =>
    core.pipeline.shutdown = false ∧ cursor ≤ core.pipeline.feed.world.cursor ∧ ∀ c ∈ rest, c < t.count
  | .haltClose why | .swap why => core.Dismantled ∧ Accounted core.pipeline.feed.world why.call why.result
  | .join why => core.pipeline.shutdown = true ∧ Accounted core.pipeline.feed.world why.call why.result
  | .removeGating why =>
    core.pipeline.shutdown = true ∧ core.consumers = [] ∧ Accounted core.pipeline.feed.world why.call why.result
  | .returned call r =>
    core.consumers = [] ∧ core.gatingSequences = [] ∧ Accounted core.pipeline.feed.world call r

/-- The invariant of a core. -/
structure CoreInv (b : BufferSize) (t : Wiring) (core : DisruptorCore E) : Prop where
  members : ∀ c ∈ core.consumers, c < t.count
  finished : ∀ c < t.count, c ∈ core.consumers ∨ core.pipeline.finished t c = true
  /-- As long as the shutdown flag is down nothing is taken apart. -/
  up : core.pipeline.shutdown = false →
    core.consumers = List.range t.count ∧ core.gatingSequences = t.gatingSequences ∧ RunInv b t core.pipeline
  pipe : core.consumers ≠ [] → PipeInv b t core.pipeline
  owner : core.OwnerOk t core.owner
  books : FeedBooks b core.pipeline.feed
  unique : core.pipeline.feed.world.Unique
  gating : ∀ i ∈ core.pipeline.feed.world.gatingSequences, i ∈ core.gatingSequences

/-- The steps of a core whose threads run once, wait by `wait_for_with_shutdown` and do not panic while they record a
failure. -/
def DisruptorCoreAction.orderly (t : Wiring) (core : DisruptorCore E) : DisruptorCoreAction E → Bool
  | run a => a.orderly t core.pipeline
  | _ => true

theorem isRestart_of_orderly (ha : a.orderly t st = true) : a.isRestart = false := by
  cases a with
  | restart => cases ha
  | _ => rfl

/-- Whoever has ended has left its loop. -/
theorem left_of_finished (h : st.finished t c = true) : st.left t c = true := by
  unfold Pipeline.finished at h
  unfold Pipeline.left
  cases hm : t.runMode (t.stage c) with
  | sequential =>
    simp only [hm, beq_iff_eq] at h
    simp only [h, SeqPc.left]
  | workPool =>
    simp only [hm] at h
    split at h
    · rename_i hpc
      simp only [hpc, WorkPc.left]
    · cases h

theorem runInv_init {multiProducer : Bool} {factory : Nat → E} (hwf : t.Wf) :
    RunInv b t (.init b t multiProducer true factory) where
  pipe := pipeInv_init hwf _ _ _
  alerted _ := rfl
  patient _ := trivial
  unwound _ hu := by cases hu
  left c _ hl := by
    unfold Pipeline.left at hl
    split at hl <;> cases hl
  supply _ := supplyInv_init hwf

theorem coreInv_init {multiProducer : Bool} {factory : Nat → E} (hwf : t.Wf) :
    CoreInv b t (.init b t multiProducer factory) where
  members _ hc := List.mem_range.mp hc
  finished _ hc := .inl (List.mem_range.mpr hc)
  up _ := ⟨rfl, rfl, runInv_init hwf⟩
  pipe _ := pipeInv_init hwf _ _ _
  owner hup := by cases hup
  books := (pipeInv_init hwf _ _ _).feed.books
  unique := (supplyInv_init hwf).unique
  gating i hi := ((pipeInv_init hwf _ _ _).gating i).mp hi

/-- The owner moves on. -/
theorem CoreInv.goto {pc : CorePc} (h : CoreInv b t core) (hpc : core.OwnerOk t pc) :
    CoreInv b t { core with owner := pc } where
  __ := h
  owner := by cases pc <;> exact hpc

/-- A step of the pipeline that does not raise the flag. -/
theorem CoreInv.run (hwf : t.Wf) (ht : t.stop = .external) (hx : ∀ c, t.exceptionHandler c = false) (h : CoreInv b t core)
    (ha : a.orderly t core.pipeline = true) (hne : a ≠ .raiseShutdown) (hs : core.pipeline.step b t handlers a = some p) :
    CoreInv b t { core with pipeline := p } := by
  have hflag : p.shutdown = core.pipeline.shutdown := shutdown_step hne hs
  have hcursor : core.pipeline.shutdown = false → core.pipeline.feed.world.cursor ≤ p.feed.world.cursor := fun hdown =>
    ((h.up hdown).2.2.pipe.grows hs).cursor
  have haccounted : ∀ {call r}, Accounted core.pipeline.feed.world call r → Accounted p.feed.world call r := fun hj =>
    hj.imp_right (Or.imp_left (step_terminal hs))
  have hdismantled : core.Dismantled → { core with pipeline := p }.Dismantled := fun hd hup => hd (hflag.symm.trans hup)
  refine ⟨h.members, fun c hc => ?_, fun hp => ?_, fun hc => pipeInv_step hwf (h.pipe hc) hs, ?_, ?_, (kind_step hs).1 h.unique,
    fun i hi => h.gating i (gating_step h.books hs i hi)⟩
  · exact (h.finished c hc).imp_right fun hf => (finished_step (isRestart_of_orderly ha) hs hf).1
  · rw [hflag] at hp
    obtain ⟨hcons, hgat, hrun⟩ := h.up hp
    exact ⟨hcons, hgat, runInv_step hwf ht hx hrun hp ha hne hs⟩
  · have howner := h.owner
    show DisruptorCore.OwnerOk t { core with pipeline := p } core.owner
    cases hpc : core.owner <;> rw [hpc] at howner
    case idle | close | drainFlag => exact hdismantled howner
    case drainCursor => exact hflag.trans howner
    case drainPoisoned | drainScan | drainDeadline => exact ⟨hflag.trans howner.1, howner.2.trans (hcursor howner.1)⟩
    case drainFinished => exact ⟨hflag.trans howner.1, howner.2.1.trans (hcursor howner.1), howner.2.2⟩
    case haltClose | swap => exact ⟨hdismantled howner.1, haccounted howner.2⟩
    case join => exact ⟨hflag.trans howner.1, haccounted howner.2⟩
    case removeGating => exact ⟨hflag.trans howner.1, howner.2.1, haccounted howner.2.2⟩
    case returned => exact ⟨howner.1, howner.2.1, haccounted howner.2.2⟩
  · by_cases hnil : core.consumers = []
    · rcases step_feed hs with ⟨a', -, hst⟩ | ⟨c, i, torn, rfl, hst⟩ | he
      · exact feedBooks_step h.books hst
      · have hfin := (h.finished c (consumerStep_cases hst).1).resolve_left (by simp [hnil])
        exact absurd rfl ((finished_step rfl hs hfin).2 i torn)
      · exact he ▸ h.books
    · exact (pipeInv_step hwf (h.pipe hnil) hs).feed.books

/-- **Step lemma of the owner.** -/
theorem coreInv_ownerStep (hwf : t.Wf) (ht : t.stop = .external) (hx : ∀ c, t.exceptionHandler c = false)
    (h : CoreInv b t core) (hs : core.ownerStep b t handlers = some core') : CoreInv b t core' := by
  obtain ⟨pc, hpc, hr⟩ := coreRule_of_ownerStep hs
  have howner := h.owner
  rw [hpc] at howner
  have hstill : core.pipeline.shutdown = false → core.Dismantled := fun hdown hup => by
    rw [hdown] at hup
    cases hup
  cases hr with
  | close hp | haltClose hp =>
    have h' := h.run hwf ht hx (a := .producer .close) rfl (by simp) hp
    have howner' := h'.owner
    simp only [hpc] at howner'
    exact h'.goto howner'
  | alreadyDown => exact h.goto ⟨howner, .inl rfl⟩
  | drained => exact h.goto ⟨hstill howner.1, .inl rfl⟩
  | drain hdown => exact h.goto hdown
  | drainCursor => exact h.goto ⟨howner, le_rfl⟩
  | drainPoisoned hpois => exact h.goto ⟨hstill howner.1, .inr (.inl hpois)⟩
  | @drainExited _ _ i rest hf =>
    -- whoever leaves while the flag is down has poisoned
    obtain ⟨-, -, hrun⟩ := h.up howner.1
    exact h.goto ⟨hstill howner.1, .inr (.inl (hrun.left i (howner.2.2 i (List.mem_cons_self ..)) (left_of_finished hf)))⟩
  | drainNotPoisoned => exact h.goto ⟨howner.1, howner.2, h.members⟩
  | drainUp => exact h.goto ⟨howner.1, howner.2.1, fun c hc => howner.2.2 c (List.mem_cons_of_mem _ hc)⟩
  | drainAllUp => exact h.goto ⟨howner.1, howner.2.1⟩
  | drainScan | drainTimed | drainAgain | drainDeadline => exact h.goto howner
  | again hup hnil => exact h.goto ⟨hnil, howner.1 hup, howner.2⟩
  | swap =>
    have hraise : core.pipeline.step b t handlers .raiseShutdown = some { core.pipeline with shutdown := true } := rfl
    exact ⟨h.members, h.finished, by simp, fun hne => pipeInv_step hwf (h.pipe hne) hraise, ⟨rfl, howner.2⟩,
      h.books, h.unique, h.gating⟩
  | joined hnil => exact h.goto ⟨howner.1, hnil, howner.2⟩
  | @join why i rest hcons hf =>
    refine ⟨fun c hc => h.members c (hcons ▸ List.mem_cons_of_mem _ hc), fun c hc => ?_,
      fun hdown => absurd (hdown.symm.trans howner.1) Bool.false_ne_true, fun _ => h.pipe (by simp [hcons]), howner, h.books,
      h.unique, h.gating⟩
    have hfinished := h.finished c hc
    rw [hcons, List.mem_cons] at hfinished
    obtain (rfl | hmem) | hdone := hfinished
    · exact .inr hf
    · exact .inl hmem
    · exact .inr hdone
  | removed hnil => exact h.goto ⟨howner.2.1, hnil, howner.2.2⟩
  | @remove why i rest w hgat hw =>
    have hterminal : core.pipeline.feed.world.poisoned = true → w.poisoned = true := fun hp => by
      rw [SequencerWorld.poisoned_step hw, hp]
      rfl
    have hstands := stands_removeGatingSequence hw
    refine ⟨h.members, h.finished, fun hdown => absurd (hdown.symm.trans howner.1) Bool.false_ne_true,
      fun hne => absurd howner.2.1 hne, ⟨howner.1, howner.2.1, howner.2.2.imp_right (Or.imp_left hterminal)⟩,
      feedBooks_removeGatingSequence h.books hw, hstands.unique h.unique, fun j hj => ?_⟩
    have hmem := h.gating j (hstands.gatingSequences j hj)
    rw [hgat, List.mem_cons] at hmem
    refine hmem.resolve_left ?_
    rintro rfl
    exact SequencerWorld.not_mem_of_removed hw hj

/-! ## Steps -/

/-- The owner is not inside a call. -/
def CorePc.between : CorePc → Bool
  | .idle | .returned _ _ => true
  | _ => false

/-- Between two calls nothing is half taken apart. -/
theorem CoreInv.dismantled (h : CoreInv b t core) (hpc : core.owner.between = true) : core.Dismantled := by
  have howner := h.owner
  cases hpc' : core.owner <;> rw [hpc'] at hpc howner
  case idle => exact howner
  case returned => exact fun _ => howner.2.1
  all_goals cases hpc

/-- A step of a core. -/
def CoreStep (b : BufferSize) (t : Wiring) (handlers : Nat → E → Int → Bool → E) (core core' : DisruptorCore E) : Prop :=
  ∃ a, a.orderly t core = true ∧ core.step b t handlers a = some core'

/-- **Step lemma.** -/
theorem coreInv_step (hwf : t.Wf) (ht : t.stop = .external) (hx : ∀ c, t.exceptionHandler c = false)
    (h : CoreInv b t core) (hs : CoreStep b t handlers core core') : CoreInv b t core' := by
  obtain ⟨a, ha, hs⟩ := hs
  cases a with
  | call call =>
    have hcall : core.owner.between = true → CoreInv b t (core.callStep call) := by
      intro hpc
      cases call with
      | halt | stopConsumersKeepClaims => exact h.goto ⟨h.dismantled hpc, .inl rfl⟩
      | shutdownWithTimeout => exact h.goto (h.dismantled hpc)
    simp only [DisruptorCore.step] at hs
    split at hs <;> simp only [Option.some.injEq, reduceCtorEq] at hs <;> rename_i hpc <;>
      exact hs ▸ hcall (by rw [hpc]; rfl)
  | owner => exact coreInv_ownerStep hwf ht hx h hs
  | expire =>
    simp only [DisruptorCore.step] at hs
    split at hs <;> simp only [Option.some.injEq, reduceCtorEq] at hs
    rename_i cursor hpc
    have howner := h.owner
    rw [hpc] at howner
    refine hs ▸ h.goto ⟨fun hup => ?_, .inr (.inr ⟨rfl, rfl⟩)⟩
    rw [howner.1] at hup
    cases hup
  | run a =>
    simp only [DisruptorCore.step, Option.ite_none_right_eq_some, Option.map_eq_some_iff] at hs
    obtain ⟨hthread, p, hst, rfl⟩ := hs
    exact h.run hwf ht hx ha (ne_raiseShutdown hthread) hst

/-- Who takes a step of a core: its owner, a producer or a consumer, or the clock. Calls start between calls. -/
theorem CoreStep.by (hs : CoreStep b t handlers core core') :
    core.ownerStep b t handlers = some core' ∨
      (∃ p, (∃ a, a.orderly t core.pipeline = true ∧ core.pipeline.step b t handlers a = some p) ∧
        core' = { core with pipeline := p }) ∨
      (∃ cursor, core.owner = .drainDeadline cursor ∧
        core' = { core with owner := .haltClose (.shutdown true (.error .timeout)) }) ∨
      core.owner.between = true ∧ ∃ call, core' = core.callStep call := by
  obtain ⟨a, ha, hs⟩ := hs
  cases a with
  | call call =>
    simp only [DisruptorCore.step] at hs
    split at hs <;> simp only [Option.some.injEq, reduceCtorEq] at hs <;> rename_i hpc <;>
      exact .inr (.inr (.inr ⟨by rw [hpc]; rfl, call, hs.symm⟩))
  | owner => exact .inl hs
  | expire =>
    simp only [DisruptorCore.step] at hs
    split at hs <;> simp only [Option.some.injEq, reduceCtorEq] at hs
    rename_i cursor hpc
    exact .inr (.inr (.inl ⟨cursor, hpc, hs.symm⟩))
  | run a =>
    simp only [DisruptorCore.step, Option.ite_none_right_eq_some, Option.map_eq_some_iff] at hs
    obtain ⟨-, p, hst, rfl⟩ := hs
    exact .inr (.inl ⟨p, ⟨a, ha, hst⟩, rfl⟩)

/-- What a step of a core is to its pipeline. -/
theorem CoreStep.pipeline (h : CoreInv b t core) (hs : CoreStep b t handlers core core') :
    core'.pipeline = core.pipeline ∨
      (∃ a, a.orderly t core.pipeline = true ∧ core.pipeline.step b t handlers a = some core'.pipeline) ∨
      core.consumers = [] ∧ core.pipeline.shutdown = true ∧
        ∃ i w, core.pipeline.feed.world.step b (.removeGatingSequence i) = some w ∧
        core'.pipeline = { core.pipeline with feed := { core.pipeline.feed with world := w } } := by
  rcases hs.by with hs | ⟨p, hp, rfl⟩ | ⟨cursor, -, rfl⟩ | ⟨-, call, rfl⟩
  · obtain ⟨pc, hpc, hr⟩ := coreRule_of_ownerStep hs
    have howner := h.owner
    rw [hpc] at howner
    cases hr with
    | close hp | haltClose hp => exact .inr (.inl ⟨.producer .close, rfl, hp⟩)
    | swap => exact .inr (.inl ⟨.raiseShutdown, rfl, rfl⟩)
    | remove hg hw => exact .inr (.inr ⟨howner.2.1, howner.1, _, _, hw, rfl⟩)
    | _ => exact .inl rfl
  · exact .inr (.inl hp)
  · exact .inl rfl
  · cases call <;> exact .inl rfl

/-- What has happened has happened for good: the flag is up, the sequencer is poisoned, consumers have ended. -/
theorem CoreStep.keeps (h : CoreInv b t core) (hs : CoreStep b t handlers core core') :
    (core.pipeline.shutdown = true → core'.pipeline.shutdown = true) ∧
      (core.pipeline.feed.world.poisoned = true → core'.pipeline.feed.world.poisoned = true) ∧
      ∀ c, core.pipeline.finished t c = true → core'.pipeline.finished t c = true := by
  rcases hs.pipeline h with he | ⟨a, ha, hst⟩ | ⟨-, -, i, w, hw, he⟩
  · rw [he]
    exact ⟨id, id, fun _ => id⟩
  · refine ⟨fun hup => ?_, step_terminal hst, fun c hf => (finished_step (isRestart_of_orderly ha) hst hf).1⟩
    by_cases hraise : a = .raiseShutdown
    · subst hraise
      rw [← Option.some.inj hst]
    · exact (shutdown_step hraise hst).trans hup
  · rw [he]
    refine ⟨id, fun hp => ?_, fun _ => id⟩
    show w.poisoned = true
    rw [SequencerWorld.poisoned_step hw, hp]
    rfl

/-- The owner is only ever blocked by a thread that has not ended. -/
theorem ownerStep_isSome (hpc : core.owner.between = false)
    (hjoin : ∀ why, core.owner = .join why → ∀ c ∈ core.consumers, core.pipeline.finished t c = true) :
    ∃ core', core.ownerStep b t handlers = some core' := by
  have hclose : ∃ p, core.pipeline.step b t handlers (.producer .close) = some p := by
    simp only [Pipeline.step, Feed.step, Option.map_map, Option.map_eq_some_iff]
    cases core.pipeline.feed.world <;> exact ⟨_, _, rfl, rfl⟩
  unfold DisruptorCore.ownerStep
  cases hpc' : core.owner with
  | idle | returned =>
    rw [hpc'] at hpc
    cases hpc
  | close | haltClose =>
    obtain ⟨p, hp⟩ := hclose
    exact ⟨_, by rw [hp]; rfl⟩
  | drainFinished deadline cursor rest | drainScan deadline cursor rest minimum => cases rest <;> exact ⟨_, rfl⟩
  | swap why =>
    simp only
    split
    · exact ⟨_, rfl⟩
    · exact ⟨_, rfl⟩
  | join why =>
    have hfin := hjoin why hpc'
    simp only
    split
    · exact ⟨_, rfl⟩
    · rename_i i rest hcons
      rw [if_pos (hfin i (by simp [hcons]))]
      exact ⟨_, rfl⟩
  | removeGating why =>
    simp only
    split
    · exact ⟨_, rfl⟩
    · simp only [Option.map_eq_some_iff]
      cases core.pipeline.feed.world <;> exact ⟨_, _, rfl, rfl⟩
  | _ => exact ⟨_, rfl⟩

end BadBatch
