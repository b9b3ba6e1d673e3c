import BadBatch.Builder.Shutdown
import BadBatch.Dsl.Lifecycle
import BadBatch.Pipeline.Failures

/-!
# The first failure wins

The failure cell and the poison flag of whole pipelines. A Builder core adds two failures to those of its consumers and
producers: a thread that cannot be pinned to its core gives up before its body (`affinityError`), and a join may return the
panic of the thread (`joinError`). The threads of the model do not say how they ended, so every join may return either way.
A DSL disruptor records what its joins return, and is started again any number of times.

* `first_failure_wins`: who sees the poison flag finds a failure in the cell, it is the first one that was recorded, it stays
  there, and the flag is never cleared.
-/

namespace BadBatch

open MultiProducerSequencer StepSys

variable {E : Type} {b : BufferSize} {t : Wiring} {handlers : Nat → E → Int → Bool → E}

/-- Any interleaving, with the failures in the order in which they were recorded. -/
def FailureReach {σ α : Type} (step : σ → α → Option σ) (recorded : σ → α → Option FailureRecord) :
    σ × List FailureRecord → σ × List FailureRecord → Prop :=
  Reach (observed step fun s a failures => failures ++ (recorded s a).toList) fun _ _ => True

/-- The cell and the flag over a run from `st` to `st'`; `failures` are the failures that were recorded before `st`. -/
structure FirstFailureWins (failures : List FailureRecord) (st st' : Pipeline E) : Prop where
  recorded : st.feed.world.poisoned = true → ∃ r, st.feed.firstFailure = some r
  first : st.feed.firstFailure = failures.head?
  fixed : ∀ r, st.feed.firstFailure = some r → st'.feed.firstFailure = some r
  terminal : st.feed.world.poisoned = true → st'.feed.world.poisoned = true

section Runs

variable {failures failures' : List FailureRecord} {p p' : Pipeline E}

/-- The failures of a longer run start with those of a shorter one. -/
theorem FailureInv.wins (h : FailureInv p failures) (h' : FailureInv p' failures')
    (hmore : ∃ rest, failures' = failures ++ rest) (hterminal : p.feed.world.poisoned = true → p'.feed.world.poisoned = true) :
    FirstFailureWins failures p p' := by
  obtain ⟨rest, rfl⟩ := hmore
  refine ⟨fun hp => ?_, h.first, fun r hr => ?_, hterminal⟩
  · obtain ⟨r, l, hl⟩ := List.exists_cons_of_ne_nil (h.poisoned hp)
    exact ⟨r, by rw [h.first, hl]; rfl⟩
  · rw [h'.first, List.head?_append, ← h.first, hr]
    rfl

/-- A record without a poison. -/
theorem FailureInv.record (h : FailureInv p failures) (f : FailureRecord) :
    FailureInv { p with feed := p.feed.recordFailure f } (failures ++ [f]) := by
  have hne : failures ++ [f] ≠ [] := List.append_ne_nil_of_right_ne_nil _ nofun
  exact ⟨head?_record (r := some f) h.first, fun _ => hne, fun _ _ => hne, fun _ _ => hne, fun _ _ => hne⟩

/-- The same cell, flag and places. -/
theorem FailureInv.same (h : FailureInv p failures) (hcell : p'.feed.firstFailure = p.feed.firstFailure)
    (hflag : p'.feed.world.poisoned = p.feed.world.poisoned) (hphases : p'.feed.phases = p.feed.phases)
    (hseq : p'.sequential = p.sequential) (hwork : p'.workers = p.workers) : FailureInv p' failures := by
  refine ⟨hcell.trans h.first, fun hp => h.poisoned (hflag ▸ hp), fun q hq => h.producers q ?_,
    fun c hc => h.sequential c ?_, fun c hc => h.workers c ?_⟩
  · rwa [hphases] at hq
  · rwa [hseq] at hc
  · rwa [hwork] at hc

/-- A system over a pipeline: what its steps do to the cell and the flag, its runs do. -/
theorem wins_of_step {σ α : Type} {step : σ → α → Option σ} {recorded : σ → α → Option FailureRecord}
    (pipeline : σ → Pipeline E) {init : σ} (h0 : FailureInv (pipeline init) [])
    (hstep : ∀ {s s' : σ} {a : α} {failures}, FailureInv (pipeline s) failures → step s a = some s' →
      FailureInv (pipeline s') (failures ++ (recorded s a).toList) ∧
        ((pipeline s).feed.world.poisoned = true → (pipeline s').feed.world.poisoned = true))
    {x y : σ × List FailureRecord} (hx : FailureReach step recorded (init, []) x) (hy : FailureReach step recorded x y) :
    FirstFailureWins x.2 (pipeline x.1) (pipeline y.1) := by
  have hinv : ∀ {z z'}, FailureInv (pipeline z.1) z.2 → FailureReach step recorded z z' →
      FailureInv (pipeline z'.1) z'.2 ∧ (∃ rest, z'.2 = z.2 ++ rest) ∧
        ((pipeline z.1).feed.world.poisoned = true → (pipeline z'.1).feed.world.poisoned = true) := by
    intro z z' hz hr
    induction hr with
    | refl => exact ⟨hz, ⟨[], (List.append_nil _).symm⟩, id⟩
    | @tail u v a _ _ hs ih =>
      obtain ⟨hu, ⟨rest, hrest⟩, hterminal⟩ := ih
      obtain ⟨hs, hlog⟩ := observed_eq_some.mp hs
      obtain ⟨hv, hflag⟩ := hstep hu hs
      rw [hlog]
      refine ⟨hv, ⟨rest ++ (recorded u.1 a).toList, ?_⟩, fun hp => hflag (hterminal hp)⟩
      rw [hrest, List.append_assoc]
  obtain ⟨hxinv, -, -⟩ := hinv h0 hx
  obtain ⟨hyinv, hmore, hterminal⟩ := hinv hxinv hy
  exact hxinv.wins hyinv hmore hterminal

end Runs

/-! ## Builder -/

/-- `set_thread_affinity` fails, and the thread of consumer `c` poisons and returns. -/
def Pipeline.affinityError (t : Wiring) (st : Pipeline E) (c : Nat) : Option (Pipeline E) :=
  let failure := (Pipeline.config t c).failure .threadAffinity none
  match t.runMode (t.stage c) with
  | .sequential =>
    if c < t.count ∧ (st.sequential c).pc = .start then
      some { st with
        sequential := Function.update st.sequential c { st.sequential c with pc := .record failure true } }
    else none
  | .workPool =>
    if c < t.count ∧ (st.workers c).pc = .start then
      some { st with workers := Function.update st.workers c { st.workers c with pc := .record none failure true } }
    else none

/-- One step of one party of a core, with the failures outside of the loops. -/
inductive ManagedAction (E : Type)
  | core (a : DisruptorCoreAction E)
  | affinityError (c : Nat)
  /-- `handle.join()` returns `Err` in `stop_consumers_keep_claims`. -/
  | joinError

namespace DisruptorCore

variable (b : BufferSize) (t : Wiring) (handlers : Nat → E → Int → Bool → E) (st : DisruptorCore E)

def managedStep : ManagedAction E → Option (DisruptorCore E)
  | .core a => st.step b t handlers a
  | .affinityError c => (st.pipeline.affinityError t c).map fun p => { st with pipeline := p }
  | .joinError =>
    match st.owner, st.consumers with
    | .join _, i :: rest =>
      if st.pipeline.finished t i then
        some { st with
          consumers := rest
          pipeline := { st.pipeline with feed := st.pipeline.feed.recordFailure ⟨.consumerPanic, none, none⟩ } }
      else none
    | _, _ => none

/-- The failure that a step records. -/
def recorded : ManagedAction E → Option FailureRecord
  | .core (.run a) => st.pipeline.recorded t a
  | .core _ => none
  | .affinityError _ => none
  | .joinError => some ⟨.consumerPanic, none, none⟩

end DisruptorCore

theorem failureInv_affinityError {st st' : Pipeline E} {failures : List FailureRecord} {c : Nat}
    (h : FailureInv st failures) (hs : st.affinityError t c = some st') :
    FailureInv st' failures ∧ st'.feed = st.feed := by
  simp only [Pipeline.affinityError] at hs
  split at hs
  · simp only [Option.ite_none_right_eq_some, Option.some.injEq] at hs
    obtain ⟨-, rfl⟩ := hs
    refine ⟨⟨h.first, h.poisoned, h.producers, fun d hd => h.sequential d ?_, h.workers⟩, rfl⟩
    by_cases hdc : d = c
    · rw [hdc] at hd
      simp [SeqPc.fault] at hd
    · simpa [Function.update_of_ne hdc] using hd
  · simp only [Option.ite_none_right_eq_some, Option.some.injEq] at hs
    obtain ⟨-, rfl⟩ := hs
    refine ⟨⟨h.first, h.poisoned, h.producers, h.sequential, fun d hd => h.workers d ?_⟩, rfl⟩
    by_cases hdc : d = c
    · rw [hdc] at hd
      simp [WorkPc.fault] at hd
    · simpa [Function.update_of_ne hdc] using hd

/-- The owner takes quiet steps of the pipeline, and removes gating sequences. -/
theorem coreOwner_pipeline {st st' : DisruptorCore E} (hs : st.ownerStep b t handlers = some st') :
    st'.pipeline = st.pipeline ∨
      (∃ a, st.pipeline.recorded t a = none ∧ st.pipeline.step b t handlers a = some st'.pipeline) ∨
      ∃ i w, st.pipeline.feed.world.step b (.removeGatingSequence i) = some w ∧
        st'.pipeline = { st.pipeline with feed := { st.pipeline.feed with world := w } } := by
  obtain ⟨pc, -, hr⟩ := coreRule_of_ownerStep hs
  cases hr with
  | close hp | haltClose hp => exact .inr (.inl ⟨_, rfl, hp⟩)
  | swap => exact .inr (.inl ⟨.raiseShutdown, rfl, rfl⟩)
  | remove _ hw => exact .inr (.inr ⟨_, _, hw, rfl⟩)
  | _ => exact .inl rfl

/-- **Step lemma.** -/
theorem failureInv_core {st st' : DisruptorCore E} {failures : List FailureRecord} {a : ManagedAction E}
    (h : FailureInv st.pipeline failures) (hs : st.managedStep b t handlers a = some st') :
    FailureInv st'.pipeline (failures ++ (st.recorded t a).toList) ∧
      (st.pipeline.feed.world.poisoned = true → st'.pipeline.feed.world.poisoned = true) := by
  have hsame : st'.pipeline = st.pipeline → FailureInv st'.pipeline (failures ++ []) ∧
      (st.pipeline.feed.world.poisoned = true → st'.pipeline.feed.world.poisoned = true) := by
    intro he
    rw [he, List.append_nil]
    exact ⟨h, id⟩
  cases a with
  | affinityError c =>
    simp only [DisruptorCore.managedStep, Option.map_eq_some_iff] at hs
    obtain ⟨p, hp, rfl⟩ := hs
    obtain ⟨hinv, hfeed⟩ := failureInv_affinityError h hp
    refine ⟨?_, fun hpois => by rw [hfeed]; exact hpois⟩
    simp only [DisruptorCore.recorded, Option.toList_none, List.append_nil]
    exact hinv
  | joinError =>
    simp only [DisruptorCore.managedStep] at hs
    split at hs
    · simp only [Option.ite_none_right_eq_some, Option.some.injEq] at hs
      obtain ⟨-, rfl⟩ := hs
      exact ⟨h.record _, id⟩
    · cases hs
  | core a =>
    simp only [DisruptorCore.managedStep] at hs
    cases a with
    | call c =>
      simp only [DisruptorCore.step] at hs
      split at hs <;> cases hs <;> exact hsame (by cases c <;> rfl)
    | expire =>
      simp only [DisruptorCore.step] at hs
      split at hs <;> cases hs
      exact hsame rfl
    | run a =>
      simp only [DisruptorCore.step, Option.ite_none_right_eq_some, Option.map_eq_some_iff] at hs
      obtain ⟨-, p, hp, rfl⟩ := hs
      exact ⟨failureInv_step h hp, step_terminal hp⟩
    | owner =>
      rcases coreOwner_pipeline hs with he | ⟨a, hrec, hp⟩ | ⟨i, w, hw, he⟩
      · exact hsame he
      · have hinv := failureInv_step h hp
        rw [hrec] at hinv
        exact ⟨hinv, step_terminal hp⟩
      · have hflag : w.poisoned = st.pipeline.feed.world.poisoned := by
          rw [SequencerWorld.poisoned_step hw]
          simp
        rw [he]
        simp only [DisruptorCore.recorded, Option.toList_none, List.append_nil]
        exact ⟨h.same rfl hflag rfl rfl rfl, fun hpois => hflag.trans hpois⟩

/-! ## DSL -/

/-- The failure that `halt_join` records for the result of a thread. -/
def ThreadResult.failure : ThreadResult → Option FailureRecord
  | .ok => none
  | .alreadyRunning => some ⟨.processorThread, none, none⟩
  | .panicked => some ⟨.consumerPanic, none, none⟩

namespace Lifecycle

/-- The failure that a step of the owner records. -/
def ownerRecorded (st : Lifecycle E) : Option FailureRecord :=
  match st.owner, st.threadHandles.getLast? with
  | .join _ _, some i =>
    match st.threads i with
    | .finished r => r.failure
    | _ => none
  | _, _ => none

/-- The failure that a step records. -/
def recorded (t : Wiring) (st : Lifecycle E) : LifecycleAction E → Option FailureRecord
  | .owner => st.ownerRecorded
  | .engine i a => st.pipeline.recorded t (a.toPipeline i)
  | .producer a => st.pipeline.recorded t (.producer a)
  | .call _ | .expire | .thread _ => none

end Lifecycle

section Dsl

variable {st st' : Lifecycle E} {failures : List FailureRecord}

/-- A flag of the owner or of a thread, without a record. -/
theorem failureInv_flag {p p' : Pipeline E} (h : FailureInv p failures) (hf : FlagStep b t handlers p p')
    (hcell : p'.feed.firstFailure = p.feed.firstFailure) :
    FailureInv p' failures ∧ (p.feed.world.poisoned = true → p'.feed.world.poisoned = true) := by
  cases hf with
  | same => exact ⟨h, id⟩
  | feed a ha hs =>
    have hinv := failureInv_step h hs
    have hrec : p.recorded t (.producer a) = none := by
      rcases ha with rfl | rfl <;> rfl
    rw [hrec, Option.toList_none, List.append_nil] at hinv
    exact ⟨hinv, step_terminal hs⟩
  | running c value => exact ⟨h.same rfl rfl rfl rfl rfl, id⟩
  | alert c value => exact ⟨h.same rfl rfl rfl rfl rfl, id⟩
  | record f => exact ⟨h.same hcell rfl rfl rfl rfl, id⟩

/-- `close` and `reopen` leave the cell alone. -/
theorem cell_flag {a : FeedAction E} {p : Pipeline E} (h : FailureInv st.pipeline failures)
    (ha : st.pipeline.recorded t (.producer a) = none) (hp : st.pipeline.step b t handlers (.producer a) = some p) :
    p.feed.firstFailure = st.pipeline.feed.firstFailure := by
  have hinv := failureInv_step h hp
  rw [ha, Option.toList_none, List.append_nil] at hinv
  exact hinv.first.trans h.first.symm

/-- So does a processor outside of the engine. -/
theorem cell_threadStep {i : Nat} (hs : st.threadStep b t handlers i = some st') :
    st'.pipeline.feed.firstFailure = st.pipeline.feed.firstFailure := by
  obtain ⟨pc, -, hr⟩ := threadRule_of_threadStep hs
  cases hr <;> rfl

theorem failureInv_ownerStep (h : FailureInv st.pipeline failures) (hs : st.ownerStep b t handlers = some st') :
    FailureInv st'.pipeline (failures ++ st.ownerRecorded.toList) ∧
      (st.pipeline.feed.world.poisoned = true → st'.pipeline.feed.world.poisoned = true) := by
  obtain ⟨pc, ho, hr⟩ := ownerRule_of_ownerStep hs
  -- only the joins record a failure
  have hquiet : (∀ why joinErrors, pc ≠ .join why joinErrors) → failures ++ st.ownerRecorded.toList = failures := by
    intro hj
    have hrec : st.ownerRecorded = none := by
      unfold Lifecycle.ownerRecorded
      split
      · rename_i hjoin _
        exact absurd (ho.symm.trans hjoin) (hj _ _)
      · rfl
    rw [hrec, Option.toList_none, List.append_nil]
  cases hr with
  | reopen hp =>
    rw [hquiet (by simp)]
    exact failureInv_flag h (.feed .reopen (.inr rfl) hp) (cell_flag h rfl hp)
  | closeDrain hp | close _ hp =>
    rw [hquiet (by simp)]
    exact failureInv_flag h (.feed .close (.inl rfl) hp) (cell_flag h rfl hp)
  | @spawn i =>
    rw [hquiet (by simp)]
    cases hp : st.pipeline.step b t handlers (.restart i) with
    | none =>
      simp only [Lifecycle.spawned, hp, Option.getD_none]
      exact ⟨h, id⟩
    | some p =>
      simp only [Lifecycle.spawned, hp, Option.getD_some]
      have hinv := failureInv_step h hp
      rw [show st.pipeline.recorded t (.restart i) = none from rfl, Option.toList_none, List.append_nil] at hinv
      exact ⟨hinv, step_terminal hp⟩
  | halt | alert =>
    rw [hquiet (by simp)]
    exact ⟨h.same rfl rfl rfl rfl rfl, id⟩
  | halted hlast =>
    simp only [Lifecycle.ownerRecorded, ho, hlast, Option.toList_none, List.append_nil]
    exact ⟨h, id⟩
  | @join _ _ _ r hlast hpc =>
    simp only [Lifecycle.ownerRecorded, ho, hlast, hpc]
    cases r with
    | ok =>
      simp only [ThreadResult.failure, Option.toList_none, List.append_nil]
      exact ⟨h, id⟩
    | alreadyRunning | panicked => exact ⟨h.record _, id⟩
  | _ =>
    rw [hquiet (by simp)]
    exact ⟨h, id⟩

/-- **Step lemma.** -/
theorem failureInv_lifecycle {a : LifecycleAction E} (h : FailureInv st.pipeline failures)
    (hs : st.step b t handlers a = some st') :
    FailureInv st'.pipeline (failures ++ (st.recorded t a).toList) ∧
      (st.pipeline.feed.world.poisoned = true → st'.pipeline.feed.world.poisoned = true) := by
  cases a with
  | owner => exact failureInv_ownerStep h hs
  | engine i e =>
    have hp := engineStep_pipeline hs
    exact ⟨failureInv_step h hp, step_terminal hp⟩
  | producer f =>
    obtain ⟨p, hp, rfl⟩ := act_some hs
    exact ⟨failureInv_step h hp, step_terminal hp⟩
  | call c =>
    rw [callStep_pipeline hs]
    simp only [Lifecycle.recorded, Option.toList_none, List.append_nil]
    exact ⟨h, id⟩
  | expire =>
    simp only [Lifecycle.step] at hs
    split at hs <;> cases hs
    simp only [Lifecycle.recorded, Option.toList_none, List.append_nil]
    exact ⟨h, id⟩
  | thread i =>
    simp only [Lifecycle.recorded, Option.toList_none, List.append_nil]
    exact failureInv_flag h (threadStep_pipeline hs) (cell_threadStep hs)

end Dsl

/-- The first failure wins and is recorded before the poison flag is up, in every run of a Builder core and of a DSL
disruptor, however many consumers and producers fail, through all stops and starts. -/
theorem first_failure_wins (b : BufferSize) (handlers : Nat → E → Int → Bool → E) (multiProducer : Bool) (factory : Nat → E) :
    (∀ (t : Wiring) (x y : DisruptorCore E × List FailureRecord),
      FailureReach (DisruptorCore.managedStep b t handlers) (DisruptorCore.recorded t)
        (DisruptorCore.init b t multiProducer factory, []) x →
      FailureReach (DisruptorCore.managedStep b t handlers) (DisruptorCore.recorded t) x y →
      FirstFailureWins x.2 x.1.pipeline y.1.pipeline) ∧
    ∀ (processors : List DslProcessor) (x y : Lifecycle E × List FailureRecord),
      FailureReach (Lifecycle.step b (dslWiring processors) handlers) (Lifecycle.recorded (dslWiring processors))
        (Lifecycle.init b processors multiProducer factory, []) x →
      FailureReach (Lifecycle.step b (dslWiring processors) handlers) (Lifecycle.recorded (dslWiring processors)) x y →
      FirstFailureWins x.2 x.1.pipeline y.1.pipeline := by
  refine ⟨fun t x y hx hy => ?_, fun processors x y hx hy => ?_⟩
  · exact wins_of_step DisruptorCore.pipeline failureInv_init failureInv_core hx hy
  · refine wins_of_step Lifecycle.pipeline ?_ failureInv_lifecycle hx hy
    exact (failureInv_init (b := b) (t := dslWiring processors)).same rfl rfl rfl rfl rfl

/-- A handler fails in `on_start` while an update panics: the consumer records first, the producer poisons first. And a
disruptor whose processor has failed is started once more, which opens the claim path and keeps the flag. -/
theorem first_failure_wins_both :
    (∃ st : DisruptorCore Nat, st.pipeline.feed.world.poisoned = true ∧
      st.pipeline.feed.firstFailure = some ⟨.handlerStart, some 0, none⟩) ∧
    ∃ st : Lifecycle Nat, st.cycle = 2 ∧ st.owner = .spawn 0 ∧ st.pipeline.feed.world.poisoned = true ∧
      st.pipeline.feed.firstFailure = some ⟨.handlerStart, none, none⟩ := by
  constructor
  · obtain ⟨x, hx, hfailures, hflag⟩ : ∃ x : DisruptorCore Nat × List FailureRecord,
        FailureReach (DisruptorCore.managedStep ⟨0, by decide⟩ (createDisruptorCore [⟨0, .mutable⟩]) fun _ e _ _ => e)
          (DisruptorCore.recorded (createDisruptorCore [⟨0, .mutable⟩]))
          (DisruptorCore.init ⟨0, by decide⟩ (createDisruptorCore [⟨0, .mutable⟩]) false fun _ => 0, []) x ∧
        x.2 = [⟨.handlerStart, some 0, none⟩, ⟨.producerPanic, none, some 0⟩] ∧
        x.1.pipeline.feed.world.poisoned = true :=
      ⟨_, reach_of_exec (([.call 0 (.nextN 1), .step 0, .step 0, .step 0, .claimed 0, .panic 0].map fun a =>
          .core (.run (.producer a))) ++ [.core (.run (.consumer 0 (.handler (.err .stop)) none)),
          .core (.run (.consumer 0 .tick none)), .core (.run (.producer (.record 0))),
          .core (.run (.producer (.poison 0)))]) rfl, rfl, rfl⟩
    have hwins := (first_failure_wins _ _ _ _).1 _ x x hx .refl
    exact ⟨x.1, hflag, by rw [hwins.first, hfailures]; rfl⟩
  · obtain ⟨x, y, hx, hy, hcycle, howner, hfailures, hflag⟩ : ∃ x y : Lifecycle Nat × List FailureRecord,
        FailureReach (Lifecycle.step ⟨0, by decide⟩ (dslWiring [⟨[], false⟩]) fun _ e _ _ => e)
          (Lifecycle.recorded (dslWiring [⟨[], false⟩]))
          (Lifecycle.init ⟨0, by decide⟩ [⟨[], false⟩] false fun _ => 0, []) x ∧
        FailureReach (Lifecycle.step ⟨0, by decide⟩ (dslWiring [⟨[], false⟩]) fun _ e _ _ => e)
          (Lifecycle.recorded (dslWiring [⟨[], false⟩])) x y ∧
        y.1.cycle = 2 ∧ y.1.owner = .spawn 0 ∧ x.2 = [⟨.handlerStart, none, none⟩] ∧
        x.1.pipeline.feed.world.poisoned = true :=
      ⟨_, _, reach_of_exec [.call .start, .owner, .owner, .thread 0, .thread 0, .thread 0,
          .engine 0 (.consumer (.handler (.err .stop)) none), .engine 0 (.consumer .tick none),
          .engine 0 (.consumer .tick none)] rfl,
        reach_of_exec [.thread 0, .thread 0, .owner, .owner, .owner, .owner, .owner, .owner, .owner, .owner,
          .call .start, .owner] rfl, rfl, rfl, rfl, rfl⟩
    have hwins := (first_failure_wins _ _ _ _).2 _ x y hx hy
    exact ⟨y.1, hcycle, howner, hwins.terminal hflag, hwins.fixed _ (by rw [hwins.first, hfailures]; rfl)⟩

end BadBatch
