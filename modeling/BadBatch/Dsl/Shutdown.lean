import BadBatch.Builder.Shutdown
import BadBatch.Dsl.Registration

/-!
# Draining a DSL disruptor

`drain_backlog` compares every processor with one snapshot of the cursor, so nothing is to be derived from the chain. It may
race with processors that fail, leave or were registered after `start`, and with publishers that are inside a claim.

* `DisruptorDrains.handled_of_published`: when `shutdown` of a started disruptor returns `Ok`, everything published before
  it is handled by every registered processor;
* `draining_shutdown_sound`: the same of the Builder and of the DSL.
-/

namespace BadBatch

open MultiProducerSequencer StepSys

variable {E : Type} {b : BufferSize} {t : Wiring} {handlers : Nat → E → Int → Bool → E} {s : Int}

/-! ## What the owner knows -/

/-- The result of a drain: if it is `Ok`, all of `n` processors have passed `s`. -/
def HaltFor.Drained (n : Nat) (sequences : Nat → Int) (s : Int) : HaltFor → Prop
  | shutdown _ drained => drained = .ok () → Below sequences (List.range n) s
  | _ => False

/-- What the owner knows of a published sequence `s` inside `shutdown`. -/
def OwnerPc.Knows (n : Nat) (sequences : Nat → Int) (s : Int) : OwnerPc → Prop
  | close (.shutdown _) => True
  | drainCursor _ => True
  | drainPoisoned _ cursor => s ≤ cursor
  | drainFinished _ cursor _ => s ≤ cursor
  | drainDeadline cursor => s ≤ cursor
  | drainScan _ cursor rest minimum =>
    s ≤ cursor ∧ ∃ scanned, scanned ++ rest = List.range n ∧ Below sequences scanned minimum
  | halt _ why => why.Drained n sequences s
  | alert _ why => why.Drained n sequences s
  | join why _ => why.Drained n sequences s
  | returned _ r => r = .ok () → Below sequences (List.range n) s
  | _ => False

section Knows

variable {n : Nat} {sequences sequences' : Nat → Int} {st st' : Lifecycle E}

theorem HaltFor.Drained.mono {why : HaltFor} (h : why.Drained n sequences s) (hle : ∀ i, sequences i ≤ sequences' i) :
    why.Drained n sequences' s := by
  cases why with
  | shutdown deadline drained => exact fun hr => (h hr).mono hle
  | _ => exact h

theorem OwnerPc.Knows.mono {pc : OwnerPc} (h : pc.Knows n sequences s) (hle : ∀ i, sequences i ≤ sequences' i) :
    pc.Knows n sequences' s := by
  cases pc with
  | drainScan deadline cursor rest minimum =>
    obtain ⟨h1, scanned, h2, h3⟩ := h
    exact ⟨h1, scanned, h2, h3.mono hle⟩
  | halt i why | alert i why | join why joinErrors => exact HaltFor.Drained.mono h hle
  | returned call r => exact fun hr => (h hr).mono hle
  | close call => cases call <;> exact h
  | _ => exact h

/-- `halt_join` returns `Ok` only after a drain that did. -/
theorem HaltFor.Drained.result {why : HaltFor} {r : Except LifecycleError Unit} (h : why.Drained n sequences s)
    (hr : why.result r = .ok ()) : Below sequences (List.range n) s := by
  cases why with
  | shutdown deadline drained =>
    cases drained with
    | ok u => exact h rfl
    | error e => cases hr
  | startPoisoned | startExited | halt => exact h.elim

/-- **Step lemma of the owner.** -/
theorem knows_ownerStep (hs : st.ownerStep b t handlers = some st')
    (h : st.owner.Knows t.count st.pipeline.sequences s) (hcur : s ≤ st.pipeline.feed.world.cursor) :
    st'.owner.Knows t.count st.pipeline.sequences s := by
  obtain ⟨pc, ho, hr⟩ := ownerRule_of_ownerStep hs
  rw [ho] at h
  cases hr with
  | reopen | spawn | started | poll | pollFinished | exited | startPoisoned | startExited | up => exact h.elim
  | closeDrain => trivial
  | @close call _ hc =>
    cases call with
    | shutdown deadline => exact absurd rfl (hc deadline)
    | start | halt => exact h.elim
  | drainCursor => exact hcur
  | drainPoisoned | drainExited => exact fun he => by cases he
  | drainNotPoisoned | drainUp | drainDeadline | halt | haltJoin | alert => exact h
  | drainTimed | drainAgain => exact h.1
  | drainAllUp => exact ⟨h, [], rfl, below_nil⟩
  | drainScan =>
    obtain ⟨hle, scanned, hsplit, hbelow⟩ := h
    exact ⟨hle, scanned ++ [_], by simpa using hsplit, hbelow.scan⟩
  | drained hmin =>
    -- every processor has reached the snapshot, which covers `s`
    obtain ⟨hle, scanned, hsplit, hbelow⟩ := h
    rw [List.append_nil] at hsplit
    subst hsplit
    exact fun _ => hbelow.le (hle.trans hmin)
  | halted => exact fun hr => HaltFor.Drained.result h hr
  | @join _ _ _ r => cases r <;> exact h

/-- The other parties leave the owner where it is. -/
theorem owner_step {a : LifecycleAction E} (hs : st.step b t handlers a = some st') (hcall : ∀ c, a ≠ .call c)
    (howner : a ≠ .owner) (hexp : a ≠ .expire) : st'.owner = st.owner := by
  cases a with
  | call c => exact absurd rfl (hcall c)
  | owner => exact absurd rfl howner
  | expire => exact absurd rfl hexp
  | thread i =>
    obtain ⟨pc, -, hr⟩ := threadRule_of_threadStep hs
    cases hr <;> rfl
  | engine i e =>
    simp only [Lifecycle.step, Lifecycle.engineStep] at hs
    split at hs
    · obtain ⟨p, -, rfl⟩ := act_some hs
      rfl
    · obtain ⟨p, -, rfl⟩ := act_some hs
      rfl
    · cases hs
  | producer a =>
    obtain ⟨p, -, rfl⟩ := act_some hs
    rfl

end Knows

/-! ## Runs -/

def DisruptorAction.isCall : DisruptorAction E → Bool
  | register _ => true
  | life (.call _) => true
  | life _ => false

/-- Any interleaving of registrations, the owner, processors and publishers, with the history of what was handled; `ok` says
which calls are made. -/
def DisruptorRun (b : BufferSize) (handlers : Nat → E → Int → Bool → E) (ok : DisruptorAction E → Prop) :
    Disruptor E × (Nat → List Int) → Disruptor E × (Nat → List Int) → Prop :=
  Reach (Disruptor.observe b handlers) fun _ a => ok a

/-- A disruptor inside `shutdown`. -/
structure ShutsDown (b : BufferSize) (s : Int) (st : Disruptor E) (handled : Nat → List Int) : Prop where
  books : LoopBooks b st.life.pipeline handled
  published : st.life.pipeline.feed.world.ledger.published s = true
  knows : st.life.owner.Knows st.dsl.eventProcessors.length st.life.pipeline.sequences s

section Runs

variable {x x₀ x₁ x₂ : Disruptor E × (Nat → List Int)} {st st' : Disruptor E} {handled : Nat → List Int}
  {multiProducer : Bool} {factory : Nat → E} {c : Nat}

theorem DisruptorRun.books {ok : DisruptorAction E → Prop}
    (h : DisruptorRun b handlers ok (.new b multiProducer factory, fun _ => []) x) : LoopBooks b x.1.life.pipeline x.2 := by
  refine Reach.inv (I := fun x => LoopBooks b x.1.life.pipeline x.2) loopBooks_new ?_ h
  intro x x' a hI _ hs
  obtain ⟨hst, hlog⟩ := observed_eq_some.mp hs
  rw [hlog]
  exact (loopBooks_step hI hst).1

/-- **Step lemma of `shutdown`.** -/
theorem shutsDown_step {a : DisruptorAction E} (ha : a.isCall = false) (h : ShutsDown b s st handled)
    (hs : st.step b handlers a = some st') :
    ShutsDown b s st' (st.log a handled) ∧ st'.dsl = st.dsl := by
  obtain ⟨hbooks, hgrows⟩ := loopBooks_step h.books hs
  cases a with
  | register call => cases ha
  | life a =>
    simp only [Disruptor.step, Option.ite_none_right_eq_some, Option.map_eq_some_iff] at hs
    obtain ⟨-, life, hlife, rfl⟩ := hs
    refine ⟨⟨hbooks, hgrows.published s h.published, ?_⟩, rfl⟩
    cases a with
    | call call => cases ha
    | owner =>
      have hcur := h.books.feed.world.le_cursor h.published
      exact (knows_ownerStep hlife h.knows hcur).mono hgrows.sequences
    | expire =>
      simp only [Lifecycle.step] at hlife
      split at hlife <;> simp only [Option.some.injEq, reduceCtorEq] at hlife
      subst hlife
      rintro ⟨⟩
    | thread i | engine i e | producer a =>
      have howner := owner_step hlife (by simp) (by simp) (by simp)
      have hknows := h.knows.mono hgrows.sequences
      rw [← howner] at hknows
      exact hknows

/-- `shutdown` of a started disruptor is called in `x₀`; in `x₂` it has returned `Ok`. -/
def DisruptorDrains (b : BufferSize) (handlers : Nat → E → Int → Bool → E) (multiProducer : Bool) (factory : Nat → E)
    (x₀ x₂ : Disruptor E × (Nat → List Int)) : Prop :=
  ∃ deadline x₁, DisruptorRun b handlers (fun _ => True) (.new b multiProducer factory, fun _ => []) x₀ ∧
    x₀.1.life.started = true ∧ Disruptor.observe b handlers x₀ (.life (.call (.shutdown deadline))) = some x₁ ∧
    DisruptorRun b handlers (·.isCall = false) x₁ x₂ ∧ x₂.1.life.owner = .returned (.shutdown deadline) (.ok ())

/-- **A draining stop of a DSL disruptor is sound.** What was published when it was called is handled by every processor
that was registered by then. -/
theorem DisruptorDrains.handled_of_published (h : DisruptorDrains b handlers multiProducer factory x₀ x₂)
    (hs : x₀.1.life.pipeline.feed.world.ledger.published s = true) (hc : c < x₀.1.dsl.eventProcessors.length) :
    s ∈ x₂.2 c := by
  obtain ⟨deadline, x₁, h₀, hstarted, hcall, h₂, hret⟩ := h
  have hbooks := h₀.books
  obtain ⟨hst, hlog⟩ := observed_eq_some.mp hcall
  have hpub := (loopBooks_step hbooks hst).2.published s hs
  have hbooks₁ := (loopBooks_step hbooks hst).1
  have h₁ : ShutsDown b s x₁.1 x₁.2 ∧ x₁.1.dsl = x₀.1.dsl := by
    rw [hlog]
    simp only [Disruptor.step, Option.ite_none_right_eq_some, Option.map_eq_some_iff] at hst
    obtain ⟨-, life, hlife, hx⟩ := hst
    rw [← hx] at hbooks₁ hpub ⊢
    refine ⟨⟨hbooks₁, hpub, ?_⟩, rfl⟩
    simp only [Lifecycle.step] at hlife
    split at hlife <;> simp only [Lifecycle.callStep, hstarted, if_true, Option.some.injEq, reduceCtorEq] at hlife <;>
      subst hlife <;> trivial
  have hI : ShutsDown b s x₂.1 x₂.2 ∧ x₂.1.dsl = x₀.1.dsl := by
    refine Reach.inv (I := fun x => ShutsDown b s x.1 x.2 ∧ x.1.dsl = x₀.1.dsl) h₁ ?_ h₂
    intro x x' a hI ha hs
    obtain ⟨hst, hlog⟩ := observed_eq_some.mp hs
    rw [hlog]
    obtain ⟨h1, h2⟩ := shutsDown_step ha hI.1 hst
    exact ⟨h1, h2.trans hI.2⟩
  have hknows := hI.1.knows
  rw [hret, hI.2] at hknows
  have h0 := (hI.1.books.feed.world.ledger.claimed hI.1.published).1
  exact (hI.1.books.handled c).covers h0 (hknows rfl c (List.mem_range.mpr hc))

end Runs

/-- **Draining shutdown is sound.** When `shutdown_with_timeout` of a Builder pipeline, or `shutdown` of a started DSL
disruptor, returns `Ok`, every sequence that was published when it was called is handled: by every sequential and fan-out
consumer of every stage and by exactly one worker of every pool, or by every registered processor. -/
theorem draining_shutdown_sound (b : BufferSize) (handlers : Nat → E → Int → Bool → E) (multiProducer : Bool)
    (factory : Nat → E) :
    (∀ first calls consumers x₀ x₂ s, builderConsumers first calls = some consumers →
      CoreDrains b (createDisruptorCore consumers) handlers multiProducer factory x₀ x₂ →
      x₀.1.pipeline.feed.world.ledger.published s = true → HandledByAll (createDisruptorCore consumers) x₂.2 s) ∧
    ∀ x₀ x₂ s c, DisruptorDrains b handlers multiProducer factory x₀ x₂ →
      x₀.1.life.pipeline.feed.world.ledger.published s = true → c < x₀.1.dsl.eventProcessors.length → s ∈ x₂.2 c := by
  constructor
  · intro first calls consumers x₀ x₂ s hcalls h hs
    exact h.handledByAll (wf_createDisruptorCore hcalls) hs
  · intro x₀ x₂ s c h hs hc
    exact h.handled_of_published hs hc

/-- A consumer that may write handles sequence 0, its first batch, after `looks` steps of its barrier. -/
def handleFirst (call : BarrierCall) (looks : Nat) : List (EngineAction Nat) :=
  [.consumer .tick none, .consumer (.flag true) none, .wait call] ++ List.replicate looks (.barrier .next) ++
    [.consumer (.answer (.ok 0)) none, .consumer (.handler .ok) none, .consumer .tick none, .consumer (.handler .ok) none,
      .consumer .tick none, .consumer .tick none]

/-- `start` spawns processor `i` and waits until it has started. -/
def startProcessor (i : Nat) : List (DisruptorAction Nat) :=
  [.life .owner, .life (.thread i), .life (.thread i), .life (.thread i),
    .life (.engine i (.consumer (.handler .ok) none)), .life (.thread i), .life .owner, .life .owner, .life .owner]

/-- Processor `i` sees that it is halted, and its thread ends. -/
def stopProcessor (i : Nat) : List (DisruptorAction Nat) :=
  [.life (.engine i (.consumer (.flag false) none)), .life (.engine i (.consumer (.handler .ok) none)), .life (.thread i)]

/-- A pipeline of two stages, and a disruptor of two processors, are stopped when sequence 0 is published and nobody has
consumed it. -/
theorem draining_shutdown_sound_stages :
    (∃ x₀ x₂ : DisruptorCore Nat × (Nat → List Int),
      CoreDrains ⟨0, by decide⟩ (createDisruptorCore [⟨0, .mutable⟩, ⟨1, .mutable⟩]) (fun _ e _ _ => e) false (fun _ => 0)
        x₀ x₂ ∧ x₀.2 0 = [] ∧ x₀.2 1 = [] ∧ 0 ∈ x₂.2 0 ∧ 0 ∈ x₂.2 1) ∧
    ∃ x₀ x₂ : Disruptor Nat × (Nat → List Int),
      DisruptorDrains ⟨0, by decide⟩ (fun _ e _ _ => e) false (fun _ => 0) x₀ x₂ ∧ x₀.2 0 = [] ∧ x₀.2 1 = [] ∧
        0 ∈ x₂.2 0 ∧ 0 ∈ x₂.2 1 := by
  constructor
  · obtain ⟨x₀, x₂, h, hs, h0, h1⟩ : ∃ x₀ x₂ : DisruptorCore Nat × (Nat → List Int),
        CoreDrains ⟨0, by decide⟩ (createDisruptorCore [⟨0, .mutable⟩, ⟨1, .mutable⟩]) (fun _ e _ _ => e) false
          (fun _ => 0) x₀ x₂ ∧
        x₀.1.pipeline.feed.world.ledger.published 0 = true ∧ x₀.2 0 = [] ∧ x₀.2 1 = [] := by
      refine ⟨_, _, ⟨false, _, reach_of_exec ([.call 0 (.nextN 1), .step 0, .step 0, .step 0, .claimed 0, .write 0 7,
        .publish 0, .step 0, .published 0].map fun a => .run (.producer a)) rfl, rfl, reach_of_exec
        ([.owner, .owner, .owner, .run (.consumer 0 (.handler .ok) none), .run (.consumer 1 (.handler .ok) none)] ++
          (handleFirst .waitForWithShutdown 4).map (fun e => .run (e.toPipeline 0)) ++
          (handleFirst .waitForWithShutdown 5).map (fun e => .run (e.toPipeline 1)) ++
          List.replicate 8 .owner ++
          [.run (.consumer 0 (.flag false) none), .run (.consumer 0 (.handler .ok) none),
            .run (.consumer 1 (.flag false) none), .run (.consumer 1 (.handler .ok) none), .owner, .owner, .owner, .owner,
            .owner]) rfl, rfl⟩, rfl, rfl, rfl⟩
    have hall := (draining_shutdown_sound _ _ _ _).1 .mutable [.andThen .mutable] _ x₀ x₂ 0 rfl h hs
    exact ⟨x₀, x₂, h, h0, h1, hall.sequential 0 (by decide) rfl, hall.sequential 1 (by decide) rfl⟩
  · obtain ⟨x₀, x₂, h, hlen, hs, h0, h1⟩ : ∃ x₀ x₂ : Disruptor Nat × (Nat → List Int),
        DisruptorDrains ⟨0, by decide⟩ (fun _ e _ _ => e) false (fun _ => 0) x₀ x₂ ∧
        x₀.1.dsl.eventProcessors.length = 2 ∧ x₀.1.life.pipeline.feed.world.ledger.published 0 = true ∧ x₀.2 0 = [] ∧
        x₀.2 1 = [] := by
      refine ⟨_, _, ⟨false, _, reach_of_exec ([.register .handleEventsWith, .register .then, .register .build,
        .life (.call .start), .life .owner] ++ startProcessor 0 ++ startProcessor 1 ++ [.life .owner] ++
        [.call 0 (.nextN 1), .step 0, .step 0, .step 0, .step 0, .step 0, .claimed 0, .write 0 7, .publish 0, .step 0,
          .published 0].map fun a => .life (.producer a)) rfl, rfl, rfl, reach_of_exec
        ([.life .owner, .life .owner] ++ (handleFirst .waitFor 4).map (fun e => .life (.engine 0 e)) ++
          (handleFirst .waitFor 5).map (fun e => .life (.engine 1 e)) ++ List.replicate 12 (.life .owner) ++
          stopProcessor 0 ++ stopProcessor 1 ++ [.life .owner, .life .owner, .life .owner]) rfl, rfl⟩, rfl, rfl, rfl, rfl⟩
    have hall := fun c hc => (draining_shutdown_sound _ _ _ _).2 x₀ x₂ 0 c h hs (hlen ▸ hc)
    exact ⟨x₀, x₂, h, h0, h1, hall 0 (by decide), hall 1 (by decide)⟩

end BadBatch
