import BadBatch.Pipeline.Handled
import BadBatch.Pipeline.Ownership

/-!
# Stopping a Builder pipeline

`DisruptorCore` stops its consumers in three ways: `halt` closes the claim path and joins, `stop_consumers_keep_claims` joins
only, and `shutdown_with_timeout` first waits until the gating sequences have reached one snapshot of the cursor. The core
looks at the last stage only, while producers may still be inside a claim and consumers may fail or leave at any point.

* `DisruptorCore.ownerStep`: `halt`, `stop_consumers_keep_claims`, `shutdown_with_timeout` and `drain`, load by load;
* `CoreDrains.handledByAll`: when the first stop is a draining one and returns `Ok`, everything published before it is
  handled on every stage.
-/

namespace BadBatch

open MultiProducerSequencer StepSys

/-- The stopping calls; a deadline is given or not. -/
inductive CoreCall
  | halt
  | stopConsumersKeepClaims
  | shutdownWithTimeout (deadline : Bool)
  deriving DecidableEq, Repr

/-- What `drain` may return. -/
inductive DrainError
  | poisoned
  /-- `ShutdownError("consumer thread exited before the backlog was drained")` -/
  | exitedBeforeDrained
  | timeout
  deriving DecidableEq, Repr

/-- Who joins the consumers. -/
inductive StopFor
  | halt
  | keepClaims
  | shutdown (deadline : Bool) (drained : Except DrainError Unit)
  deriving DecidableEq

namespace StopFor

def call : StopFor → CoreCall
  | halt => .halt
  | keepClaims => .stopConsumersKeepClaims
  | shutdown deadline _ => .shutdownWithTimeout deadline

/-- What the call returns; `halt` and `stop_consumers_keep_claims` return nothing. -/
def result : StopFor → Except DrainError Unit
  | halt => .ok ()
  | keepClaims => .ok ()
  | shutdown _ drained => drained

end StopFor

/-- Where the owner of the core stands. -/
inductive CorePc
  | idle
  | returned (call : CoreCall) (r : Except DrainError Unit)
  /-- `self.sequencer.close()` of `shutdown_with_timeout` -/
  | close (deadline : Bool)
  /-- `if self.shutdown_flag.load()` -/
  | drainFlag (deadline : Bool)
  /-- `let cursor = self.sequencer.get_cursor().get()` -/
  | drainCursor (deadline : Bool)
  | drainPoisoned (deadline : Bool) (cursor : Int)
  | drainFinished (deadline : Bool) (cursor : Int) (rest : List Nat)
  | drainScan (deadline : Bool) (cursor : Int) (rest : List Nat) (minimum : Int)
  /-- `if Instant::now() >= deadline` -/
  | drainDeadline (cursor : Int)
  /-- `self.sequencer.close()` of `halt` -/
  | haltClose (why : StopFor)
  /-- `self.shutdown_flag.swap(true)` -/
  | swap (why : StopFor)
  /-- `for mut consumer in self.consumers.drain(..)` -/
  | join (why : StopFor)
  /-- `for sequence in self.gating_sequences.drain(..)` -/
  | removeGating (why : StopFor)
  deriving DecidableEq

/-- A core: the pipeline, the consumers that are not joined, the gating sequences that are not removed, and its owner. -/
structure DisruptorCore (E : Type) where
  pipeline : Pipeline E
  consumers : List Nat
  gatingSequences : List Nat
  owner : CorePc

/-- One step of one party. -/
inductive DisruptorCoreAction (E : Type)
  /-- The owner starts a call. -/
  | call (c : CoreCall)
  /-- The owner takes its next step. -/
  | owner
  /-- The deadline of `shutdown_with_timeout` has passed. -/
  | expire
  /-- A producer or a consumer takes a step. -/
  | run (a : PipelineAction E)

variable {E : Type}

def DisruptorCoreAction.isCall : DisruptorCoreAction E → Bool
  | call _ => true
  | _ => false

/-- Producers and consumers; only the owner closes the claim path and raises the shutdown flag. -/
def PipelineAction.ofThread : PipelineAction E → Bool
  | producer .close | producer .reopen => false
  | producer _ | wait _ _ | barrier _ _ | consumer _ _ _ => true
  | restart _ | raiseShutdown | setRunning _ _ | setAlert _ _ => false

namespace DisruptorCore

variable (b : BufferSize) (t : Wiring) (handlers : Nat → E → Int → Bool → E) (st : DisruptorCore E)

/-- The assembled core. -/
def init (multiProducer : Bool) (factory : Nat → E) : DisruptorCore E where
  pipeline := .init b t multiProducer true factory
  consumers := List.range t.count
  gatingSequences := t.gatingSequences
  owner := .idle

/-- The first step of a call. -/
def callStep : CoreCall → DisruptorCore E
  | .halt => { st with owner := .haltClose .halt }
  | .stopConsumersKeepClaims => { st with owner := .swap .keepClaims }
  | .shutdownWithTimeout deadline => { st with owner := .close deadline }

/-- The next step of the owner. -/
def ownerStep : Option (DisruptorCore E) :=
  match st.owner with
  | .idle => none
  | .returned _ _ => none
  | .close deadline =>
    (st.pipeline.step b t handlers (.producer .close)).map fun p => { st with pipeline := p, owner := .drainFlag deadline }
  | .drainFlag deadline =>
    some { st with
      owner := if st.pipeline.shutdown then .haltClose (.shutdown deadline (.ok ())) else .drainCursor deadline }
  | .drainCursor deadline => some { st with owner := .drainPoisoned deadline st.pipeline.feed.world.cursor }
  | .drainPoisoned deadline cursor =>
    some { st with
      owner :=
        if st.pipeline.feed.world.poisoned then .haltClose (.shutdown deadline (.error .poisoned))
        else .drainFinished deadline cursor st.consumers }
  | .drainFinished deadline cursor (i :: rest) =>
    some { st with
      owner :=
        if st.pipeline.finished t i then .haltClose (.shutdown deadline (.error .exitedBeforeDrained))
        else .drainFinished deadline cursor rest }
  | .drainFinished deadline cursor [] => some { st with owner := .drainScan deadline cursor st.gatingSequences cursor }
  | .drainScan deadline cursor (i :: rest) minimum =>
    some { st with owner := .drainScan deadline cursor rest (lower minimum (st.pipeline.sequences i)) }
  | .drainScan deadline cursor [] minimum =>
    some { st with
      owner :=
        if minimum ≥ cursor then .haltClose (.shutdown deadline (.ok ()))
        else if deadline then .drainDeadline cursor
        else .drainPoisoned deadline cursor }
  | .drainDeadline cursor => some { st with owner := .drainPoisoned true cursor }
  | .haltClose why =>
    (st.pipeline.step b t handlers (.producer .close)).map fun p => { st with pipeline := p, owner := .swap why }
  | .swap why =>
    if st.pipeline.shutdown ∧ st.consumers = [] then some { st with owner := .returned why.call why.result }
    else
      (st.pipeline.step b t handlers .raiseShutdown).map fun p => { st with pipeline := p, owner := .join why }
  | .join why =>
    match st.consumers with
    | [] => some { st with owner := .removeGating why }
    -- `join` blocks; the panic of a thread was recorded by the thread itself, and the first record stays
    | i :: rest => if st.pipeline.finished t i then some { st with consumers := rest } else none
  | .removeGating why =>
    match st.gatingSequences with
    | [] => some { st with owner := .returned why.call why.result }
    | i :: rest =>
      (st.pipeline.feed.world.step b (.removeGatingSequence i)).map fun w =>
        { st with
          pipeline := { st.pipeline with feed := { st.pipeline.feed with world := w } }
          gatingSequences := rest }

/-- One step of the system. -/
def step : DisruptorCoreAction E → Option (DisruptorCore E)
  | .call c =>
    match st.owner with
    | .idle => some (st.callStep c)
    | .returned _ _ => some (st.callStep c)
    | _ => none
  | .owner => st.ownerStep b t handlers
  | .expire =>
    match st.owner with
    | .drainDeadline _ => some { st with owner := .haltClose (.shutdown true (.error .timeout)) }
    | _ => none
  | .run a => if a.ofThread then (st.pipeline.step b t handlers a).map fun p => { st with pipeline := p } else none

/-- What the consumers handle. -/
def log (t : Wiring) (st : DisruptorCore E) (a : DisruptorCoreAction E) (handled : Nat → List Int) : Nat → List Int :=
  match a with
  | .run a => st.pipeline.logHandled t a handled
  | _ => handled

/-- One step, with the history of what was handled. -/
def observe : DisruptorCore E × (Nat → List Int) → DisruptorCoreAction E → Option (DisruptorCore E × (Nat → List Int)) :=
  observed (DisruptorCore.step b t handlers) (DisruptorCore.log t)

end DisruptorCore

variable {b : BufferSize} {t : Wiring} {handlers : Nat → E → Int → Bool → E} {st st' : Pipeline E} {c : Nat} {s : Int}

/-! ## The rules of the owner -/

section Rules

variable (b t handlers) (core : DisruptorCore E)

/-- The steps of the owner, one rule for each. -/
inductive CoreRule : CorePc → DisruptorCore E → Prop
  | close {deadline p} (hp : core.pipeline.step b t handlers (.producer .close) = some p) :
    CoreRule (.close deadline) { core with pipeline := p, owner := .drainFlag deadline }
  | alreadyDown {deadline} (h : core.pipeline.shutdown = true) :
    CoreRule (.drainFlag deadline) { core with owner := .haltClose (.shutdown deadline (.ok ())) }
  | drain {deadline} (h : core.pipeline.shutdown = false) :
    CoreRule (.drainFlag deadline) { core with owner := .drainCursor deadline }
  | drainCursor {deadline} :
    CoreRule (.drainCursor deadline) { core with owner := .drainPoisoned deadline core.pipeline.feed.world.cursor }
  | drainPoisoned {deadline cursor} (h : core.pipeline.feed.world.poisoned = true) :
    CoreRule (.drainPoisoned deadline cursor) { core with owner := .haltClose (.shutdown deadline (.error .poisoned)) }
  | drainNotPoisoned {deadline cursor} (h : core.pipeline.feed.world.poisoned = false) :
    CoreRule (.drainPoisoned deadline cursor) { core with owner := .drainFinished deadline cursor core.consumers }
  | drainExited {deadline cursor i rest} (h : core.pipeline.finished t i = true) :
    CoreRule (.drainFinished deadline cursor (i :: rest))
      { core with owner := .haltClose (.shutdown deadline (.error .exitedBeforeDrained)) }
  | drainUp {deadline cursor i rest} (h : core.pipeline.finished t i = false) :
    CoreRule (.drainFinished deadline cursor (i :: rest)) { core with owner := .drainFinished deadline cursor rest }
  | drainAllUp {deadline cursor} : CoreRule (.drainFinished deadline cursor [])
    { core with owner := .drainScan deadline cursor core.gatingSequences cursor }
  | drainScan {deadline cursor i rest minimum} : CoreRule (.drainScan deadline cursor (i :: rest) minimum)
    { core with owner := .drainScan deadline cursor rest (lower minimum (core.pipeline.sequences i)) }
  | drained {deadline cursor minimum} (h : cursor ≤ minimum) : CoreRule (.drainScan deadline cursor [] minimum)
    { core with owner := .haltClose (.shutdown deadline (.ok ())) }
  | drainTimed {cursor minimum} (h : minimum < cursor) :
    CoreRule (.drainScan true cursor [] minimum) { core with owner := .drainDeadline cursor }
  | drainAgain {cursor minimum} (h : minimum < cursor) :
    CoreRule (.drainScan false cursor [] minimum) { core with owner := .drainPoisoned false cursor }
  | drainDeadline {cursor} : CoreRule (.drainDeadline cursor) { core with owner := .drainPoisoned true cursor }
  | haltClose {why p} (hp : core.pipeline.step b t handlers (.producer .close) = some p) :
    CoreRule (.haltClose why) { core with pipeline := p, owner := .swap why }
  | again {why} (h : core.pipeline.shutdown = true) (hc : core.consumers = []) :
    CoreRule (.swap why) { core with owner := .returned why.call why.result }
  | swap {why} (h : ¬(core.pipeline.shutdown = true ∧ core.consumers = [])) :
    CoreRule (.swap why) { core with pipeline := { core.pipeline with shutdown := true }, owner := .join why }
  | joined {why} (hc : core.consumers = []) : CoreRule (.join why) { core with owner := .removeGating why }
  | join {why i rest} (hc : core.consumers = i :: rest) (hf : core.pipeline.finished t i = true) :
    CoreRule (.join why) { core with consumers := rest, owner := .join why }
  | removed {why} (hg : core.gatingSequences = []) :
    CoreRule (.removeGating why) { core with owner := .returned why.call why.result }
  | remove {why i rest w} (hg : core.gatingSequences = i :: rest)
    (hw : core.pipeline.feed.world.step b (.removeGatingSequence i) = some w) : CoreRule (.removeGating why)
    { core with
      pipeline := { core.pipeline with feed := { core.pipeline.feed with world := w } }
      gatingSequences := rest
      owner := .removeGating why }

variable {b t handlers core} {core' : DisruptorCore E}

/-- Every step of the owner follows a rule. -/
theorem coreRule_of_ownerStep (hs : core.ownerStep b t handlers = some core') :
    ∃ pc, core.owner = pc ∧ CoreRule b t handlers core pc core' := by
  refine ⟨core.owner, rfl, ?_⟩
  unfold DisruptorCore.ownerStep at hs
  cases ho : core.owner <;> rw [ho] at hs
  case idle | returned => cases hs
  case close deadline =>
    obtain ⟨p, hp, rfl⟩ := Option.map_eq_some_iff.mp hs
    exact .close hp
  case drainFlag deadline =>
    cases hs
    cases hd : core.pipeline.shutdown
    · exact .drain hd
    · exact .alreadyDown hd
  case drainCursor deadline =>
    cases hs
    exact .drainCursor
  case drainPoisoned deadline cursor =>
    cases hs
    cases hp : core.pipeline.feed.world.poisoned
    · exact .drainNotPoisoned hp
    · exact .drainPoisoned hp
  case drainFinished deadline cursor rest =>
    cases rest with
    | nil =>
      cases hs
      exact .drainAllUp
    | cons i rest =>
      cases hs
      cases hf : core.pipeline.finished t i
      · exact .drainUp hf
      · exact .drainExited hf
  case drainScan deadline cursor rest minimum =>
    cases rest with
    | nil =>
      cases hs
      split
      · exact .drained ‹_›
      · rename_i hlt
        cases deadline
        · exact .drainAgain (not_le.mp hlt)
        · exact .drainTimed (not_le.mp hlt)
    | cons i rest =>
      cases hs
      exact .drainScan
  case drainDeadline cursor =>
    cases hs
    exact .drainDeadline
  case haltClose why =>
    obtain ⟨p, hp, rfl⟩ := Option.map_eq_some_iff.mp hs
    exact .haltClose hp
  case swap why =>
    simp only at hs
    split at hs
    · rename_i hdown
      cases hs
      exact .again hdown.1 hdown.2
    · obtain ⟨p, hp, rfl⟩ := Option.map_eq_some_iff.mp hs
      cases hp
      exact .swap ‹_›
  case join why =>
    simp only at hs
    split at hs
    · cases hs
      exact .joined ‹_›
    · obtain ⟨hf, he⟩ := Option.ite_none_right_eq_some.mp hs
      cases he
      exact .join ‹_› hf
  case removeGating why =>
    simp only at hs
    split at hs
    · cases hs
      exact .removed ‹_›
    · obtain ⟨w, hw, rfl⟩ := Option.map_eq_some_iff.mp hs
      exact .remove ‹_› hw

end Rules

/-! ## Consumers that have left -/

/-- A consumer that has left takes no step, and stays away. -/
theorem finished_step {a : PipelineAction E} (ha : a.isRestart = false) (hs : st.step b t handlers a = some st')
    (h : st.finished t c = true) : st'.finished t c = true ∧ ∀ i torn, a ≠ .consumer c i torn := by
  cases pipelineRule_of_step hs with
  | @consumer d i torn _ hstep =>
    have hcd : c ≠ d := by
      rintro rfl
      obtain ⟨-, -, ⟨hm, v, l, hst, -⟩ | ⟨hm, work, v, l, hst, -⟩⟩ := consumerStep_cases hstep
      · simp only [Pipeline.finished, hm, beq_iff_eq] at h
        simp only [seqStep, h, reduceCtorEq] at hst
      · simp only [Pipeline.finished, hm] at h
        split at h
        · rename_i hpc
          simp only [workStep, hpc, reduceCtorEq] at hst
        · cases h
    refine ⟨?_, fun j torn' he => hcd (by cases he; rfl)⟩
    rw [← h]
    obtain ⟨-, -, ⟨-, v, l, -, rfl⟩ | ⟨-, work, v, l, -, rfl⟩⟩ := consumerStep_cases hstep <;>
      simp only [Pipeline.finished, access_sequential, access_workers, Pipeline.settle, Function.update_of_ne hcd]
  | restart => cases ha
  | producer | wait | barrier | raiseShutdown | setRunning | setAlert => exact ⟨h, by simp⟩

theorem access_shutdown {d : Nat} {before after : Option (Int × Bool)} {i : EngineInput} {torn : Option E} :
    (st.access b t handlers d before after i torn).shutdown = st.shutdown := by
  obtain ⟨ring, held, received, doneBy, he⟩ := access_frame b t handlers st d before after i torn
  rw [he]

theorem isRestart_ofThread {a : PipelineAction E} (h : a.ofThread = true) : a.isRestart = false := by
  cases a with
  | restart c => cases h
  | _ => rfl

theorem ne_raiseShutdown {a : PipelineAction E} (h : a.ofThread = true) : a ≠ .raiseShutdown := by
  rintro rfl
  cases h

/-- Only the owner raises the shutdown flag. -/
theorem shutdown_step {a : PipelineAction E} (ha : a ≠ .raiseShutdown) (hs : st.step b t handlers a = some st') :
    st'.shutdown = st.shutdown := by
  cases pipelineRule_of_step hs with
  | consumer hstep =>
    obtain ⟨-, -, ⟨-, v, l, -, rfl⟩ | ⟨-, work, v, l, -, rfl⟩⟩ := consumerStep_cases hstep <;>
      rw [access_shutdown] <;> rfl
  | raiseShutdown => exact absurd rfl ha
  | producer | wait | barrier | restart | setRunning | setAlert => rfl

/-! ## What has been handled -/

/-- Every sequential consumer has handled `s`, and in every pool exactly one worker has. -/
structure HandledByAll (t : Wiring) (handled : Nat → List Int) (s : Int) : Prop where
  sequential : ∀ c < t.count, t.runMode (t.stage c) = .sequential → s ∈ handled c
  pool : ∀ k < t.stageCount, t.runMode k = .workPool → ∃! c, (c < t.count ∧ t.stage c = k) ∧ s ∈ handled c

/-- What the gating sequences have passed is handled on every stage. -/
theorem PipeInv.handledByAll {handled : Nat → List Int} (hwf : t.Wf) (h : PipeInv b t st) (hh : HandledInv t st handled)
    (h0 : 0 ≤ s) (hg : Below st.sequences t.gatingSequences s) : HandledByAll t handled s := by
  have hpassed := fun k hk => h.consumers.passed_of_gating hwf h0 hg (k := k) hk
  constructor
  · intro c hc hm
    exact (hh.sequential c hm).covers h0 (hpassed _ (hwf.stage_lt c hc) c hc rfl)
  · intro k hk hm
    obtain ⟨d, hd, hstage⟩ := hwf.filled k hk
    have hne : t.members k ≠ [] := List.ne_nil_of_mem (Wiring.mem_members.mpr ⟨hd, hstage⟩)
    have hpool := h.consumers.pool k hm
    obtain ⟨c, hc, hr⟩ := hpool.processed_of_le hne h0 fun i hi =>
      hpassed k hk i (Wiring.mem_members.mp hi).1 (Wiring.mem_members.mp hi).2
    obtain ⟨hcc, hcs⟩ := Wiring.mem_members.mp hc
    refine ⟨c, ⟨⟨hcc, hcs⟩, (hh.worker c (hcs ▸ hm) s).mpr hr⟩, ?_⟩
    -- a second worker would have the same claim
    rintro c' ⟨⟨hc', hcs'⟩, hr'⟩
    exact hpool.unique c' (Wiring.mem_members.mpr ⟨hc', hcs'⟩) c hc s
      (.inl ((hh.worker c' (hcs' ▸ hm) s).mp hr')) (.inl hr)

/-! ## The drain -/

/-- What the owner of the core knows of a published sequence `s`. -/
def CorePc.Knows (gating : List Nat) (sequences : Nat → Int) (s : Int) : CorePc → Prop
  | drainPoisoned _ cursor => s ≤ cursor
  | drainFinished _ cursor _ => s ≤ cursor
  | drainDeadline cursor => s ≤ cursor
  | drainScan _ cursor rest minimum => s ≤ cursor ∧ ∃ scanned, scanned ++ rest = gating ∧ Below sequences scanned minimum
  | haltClose why => why.result = .ok () → Below sequences gating s
  | swap why => why.result = .ok () → Below sequences gating s
  | join why => why.result = .ok () → Below sequences gating s
  | _ => True

/-- The owner is on its way to raise the shutdown flag. -/
def CorePc.beforeFlag : CorePc → Bool
  | idle | returned _ _ | join _ | removeGating _ => false
  | close _ | drainFlag _ | drainCursor _ | drainPoisoned _ _ | drainFinished _ _ _ | drainScan _ _ _ _ | drainDeadline _
  | haltClose _ | swap _ => true

/-- The owner is inside a stopping call and consumers may still run. -/
def CorePc.stops : CorePc → Bool
  | join _ => true
  | pc => pc.beforeFlag

theorem CorePc.Knows.mono {gating : List Nat} {sequences sequences' : Nat → Int} {pc : CorePc}
    (h : pc.Knows gating sequences s) (hle : ∀ i, sequences i ≤ sequences' i) : pc.Knows gating sequences' s := by
  cases pc with
  | drainScan deadline cursor rest minimum =>
    obtain ⟨h1, scanned, h2, h3⟩ := h
    exact ⟨h1, scanned, h2, h3.mono hle⟩
  | haltClose why | swap why | join why => exact fun hr => (h hr).mono hle
  | _ => exact h

/-- A draining stop of a running core, with the history of what was handled. -/
structure Draining (b : BufferSize) (t : Wiring) (s : Int) (st : DisruptorCore E) (handled : Nat → List Int) : Prop where
  pipe : PipeInv b t st.pipeline
  handled : HandledInv t st.pipeline handled
  published : st.pipeline.feed.world.ledger.published s = true
  gating : st.gatingSequences = t.gatingSequences
  joined : ∀ c < t.count, c ∈ st.consumers ∨ st.pipeline.finished t c = true
  stops : st.owner.stops = true
  flag : st.owner.beforeFlag = true → st.pipeline.shutdown = false
  knows : st.owner.Knows t.gatingSequences st.pipeline.sequences s

/-- Every consumer is joined, and if the stop is to return `Ok`, sequence `s` is handled. -/
structure Stopped (t : Wiring) (s : Int) (st : DisruptorCore E) (handled : Nat → List Int) : Prop where
  joined : ∀ c < t.count, st.pipeline.finished t c = true
  drained : match st.owner with
    | .removeGating why => why.result = .ok () → HandledByAll t handled s
    | .returned _ r => r = .ok () → HandledByAll t handled s
    | _ => False

section Drain

variable {core core' : DisruptorCore E} {handled handled' : Nat → List Int} {p : Pipeline E} {pc : CorePc}

/-- The pipeline takes a step. -/
theorem Draining.run {a : PipelineAction E} (hwf : t.Wf) (h : Draining b t s core handled)
    (hs : core.pipeline.step b t handlers a = some p) (ha : a.isRestart = false)
    (hflag : core.owner.beforeFlag = true → p.shutdown = core.pipeline.shutdown) :
    Draining b t s { core with pipeline := p } (core.pipeline.logHandled t a handled) := by
  have hg := h.pipe.grows hs
  refine ⟨pipeInv_step hwf h.pipe hs, handledInv_step h.pipe.feed.books h.handled hs, hg.published s h.published, h.gating,
    fun c hc => ?_, h.stops, fun hb => (hflag hb).trans (h.flag hb), h.knows.mono hg.sequences⟩
  exact (h.joined c hc).imp_right fun hf => (finished_step ha hs hf).1

/-- The owner moves on. -/
theorem Draining.goto (h : Draining b t s core handled) (hstops : pc.stops = true)
    (hflag : pc.beforeFlag = true → core.owner.beforeFlag = true)
    (hknows : pc.Knows t.gatingSequences core.pipeline.sequences s) :
    Draining b t s { core with owner := pc } handled :=
  ⟨h.pipe, h.handled, h.published, h.gating, h.joined, hstops, fun hb => h.flag (hflag hb), hknows⟩

/-- The last consumer is joined. -/
theorem Draining.stopped {why : StopFor} (hwf : t.Wf) (h : Draining b t s core handled) (hpc : core.owner = .join why)
    (hnil : core.consumers = []) : Stopped t s { core with owner := .removeGating why } handled := by
  have hfin : ∀ c < t.count, core.pipeline.finished t c = true := by
    intro c hc
    refine (h.joined c hc).resolve_left fun hmem => ?_
    rw [hnil] at hmem
    cases hmem
  have hknows := h.knows
  rw [hpc] at hknows
  have h0 := (h.pipe.feed.books.world.ledger.claimed h.published).1
  exact ⟨hfin, fun hr => h.pipe.handledByAll hwf h.handled h0 (hknows hr)⟩

/-- **Step lemma of the owner.** -/
theorem draining_ownerStep (hwf : t.Wf) (h : Draining b t s core handled)
    (hs : core.ownerStep b t handlers = some core') : Draining b t s core' handled ∨ Stopped t s core' handled := by
  obtain ⟨pc, hpc, hr⟩ := coreRule_of_ownerStep hs
  have hknows := h.knows
  have hstops := h.stops
  have hflag := h.flag
  rw [hpc] at hknows hstops hflag
  have hgo : ∀ {pc'}, pc.beforeFlag = true → pc'.stops = true →
      pc'.Knows t.gatingSequences core.pipeline.sequences s → Draining b t s { core with owner := pc' } handled :=
    fun hb hs hk => h.goto hs (fun _ => by rw [hpc]; exact hb) hk
  cases hr with
  | close hp =>
    have h' := h.run hwf hp rfl fun _ => shutdown_step (a := .producer .close) (by simp) hp
    exact .inl (h'.goto rfl (fun _ => by rw [hpc]; rfl) trivial)
  | alreadyDown hdown =>
    rw [hflag rfl] at hdown
    cases hdown
  | drain => exact .inl (hgo rfl rfl trivial)
  | drainCursor => exact .inl (hgo rfl rfl (h.pipe.feed.books.world.le_cursor h.published))
  | drainPoisoned | drainExited => exact .inl (hgo rfl rfl (by rintro ⟨⟩))
  | drainNotPoisoned | drainUp | drainDeadline => exact .inl (hgo rfl rfl hknows)
  | drainAllUp => exact .inl (hgo rfl rfl ⟨hknows, [], h.gating, below_nil⟩)
  | drainScan =>
    obtain ⟨hle, scanned, hsplit, hbelow⟩ := hknows
    exact .inl (hgo rfl rfl ⟨hle, scanned ++ [_], by simpa using hsplit, hbelow.scan⟩)
  | drained hmin =>
    -- every gating sequence has reached the snapshot, which covers `s`
    obtain ⟨hle, scanned, hsplit, hbelow⟩ := hknows
    rw [List.append_nil] at hsplit
    subst hsplit
    exact .inl (hgo rfl rfl fun _ => hbelow.le (hle.trans hmin))
  | drainTimed | drainAgain => exact .inl (hgo rfl rfl hknows.1)
  | haltClose hp =>
    have h' := h.run hwf hp rfl fun _ => shutdown_step (a := .producer .close) (by simp) hp
    have hknows' := h'.knows
    simp only [hpc] at hknows'
    exact .inl (h'.goto rfl (fun _ => by rw [hpc]; rfl) hknows')
  | again hdown =>
    rw [hflag rfl] at hdown
    cases hdown
  | swap =>
    have hraise : core.pipeline.step b t handlers .raiseShutdown =
        some { core.pipeline with shutdown := true } := rfl
    exact .inl ⟨pipeInv_step hwf h.pipe hraise, ⟨h.handled.sequential, h.handled.worker⟩, h.published, h.gating, h.joined,
      rfl, by rintro ⟨⟩, hknows⟩
  | joined hnil =>
    have hstop := h.stopped hwf hpc hnil
    exact .inr ⟨hstop.joined, hstop.drained⟩
  | join hcons hfin =>
    refine .inl ⟨h.pipe, h.handled, h.published, h.gating, fun c hc => ?_, rfl, by rintro ⟨⟩, hknows⟩
    have hjoined := h.joined c hc
    rw [hcons, List.mem_cons] at hjoined
    obtain (rfl | hmem) | hdone := hjoined
    · exact .inr hfin
    · exact .inl hmem
    · exact .inr hdone
  | removed | remove => cases hstops

/-- **Step lemma of the drain.** -/
theorem draining_step {a : DisruptorCoreAction E} (hwf : t.Wf) (ha : a.isCall = false) (h : Draining b t s core handled)
    (hs : core.step b t handlers a = some core') :
    Draining b t s core' (core.log t a handled) ∨ Stopped t s core' (core.log t a handled) := by
  cases a with
  | call call => cases ha
  | owner => exact draining_ownerStep hwf h hs
  | expire =>
    simp only [DisruptorCore.step] at hs
    split at hs <;> simp only [Option.some.injEq, reduceCtorEq] at hs
    rename_i cursor hpc
    subst hs
    exact .inl (h.goto rfl (fun _ => by rw [hpc]; rfl) nofun)
  | run a =>
    simp only [DisruptorCore.step, Option.ite_none_right_eq_some, Option.map_eq_some_iff] at hs
    obtain ⟨ht, p, hst, rfl⟩ := hs
    exact .inl (h.run hwf hst (isRestart_ofThread ht) fun _ => shutdown_step (ne_raiseShutdown ht) hst)

/-- **Step lemma of a stopped core.** -/
theorem stopped_step {a : DisruptorCoreAction E} (ha : a.isCall = false) (h : Stopped t s core handled)
    (hs : core.step b t handlers a = some core') : Stopped t s core' (core.log t a handled) := by
  have hdrained := h.drained
  cases a with
  | call call => cases ha
  | expire =>
    simp only [DisruptorCore.step] at hs
    split at hs <;> simp only [Option.some.injEq, reduceCtorEq] at hs
    rename_i cursor hpc
    rw [hpc] at hdrained
    exact hdrained.elim
  | owner =>
    obtain ⟨pc, hpc, hr⟩ := coreRule_of_ownerStep hs
    rw [hpc] at hdrained
    cases hr with
    | removed | remove => exact ⟨h.joined, hdrained⟩
    | _ => exact hdrained.elim
  | run a =>
    simp only [DisruptorCore.step, Option.ite_none_right_eq_some, Option.map_eq_some_iff] at hs
    obtain ⟨ht, p, hst, rfl⟩ := hs
    have hfin := fun c hc => finished_step (isRestart_ofThread ht) hst (h.joined c hc)
    -- nobody is left to handle anything
    have hlog : ∀ c < t.count, core.pipeline.logHandled t a handled c = handled c :=
      fun c hc => logHandled_other (hfin c hc).2
    refine ⟨fun c hc => (hfin c hc).1, ?_⟩
    have hkeep : HandledByAll t handled s → HandledByAll t (core.pipeline.logHandled t a handled) s := by
      intro hall
      refine ⟨fun c hc hm => by rw [hlog c hc]; exact hall.sequential c hc hm, fun k hk hm => ?_⟩
      obtain ⟨c, ⟨hc, hmem⟩, hone⟩ := hall.pool k hk hm
      refine ⟨c, ⟨hc, by rw [hlog c hc.1]; exact hmem⟩, ?_⟩
      rintro d ⟨hd, hmem'⟩
      rw [hlog d hd.1] at hmem'
      exact hone d ⟨hd, hmem'⟩
    cases hpc : core.owner with
    | removeGating why | returned call r =>
      rw [hpc] at hdrained
      exact fun hr => hkeep (hdrained hr)
    | _ =>
      rw [hpc] at hdrained
      exact hdrained.elim

end Drain

/-! ## Runs -/

section Runs

variable {x x₀ x₁ x₂ : DisruptorCore E × (Nat → List Int)} {multiProducer : Bool} {factory : Nat → E}

/-- Any interleaving of the owner, the producers and the consumers, with the history of what was handled; `ok` says which
calls the owner makes. -/
def CoreRun (b : BufferSize) (t : Wiring) (handlers : Nat → E → Int → Bool → E) (ok : DisruptorCoreAction E → Prop) :
    DisruptorCore E × (Nat → List Int) → DisruptorCore E × (Nat → List Int) → Prop :=
  Reach (DisruptorCore.observe b t handlers) fun _ a => ok a

/-- A core that nobody has stopped. -/
structure Undisturbed (b : BufferSize) (t : Wiring) (st : DisruptorCore E) (handled : Nat → List Int) : Prop where
  pipe : PipeInv b t st.pipeline
  handled : HandledInv t st.pipeline handled
  flag : st.pipeline.shutdown = false
  owner : st.owner = .idle
  gating : st.gatingSequences = t.gatingSequences
  consumers : st.consumers = List.range t.count

/-- Before the first call, the pipeline runs. -/
theorem CoreRun.undisturbed (hwf : t.Wf)
    (h : CoreRun b t handlers (·.isCall = false) (.init b t multiProducer factory, fun _ => []) x) :
    Undisturbed b t x.1 x.2 := by
  refine Reach.inv (I := fun x => Undisturbed b t x.1 x.2)
    ⟨pipeInv_init hwf _ _ _, handledInv_init, rfl, rfl, rfl, rfl⟩ ?_ h
  intro x x' a hI ha hs
  obtain ⟨hst, hlog⟩ := observed_eq_some.mp hs
  rw [hlog]
  cases a with
  | call call => cases ha
  | owner => simp only [DisruptorCore.step, DisruptorCore.ownerStep, hI.owner, reduceCtorEq] at hst
  | expire => simp only [DisruptorCore.step, hI.owner, reduceCtorEq] at hst
  | run a =>
    simp only [DisruptorCore.step, Option.ite_none_right_eq_some, Option.map_eq_some_iff] at hst
    obtain ⟨ht, p, hst, hx⟩ := hst
    rw [← hx]
    exact ⟨pipeInv_step hwf hI.pipe hst, handledInv_step hI.pipe.feed.books hI.handled hst,
      (shutdown_step (ne_raiseShutdown ht) hst).trans hI.flag, hI.owner, hI.gating, hI.consumers⟩

/-- **Run lemma of the drain.** -/
theorem CoreRun.drained (hwf : t.Wf) (h : CoreRun b t handlers (·.isCall = false) x₁ x₂)
    (h₁ : Draining b t s x₁.1 x₁.2) : Draining b t s x₂.1 x₂.2 ∨ Stopped t s x₂.1 x₂.2 := by
  refine Reach.inv (I := fun x => Draining b t s x.1 x.2 ∨ Stopped t s x.1 x.2) (.inl h₁) ?_ h
  intro x x' a hI ha hs
  obtain ⟨hst, hlog⟩ := observed_eq_some.mp hs
  rw [hlog]
  rcases hI with hI | hI
  · exact draining_step hwf ha hI hst
  · exact .inr (stopped_step ha hI hst)

/-- The first stopping call is `shutdown_with_timeout`, made in `x₀`; in `x₂` it has returned `Ok`. -/
def CoreDrains (b : BufferSize) (t : Wiring) (handlers : Nat → E → Int → Bool → E) (multiProducer : Bool)
    (factory : Nat → E) (x₀ x₂ : DisruptorCore E × (Nat → List Int)) : Prop :=
  ∃ deadline x₁, CoreRun b t handlers (·.isCall = false) (.init b t multiProducer factory, fun _ => []) x₀ ∧
    DisruptorCore.observe b t handlers x₀ (.call (.shutdownWithTimeout deadline)) = some x₁ ∧
    CoreRun b t handlers (·.isCall = false) x₁ x₂ ∧ x₂.1.owner = .returned (.shutdownWithTimeout deadline) (.ok ())

/-- **A draining stop of a core is sound.** What was published when it was called is handled on every stage. -/
theorem CoreDrains.handledByAll (hwf : t.Wf) (h : CoreDrains b t handlers multiProducer factory x₀ x₂)
    (hs : x₀.1.pipeline.feed.world.ledger.published s = true) : HandledByAll t x₂.2 s := by
  obtain ⟨deadline, x₁, h₀, hcall, h₂, hret⟩ := h
  have hI := h₀.undisturbed hwf
  obtain ⟨hst, hlog⟩ := observed_eq_some.mp hcall
  simp only [DisruptorCore.step, hI.owner, Option.some.injEq] at hst
  have h₁ : Draining b t s x₁.1 x₁.2 := by
    rw [hlog, ← hst]
    refine ⟨hI.pipe, hI.handled, hs, hI.gating, fun c hc => .inl ?_, rfl, fun _ => hI.flag, trivial⟩
    show c ∈ x₀.1.consumers
    rw [hI.consumers]
    exact List.mem_range.mpr hc
  rcases h₂.drained hwf h₁ with h | h
  · have := h.stops
    rw [hret] at this
    cases this
  · have := h.drained
    rw [hret] at this
    exact this rfl

end Runs

end BadBatch
