import BadBatch.Wiring
import BadBatch.ConsumerEngine.Sequential
import BadBatch.ConsumerEngine.WorkerPool
import BadBatch.Producer.Feed

/-!
# A running pipeline

Producers, barriers and consumers of one wiring, as one step system. The consumers run the loops of the engine; what the
loops take as inputs is here the state they share: the stop flag, the answer of the barrier, the event in the ring.

Handlers are functions of the event, its sequence and the end-of-batch flag. `held` is the event a consumer has taken
into `on_event`; `received` and `doneBy` are history: what each consumer was given, and who has transformed a sequence on
a stage.
-/

namespace BadBatch

open MultiProducerSequencer

variable {E : Type}

/-- `consumer_sequence.set(v)` -/
def SequencerWorld.store (i : Nat) (v : Int) : SequencerWorld → SequencerWorld
  | single w => single { w with sequences := Function.update w.sequences i v }
  | multi w => multi { w with sequences := Function.update w.sequences i v }

/-- `sequencer.poison()` -/
def SequencerWorld.poison : SequencerWorld → SequencerWorld
  | single w => single { w with sequencer := { w.sequencer with poisoned := true } }
  | multi w => multi { w with sequencer := { w.sequencer with poisoned := true } }

/-- The failure that a consumer is recording, and whether it is poisoning. -/
structure Fault where
  record : Option FailureRecord
  poison : Bool

def SeqPc.fault : SeqPc → Fault
  | record f _ => ⟨some f, false⟩
  | recordShutdown f => ⟨some f, false⟩
  | poison _ _ => ⟨none, true⟩
  | _ => ⟨none, false⟩

def WorkPc.fault : WorkPc → Fault
  | record _ f _ => ⟨some f, false⟩
  | recordShutdown _ f => ⟨some f, false⟩
  | poison _ _ _ => ⟨none, true⟩
  | _ => ⟨none, false⟩

/-- The event a consumer is inside of, with its `end_of_batch`. -/
def SeqPc.inside : SeqPc → Option (Int × Bool)
  | inEvent next available => some (next, decide (next = available))
  | _ => none

def WorkLoop.inside (l : WorkLoop) : Option (Int × Bool) :=
  match l.pc with
  | .inEvent claimed => some (claimed, decide (claimed = l.cachedAvailable))
  | _ => none

/-- The whole system. -/
structure Pipeline (E : Type) where
  feed : Feed E
  shutdown : Bool
  running : Nat → Bool
  alerted : Nat → Bool
  barriers : Nat → BarrierPc
  sequential : Nat → SeqLoop
  workers : Nat → WorkLoop
  /-- The work cursor of each stage. -/
  work : Nat → Int
  held : Nat → Option E
  received : Nat → List (Int × E)
  doneBy : Nat → Int → Option (Nat × Bool)

/-- One step of one party. -/
inductive PipelineAction (E : Type)
  | producer (a : FeedAction E)
  /-- Consumer `c` calls its barrier. -/
  | wait (c : Nat) (call : BarrierCall)
  | barrier (c : Nat) (i : BarrierInput)
  /-- Consumer `c` takes a step of its loop; `torn` is what a failing handler leaves in the event. -/
  | consumer (c : Nat) (i : EngineInput) (torn : Option E)
  /-- `BatchEventProcessor::run` is called again. -/
  | restart (c : Nat)
  | raiseShutdown
  | setRunning (c : Nat) (value : Bool)
  | setAlert (c : Nat) (value : Bool)

/-- Threads of the Builder run once. -/
def PipelineAction.isRestart : PipelineAction E → Bool
  | restart _ => true
  | _ => false

namespace Pipeline

/-- The state after assembly: fresh sequences, nothing claimed, every thread about to run. -/
def init (b : BufferSize) (t : Wiring) (multiProducer unique : Bool) (factory : Nat → E) : Pipeline E where
  feed :=
    { world := .init b multiProducer unique t.gatingSequences
      phases := fun _ => .idle
      ring := factory
      written := fun _ => none
      firstFailure := none }
  shutdown := false
  running := fun _ => true
  alerted := fun _ => false
  barriers := fun _ => .idle
  sequential := fun _ => .init
  workers := fun _ => .init
  work := fun _ => initialCursorValue
  held := fun _ => none
  received := fun _ => []
  doneBy := fun _ _ => none

variable (b : BufferSize) (t : Wiring) (handlers : Nat → E → Int → Bool → E) (st : Pipeline E)

/-- The value of a consumer's `Sequence`. -/
def sequences : Nat → Int := st.feed.world.sequences

/-- How the engine is set up for consumer `c`. -/
def config (t : Wiring) (c : Nat) : EngineConfig where
  stageIndex := match t.stop with
    | .external => some (t.stage c)
    | .running => none
  readonly := t.access c == .readonly
  hasExceptionHandler := t.exceptionHandler c

/-- `StopFlag::should_continue` -/
def shouldContinue (c : Nat) : Bool :=
  match t.stop with
  | .external => !st.shutdown
  | .running => st.running c

/-- The sequence consumer `c` is waiting for. -/
def awaited (c : Nat) : Option Int :=
  match t.runMode (t.stage c) with
  | .sequential =>
    match (st.sequential c).pc with
    | .waiting next => some next
    | _ => none
  | .workPool =>
    match (st.workers c).pc with
    | .waiting claimed => some claimed
    | _ => none

/-- An input of the engine that agrees with the shared state. -/
def inputOk (c : Nat) : EngineInput → Bool
  | .flag go => go == st.shouldContinue t c
  | .answer r => decide (st.barriers c = .returned r)
  | _ => true

/-- The stores of one engine step: the consumer's `Sequence`, the failure record, the poison flag. The barrier call of
the consumer, if it made one, is over. -/
def settle (c : Nat) (v : Int) (fault : Fault) : Pipeline E :=
  let world := st.feed.world.store c v
  { st with
    feed :=
      { st.feed with
        world := if fault.poison then world.poison else world
        firstFailure := st.feed.firstFailure.or fault.record }
    barriers := Function.update st.barriers c .idle }

/-- The access to the event: a call takes it out of the ring, a return puts it back. -/
def access (c : Nat) (before after : Option (Int × Bool)) (i : EngineInput) (torn : Option E) : Pipeline E :=
  match before, after with
  | none, some (s, _) =>
    let value := st.feed.ring (calculateIndex b s)
    { st with
      held := Function.update st.held c (some value)
      received := Function.update st.received c (st.received c ++ [(s, value)]) }
  | some (s, endOfBatch), none =>
    if t.access c = .readonly then { st with held := Function.update st.held c none }
    else
      match i, st.held c with
      | .handler .ok, some value =>
        { st with
          feed := { st.feed with
            ring := Function.update st.feed.ring (calculateIndex b s) (handlers c value s endOfBatch) }
          held := Function.update st.held c none
          doneBy := Function.update st.doneBy (t.stage c)
            (Function.update (st.doneBy (t.stage c)) s (some (c, endOfBatch))) }
      | _, _ =>
        { st with
          feed := { st.feed with
            ring := match torn with
              | some value => Function.update st.feed.ring (calculateIndex b s) value
              | none => st.feed.ring }
          held := Function.update st.held c none }
  | _, _ => st

/-- One step of the loop of consumer `c`. -/
def consumerStep (c : Nat) (i : EngineInput) (torn : Option E) : Option (Pipeline E) :=
  if c < t.count ∧ st.inputOk t c i = true then
    match t.runMode (t.stage c) with
    | .sequential =>
      (seqStep (config t c) (st.sequences c) (st.sequential c) i).map fun (v, l) =>
        ({ st with sequential := Function.update st.sequential c l }.settle c v (st.sequential c).pc.fault).access b t
          handlers c (st.sequential c).pc.inside l.pc.inside i torn
    | .workPool =>
      (workStep (config t c) (st.work (t.stage c)) (st.sequences c) (st.workers c) i).map fun (work, v, l) =>
        ({ st with
            workers := Function.update st.workers c l
            work := Function.update st.work (t.stage c) work }.settle c v (st.workers c).pc.fault).access b t
          handlers c (st.workers c).inside l.inside i torn
  else none

/-- One step of the system. -/
def step : PipelineAction E → Option (Pipeline E)
  | .producer a => (st.feed.step b a).map fun feed => { st with feed := feed }
  | .wait c call =>
    match st.awaited t c with
    | some s =>
      if c < t.count ∧ st.barriers c = .idle then
        some { st with
          barriers := Function.update st.barriers c (barrierStart call (t.stop == .running) s) }
      else none
    | none => none
  | .barrier c i =>
    if c < t.count then
      (barrierStep b st.feed.world (t.dependentSequences c) (st.alerted c) (!st.shouldContinue t c) (st.barriers c) i).map
        fun pc => { st with barriers := Function.update st.barriers c pc }
    else none
  | .consumer c i torn => st.consumerStep b t handlers c i torn
  | .restart c =>
    if c < t.count ∧ t.runMode (t.stage c) = .sequential ∧ (st.sequential c).pc = .done then
      some { st with sequential := Function.update st.sequential c { st.sequential c with pc := .start } }
    else none
  | .raiseShutdown => some { st with shutdown := true }
  | .setRunning c value => some { st with running := Function.update st.running c value }
  | .setAlert c value => some { st with alerted := Function.update st.alerted c value }

end Pipeline

section Rules

variable (b : BufferSize) (t : Wiring) (handlers : Nat → E → Int → Bool → E) (st : Pipeline E)

/-- The steps of the system, one rule for each. -/
inductive PipelineRule : PipelineAction E → Pipeline E → Prop
  | producer {a feed} (hst : st.feed.step b a = some feed) : PipelineRule (.producer a) { st with feed := feed }
  | wait {c call s} (hawaited : st.awaited t c = some s) (hc : c < t.count) (hidle : st.barriers c = .idle) :
    PipelineRule (.wait c call) { st with
      barriers := Function.update st.barriers c (barrierStart call (t.stop == .running) s) }
  | barrier {c i pc} (hc : c < t.count) (hst : barrierStep b st.feed.world (t.dependentSequences c) (st.alerted c)
      (!st.shouldContinue t c) (st.barriers c) i = some pc) :
    PipelineRule (.barrier c i) { st with barriers := Function.update st.barriers c pc }
  | consumer {c i torn p} (hst : st.consumerStep b t handlers c i torn = some p) : PipelineRule (.consumer c i torn) p
  | restart {c} (hc : c < t.count) (hm : t.runMode (t.stage c) = .sequential) (hdone : (st.sequential c).pc = .done) :
    PipelineRule (.restart c) { st with
      sequential := Function.update st.sequential c { st.sequential c with pc := .start } }
  | raiseShutdown : PipelineRule .raiseShutdown { st with shutdown := true }
  | setRunning {c value} : PipelineRule (.setRunning c value) { st with running := Function.update st.running c value }
  | setAlert {c value} : PipelineRule (.setAlert c value) { st with alerted := Function.update st.alerted c value }

variable {b t handlers st} {st' : Pipeline E} {a : PipelineAction E}

/-- Every step of the system follows a rule. -/
theorem pipelineRule_of_step (hs : st.step b t handlers a = some st') : PipelineRule b t handlers st a st' := by
  cases a with
  | producer a =>
    simp only [Pipeline.step, Option.map_eq_some_iff] at hs
    obtain ⟨feed, hst, rfl⟩ := hs
    exact .producer hst
  | wait c call =>
    simp only [Pipeline.step] at hs
    split at hs <;> simp only [Option.ite_none_right_eq_some, Option.some.injEq, reduceCtorEq] at hs
    obtain ⟨⟨hc, hidle⟩, rfl⟩ := hs
    exact .wait ‹_› hc hidle
  | barrier c i =>
    simp only [Pipeline.step, Option.ite_none_right_eq_some, Option.map_eq_some_iff] at hs
    obtain ⟨hc, pc, hst, rfl⟩ := hs
    exact .barrier hc hst
  | consumer c i torn => exact .consumer hs
  | restart c =>
    simp only [Pipeline.step, Option.ite_none_right_eq_some, Option.some.injEq] at hs
    obtain ⟨⟨hc, hm, hdone⟩, rfl⟩ := hs
    exact .restart hc hm hdone
  | raiseShutdown | setRunning c value | setAlert c value =>
    cases hs
    constructor

end Rules

end BadBatch
