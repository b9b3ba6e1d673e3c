import BadBatch.Dsl.Windows

/-!
# Start and halt of a DSL disruptor

The owner calls `start`, `halt`, `shutdown` and `shutdown_timeout`; `start` spawns one thread per processor, which executes
`BatchEventProcessor::run`. Owner and threads meet in three flags per processor: `running` and the alert flag of its barrier
are part of the pipeline, `startup_complete` is added here. Each access to one of them is one step, as are the steps of the
processors inside `on_start` and the loop, and those of publishers.

* `Lifecycle.ownerStep`: `start`, `halt`, `shutdown_with_timeout`, `drain_backlog` and `halt_join`;
* `Lifecycle.threadStep`, `Lifecycle.engineStep`: `run` and `process_events`.

`cycle` and `completed` are history: the number of the current start, and the last start in which `on_start` of a processor
has returned. `Disruptor::shutdown_flag` is written only and left out.
-/

namespace BadBatch

open MultiProducerSequencer StepSys

/-- How the thread of a processor ended. -/
inductive ThreadResult
  | ok
  | alreadyRunning
  | panicked
  deriving DecidableEq, Repr

/-- Where the thread of a processor stands in `run`. -/
inductive ThreadPc
  /-- No thread, or it has been joined. -/
  | idle
  /-- `running.compare_exchange(false, true)` -/
  | claim
  /-- `startup_complete.store(false)` -/
  | reset
  /-- `sequence_barrier.clear_alert()` -/
  | clearAlert
  /-- `invoke_on_start` -/
  | onStart (panicked : Bool)
  /-- `startup_complete.store(true)` -/
  | complete (started : Bool)
  /-- The rest of `process_events`. -/
  | main (panicked : Bool)
  /-- `running.store(false)` -/
  | release (r : ThreadResult)
  | finished (r : ThreadResult)
  deriving DecidableEq, Repr

/-- `JoinHandle::is_finished` -/
def ThreadPc.isFinished : ThreadPc → Bool
  | finished _ => true
  | _ => false

/-- The calls of the owner; `shutdown_timeout` has a deadline, `shutdown` has none. -/
inductive OwnerCall
  | start
  | halt
  | shutdown (deadline : Bool)
  deriving DecidableEq, Repr

/-- `DisruptorError`, as far as the owner is given it. -/
inductive LifecycleError
  | alreadyRunning
  | poisoned
  | timeout
  /-- `ShutdownError("event processor exited during startup")` -/
  | exitedDuringStartup
  /-- `ShutdownError("consumer thread exited before the backlog was drained")` -/
  | exitedBeforeDrained
  /-- `ShutdownError("Some threads failed to shutdown cleanly: ..")` -/
  | unclean (joinErrors : List ThreadResult)
  deriving DecidableEq, Repr

/-- Who calls `halt_join`. -/
inductive HaltFor
  | startPoisoned
  | startExited
  | halt
  | shutdown (deadline : Bool) (drained : Except LifecycleError Unit)
  deriving DecidableEq

namespace HaltFor

def call : HaltFor → OwnerCall
  | startPoisoned => .start
  | startExited => .start
  | halt => .halt
  | shutdown deadline _ => .shutdown deadline

/-- What the caller of `halt_join` makes of its result. -/
def result : HaltFor → Except LifecycleError Unit → Except LifecycleError Unit
  | startPoisoned, _ => .error .poisoned
  | startExited, .ok () => .error .exitedDuringStartup
  | startExited, .error e => .error e
  | halt, r => r
  | shutdown _ (.ok ()), r => r
  | shutdown _ (.error e), _ => .error e

end HaltFor

/-- Where the owner stands. -/
inductive OwnerPc
  | idle
  | returned (call : OwnerCall) (r : Except LifecycleError Unit)
  /-- `sequencer.reopen()` -/
  | reopen
  /-- The head of the `for` loop of `start`, or its end. -/
  | spawn (i : Nat)
  /-- `while !processor.is_startup_complete()` -/
  | poll (i : Nat)
  /-- `if handle.is_finished() { break; }` -/
  | pollFinished (i : Nat)
  /-- `let exited_early = handle.is_finished(); self.thread_handles.push(handle)` -/
  | exited (i : Nat)
  /-- `if self.sequencer.is_poisoned()`, `if exited_early` -/
  | checkPoisoned (i : Nat) (exitedEarly : Bool)
  /-- `sequencer.close()` -/
  | close (call : OwnerCall)
  /-- `let cursor = self.sequencer.get_cursor().get()` of `drain_backlog` -/
  | drainCursor (deadline : Bool)
  | drainPoisoned (deadline : Bool) (cursor : Int)
  | drainFinished (deadline : Bool) (cursor : Int) (rest : List Nat)
  | drainScan (deadline : Bool) (cursor : Int) (rest : List Nat) (minimum : Int)
  /-- `if Instant::now() >= deadline` -/
  | drainDeadline (cursor : Int)
  /-- `halt_join`: `running.store(false)` of processor `i` -/
  | halt (i : Nat) (why : HaltFor)
  /-- `halt_join`: `sequence_barrier.alert()` of processor `i` -/
  | alert (i : Nat) (why : HaltFor)
  /-- `halt_join`: `while let Some(handle) = self.thread_handles.pop()` -/
  | join (why : HaltFor) (joinErrors : List ThreadResult)
  deriving DecidableEq

/-- The owner is between two calls. -/
def OwnerPc.atRest : OwnerPc → Bool
  | idle => true
  | returned _ _ => true
  | _ => false

/-- A disruptor with its owner and its threads. -/
structure Lifecycle (E : Type) where
  pipeline : Pipeline E
  startupComplete : Nat → Bool
  threads : Nat → ThreadPc
  threadHandles : List Nat
  started : Bool
  owner : OwnerPc
  cycle : Nat
  completed : Nat → Nat

/-- A step of a processor inside `on_start` or the loop. -/
inductive EngineAction (E : Type)
  | wait (call : BarrierCall)
  | barrier (i : BarrierInput)
  | consumer (i : EngineInput) (torn : Option E)

/-- One step of one party. -/
inductive LifecycleAction (E : Type)
  /-- The owner starts a call. -/
  | call (c : OwnerCall)
  /-- The owner takes its next step. -/
  | owner
  /-- The deadline of `shutdown_timeout` has passed. -/
  | expire
  /-- The thread of processor `i` takes its next step in `run`. -/
  | thread (i : Nat)
  | engine (i : Nat) (a : EngineAction E)
  /-- `publish_event` and `try_publish_event` -/
  | producer (a : FeedAction E)

variable {E : Type}

def EngineAction.toPipeline (c : Nat) : EngineAction E → PipelineAction E
  | wait call => .wait c call
  | barrier i => .barrier c i
  | consumer i torn => .consumer c i torn

def EngineAction.panics : EngineAction E → Bool
  | consumer .panic _ => true
  | _ => false

/-- The handler returns from `on_start`. -/
def onStartReturns (pc : SeqPc) (input : EngineInput) : Bool := pc == .start && input != .panic

/-- What follows a step of `invoke_on_start` that leaves the engine at `pc`; a panic unwinds to `run`. -/
def afterOnStart (panicked : Bool) (input : EngineInput) : SeqPc → ThreadPc
  | .enter => .complete true
  | .done => if panicked then .release .panicked else .complete false
  | _ => .onStart (panicked || input == .panic)

/-- What follows a step of the loop. -/
def afterMain (panicked panics : Bool) : SeqPc → ThreadPc
  | .done => .release (if panicked then .panicked else .ok)
  | _ => .main (panicked || panics)

namespace Lifecycle

variable (b : BufferSize) (t : Wiring) (handlers : Nat → E → Int → Bool → E) (st : Lifecycle E)

/-- A step of the pipeline, and what else it changes. -/
def act (a : PipelineAction E) (k : Lifecycle E → Lifecycle E) : Option (Lifecycle E) :=
  (st.pipeline.step b t handlers a).map fun p => k { st with pipeline := p }

/-- Processor `i` moves. -/
def goto (i : Nat) (pc : ThreadPc) : Lifecycle E := { st with threads := Function.update st.threads i pc }

/-- `thread::Builder::spawn`; a processor that has run before starts its loop anew. -/
def spawned (i : Nat) : Lifecycle E :=
  { st with
    pipeline := (st.pipeline.step b t handlers (.restart i)).getD st.pipeline
    threads := Function.update st.threads i .claim
    owner := .poll i }

/-- `handle.join()` has returned `r` -/
def joined (i : Nat) (r : ThreadResult) (why : HaltFor) (joinErrors : List ThreadResult) : Lifecycle E :=
  let st' := { st with
    threads := Function.update st.threads i .idle
    threadHandles := st.threadHandles.dropLast }
  match r with
  | .ok => { st' with owner := .join why joinErrors }
  | .alreadyRunning =>
    { st' with
      pipeline := { st.pipeline with feed := st.pipeline.feed.recordFailure ⟨.processorThread, none, none⟩ }
      owner := .join why (joinErrors ++ [r]) }
  | .panicked =>
    { st' with
      pipeline := { st.pipeline with feed := st.pipeline.feed.recordFailure ⟨.consumerPanic, none, none⟩ }
      owner := .join why (joinErrors ++ [r]) }

/-- `halt_join` returns, and with it the call of the owner. -/
def halted (why : HaltFor) (joinErrors : List ThreadResult) : Lifecycle E :=
  { st with
    started := false
    owner := .returned why.call (why.result (if joinErrors.isEmpty then .ok () else .error (.unclean joinErrors))) }

/-- The first step of a call of the owner. -/
def callStep : OwnerCall → Lifecycle E
  | .start =>
    if st.started then { st with owner := .returned .start (.error .alreadyRunning) }
    else { st with owner := .reopen, cycle := st.cycle + 1 }
  | .halt => if st.started then { st with owner := .close .halt } else { st with owner := .returned .halt (.ok ()) }
  | .shutdown deadline =>
    if st.started then { st with owner := .close (.shutdown deadline) }
    else { st with owner := .returned (.shutdown deadline) (.ok ()) }

/-- The next step of the owner. -/
def ownerStep : Option (Lifecycle E) :=
  match st.owner with
  | .idle => none
  | .returned _ _ => none
  | .reopen => st.act b t handlers (.producer .reopen) fun st => { st with owner := .spawn 0 }
  | .spawn i =>
    if i < t.count then some (st.spawned b t handlers i)
    else some { st with started := true, owner := .returned .start (.ok ()) }
  | .poll i => some { st with owner := if st.startupComplete i then .exited i else .pollFinished i }
  | .pollFinished i => some { st with owner := if (st.threads i).isFinished then .exited i else .poll i }
  | .exited i =>
    some { st with
      threadHandles := st.threadHandles ++ [i]
      owner := .checkPoisoned i (st.threads i).isFinished }
  | .checkPoisoned i exitedEarly =>
    some { st with
      owner :=
        if st.pipeline.feed.world.poisoned then .halt 0 .startPoisoned
        else if exitedEarly then .halt 0 .startExited
        else .spawn (i + 1) }
  | .close call =>
    st.act b t handlers (.producer .close) fun st =>
      { st with
        owner := match call with
          | .shutdown deadline => .drainCursor deadline
          | _ => .halt 0 .halt }
  | .drainCursor deadline => some { st with owner := .drainPoisoned deadline st.pipeline.feed.world.cursor }
  | .drainPoisoned deadline cursor =>
    some { st with
      owner :=
        if st.pipeline.feed.world.poisoned then .halt 0 (.shutdown deadline (.error .poisoned))
        else .drainFinished deadline cursor st.threadHandles }
  | .drainFinished deadline cursor (i :: rest) =>
    some { st with
      owner :=
        if (st.threads i).isFinished then .halt 0 (.shutdown deadline (.error .exitedBeforeDrained))
        else .drainFinished deadline cursor rest }
  | .drainFinished deadline cursor [] => some { st with owner := .drainScan deadline cursor (List.range t.count) cursor }
  | .drainScan deadline cursor (i :: rest) minimum =>
    some { st with owner := .drainScan deadline cursor rest (lower minimum (st.pipeline.sequences i)) }
  | .drainScan deadline cursor [] minimum =>
    some { st with
      owner :=
        if minimum ≥ cursor then .halt 0 (.shutdown deadline (.ok ()))
        else if deadline then .drainDeadline cursor
        else .drainPoisoned deadline cursor }
  | .drainDeadline cursor => some { st with owner := .drainPoisoned true cursor }
  | .halt i why =>
    if i < t.count then st.act b t handlers (.setRunning i false) fun st => { st with owner := .alert i why }
    else some { st with owner := .join why [] }
  | .alert i why => st.act b t handlers (.setAlert i true) fun st => { st with owner := .halt (i + 1) why }
  | .join why joinErrors =>
    match st.threadHandles.getLast? with
    | none => some (st.halted why joinErrors)
    | some i =>
      match st.threads i with
      | .finished r => some (st.joined i r why joinErrors)
      -- `join` blocks
      | _ => none

/-- The next step of processor `i` in `run`, outside of `on_start` and the loop. -/
def threadStep (i : Nat) : Option (Lifecycle E) :=
  match st.threads i with
  | .claim =>
    if st.pipeline.running i then some (st.goto i (.finished .alreadyRunning))
    else st.act b t handlers (.setRunning i true) fun st => st.goto i .reset
  | .reset => some ({ st with startupComplete := Function.update st.startupComplete i false }.goto i .clearAlert)
  | .clearAlert => st.act b t handlers (.setAlert i false) fun st => st.goto i (.onStart false)
  | .complete started =>
    some ({ st with startupComplete := Function.update st.startupComplete i true }.goto i
      (if started then .main false else .release .ok))
  | .release r => st.act b t handlers (.setRunning i false) fun st => st.goto i (.finished r)
  | _ => none

/-- `on_start` of processor `i` has returned, or not. -/
def noteOnStart (i : Nat) (returned : Bool) : Lifecycle E :=
  { st with completed := if returned then Function.update st.completed i st.cycle else st.completed }

/-- A step of processor `i` in `on_start` or in the loop. The check of `running` between the two is the first check of the
loop. -/
def engineStep (i : Nat) (a : EngineAction E) : Option (Lifecycle E) :=
  match st.threads i, a with
  | .onStart panicked, .consumer input torn =>
    st.act b t handlers (.consumer i input torn) fun st' =>
      (st'.noteOnStart i (onStartReturns (st.pipeline.sequential i).pc input)).goto i
        (afterOnStart panicked input (st'.pipeline.sequential i).pc)
  | .main panicked, a =>
    st.act b t handlers (a.toPipeline i) fun st' =>
      st'.goto i (afterMain panicked a.panics (st'.pipeline.sequential i).pc)
  | _, _ => none

/-- One step of the system. -/
def step : LifecycleAction E → Option (Lifecycle E)
  | .call c =>
    match st.owner with
    | .idle => some (st.callStep c)
    | .returned _ _ => some (st.callStep c)
    | _ => none
  | .owner => st.ownerStep b t handlers
  | .expire =>
    match st.owner with
    | .drainDeadline _ => some { st with owner := .halt 0 (.shutdown true (.error .timeout)) }
    | _ => none
  | .thread i => st.threadStep b t handlers i
  | .engine i a => st.engineStep b t handlers i a
  | .producer a => st.act b t handlers (.producer a) id

/-- The assembled disruptor. -/
def init (b : BufferSize) (processors : List DslProcessor) (multiProducer : Bool) (factory : Nat → E) : Lifecycle E where
  pipeline := { dslInit b processors multiProducer factory with running := fun _ => false }
  startupComplete := fun _ => false
  threads := fun _ => .idle
  threadHandles := []
  started := false
  owner := .idle
  cycle := 0
  completed := fun _ => 0

end Lifecycle

/-- Any interleaving of the owner, the processors and the publishers, by steps that `ok` allows. -/
def LifecycleReach (b : BufferSize) (processors : List DslProcessor) (handlers : Nat → E → Int → Bool → E)
    (ok : Lifecycle E → LifecycleAction E → Prop) : Lifecycle E → Lifecycle E → Prop :=
  Reach (Lifecycle.step b (dslWiring processors) handlers) ok

/-! ## The pipeline below -/

section Pipeline

variable {b : BufferSize} {t : Wiring} {handlers : Nat → E → Int → Bool → E} {st st' : Lifecycle E} {calls : List DslCall}
  {processors : List DslProcessor}

theorem act_some {a : PipelineAction E} {k : Lifecycle E → Lifecycle E} (h : st.act b t handlers a k = some st') :
    ∃ p, st.pipeline.step b t handlers a = some p ∧ st' = k { st with pipeline := p } := by
  simp only [Lifecycle.act, Option.map_eq_some_iff] at h
  obtain ⟨p, hp, rfl⟩ := h
  exact ⟨p, hp, rfl⟩

section Rules

variable (b t handlers st)

/-- The steps of the owner, one rule for each. -/
inductive OwnerRule : OwnerPc → Lifecycle E → Prop
  | reopen {p} (hp : st.pipeline.step b t handlers (.producer .reopen) = some p) :
    OwnerRule .reopen { st with pipeline := p, owner := .spawn 0 }
  | spawn {i} (hi : i < t.count) : OwnerRule (.spawn i) (st.spawned b t handlers i)
  | started {i} (hi : t.count ≤ i) : OwnerRule (.spawn i) { st with started := true, owner := .returned .start (.ok ()) }
  | poll {i} : OwnerRule (.poll i) { st with owner := if st.startupComplete i then .exited i else .pollFinished i }
  | pollFinished {i} :
    OwnerRule (.pollFinished i) { st with owner := if (st.threads i).isFinished then .exited i else .poll i }
  | exited {i} : OwnerRule (.exited i)
    { st with threadHandles := st.threadHandles ++ [i], owner := .checkPoisoned i (st.threads i).isFinished }
  | startPoisoned {i exitedEarly} (h : st.pipeline.feed.world.poisoned = true) :
    OwnerRule (.checkPoisoned i exitedEarly) { st with owner := .halt 0 .startPoisoned }
  | startExited {i} (h : st.pipeline.feed.world.poisoned = false) :
    OwnerRule (.checkPoisoned i true) { st with owner := .halt 0 .startExited }
  | up {i} (h : st.pipeline.feed.world.poisoned = false) :
    OwnerRule (.checkPoisoned i false) { st with owner := .spawn (i + 1) }
  | closeDrain {deadline p} (hp : st.pipeline.step b t handlers (.producer .close) = some p) :
    OwnerRule (.close (.shutdown deadline)) { st with pipeline := p, owner := .drainCursor deadline }
  | close {call p} (hc : ∀ deadline, call ≠ .shutdown deadline)
    (hp : st.pipeline.step b t handlers (.producer .close) = some p) :
    OwnerRule (.close call) { st with pipeline := p, owner := .halt 0 .halt }
  | drainCursor {deadline} :
    OwnerRule (.drainCursor deadline) { st with owner := .drainPoisoned deadline st.pipeline.feed.world.cursor }
  | drainPoisoned {deadline cursor} (h : st.pipeline.feed.world.poisoned = true) :
    OwnerRule (.drainPoisoned deadline cursor) { st with owner := .halt 0 (.shutdown deadline (.error .poisoned)) }
  | drainNotPoisoned {deadline cursor} (h : st.pipeline.feed.world.poisoned = false) :
    OwnerRule (.drainPoisoned deadline cursor) { st with owner := .drainFinished deadline cursor st.threadHandles }
  | drainExited {deadline cursor i rest} (h : (st.threads i).isFinished = true) :
    OwnerRule (.drainFinished deadline cursor (i :: rest))
      { st with owner := .halt 0 (.shutdown deadline (.error .exitedBeforeDrained)) }
  | drainUp {deadline cursor i rest} (h : (st.threads i).isFinished = false) :
    OwnerRule (.drainFinished deadline cursor (i :: rest)) { st with owner := .drainFinished deadline cursor rest }
  | drainAllUp {deadline cursor} : OwnerRule (.drainFinished deadline cursor [])
    { st with owner := .drainScan deadline cursor (List.range t.count) cursor }
  | drainScan {deadline cursor i rest minimum} : OwnerRule (.drainScan deadline cursor (i :: rest) minimum)
    { st with owner := .drainScan deadline cursor rest (lower minimum (st.pipeline.sequences i)) }
  | drained {deadline cursor minimum} (h : cursor ≤ minimum) : OwnerRule (.drainScan deadline cursor [] minimum)
    { st with owner := .halt 0 (.shutdown deadline (.ok ())) }
  | drainTimed {cursor minimum} (h : minimum < cursor) :
    OwnerRule (.drainScan true cursor [] minimum) { st with owner := .drainDeadline cursor }
  | drainAgain {cursor minimum} (h : minimum < cursor) :
    OwnerRule (.drainScan false cursor [] minimum) { st with owner := .drainPoisoned false cursor }
  | drainDeadline {cursor} : OwnerRule (.drainDeadline cursor) { st with owner := .drainPoisoned true cursor }
  | halt {i why} (hi : i < t.count) : OwnerRule (.halt i why)
    { st with
      pipeline := { st.pipeline with running := Function.update st.pipeline.running i false }
      owner := .alert i why }
  | haltJoin {i why} (hi : t.count ≤ i) : OwnerRule (.halt i why) { st with owner := .join why [] }
  | alert {i why} : OwnerRule (.alert i why)
    { st with
      pipeline := { st.pipeline with alerted := Function.update st.pipeline.alerted i true }
      owner := .halt (i + 1) why }
  | halted {why joinErrors} (hl : st.threadHandles.getLast? = none) :
    OwnerRule (.join why joinErrors) (st.halted why joinErrors)
  | join {why joinErrors i r} (hl : st.threadHandles.getLast? = some i) (ht : st.threads i = .finished r) :
    OwnerRule (.join why joinErrors) (st.joined i r why joinErrors)

/-- The steps of processor `i` outside of the engine. -/
inductive ThreadRule (i : Nat) : ThreadPc → Lifecycle E → Prop
  | alreadyRunning (hr : st.pipeline.running i = true) : ThreadRule i .claim (st.goto i (.finished .alreadyRunning))
  | claim (hr : st.pipeline.running i = false) : ThreadRule i .claim
    ({ st with
      pipeline := { st.pipeline with running := Function.update st.pipeline.running i true } }.goto i .reset)
  | reset : ThreadRule i .reset
    ({ st with startupComplete := Function.update st.startupComplete i false }.goto i .clearAlert)
  | clearAlert : ThreadRule i .clearAlert
    ({ st with
      pipeline := { st.pipeline with alerted := Function.update st.pipeline.alerted i false } }.goto i (.onStart false))
  | complete {started} : ThreadRule i (.complete started)
    ({ st with startupComplete := Function.update st.startupComplete i true }.goto i
      (if started then .main false else .release .ok))
  | release {r} : ThreadRule i (.release r)
    ({ st with
      pipeline := { st.pipeline with running := Function.update st.pipeline.running i false } }.goto i (.finished r))

variable {b t handlers st}

/-- Every step of the owner follows a rule. -/
theorem ownerRule_of_ownerStep (hs : st.ownerStep b t handlers = some st') :
    ∃ pc, st.owner = pc ∧ OwnerRule b t handlers st pc st' := by
  refine ⟨st.owner, rfl, ?_⟩
  unfold Lifecycle.ownerStep at hs
  cases ho : st.owner <;> rw [ho] at hs
  case idle | returned => cases hs
  case reopen =>
    obtain ⟨p, hp, rfl⟩ := act_some hs
    exact .reopen hp
  case spawn i =>
    simp only at hs
    split at hs <;> cases hs
    · exact .spawn ‹_›
    · exact .started (not_lt.mp ‹_›)
  case poll i =>
    cases hs
    exact .poll
  case pollFinished i =>
    cases hs
    exact .pollFinished
  case exited i =>
    cases hs
    exact .exited
  case checkPoisoned i exitedEarly =>
    cases hs
    cases hp : st.pipeline.feed.world.poisoned
    · cases exitedEarly
      · exact .up hp
      · exact .startExited hp
    · exact .startPoisoned hp
  case close call =>
    obtain ⟨p, hp, rfl⟩ := act_some hs
    cases call with
    | shutdown deadline => exact .closeDrain hp
    | start | halt => exact .close nofun hp
  case drainCursor deadline =>
    cases hs
    exact .drainCursor
  case drainPoisoned deadline cursor =>
    cases hs
    cases hp : st.pipeline.feed.world.poisoned
    · exact .drainNotPoisoned hp
    · exact .drainPoisoned hp
  case drainFinished deadline cursor rest =>
    cases rest with
    | nil =>
      cases hs
      exact .drainAllUp
    | cons i rest =>
      cases hs
      cases hf : (st.threads i).isFinished
      · exact .drainUp hf
      · exact .drainExited hf
  case drainScan deadline cursor rest minimum =>
    cases rest with
    | nil =>
      cases hs
      split
      · exact .drained ‹_›
      · rename_i hlt
        cases deadline
        · exact .drainAgain (not_le.mp hlt)
        · exact .drainTimed (not_le.mp hlt)
    | cons i rest =>
      cases hs
      exact .drainScan
  case drainDeadline cursor =>
    cases hs
    exact .drainDeadline
  case halt i why =>
    simp only at hs
    split at hs
    · obtain ⟨p, hp, rfl⟩ := act_some hs
      cases hp
      exact .halt ‹_›
    · cases hs
      exact .haltJoin (not_lt.mp ‹_›)
  case alert i why =>
    obtain ⟨p, hp, rfl⟩ := act_some hs
    cases hp
    exact .alert
  case join why joinErrors =>
    simp only at hs
    split at hs
    · cases hs
      exact .halted ‹_›
    · split at hs <;> cases hs
      exact .join ‹_› ‹_›

/-- Every step of a processor outside of the engine follows a rule. -/
theorem threadRule_of_threadStep {i : Nat} (hs : st.threadStep b t handlers i = some st') :
    ∃ pc, st.threads i = pc ∧ ThreadRule st i pc st' := by
  refine ⟨st.threads i, rfl, ?_⟩
  unfold Lifecycle.threadStep at hs
  cases hpc : st.threads i <;> rw [hpc] at hs
  case idle | onStart | main | finished => cases hs
  case claim =>
    simp only at hs
    split at hs
    · cases hs
      exact .alreadyRunning ‹_›
    · obtain ⟨p, hp, rfl⟩ := act_some hs
      cases hp
      exact .claim (Bool.eq_false_iff.mpr ‹_›)
  case reset =>
    cases hs
    exact .reset
  case clearAlert =>
    obtain ⟨p, hp, rfl⟩ := act_some hs
    cases hp
    exact .clearAlert
  case complete started =>
    cases hs
    exact .complete
  case release r =>
    obtain ⟨p, hp, rfl⟩ := act_some hs
    cases hp
    exact .release

end Rules

/-- A step of the lifecycle is a step of the pipeline, or leaves it alone, or records a failure. -/
inductive PipelineStep (b : BufferSize) (t : Wiring) (handlers : Nat → E → Int → Bool → E) (p : Pipeline E) :
    Pipeline E → Prop
  | same : PipelineStep b t handlers p p
  | step {p' : Pipeline E} (a : PipelineAction E) (h : p.step b t handlers a = some p') : PipelineStep b t handlers p p'
  | record (f : FailureRecord) : PipelineStep b t handlers p { p with feed := p.feed.recordFailure f }

/-- The same for the owner, the threads outside of the engine, and publishers: no consumer takes a step. -/
inductive QuietStep (b : BufferSize) (t : Wiring) (handlers : Nat → E → Int → Bool → E) (p : Pipeline E) :
    Pipeline E → Prop
  | same : QuietStep b t handlers p p
  | step {p' : Pipeline E} (a : PipelineAction E) (ha : ∀ c i torn, a ≠ .consumer c i torn)
    (h : p.step b t handlers a = some p') : QuietStep b t handlers p p'
  | record (f : FailureRecord) : QuietStep b t handlers p { p with feed := p.feed.recordFailure f }

theorem QuietStep.pipelineStep {p p' : Pipeline E} (h : QuietStep b t handlers p p') : PipelineStep b t handlers p p' := by
  cases h with
  | same => exact .same
  | step a _ h => exact .step a h
  | record f => exact .record f

/-- What the owner and the threads outside of the engine do to the pipeline, apart from entering a loop again: they set flags
and record failures. -/
inductive FlagStep (b : BufferSize) (t : Wiring) (handlers : Nat → E → Int → Bool → E) (p : Pipeline E) : Pipeline E → Prop
  | same : FlagStep b t handlers p p
  | feed {p' : Pipeline E} (a : FeedAction E) (ha : a = .close ∨ a = .reopen)
    (h : p.step b t handlers (.producer a) = some p') : FlagStep b t handlers p p'
  | running (c : Nat) (value : Bool) : FlagStep b t handlers p { p with running := Function.update p.running c value }
  | alert (c : Nat) (value : Bool) : FlagStep b t handlers p { p with alerted := Function.update p.alerted c value }
  | record (f : FailureRecord) : FlagStep b t handlers p { p with feed := p.feed.recordFailure f }

theorem FlagStep.quiet {p p' : Pipeline E} (h : FlagStep b t handlers p p') : QuietStep b t handlers p p' := by
  cases h with
  | same => exact .same
  | feed a _ h => exact .step (.producer a) nofun h
  | running c value => exact .step (.setRunning c value) nofun rfl
  | alert c value => exact .step (.setAlert c value) nofun rfl
  | record f => exact .record f

/-- The owner enters a loop again when it spawns the thread of a processor that has run before. -/
theorem ownerStep_pipeline (hs : st.ownerStep b t handlers = some st') :
    (∃ i, st.owner = .spawn i ∧ st.pipeline.step b t handlers (.restart i) = some st'.pipeline) ∨
      FlagStep b t handlers st.pipeline st'.pipeline := by
  obtain ⟨pc, ho, hr⟩ := ownerRule_of_ownerStep hs
  cases hr with
  | reopen hp => exact .inr (.feed .reopen (.inr rfl) hp)
  | closeDrain hp | close _ hp => exact .inr (.feed .close (.inl rfl) hp)
  | @spawn i =>
    cases hp : st.pipeline.step b t handlers (.restart i) with
    | none =>
      simp only [Lifecycle.spawned, hp, Option.getD_none]
      exact .inr .same
    | some p =>
      simp only [Lifecycle.spawned, hp, Option.getD_some]
      exact .inl ⟨i, ho, hp⟩
  | halt => exact .inr (.running _ _)
  | alert => exact .inr (.alert _ _)
  | @join _ _ _ r =>
    cases r with
    | ok => exact .inr .same
    | alreadyRunning | panicked => exact .inr (.record _)
  | _ => exact .inr .same

theorem callStep_pipeline {call : OwnerCall} (hs : st.step b t handlers (.call call) = some st') :
    st'.pipeline = st.pipeline := by
  simp only [Lifecycle.step] at hs
  split at hs <;> simp only [Option.some.injEq, reduceCtorEq] at hs <;> subst hs
  all_goals
    cases call <;> simp only [Lifecycle.callStep] <;> split <;> rfl

theorem threadStep_pipeline {i : Nat} (hs : st.threadStep b t handlers i = some st') :
    FlagStep b t handlers st.pipeline st'.pipeline := by
  obtain ⟨pc, -, hr⟩ := threadRule_of_threadStep hs
  cases hr with
  | claim | release => exact .running _ _
  | clearAlert => exact .alert _ _
  | alreadyRunning | reset | complete => exact .same

/-- A step of a processor inside the engine is a step of the pipeline. -/
theorem engineStep_pipeline {i : Nat} {a : EngineAction E} (hs : st.engineStep b t handlers i a = some st') :
    st.pipeline.step b t handlers (a.toPipeline i) = some st'.pipeline := by
  simp only [Lifecycle.engineStep] at hs
  split at hs
  · obtain ⟨p, hp, rfl⟩ := act_some hs
    exact hp
  · obtain ⟨p, hp, rfl⟩ := act_some hs
    exact hp
  · cases hs

/-- Everything a step of the lifecycle can do to the pipeline. -/
theorem lifeStep_cases {a : LifecycleAction E} (hs : st.step b t handlers a = some st') :
    (∃ i e, a = .engine i e ∧ st.pipeline.step b t handlers (e.toPipeline i) = some st'.pipeline) ∨
      (∃ f, a = .producer f ∧ st.pipeline.step b t handlers (.producer f) = some st'.pipeline) ∨
      (∃ i, a = .owner ∧ st.owner = .spawn i ∧ st.pipeline.step b t handlers (.restart i) = some st'.pipeline) ∨
      ((∀ i e, a ≠ .engine i e) ∧ (∀ f, a ≠ .producer f) ∧ FlagStep b t handlers st.pipeline st'.pipeline) := by
  cases a with
  | call c =>
    rw [callStep_pipeline hs]
    exact .inr (.inr (.inr ⟨nofun, nofun, .same⟩))
  | owner =>
    rcases ownerStep_pipeline hs with ⟨i, ho, hp⟩ | hflag
    · exact .inr (.inr (.inl ⟨i, rfl, ho, hp⟩))
    · exact .inr (.inr (.inr ⟨nofun, nofun, hflag⟩))
  | expire =>
    simp only [Lifecycle.step] at hs
    split at hs <;> simp only [Option.some.injEq, reduceCtorEq] at hs
    subst hs
    exact .inr (.inr (.inr ⟨nofun, nofun, .same⟩))
  | thread i => exact .inr (.inr (.inr ⟨nofun, nofun, threadStep_pipeline hs⟩))
  | engine i e => exact .inl ⟨i, e, rfl, engineStep_pipeline hs⟩
  | producer f =>
    obtain ⟨p, hp, rfl⟩ := act_some hs
    exact .inr (.inl ⟨f, rfl, hp⟩)

/-- Only the engine moves consumers. -/
theorem quietStep_step {a : LifecycleAction E} (ha : ∀ i e, a ≠ .engine i e) (hs : st.step b t handlers a = some st') :
    QuietStep b t handlers st.pipeline st'.pipeline := by
  rcases lifeStep_cases hs with ⟨i, e, rfl, -⟩ | ⟨f, -, hp⟩ | ⟨i, -, -, hp⟩ | ⟨-, -, hflag⟩
  · exact absurd rfl (ha i e)
  · exact .step (.producer f) nofun hp
  · exact .step (.restart i) nofun hp
  · exact hflag.quiet

theorem pipelineStep_step {a : LifecycleAction E} (hs : st.step b t handlers a = some st') :
    PipelineStep b t handlers st.pipeline st'.pipeline := by
  by_cases ha : ∀ i e, a ≠ .engine i e
  · exact (quietStep_step ha hs).pipelineStep
  · push Not at ha
    obtain ⟨i, e, rfl⟩ := ha
    exact .step _ (engineStep_pipeline hs)

theorem pipeInv_pipelineStep {p p' : Pipeline E} (hwf : t.Wf) (h : PipeInv b t p) (hs : PipelineStep b t handlers p p') :
    PipeInv b t p' := by
  cases hs with
  | same => exact h
  | step a hs => exact pipeInv_step hwf h hs
  | record f =>
    exact ⟨⟨h.feed.world, h.feed.phases⟩, h.gating,
      ⟨fun d hd => ⟨(h.consumers.each d hd).low, (h.consumers.each d hd).barrier, (h.consumers.each d hd).sequential,
        (h.consumers.each d hd).worker⟩, h.consumers.pool⟩⟩

/-- Whatever the owner and the threads do, the pipeline keeps its invariant. -/
theorem LifecycleReach.pipeInv {ok : Lifecycle E → LifecycleAction E → Prop} {multiProducer : Bool} {factory : Nat → E}
    (h : dslProcessors calls = some processors) (hne : processors ≠ [])
    (hr : LifecycleReach b processors handlers ok (.init b processors multiProducer factory) st) :
    PipeInv b (dslWiring processors) st.pipeline := by
  have hwf := wf_dslWiring h hne
  refine Reach.inv (I := fun st : Lifecycle E => PipeInv b (dslWiring processors) st.pipeline) ?_
    (fun hI _ hs => pipeInv_pipelineStep hwf hI (pipelineStep_step hs)) hr
  have h0 := pipeInv_init (b := b) hwf multiProducer false factory
  exact ⟨h0.feed, h0.gating, ⟨fun d hd => ⟨(h0.consumers.each d hd).low, (h0.consumers.each d hd).barrier,
    (h0.consumers.each d hd).sequential, (h0.consumers.each d hd).worker⟩, h0.consumers.pool⟩⟩

/-- One chain has exclusive windows in every cycle, restarts with stale flags included. -/
theorem LifecycleReach.exclusiveWindows {ok : Lifecycle E → LifecycleAction E → Prop} {multiProducer : Bool}
    {factory : Nat → E} (h : dslProcessors calls = some processors) (hone : rootCalls calls ≤ 1)
    (hr : LifecycleReach b processors handlers ok (.init b processors multiProducer factory) st) :
    ExclusiveWindows b processors st.pipeline := by
  by_cases hne : processors = []
  · exact exclusiveWindows_nil hne
  · exact (hr.pipeInv h hne).exclusiveWindows h hone hne

end Pipeline

end BadBatch
