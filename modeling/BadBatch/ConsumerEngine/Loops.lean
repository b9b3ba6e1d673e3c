import BadBatch.Sequence

/-!
# The consumer loops

`run_sequential_batch_loop_impl` and `run_sequential_readonly_loop_impl` (`seqStep`) and `run_work_processor_loop_impl`
(`workStep`), each with the `on_start` and `on_shutdown` calls of the thread around it, as functions of one atomic step.

What a loop does not decide itself comes in as an `EngineInput`: the value of the stop flag, the answer of the barrier,
the outcome of a callback, a panic. A loop reads and writes its own `Sequence`, and a worker also the shared work
cursor; both are passed in and out. `calls`, `returned`, `batchEnds` and `failedAt` are history.
-/

namespace BadBatch

/-- `FailurePhase` -/
inductive FailurePhase
  | threadAffinity
  | handlerStart
  | batchStart
  | eventProcessing
  | handlerShutdown
  | consumerPanic
  | producerPanic
  | processorThread
  deriving DecidableEq, Repr

/-- `FailureRecord` without its texts (`message`, `thread_name`). -/
structure FailureRecord where
  phase : FailurePhase
  stageIndex : Option Nat
  sequence : Option Int
  deriving DecidableEq, Repr

/-- `ErrorDecision` of an exception handler. -/
inductive ErrorDecision
  | continue
  | stop
  deriving DecidableEq, Repr

/-- How a callback returned. For `on_event`, an error comes with the decision of the exception handler. -/
inductive HandlerOutcome
  | ok
  | err (decision : ErrorDecision)
  deriving DecidableEq, Repr

/-- What the environment supplies to one step of a loop. -/
inductive EngineInput
  /-- Nothing: the step works on the loop's own data. -/
  | tick
  /-- `stop.should_continue()` -/
  | flag (shouldContinue : Bool)
  /-- The barrier returns. -/
  | answer (r : Except DisruptorError Int)
  /-- A callback returns. -/
  | handler (o : HandlerOutcome)
  /-- The thread panics. -/
  | panic
  deriving DecidableEq, Repr

/-- `Alert` and `Shutdown` end a loop, every other error is retried. -/
def endsLoop : DisruptorError → Bool
  | .alert => true
  | .shutdown => true
  | _ => false

/-- How the consumer of a thread is set up: its stage, whether it only reads (`&E`), and whether an exception handler
may answer `Continue`. -/
structure EngineConfig where
  stageIndex : Option Nat
  readonly : Bool
  hasExceptionHandler : Bool
  deriving DecidableEq, Repr

/-- `consumer_failure` and `lifecycle_failure` -/
def EngineConfig.failure (cfg : EngineConfig) (phase : FailurePhase) (sequence : Option Int) : FailureRecord :=
  ⟨phase, cfg.stageIndex, sequence⟩

/-! ## Sequential loops -/

inductive SeqPc
  /-- `on_start` -/
  | start
  /-- `let mut next_sequence = consumer_sequence.get() + 1` -/
  | enter
  /-- `while stop.should_continue()` -/
  | loop (next : Int)
  /-- `stop.wait_for(sequence_barrier, next_sequence)` -/
  | waiting (next : Int)
  /-- The wait failed with an error that is retried unless the stop flag flipped. -/
  | waitErr (next : Int)
  /-- `on_batch_start` -/
  | batchStart (next available : Int)
  /-- `while next_sequence <= available_sequence` -/
  | event (next available : Int)
  /-- Inside `on_event(next)`. -/
  | inEvent (next available : Int)
  /-- `consumer_sequence.set(available_sequence)` -/
  | store (available : Int)
  /-- `consumer_sequence.set(next_sequence - 1)` after a fatal error -/
  | freeze (next : Int)
  /-- `record_failure`, the first half of `poison_with_failure`; `last` when the thread ends without `on_shutdown`. -/
  | record (f : FailureRecord) (last : Bool)
  /-- `poison`, the second half -/
  | poison (f : FailureRecord) (last : Bool)
  /-- `on_shutdown` -/
  | stopping
  /-- `record_failure` of an `on_shutdown` error -/
  | recordShutdown (f : FailureRecord)
  | done
  deriving DecidableEq, Repr

/-- A sequential consumer with its history. -/
structure SeqLoop where
  pc : SeqPc
  /-- The sequences passed to `on_event`, in call order. -/
  calls : List Int
  /-- The sequences for which `on_event` returned `Ok`. -/
  returned : List Int
  /-- The last sequences of the batches that the barrier released. -/
  batchEnds : List Int
  /-- The sequence at which the loop stopped with a fatal error. -/
  failedAt : Option Int
  deriving DecidableEq, Repr

def SeqLoop.init : SeqLoop := ⟨.start, [], [], [], none⟩

/-- One step of a sequential loop on its `Sequence` of value `sequence`. -/
def seqStep (cfg : EngineConfig) (sequence : Int) (l : SeqLoop) (i : EngineInput) : Option (Int × SeqLoop) :=
  match l.pc, i with
  | .done, _ => none
  | _, .panic => some (sequence, { l with pc := .record (cfg.failure .consumerPanic none) true })
  | .start, .tick => if cfg.readonly then some (sequence, { l with pc := .enter }) else none
  | .start, .handler o =>
    if cfg.readonly then none
    else
      match o with
      | .ok => some (sequence, { l with pc := .enter })
      | .err _ => some (sequence, { l with pc := .record (cfg.failure .handlerStart none) true })
  | .enter, .tick => some (sequence, { l with pc := .loop (sequence + 1) })
  | .loop next, .flag go => some (sequence, { l with pc := if go then .waiting next else .stopping })
  | .waiting next, .answer (.ok available) =>
    if available < next then some (sequence, { l with pc := .loop next })
    else
      -- the read-only loop has no `on_batch_start`
      let pc := if cfg.readonly then SeqPc.event next available else .batchStart next available
      some (sequence, { l with pc := pc, batchEnds := available :: l.batchEnds })
  | .waiting next, .answer (.error e) =>
    some (sequence, { l with pc := if endsLoop e then .stopping else .waitErr next })
  | .waitErr next, .flag go => some (sequence, { l with pc := if go then .loop next else .stopping })
  | .batchStart next available, .handler .ok => some (sequence, { l with pc := .event next available })
  | .batchStart next _, .handler (.err _) =>
    some (sequence, { l with pc := .record (cfg.failure .batchStart (some next)) false })
  | .event next available, .tick =>
    if next ≤ available then some (sequence, { l with pc := .inEvent next available, calls := l.calls ++ [next] })
    else some (sequence, { l with pc := .store available })
  | .inEvent next available, .handler .ok =>
    some (sequence, { l with pc := .event (next + 1) available, returned := l.returned ++ [next] })
  | .inEvent next available, .handler (.err d) =>
    if cfg.hasExceptionHandler ∧ d = .continue then some (sequence, { l with pc := .event (next + 1) available })
    else some (sequence, { l with pc := .freeze next, failedAt := some next })
  | .store available, .tick => some (available, { l with pc := .loop (available + 1) })
  | .freeze next, .tick => some (next - 1, { l with pc := .record (cfg.failure .eventProcessing (some next)) false })
  | .record f last, .tick => some (sequence, { l with pc := .poison f last })
  | .poison _ last, .tick => some (sequence, { l with pc := if last then .done else .stopping })
  -- read-only consumers have no lifecycle callbacks
  | .stopping, .tick => if cfg.readonly then some (sequence, { l with pc := .done }) else none
  | .stopping, .handler o =>
    if cfg.readonly then none
    else
      match o with
      | .ok => some (sequence, { l with pc := .done })
      | .err _ => some (sequence, { l with pc := .recordShutdown (cfg.failure .handlerShutdown none) })
  | .recordShutdown _, .tick => some (sequence, { l with pc := .done })
  | _, _ => none

section SeqRules

variable (cfg : EngineConfig) (sequence : Int) (l : SeqLoop)

/-- The steps of a sequential loop, one rule for each. -/
inductive SeqRule : SeqPc → EngineInput → Int → SeqLoop → Prop
  | panic {pc} (hd : pc ≠ .done) :
    SeqRule pc .panic sequence { l with pc := .record (cfg.failure .consumerPanic none) true }
  | startReadonly (hr : cfg.readonly = true) : SeqRule .start .tick sequence { l with pc := .enter }
  | started (hr : cfg.readonly = false) : SeqRule .start (.handler .ok) sequence { l with pc := .enter }
  | startFailed {d} (hr : cfg.readonly = false) :
    SeqRule .start (.handler (.err d)) sequence { l with pc := .record (cfg.failure .handlerStart none) true }
  | enter : SeqRule .enter .tick sequence { l with pc := .loop (sequence + 1) }
  | go {next} : SeqRule (.loop next) (.flag true) sequence { l with pc := .waiting next }
  | stop {next} : SeqRule (.loop next) (.flag false) sequence { l with pc := .stopping }
  | early {next available} (hlt : available < next) :
    SeqRule (.waiting next) (.answer (.ok available)) sequence { l with pc := .loop next }
  | releasedReadonly {next available} (hr : cfg.readonly = true) (hle : next ≤ available) :
    SeqRule (.waiting next) (.answer (.ok available)) sequence
      { l with pc := .event next available, batchEnds := available :: l.batchEnds }
  | released {next available} (hr : cfg.readonly = false) (hle : next ≤ available) :
    SeqRule (.waiting next) (.answer (.ok available)) sequence
      { l with pc := .batchStart next available, batchEnds := available :: l.batchEnds }
  | ended {next e} (he : endsLoop e = true) :
    SeqRule (.waiting next) (.answer (.error e)) sequence { l with pc := .stopping }
  | waitErr {next e} (he : endsLoop e = false) :
    SeqRule (.waiting next) (.answer (.error e)) sequence { l with pc := .waitErr next }
  | retry {next} : SeqRule (.waitErr next) (.flag true) sequence { l with pc := .loop next }
  | giveUp {next} : SeqRule (.waitErr next) (.flag false) sequence { l with pc := .stopping }
  | batchStart {next available} :
    SeqRule (.batchStart next available) (.handler .ok) sequence { l with pc := .event next available }
  | batchStartFailed {next available d} : SeqRule (.batchStart next available) (.handler (.err d)) sequence
    { l with pc := .record (cfg.failure .batchStart (some next)) false }
  | call {next available} (hle : next ≤ available) :
    SeqRule (.event next available) .tick sequence { l with pc := .inEvent next available, calls := l.calls ++ [next] }
  | batchEnd {next available} (hlt : available < next) :
    SeqRule (.event next available) .tick sequence { l with pc := .store available }
  | handled {next available} : SeqRule (.inEvent next available) (.handler .ok) sequence
    { l with pc := .event (next + 1) available, returned := l.returned ++ [next] }
  | skip {next available} (he : cfg.hasExceptionHandler = true) :
    SeqRule (.inEvent next available) (.handler (.err .continue)) sequence { l with pc := .event (next + 1) available }
  | fail {next available d} (hd : ¬(cfg.hasExceptionHandler = true ∧ d = .continue)) :
    SeqRule (.inEvent next available) (.handler (.err d)) sequence { l with pc := .freeze next, failedAt := some next }
  | store {available} : SeqRule (.store available) .tick available { l with pc := .loop (available + 1) }
  | freeze {next} : SeqRule (.freeze next) .tick (next - 1)
    { l with pc := .record (cfg.failure .eventProcessing (some next)) false }
  | record {f last} : SeqRule (.record f last) .tick sequence { l with pc := .poison f last }
  | poison {f} : SeqRule (.poison f false) .tick sequence { l with pc := .stopping }
  | poisonLast {f} : SeqRule (.poison f true) .tick sequence { l with pc := .done }
  | doneReadonly (hr : cfg.readonly = true) : SeqRule .stopping .tick sequence { l with pc := .done }
  | done (hr : cfg.readonly = false) : SeqRule .stopping (.handler .ok) sequence { l with pc := .done }
  | shutdownFailed {d} (hr : cfg.readonly = false) :
    SeqRule .stopping (.handler (.err d)) sequence { l with pc := .recordShutdown (cfg.failure .handlerShutdown none) }
  | recordShutdown {f} : SeqRule (.recordShutdown f) .tick sequence { l with pc := .done }

variable {cfg sequence l} {sequence' : Int} {l' : SeqLoop} {i : EngineInput}

/-- Every step of a sequential loop follows a rule. -/
theorem seqRule_of_seqStep (h : seqStep cfg sequence l i = some (sequence', l')) :
    SeqRule cfg sequence l l.pc i sequence' l' := by
  obtain ⟨pc, calls, ret, ends, failed⟩ := l
  cases pc <;> cases i <;> simp only [seqStep, reduceCtorEq] at h
  case start.tick =>
    split at h <;> cases h
    exact .startReadonly ‹_›
  case start.handler o =>
    split at h
    · cases h
    · have hr := Bool.eq_false_iff.mpr ‹_›
      cases o <;> cases h
      · exact .started hr
      · exact .startFailed hr
  case enter.tick =>
    cases h
    exact .enter
  case loop.flag next go =>
    cases h
    cases go
    · exact .stop
    · exact .go
  case waiting.answer next r =>
    cases r with
    | ok available =>
      simp only at h
      split at h <;> cases h
      · exact .early ‹_›
      · have hle : next ≤ available := not_lt.mp ‹_›
        cases hr : cfg.readonly
        · exact .released hr hle
        · exact .releasedReadonly hr hle
    | error e =>
      cases h
      cases he : endsLoop e
      · exact .waitErr he
      · exact .ended he
  case waitErr.flag next go =>
    cases h
    cases go
    · exact .giveUp
    · exact .retry
  case batchStart.handler next available o =>
    cases o <;> cases h
    · exact .batchStart
    · exact .batchStartFailed
  case event.tick next available =>
    split at h <;> cases h
    · exact .call ‹_›
    · exact .batchEnd (not_le.mp ‹_›)
  case inEvent.handler next available o =>
    cases o with
    | ok =>
      cases h
      exact .handled
    | err d =>
      simp only at h
      split at h <;> cases h
      · rename_i he
        obtain ⟨he, rfl⟩ := he
        exact .skip he
      · exact .fail ‹_›
  case store.tick =>
    cases h
    exact .store
  case freeze.tick =>
    cases h
    exact .freeze
  case record.tick =>
    cases h
    exact .record
  case poison.tick f last =>
    cases h
    cases last
    · exact .poison
    · exact .poisonLast
  case stopping.tick =>
    split at h <;> cases h
    exact .doneReadonly ‹_›
  case stopping.handler o =>
    split at h
    · cases h
    · have hr := Bool.eq_false_iff.mpr ‹_›
      cases o <;> cases h
      · exact .done hr
      · exact .shutdownFailed hr
  case recordShutdown.tick =>
    cases h
    exact .recordShutdown
  all_goals
    cases h
    exact .panic (by simp)

end SeqRules

/-! ## Worker loop -/

inductive WorkPc
  /-- `on_start` -/
  | start
  /-- `let mut last_advertised = consumer_sequence.get()` -/
  | enter
  /-- `'work: while stop.should_continue()` -/
  | outer
  /-- `if !stop.should_continue() { break 'work }` of the claim loop -/
  | inner
  /-- `work_sequence.load` -/
  | load
  /-- `advertise_work_sequence_if_changed` -/
  | advertise (current : Int)
  /-- `work_sequence.compare_exchange(current, current + 1)` -/
  | cas (current : Int)
  /-- `while claimed > cached_available` and the stop check inside -/
  | guard (claimed : Int)
  /-- `stop.wait_for(sequence_barrier, claimed)` -/
  | waiting (claimed : Int)
  /-- The wait failed with an error that is retried unless the stop flag flipped. -/
  | waitErr (claimed : Int)
  /-- `on_batch_start` -/
  | batchStart (claimed : Int)
  /-- about to call `on_event` -/
  | event (claimed : Int)
  /-- Inside `on_event(claimed)`. -/
  | inEvent (claimed : Int)
  /-- `consumer_sequence.set(claimed)` -/
  | store (claimed : Int)
  /-- `record_failure`; `claim` is the claim that the worker will not finish. -/
  | record (claim : Option Int) (f : FailureRecord) (last : Bool)
  /-- `poison` -/
  | poison (claim : Option Int) (f : FailureRecord) (last : Bool)
  /-- `on_shutdown` -/
  | stopping (claim : Option Int)
  | recordShutdown (claim : Option Int) (f : FailureRecord)
  | done (claim : Option Int)
  deriving DecidableEq, Repr

/-- A worker with its locals and its history. -/
structure WorkLoop where
  pc : WorkPc
  cachedAvailable : Int
  lastAdvertised : Int
  calls : List Int
  returned : List Int
  deriving DecidableEq, Repr

def WorkLoop.init : WorkLoop := ⟨.start, initialCursorValue, initialCursorValue, [], []⟩

/-- The claim of a worker that `on_event` has not returned `Ok` for. -/
def WorkPc.claim : WorkPc → Option Int
  | guard s => some s
  | waiting s => some s
  | waitErr s => some s
  | batchStart s => some s
  | event s => some s
  | inEvent s => some s
  | record c _ _ => c
  | poison c _ _ => c
  | stopping c => c
  | recordShutdown c _ => c
  | done c => c
  | _ => none

/-- One step of a worker: the work cursor and the worker's `Sequence` before and after. -/
def workStep (cfg : EngineConfig) (work sequence : Int) (l : WorkLoop) (i : EngineInput) :
    Option (Int × Int × WorkLoop) :=
  match l.pc, i with
  | .done _, _ => none
  | pc, .panic => some (work, sequence, { l with pc := .record pc.claim (cfg.failure .consumerPanic none) true })
  | .start, .handler o =>
    match o with
    | .ok => some (work, sequence, { l with pc := .enter })
    | .err _ => some (work, sequence, { l with pc := .record none (cfg.failure .handlerStart none) true })
  | .enter, .tick =>
    some (work, sequence, { l with pc := .outer, cachedAvailable := initialCursorValue, lastAdvertised := sequence })
  | .outer, .flag go => some (work, sequence, { l with pc := if go then .inner else .stopping none })
  | .inner, .flag go => some (work, sequence, { l with pc := if go then .load else .stopping none })
  | .load, .tick => some (work, sequence, { l with pc := .advertise work })
  | .advertise current, .tick =>
    if current = l.lastAdvertised then some (work, sequence, { l with pc := .cas current })
    else some (work, current, { l with pc := .cas current, lastAdvertised := current })
  | .cas current, .tick =>
    if work = current then some (current + 1, sequence, { l with pc := .guard (current + 1) })
    else some (work, sequence, { l with pc := .inner })
  | .guard claimed, .tick =>
    if claimed > l.cachedAvailable then none else some (work, sequence, { l with pc := .batchStart claimed })
  | .guard claimed, .flag go =>
    if claimed > l.cachedAvailable then
      some (work, sequence, { l with pc := if go then .waiting claimed else .stopping (some claimed) })
    else none
  | .waiting claimed, .answer (.ok available) =>
    some (work, sequence, { l with pc := .guard claimed, cachedAvailable := available })
  | .waiting claimed, .answer (.error e) =>
    some (work, sequence, { l with pc := if endsLoop e then .stopping (some claimed) else .waitErr claimed })
  | .waitErr claimed, .flag go =>
    some (work, sequence, { l with pc := if go then .guard claimed else .stopping (some claimed) })
  | .batchStart claimed, .handler .ok => some (work, sequence, { l with pc := .event claimed })
  | .batchStart claimed, .handler (.err _) =>
    some (work, sequence, { l with pc := .record (some claimed) (cfg.failure .batchStart (some claimed)) false })
  | .event claimed, .tick =>
    some (work, sequence, { l with pc := .inEvent claimed, calls := l.calls ++ [claimed] })
  | .inEvent claimed, .handler .ok =>
    some (work, sequence, { l with pc := .store claimed, returned := l.returned ++ [claimed] })
  | .inEvent claimed, .handler (.err _) =>
    some (work, sequence, { l with pc := .record (some claimed) (cfg.failure .eventProcessing (some claimed)) false })
  | .store claimed, .tick => some (work, claimed, { l with pc := .outer, lastAdvertised := claimed })
  | .record c f last, .tick => some (work, sequence, { l with pc := .poison c f last })
  | .poison c _ last, .tick => some (work, sequence, { l with pc := if last then .done c else .stopping c })
  | .stopping c, .handler o =>
    match o with
    | .ok => some (work, sequence, { l with pc := .done c })
    | .err _ => some (work, sequence, { l with pc := .recordShutdown c (cfg.failure .handlerShutdown none) })
  | .recordShutdown c _, .tick => some (work, sequence, { l with pc := .done c })
  | _, _ => none

section WorkRules

variable (cfg : EngineConfig) (work sequence : Int) (l : WorkLoop)

/-- The steps of a worker, one rule for each. -/
inductive WorkRule : WorkPc → EngineInput → Int → Int → WorkLoop → Prop
  | panic {pc} (hd : ∀ c, pc ≠ .done c) :
    WorkRule pc .panic work sequence { l with pc := .record pc.claim (cfg.failure .consumerPanic none) true }
  | started : WorkRule .start (.handler .ok) work sequence { l with pc := .enter }
  | startFailed {d} : WorkRule .start (.handler (.err d)) work sequence
    { l with pc := .record none (cfg.failure .handlerStart none) true }
  | enter : WorkRule .enter .tick work sequence
    { l with pc := .outer, cachedAvailable := initialCursorValue, lastAdvertised := sequence }
  | outer : WorkRule .outer (.flag true) work sequence { l with pc := .inner }
  | stopOuter : WorkRule .outer (.flag false) work sequence { l with pc := .stopping none }
  | inner : WorkRule .inner (.flag true) work sequence { l with pc := .load }
  | stopInner : WorkRule .inner (.flag false) work sequence { l with pc := .stopping none }
  | load : WorkRule .load .tick work sequence { l with pc := .advertise work }
  | unchanged {current} (he : current = l.lastAdvertised) :
    WorkRule (.advertise current) .tick work sequence { l with pc := .cas current }
  | advertise {current} (hne : current ≠ l.lastAdvertised) :
    WorkRule (.advertise current) .tick work current { l with pc := .cas current, lastAdvertised := current }
  | claim : WorkRule (.cas work) .tick (work + 1) sequence { l with pc := .guard (work + 1) }
  | lost {current} (hne : work ≠ current) : WorkRule (.cas current) .tick work sequence { l with pc := .inner }
  | cached {claimed} (hle : claimed ≤ l.cachedAvailable) :
    WorkRule (.guard claimed) .tick work sequence { l with pc := .batchStart claimed }
  | wait {claimed} (hlt : l.cachedAvailable < claimed) :
    WorkRule (.guard claimed) (.flag true) work sequence { l with pc := .waiting claimed }
  | stopGuard {claimed} (hlt : l.cachedAvailable < claimed) :
    WorkRule (.guard claimed) (.flag false) work sequence { l with pc := .stopping (some claimed) }
  | released {claimed available} : WorkRule (.waiting claimed) (.answer (.ok available)) work sequence
    { l with pc := .guard claimed, cachedAvailable := available }
  | ended {claimed e} (he : endsLoop e = true) :
    WorkRule (.waiting claimed) (.answer (.error e)) work sequence { l with pc := .stopping (some claimed) }
  | waitErr {claimed e} (he : endsLoop e = false) :
    WorkRule (.waiting claimed) (.answer (.error e)) work sequence { l with pc := .waitErr claimed }
  | retry {claimed} : WorkRule (.waitErr claimed) (.flag true) work sequence { l with pc := .guard claimed }
  | giveUp {claimed} : WorkRule (.waitErr claimed) (.flag false) work sequence { l with pc := .stopping (some claimed) }
  | batchStart {claimed} : WorkRule (.batchStart claimed) (.handler .ok) work sequence { l with pc := .event claimed }
  | batchStartFailed {claimed d} : WorkRule (.batchStart claimed) (.handler (.err d)) work sequence
    { l with pc := .record (some claimed) (cfg.failure .batchStart (some claimed)) false }
  | call {claimed} : WorkRule (.event claimed) .tick work sequence
    { l with pc := .inEvent claimed, calls := l.calls ++ [claimed] }
  | handled {claimed} : WorkRule (.inEvent claimed) (.handler .ok) work sequence
    { l with pc := .store claimed, returned := l.returned ++ [claimed] }
  | fail {claimed d} : WorkRule (.inEvent claimed) (.handler (.err d)) work sequence
    { l with pc := .record (some claimed) (cfg.failure .eventProcessing (some claimed)) false }
  | store {claimed} : WorkRule (.store claimed) .tick work claimed { l with pc := .outer, lastAdvertised := claimed }
  | record {c f last} : WorkRule (.record c f last) .tick work sequence { l with pc := .poison c f last }
  | poison {c f} : WorkRule (.poison c f false) .tick work sequence { l with pc := .stopping c }
  | poisonLast {c f} : WorkRule (.poison c f true) .tick work sequence { l with pc := .done c }
  | done {c} : WorkRule (.stopping c) (.handler .ok) work sequence { l with pc := .done c }
  | shutdownFailed {c d} : WorkRule (.stopping c) (.handler (.err d)) work sequence
    { l with pc := .recordShutdown c (cfg.failure .handlerShutdown none) }
  | recordShutdown {c f} : WorkRule (.recordShutdown c f) .tick work sequence { l with pc := .done c }

variable {cfg work sequence l} {work' sequence' : Int} {l' : WorkLoop} {i : EngineInput}

/-- Every step of a worker follows a rule. -/
theorem workRule_of_workStep (h : workStep cfg work sequence l i = some (work', sequence', l')) :
    WorkRule cfg work sequence l l.pc i work' sequence' l' := by
  obtain ⟨pc, ca, la, calls, ret⟩ := l
  cases pc <;> cases i <;> simp only [workStep, reduceCtorEq] at h
  case start.handler o =>
    cases o <;> cases h
    · exact .started
    · exact .startFailed
  case enter.tick =>
    cases h
    exact .enter
  case outer.flag go =>
    cases h
    cases go
    · exact .stopOuter
    · exact .outer
  case inner.flag go =>
    cases h
    cases go
    · exact .stopInner
    · exact .inner
  case load.tick =>
    cases h
    exact .load
  case advertise.tick current =>
    split at h <;> cases h
    · exact .unchanged ‹_›
    · exact .advertise ‹_›
  case cas.tick current =>
    split at h
    · rename_i he
      subst he
      cases h
      exact .claim
    · cases h
      exact .lost ‹_›
  case guard.tick claimed =>
    split at h <;> cases h
    exact .cached (not_lt.mp ‹_›)
  case guard.flag claimed go =>
    split at h <;> cases h
    cases go
    · exact .stopGuard ‹_›
    · exact .wait ‹_›
  case waiting.answer claimed r =>
    cases r with
    | ok available =>
      cases h
      exact .released
    | error e =>
      cases h
      cases he : endsLoop e
      · exact .waitErr he
      · exact .ended he
  case waitErr.flag claimed go =>
    cases h
    cases go
    · exact .giveUp
    · exact .retry
  case batchStart.handler claimed o =>
    cases o <;> cases h
    · exact .batchStart
    · exact .batchStartFailed
  case event.tick =>
    cases h
    exact .call
  case inEvent.handler claimed o =>
    cases o <;> cases h
    · exact .handled
    · exact .fail
  case store.tick =>
    cases h
    exact .store
  case record.tick =>
    cases h
    exact .record
  case poison.tick c f last =>
    cases h
    cases last
    · exact .poison
    · exact .poisonLast
  case stopping.handler c o =>
    cases o <;> cases h
    · exact .done
    · exact .shutdownFailed
  case recordShutdown.tick =>
    cases h
    exact .recordShutdown
  all_goals
    cases h
    exact .panic (by simp)

end WorkRules

end BadBatch
