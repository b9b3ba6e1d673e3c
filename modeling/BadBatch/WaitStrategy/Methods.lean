import BadBatch.Lib.Observer
import BadBatch.Sequence

/-!
# The wait methods

The three wait methods of the built-in strategies, look by look: `wait_for_with_alert`, `wait_for_with_timeout_and_alert` and
`wait_for_with_shutdown_and_alert`. The strategies that poll run the same three loops and differ in what they do between two
polls; `BlockingWaitStrategy` has loops of its own, and the `wait_for_with_shutdown_and_alert` of the trait.

* `Moment`: what one look can show;
* `pollingAlert`, `pollingTimeout`, `pollingShutdown`, `polling`: the strategies that poll;
* `blockingAlert`, `blockingTimeout`, `defaultShutdown`: the blocking strategy;
* `WaitStrategy.method`: all of them.

One scan of the dependent sequences is one look. Of the condition variable the loops take what its library promises: a wait ends
with a notification or, if it has a limit, at some moment after it.
-/

namespace BadBatch

/-- One moment of the world around a wait. -/
structure Moment where
  cursor : Int
  /-- What a scan loads. -/
  sequences : Nat → Int
  alerted : Bool
  shutdownFlag : Bool
  /-- `BlockingState::alerted`, behind the mutex -/
  state : Bool
  /-- The condition variable wakes the call. -/
  notified : Bool
  now : Nat

/-- `wait_available_sequence` -/
def waitAvailableSequence (dependentSequences : List Nat) (m : Moment) : Int :=
  if dependentSequences.isEmpty then m.cursor else getMinimumSequence m.sequences dependentSequences

abbrev WaitResult := Except DisruptorError Int

/-- What a step looks at. -/
inductive Look
  | cursor
  | available
  | alerted
  | shutdownFlag
  | state
  | clock
  | condvar
  | nothing
  deriving DecidableEq, Repr

/-- A wait method of a strategy. -/
structure WaitLoop where
  State : Type
  start : State
  step : State → Moment → State ⊕ WaitResult
  look : State → Look

/-- What is waited for. -/
structure WaitRequest where
  sequence : Int
  dependentSequences : List Nat
  deriving DecidableEq, Repr

/-- The last argument of the three methods; a duration is a number of nanoseconds. -/
inductive WaitMethod
  | alert
  | timeout (timeout : Nat)
  | shutdown
  deriving DecidableEq, Repr

/-! ## Polling -/

/-- Where `wait_for_with_alert` stands. -/
inductive PollAlertPc
  | loadAlerted
  | poll
  | idle
  deriving DecidableEq, Repr

/-- Where `wait_for_with_timeout_and_alert` stands. -/
inductive PollTimeoutPc
  | start
  | loadAlerted
  | poll
  | reloadAlerted
  | elapsed
  | idle
  deriving DecidableEq, Repr

/-- Where `wait_for_with_shutdown_and_alert` stands. -/
inductive PollShutdownPc
  | loadShutdownFlag
  | loadAlerted
  | poll
  | idle
  deriving DecidableEq, Repr

section Polling

variable {κ : Type} (idle : κ → κ) (counter : κ) (c : WaitRequest)

/-- `wait_for_with_alert`; `idle` is what happens to the counter of the call between two polls. -/
def pollingAlert : WaitLoop where
  State := PollAlertPc × κ
  start := (.loadAlerted, counter)
  step
    | (.loadAlerted, k), m => if m.alerted then .inr (.error .alert) else .inl (.poll, k)
    | (.poll, k), m =>
      let available := waitAvailableSequence c.dependentSequences m
      if available ≥ c.sequence then .inr (.ok available) else .inl (.idle, k)
    | (.idle, k), _ => .inl (.loadAlerted, idle k)
  look
    | (.loadAlerted, _) => .alerted
    | (.poll, _) => .available
    | (.idle, _) => .nothing

/-- `wait_for_with_timeout_and_alert`; the number is `start_time`. -/
def pollingTimeout (timeout : Nat) : WaitLoop where
  State := PollTimeoutPc × Nat × κ
  start := (.start, 0, counter)
  step
    | (.start, _, k), m => .inl (.loadAlerted, m.now, k)
    | (.loadAlerted, t, k), m => if m.alerted then .inr (.error .alert) else .inl (.poll, t, k)
    | (.poll, t, k), m =>
      let available := waitAvailableSequence c.dependentSequences m
      if available ≥ c.sequence then .inr (.ok available) else .inl (.reloadAlerted, t, k)
    | (.reloadAlerted, t, k), m => if m.alerted then .inr (.error .alert) else .inl (.elapsed, t, k)
    | (.elapsed, t, k), m => if m.now - t ≥ timeout then .inr (.error .timeout) else .inl (.idle, t, k)
    | (.idle, t, k), _ => .inl (.loadAlerted, t, idle k)
  look
    | (.start, _, _) => .clock
    | (.loadAlerted, _, _) => .alerted
    | (.poll, _, _) => .available
    | (.reloadAlerted, _, _) => .alerted
    | (.elapsed, _, _) => .clock
    | (.idle, _, _) => .nothing

/-- `wait_for_with_shutdown_and_alert` -/
def pollingShutdown : WaitLoop where
  State := PollShutdownPc × κ
  start := (.loadShutdownFlag, counter)
  step
    | (.loadShutdownFlag, k), m => if m.shutdownFlag then .inr (.error .alert) else .inl (.loadAlerted, k)
    | (.loadAlerted, k), m => if m.alerted then .inr (.error .alert) else .inl (.poll, k)
    | (.poll, k), m =>
      let available := waitAvailableSequence c.dependentSequences m
      if available ≥ c.sequence then .inr (.ok available) else .inl (.idle, k)
    | (.idle, k), _ => .inl (.loadShutdownFlag, idle k)
  look
    | (.loadShutdownFlag, _) => .shutdownFlag
    | (.loadAlerted, _) => .alerted
    | (.poll, _) => .available
    | (.idle, _) => .nothing

/-- The three methods. -/
def polling : WaitMethod → WaitLoop
  | .alert => pollingAlert idle counter c
  | .timeout timeout => pollingTimeout idle counter c timeout
  | .shutdown => pollingShutdown idle counter c

end Polling

/-- `SPIN_TRIES` -/
def spinTries : Int := 100

/-- `apply_wait_method`: past the spins the thread yields. -/
def applyWaitMethod (counter : Int) : Int := if counter = 0 then counter else counter - 1

def yieldingWaitStrategy (c : WaitRequest) : WaitMethod → WaitLoop := polling applyWaitMethod spinTries c

/-- `spin_loop` -/
def busySpinWaitStrategy (c : WaitRequest) : WaitMethod → WaitLoop := polling id () c

/-- `thread::sleep`: only time goes by. -/
def sleepingWaitStrategy (c : WaitRequest) : WaitMethod → WaitLoop := polling id () c

/-- The adapter of a `SimpleWaitStrategy`, which is its `backoff_with_miss`. -/
def simpleWaitStrategyAdapter (backoffWithMiss : UInt32 → UInt32) (c : WaitRequest) : WaitMethod → WaitLoop :=
  polling backoffWithMiss 0 c

/-! ## Blocking -/

/-- Where `wait_for_with_alert` of the blocking strategy stands: the loop under the mutex, and the second one. -/
inductive BlockingAlertPc
  | firstLoad
  | loadCursor
  | readState
  | loadAlerted
  | wait
  | poll
  | pollState
  | pollAlerted
  deriving DecidableEq, Repr

/-- Where `wait_for_with_timeout_and_alert` of the blocking strategy stands. -/
inductive BlockingTimeoutPc
  | start
  | firstLoad
  | loadCursor
  | readState
  | loadAlerted
  | elapsed
  | remaining
  /-- `wait_for(remaining)`, which began in time to end at `limit` -/
  | wait (limit : Nat)
  | timedOutState
  | timedOutAlerted
  | poll
  | pollState
  | pollAlerted
  | pollElapsed
  deriving DecidableEq, Repr

/-- `BlockingWaitStrategy::wait_for_with_alert` -/
def blockingAlert (c : WaitRequest) : WaitLoop where
  State := BlockingAlertPc
  start := .firstLoad
  step
    | .firstLoad, m => .inl (if m.cursor < c.sequence then .loadCursor else .poll)
    | .loadCursor, m => .inl (if m.cursor < c.sequence then .readState else .poll)
    | .readState, m => if m.state then .inr (.error .alert) else .inl .loadAlerted
    | .loadAlerted, m => if m.alerted then .inr (.error .alert) else .inl .wait
    | .wait, m => .inl (if m.notified then .loadCursor else .wait)
    | .poll, m =>
      let available := waitAvailableSequence c.dependentSequences m
      if available ≥ c.sequence then .inr (.ok available) else .inl .pollState
    -- `is_alerted_with`
    | .pollState, m => if m.state then .inr (.error .alert) else .inl .pollAlerted
    | .pollAlerted, m => if m.alerted then .inr (.error .alert) else .inl .poll
  look
    | .firstLoad => .cursor
    | .loadCursor => .cursor
    | .readState => .state
    | .loadAlerted => .alerted
    | .wait => .condvar
    | .poll => .available
    | .pollState => .state
    | .pollAlerted => .alerted

/-- `BlockingWaitStrategy::wait_for_with_timeout_and_alert`; the number is `start_time`. -/
def blockingTimeout (c : WaitRequest) (timeout : Nat) : WaitLoop where
  State := BlockingTimeoutPc × Nat
  start := (.start, 0)
  step
    | (.start, _), m => .inl (.firstLoad, m.now)
    | (.firstLoad, t), m => .inl (if m.cursor < c.sequence then .loadCursor else .poll, t)
    | (.loadCursor, t), m => .inl (if m.cursor < c.sequence then .readState else .poll, t)
    | (.readState, t), m => if m.state then .inr (.error .alert) else .inl (.loadAlerted, t)
    | (.loadAlerted, t), m => if m.alerted then .inr (.error .alert) else .inl (.elapsed, t)
    | (.elapsed, t), m => if m.now - t ≥ timeout then .inr (.error .timeout) else .inl (.remaining, t)
    | (.remaining, t), m =>
      let remaining := timeout - (m.now - t)
      if remaining = 0 then .inr (.error .timeout) else .inl (.wait (m.now + remaining), t)
    | (.wait limit, t), m =>
      if m.notified then .inl (.loadCursor, t)
      else if limit ≤ m.now then .inl (.timedOutState, t)
      else .inl (.wait limit, t)
    | (.timedOutState, t), m => if m.state then .inr (.error .alert) else .inl (.timedOutAlerted, t)
    | (.timedOutAlerted, _), m => if m.alerted then .inr (.error .alert) else .inr (.error .timeout)
    | (.poll, t), m =>
      let available := waitAvailableSequence c.dependentSequences m
      if available ≥ c.sequence then .inr (.ok available) else .inl (.pollState, t)
    | (.pollState, t), m => if m.state then .inr (.error .alert) else .inl (.pollAlerted, t)
    | (.pollAlerted, t), m => if m.alerted then .inr (.error .alert) else .inl (.pollElapsed, t)
    | (.pollElapsed, t), m => if m.now - t ≥ timeout then .inr (.error .timeout) else .inl (.poll, t)
  look
    | (.start, _) => .clock
    | (.firstLoad, _) => .cursor
    | (.loadCursor, _) => .cursor
    | (.readState, _) => .state
    | (.loadAlerted, _) => .alerted
    | (.elapsed, _) => .clock
    | (.remaining, _) => .clock
    | (.wait _, _) => .condvar
    | (.timedOutState, _) => .state
    | (.timedOutAlerted, _) => .alerted
    | (.poll, _) => .available
    | (.pollState, _) => .state
    | (.pollAlerted, _) => .alerted
    | (.pollElapsed, _) => .clock

/-- Where the `wait_for_with_shutdown_and_alert` of the trait stands: at a flag, or inside `wait_for_with_timeout_and_alert`. -/
inductive DefaultShutdownPc (σ : Type)
  | loadShutdownFlag
  | loadAlerted
  | waiting (s : σ)
  deriving DecidableEq, Repr

/-- `check_interval`, one millisecond -/
def checkInterval : Nat := 1000000

/-- `WaitStrategy::wait_for_with_shutdown_and_alert`; `inner` waits for one `check_interval`. -/
def defaultShutdown (inner : WaitLoop) : WaitLoop where
  State := DefaultShutdownPc inner.State
  start := .loadShutdownFlag
  step
    | .loadShutdownFlag, m => if m.shutdownFlag then .inr (.error .alert) else .inl .loadAlerted
    | .loadAlerted, m => if m.alerted then .inr (.error .alert) else .inl (.waiting inner.start)
    | .waiting s, m =>
      match inner.step s m with
      | .inl s => .inl (.waiting s)
      | .inr (.error .timeout) => .inl .loadShutdownFlag
      | .inr r => .inr r
  look
    | .loadShutdownFlag => .shutdownFlag
    | .loadAlerted => .alerted
    | .waiting s => inner.look s

def blockingWaitStrategy (c : WaitRequest) : WaitMethod → WaitLoop
  | .alert => blockingAlert c
  | .timeout timeout => blockingTimeout c timeout
  | .shutdown => defaultShutdown (blockingTimeout c checkInterval)

/-! ## All strategies -/

/-- The built-in strategies. -/
inductive WaitStrategy
  | blocking
  | yielding
  | busySpin
  | sleeping
  | simple (backoffWithMiss : UInt32 → UInt32)

/-- A wait method of a strategy. -/
def WaitStrategy.method (w : WaitStrategy) (c : WaitRequest) : WaitMethod → WaitLoop :=
  match w with
  | blocking => blockingWaitStrategy c
  | yielding => yieldingWaitStrategy c
  | busySpin => busySpinWaitStrategy c
  | sleeping => sleepingWaitStrategy c
  | simple backoffWithMiss => simpleWaitStrategyAdapter backoffWithMiss c

end BadBatch
