import BadBatch.Producer.Feed

/-!
# The blocking wait strategy

`BlockingWaitStrategy` parks a consumer on a condition variable until a publisher, an alert, `poison` or `close` signals. The
cursor and the alert flags are changed outside the mutex; only the waiters' loop and `signal_all_when_blocking` take it.
Each load, store, lock, unlock, park and notification is one step here. Of the mutex and the condition variable the model
takes what their library promises: the mutex is exclusive, a wait releases it and parks in one step, and `notify_all` wakes
every parked thread, which then has to take the mutex again.

* `waiterStep`: `wait_for` of a barrier over `wait_for_with_alert`, load by load;
* `BlockingWorld.step`: waiters, producers and any threads that alert, poison or close.
-/

namespace BadBatch

/-- Who may hold the mutex: consumers that wait, producers, and other threads. -/
inductive Party
  | waiter (k : Nat)
  | producer (p : Nat)
  | caller (t : Nat)
  deriving DecidableEq, Repr

/-- Where a consumer stands inside `wait_for(sequence)`. -/
inductive WaiterPc
  /-- In the code of the barrier, before or after the strategy. -/
  | barrier (pc : BarrierPc)
  /-- `cursor.get() < sequence`, without the mutex -/
  | firstLoad (sequence : Int)
  | lock (sequence : Int)
  /-- The loop under the mutex: the cursor, the two alert flags, the condition variable. -/
  | loadCursor (sequence : Int)
  | readAlerted (sequence : Int)
  | loadAlert (sequence : Int)
  | park (sequence : Int)
  | parked (sequence : Int)
  | relock (sequence : Int)
  /-- The guard is dropped, at the end of the loop or with the error. -/
  | unlock (sequence : Int) (reached : Bool)
  /-- The second loop: the cursor or the dependent sequences. -/
  | poll (sequence : Int)
  | scan (sequence : Int) (rest : List Nat) (minimum : Int)
  /-- `is_alerted_with` -/
  | pollLock (sequence : Int)
  | pollRead (sequence : Int)
  | pollUnlock (sequence : Int) (alerted : Bool)
  | pollAlert (sequence : Int)
  deriving DecidableEq, Repr

/-- A consumer: the barrier it waits on, and where it stands. -/
structure Waiter where
  barrier : Nat
  pc : WaiterPc
  deriving DecidableEq, Repr

/-- What a step does to the mutex. -/
inductive MutexEffect
  | keep
  | acquire
  | release
  deriving DecidableEq, Repr

/-- The strategy has returned an alert. -/
def WaiterPc.alerted : WaiterPc := .barrier (.returned (.error .alert))

/-- A poll of the second loop has shown `available`. -/
def WaiterPc.polled (sequence available : Int) : WaiterPc :=
  if sequence ≤ available then .barrier (.recheck .waitFor sequence available) else .pollLock sequence

/-- `wait_for` calls the strategy. -/
def WaiterPc.ofBarrier : BarrierPc → WaiterPc
  | .waiting _ sequence => .firstLoad sequence
  | pc => .barrier pc

/-- One step of a consumer. `alerted` is the flag of its barrier, `state` the one behind the mutex. -/
def waiterStep (b : BufferSize) (w : SequencerWorld) (deps : List Nat) (alerted state : Bool) :
    WaiterPc → Option (WaiterPc × MutexEffect)
  | .barrier pc => (barrierStep b w deps alerted false pc .next).map fun pc' => (.ofBarrier pc', .keep)
  | .firstLoad s => some (if w.cursor < s then .lock s else .poll s, .keep)
  | .lock s => some (.loadCursor s, .acquire)
  | .loadCursor s => some (if w.cursor < s then .readAlerted s else .unlock s true, .keep)
  | .readAlerted s => some (if state then .unlock s false else .loadAlert s, .keep)
  | .loadAlert s => some (if alerted then .unlock s false else .park s, .keep)
  | .park s => some (.parked s, .release)
  | .parked _ => none
  | .relock s => some (.loadCursor s, .acquire)
  | .unlock s reached => some (if reached then .poll s else .alerted, .release)
  | .poll s =>
    match deps with
    | [] => some (.polled s w.cursor, .keep)
    | i :: rest => some (.scan s rest (w.sequences i), .keep)
  | .scan s (i :: rest) minimum => some (.scan s rest (lower minimum (w.sequences i)), .keep)
  | .scan s [] minimum => some (.polled s minimum, .keep)
  | .pollLock s => some (.pollRead s, .acquire)
  | .pollRead s => some (.pollUnlock s state, .keep)
  | .pollUnlock s al => some (if al then .alerted else .pollAlert s, .release)
  | .pollAlert s => some (if alerted then .alerted else .poll s, .keep)

/-- Where a thread stands in a call that takes the mutex to notify, or to set the flag behind it. -/
inductive SignalPc
  | none
  /-- `signal_all_when_blocking` -/
  | lock
  | notify
  | unlock
  /-- `BlockingWaitStrategy::alert` -/
  | alertLock
  | alertStore
  /-- `BlockingWaitStrategy::clear_alert` -/
  | clearLock
  | clearStore
  deriving DecidableEq, Repr

/-- The thread will notify: it has not done so yet. -/
def SignalPc.due : SignalPc → Bool
  | .lock => true
  | .notify => true
  | _ => false

/-! ## The whole system -/

/-- The producers and the ring, the mutex with the flag behind it, the flags of the barriers, the consumers, and everyone
who signals. `unsignalled` is history: the producers that have moved the cursor since they last notified. -/
structure BlockingWorld (E : Type) where
  feed : Feed E
  mutex : Option Party
  alerted : Bool
  barriers : Nat → Bool
  waiters : Nat → Waiter
  signals : Party → SignalPc
  unsignalled : Nat → Bool

/-- One step of one party. -/
inductive BlockingAction (E : Type)
  | feed (a : FeedAction E)
  /-- A consumer moves its sequence, or a gating sequence comes or goes. -/
  | sequences (a : SequencerAction)
  /-- Consumer `k` calls `wait_for(sequence)` on a barrier. -/
  | waitFor (k barrier : Nat) (sequence : Int)
  | waiter (k : Nat)
  /-- Thread `t` alerts a barrier. -/
  | alert (t barrier : Nat)
  | clearAlert (barrier : Nat)
  | poison (t : Nat)
  | close (t : Nat)
  | reopen
  | strategyAlert (t : Nat)
  | strategyClearAlert (t : Nat)
  /-- The next step of a call that takes the mutex. -/
  | signal (party : Party)

/-- Consumers move sequences and change the gating set. -/
def SequencerAction.isConsumers : SequencerAction → Bool
  | advance _ _ => true
  | addGatingSequences _ => true
  | removeGatingSequence _ => true
  | _ => false

namespace BlockingWorld

variable {E : Type}

/-- A fresh pipeline over a blocking strategy; nobody waits yet. -/
def init (b : BufferSize) (multiProducer unique : Bool) (gating : List Nat) (ring : Nat → E) : BlockingWorld E where
  feed := ⟨.init b multiProducer unique gating, fun _ => .idle, ring, fun _ => none, none⟩
  mutex := none
  alerted := false
  barriers := fun _ => false
  waiters := fun _ => ⟨0, .barrier .idle⟩
  signals := fun _ => .none
  unsignalled := fun _ => false

/-- Consumer `k` moves on. -/
def goto (w : BlockingWorld E) (k : Nat) (pc : WaiterPc) : BlockingWorld E :=
  { w with waiters := Function.update w.waiters k ⟨(w.waiters k).barrier, pc⟩ }

/-- A signalling call moves on. -/
def gotoSignal (w : BlockingWorld E) (party : Party) (pc : SignalPc) : BlockingWorld E :=
  { w with signals := Function.update w.signals party pc }

/-- `notify_all`: every parked consumer goes for the mutex. -/
def wake (waiters : Nat → Waiter) (k : Nat) : Waiter :=
  match (waiters k).pc with
  | .parked s => ⟨(waiters k).barrier, .relock s⟩
  | _ => waiters k

/-- After the step `a`, which led to `f`, producer `p` goes on to `signal_all_when_blocking`: when it has made the last store
of a publication, and when it has poisoned the sequencer. -/
def signalsAfter (f : Feed E) (p : Nat) : FeedAction E → Bool
  | .step _ => f.phases p == .publishing && (f.world.result p).isSome
  | .poison _ => true
  | _ => false

/-- A step of producer `p` on the feed. -/
def feedStep (b : BufferSize) (w : BlockingWorld E) (p : Nat) (a : FeedAction E) : Option (BlockingWorld E) :=
  if w.signals (.producer p) = .none then
    (w.feed.step b a).map fun f =>
      { w with
        feed := f
        signals := if signalsAfter f p a then Function.update w.signals (.producer p) .lock else w.signals
        unsignalled := Function.update w.unsignalled p (w.unsignalled p || decide (f.world.cursor ≠ w.feed.world.cursor)) }
  else none

/-- What is left unsignalled after a notification by `party`. -/
def notified (unsignalled : Nat → Bool) : Party → Nat → Bool
  | .producer p => Function.update unsignalled p false
  | _ => unsignalled

/-- One step of a signalling call. -/
def signalStep (w : BlockingWorld E) (party : Party) : Option (BlockingWorld E) :=
  match w.signals party with
  | .none => none
  | .lock => if w.mutex = none then some ({ w with mutex := some party }.gotoSignal party .notify) else none
  | .notify =>
    some ({ w with waiters := wake w.waiters, unsignalled := notified w.unsignalled party }.gotoSignal party .unlock)
  | .unlock => some ({ w with mutex := none }.gotoSignal party .none)
  | .alertLock => if w.mutex = none then some ({ w with mutex := some party }.gotoSignal party .alertStore) else none
  | .alertStore => some ({ w with alerted := true }.gotoSignal party .notify)
  | .clearLock => if w.mutex = none then some ({ w with mutex := some party }.gotoSignal party .clearStore) else none
  | .clearStore => some ({ w with alerted := false }.gotoSignal party .unlock)

/-- One step. -/
def step (b : BufferSize) (deps : Nat → List Nat) (w : BlockingWorld E) : BlockingAction E → Option (BlockingWorld E)
  | .feed a =>
    match a.producer with
    | some p => w.feedStep b p a
    | none => none
  | .sequences a =>
    if a.isConsumers then (w.feed.world.step b a).map fun s => { w with feed := { w.feed with world := s } } else none
  | .waitFor k barrier s =>
    match (w.waiters k).pc with
    | .barrier .idle | .barrier (.returned _) =>
      some { w with waiters := Function.update w.waiters k ⟨barrier, .barrier (barrierStart .waitFor false s)⟩ }
    | _ => none
  | .waiter k =>
    match waiterStep b w.feed.world (deps (w.waiters k).barrier) (w.barriers (w.waiters k).barrier) w.alerted
      (w.waiters k).pc with
    | some (pc, .keep) => some (w.goto k pc)
    | some (pc, .acquire) => if w.mutex = none then some ({ w with mutex := some (.waiter k) }.goto k pc) else none
    | some (pc, .release) => some ({ w with mutex := none }.goto k pc)
    | none => none
  | .alert t barrier =>
    if w.signals (.caller t) = .none then
      some ({ w with barriers := Function.update w.barriers barrier true }.gotoSignal (.caller t) .lock)
    else none
  | .clearAlert barrier => some { w with barriers := Function.update w.barriers barrier false }
  | .poison t =>
    if w.signals (.caller t) = .none then
      (w.feed.world.step b .poison).map fun s =>
        { w with feed := { w.feed with world := s } }.gotoSignal (.caller t) .lock
    else none
  | .close t =>
    if w.signals (.caller t) = .none then
      (w.feed.step b .close).map fun f => { w with feed := f }.gotoSignal (.caller t) .lock
    else none
  | .reopen => (w.feed.step b .reopen).map fun f => { w with feed := f }
  | .strategyAlert t => if w.signals (.caller t) = .none then some (w.gotoSignal (.caller t) .alertLock) else none
  | .strategyClearAlert t =>
    if w.signals (.caller t) = .none then some (w.gotoSignal (.caller t) .clearLock) else none
  | .signal party => w.signalStep party

end BlockingWorld

end BadBatch
