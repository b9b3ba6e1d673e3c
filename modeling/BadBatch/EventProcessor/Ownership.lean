import BadBatch.EventProcessor.Probe

/-!
# Who owns a processor

Any number of threads call `run`, `try_run_once` and `halt` on one `BatchEventProcessor`. They meet in the `running` flag, the
alert flag of the barrier and the lock around the handler; each access to one of these is one step. `running` does not say
whose claim it is: `halt` takes it back while its owner is still inside, a probe that fails releases it before its guard does
so again, and a `run` releases it once more after its loop.

* `ProcessorWorld.step`: the threads;
* `Owned`: what the log of a run says about claims, loops and `on_start`;
* `ClaimsAlone`: no claim is made while an earlier owner is still inside;
* `OwnerInv`, `ownerInv_step`: then there is one owner at a time.
-/

namespace BadBatch

open StepSys

/-- What follows the drop of the handler guard. -/
inductive AfterUnlock
  /-- `invoke_on_start` returns. -/
  | complete (started : Bool)
  /-- `self.invoke_on_shutdown()` behind the loop -/
  | shutdown
  /-- `process_events` returns. -/
  | release
  /-- `process_events` unwinds. -/
  | panicRelease
  /-- `RunningClaimGuard::drop` at the end of a probe -/
  | probeDrop (e : ProcessorExit)
  deriving DecidableEq, Repr

/-- Where a thread stands. -/
inductive ProcessorPc
  | idle
  | returned (e : ProcessorExit)
  /-- `running.compare_exchange(false, true)` of `run` -/
  | runClaim
  /-- `startup_complete.store(false)` -/
  | reset
  /-- `sequence_barrier.clear_alert()` -/
  | clearAlert
  /-- `event_handler.try_lock()` of `invoke_on_start` -/
  | tryLockStart
  | onStart
  /-- `startup_complete.store(true)` -/
  | complete (started : Bool)
  /-- `running.store(false)` after a failed start -/
  | abandon
  /-- `if !self.running.load()` before the loop -/
  | checkRunning
  /-- `event_handler.lock()` -/
  | lockLoop
  /-- `while stop.should_continue()` -/
  | loop
  /-- `StopFlag::Running`: the flag at the start of a wait -/
  | waitFlag
  /-- `check_alert` -/
  | waitAlert
  /-- Inside the wait strategy. -/
  | waiting
  /-- The wait failed with an error that is retried unless the stop flag flipped. -/
  | waitErr
  /-- The handler works on a batch. -/
  | batch (available : Int)
  /-- `event_handler.try_lock()` of `invoke_on_shutdown` -/
  | tryLockShutdown
  | onShutdown
  /-- `running.store(false)` of `run`, behind `catch_unwind` -/
  | panicRelease
  /-- `running.store(false)` at the end of `run` -/
  | release
  /-- The handler guard is dropped. -/
  | unlock (next : AfterUnlock)
  /-- `running.compare_exchange(false, true)` of `try_run_once` -/
  | probeClaim
  /-- `event_handler.try_lock()` of `try_run_once` -/
  | probeLock
  /-- Inside `try_get_available_sequence`. -/
  | probeBarrier
  /-- `if !self.running.load()` -/
  | probeCheck (available : Int)
  /-- The handler works on a batch. -/
  | probeBatch (available : Int)
  /-- `running.store(false)` on the way out of a failed batch -/
  | probeStore (e : ProcessorExit)
  /-- `RunningClaimGuard::drop` -/
  | probeDrop (e : ProcessorExit)
  /-- `running.store(false)` of `halt` -/
  | haltStore
  /-- `sequence_barrier.alert()` of `halt` -/
  | haltAlert
  deriving DecidableEq, Repr

def AfterUnlock.pc : AfterUnlock → ProcessorPc
  | complete started => .complete started
  | shutdown => .tryLockShutdown
  | release => .release
  | panicRelease => .panicRelease
  | probeDrop e => .probeDrop e

/-- The calls of a thread. -/
inductive ProcessorCall
  | run
  | tryRunOnce
  | halt
  deriving DecidableEq, Repr

def ProcessorCall.start : ProcessorCall → ProcessorPc
  | run => .runClaim
  | tryRunOnce => .probeClaim
  | halt => .haltStore

/-- What the environment supplies to one step of a thread. -/
inductive ProcessorInput (E : Type)
  /-- Nothing: the step is an access to a flag or the lock. -/
  | tick
  /-- The barrier returns. -/
  | answer (r : Except DisruptorError Int)
  /-- `on_start` or `on_shutdown` returns. -/
  | callback (r : Callback)
  /-- The callbacks of a batch. -/
  | batch (p : BatchPattern E)

/-- One step of a thread. -/
inductive ProcessorAction (E : Type)
  | call (t : Nat) (c : ProcessorCall)
  | step (t : Nat) (i : ProcessorInput E)

/-- What the log records. -/
inductive ProcessorEvent
  /-- The `compare_exchange` of `t` has set `running`. -/
  | claimed (t : Nat)
  /-- A probe of `t` has reset `running`, which was true. -/
  | reset (t : Nat)
  /-- A `halt` has reset `running` or set the alert. -/
  | halted
  /-- `t` has called `on_start`. -/
  | started (t : Nat)
  /-- `t` enters its processing loop. -/
  | entered (t : Nat)
  /-- `t` leaves its processing loop; `failed` when its handler has failed. -/
  | left (t : Nat) (failed : Bool)
  deriving DecidableEq, Repr

/-- One `BatchEventProcessor` with the threads that use it. `inside` and `log` are history: the threads between a successful
claim and their return, and the events so far, newest first. -/
structure ProcessorWorld (E : Type) where
  running : Bool
  alerted : Bool
  startupComplete : Bool
  handlerLock : Option Nat
  consumer : Consumer E
  threads : Nat → ProcessorPc
  inside : List Nat
  log : List ProcessorEvent

variable {E : Type}

/-- A probe that ends so stores `running` itself, before its guard does. A panic of `on_batch_start` is not caught. -/
def ProcessorExit.stores (p : BatchPattern E) : ProcessorExit → Bool
  | .returned (.error _) => true
  | .panicked => p.onBatchStart != .panic
  | _ => false

namespace ProcessorWorld

/-- `BatchEventProcessor::new` -/
def new (ring : Nat → E) : ProcessorWorld E where
  running := false
  alerted := false
  startupComplete := false
  handlerLock := none
  consumer := (Processor.new ring).consumer
  threads := fun _ => .idle
  inside := []
  log := []

variable (w : ProcessorWorld E) (t : Nat)

/-- Thread `t` moves on. -/
def goto (pc : ProcessorPc) : ProcessorWorld E := { w with threads := Function.update w.threads t pc }

def logged (e : ProcessorEvent) : ProcessorWorld E := { w with log := e :: w.log }

/-- `running.compare_exchange(false, true)` -/
def claim (pc refused : ProcessorPc) : ProcessorWorld E :=
  if w.running then w.goto t refused
  else ({ w with running := true, inside := t :: w.inside }.logged (.claimed t)).goto t pc

/-- `event_handler.try_lock()` -/
def tryLock (pc contended : ProcessorPc) : ProcessorWorld E :=
  if w.handlerLock = none then { w with handlerLock := some t }.goto t pc else w.goto t contended

/-- `t` leaves the loop and drops the handler guard. -/
def leave (failed : Bool) (next : AfterUnlock) : ProcessorWorld E := (w.logged (.left t failed)).goto t (.unlock next)

/-- A store of `false` by the probe of `t`. -/
def reset : ProcessorWorld E := { if w.running then w.logged (.reset t) else w with running := false }

/-- The call of `t` returns. -/
def exit (e : ProcessorExit) : ProcessorWorld E := { w with inside := w.inside.erase t }.goto t (.returned e)

/-- One step of thread `t`. -/
def threadStep (b : BufferSize) : ProcessorPc → ProcessorInput E → Option (ProcessorWorld E)
  | .runClaim, .tick => some (w.claim t .reset (.returned .alreadyRunning))
  | .reset, .tick => some ({ w with startupComplete := false }.goto t .clearAlert)
  | .clearAlert, .tick => some ({ w with alerted := false }.goto t .tryLockStart)
  -- a contended lock counts as started
  | .tryLockStart, .tick => some (w.tryLock t .onStart (.complete true))
  | .onStart, .callback r =>
    let w := { w with consumer := w.consumer.called (.onStart r) }.logged (.started t)
    match r with
    | .ok => some (w.goto t (.unlock (.complete true)))
    | .err =>
      let consumer := (w.consumer.poisonWithFailure ⟨.handlerStart, none, none⟩).called .handleOnStartException
      some ({ w with consumer := consumer }.goto t (.unlock (.complete false)))
    | .panic => some (w.goto t (.unlock .panicRelease))
  | .complete started, .tick =>
    some ({ w with startupComplete := true }.goto t (if started then .checkRunning else .abandon))
  | .abandon, .tick => some ({ w with running := false }.goto t .release)
  | .checkRunning, .tick => some (w.goto t (if w.running then .lockLoop else .tryLockShutdown))
  | .lockLoop, .tick =>
    if w.handlerLock = none then some (({ w with handlerLock := some t }.logged (.entered t)).goto t .loop) else none
  | .loop, .tick => some (if w.running then w.goto t .waitFlag else w.leave t false .shutdown)
  | .waitFlag, .tick => some (if w.running then w.goto t .waitAlert else w.leave t false .shutdown)
  | .waitAlert, .tick => some (if w.alerted then w.leave t false .shutdown else w.goto t .waiting)
  -- the wait strategy, or the check behind it, loads the alert flag
  | .waiting, .tick => some (if w.alerted then w.leave t false .shutdown else w)
  | .waiting, .answer (.ok available) =>
    some (w.goto t (if available < w.consumer.sequence + 1 then .loop else .batch available))
  | .waiting, .answer (.error e) => if endsLoop e then none else some (w.goto t .waitErr)
  | .waitErr, .tick => some (if w.running then w.goto t .loop else w.leave t false .shutdown)
  | .batch available, .batch p =>
    match runBatch b processorConfig p (w.consumer.sequence + 1) available w.consumer with
    | (.went _, consumer) => some ({ w with consumer := consumer }.goto t .loop)
    | (.panicked, consumer) => some ({ w with consumer := consumer }.leave t true .panicRelease)
    | (_, consumer) => some ({ w with consumer := consumer }.leave t true .shutdown)
  | .tryLockShutdown, .tick => some (w.tryLock t .onShutdown .release)
  | .onShutdown, .callback r =>
    match Processor.invokeOnShutdown r w.consumer with
    | (.panicked, consumer) => some ({ w with consumer := consumer }.goto t (.unlock .panicRelease))
    | (_, consumer) => some ({ w with consumer := consumer }.goto t (.unlock .release))
  | .panicRelease, .tick =>
    let consumer := w.consumer.poisonWithFailure ⟨.consumerPanic, none, none⟩
    some ({ w with consumer := consumer, running := false }.exit t .panicked)
  | .release, .tick => some ({ w with running := false }.exit t (.returned (.ok true)))
  | .unlock next, .tick => some ({ w with handlerLock := none }.goto t next.pc)
  | .probeClaim, .tick => some (w.claim t .probeLock (.returned (.returned (.ok false))))
  | .probeLock, .tick => some (w.tryLock t .probeBarrier (.probeDrop (.returned (.ok false))))
  | .probeBarrier, .answer (.error e) =>
    if e = .alert ∧ w.alerted = false then none else some (w.goto t (.unlock (.probeDrop (.returned (.error e)))))
  | .probeBarrier, .answer (.ok available) => some (w.goto t (.probeCheck available))
  | .probeCheck available, .tick =>
    some (w.goto t (if w.running then .probeBatch available else .unlock (.probeDrop (.returned (.error .alert)))))
  | .probeBatch available, .batch p =>
    let (e, consumer) := Processor.probe b p (.ok available) w.consumer
    some ({ w with consumer := consumer }.goto t (if e.stores p then .probeStore e else .unlock (.probeDrop e)))
  | .probeStore e, .tick => some ((w.reset t).goto t (.unlock (.probeDrop e)))
  | .probeDrop e, .tick => some ((w.reset t).exit t e)
  | .haltStore, .tick => some (({ w with running := false }.logged .halted).goto t .haltAlert)
  | .haltAlert, .tick => some (({ w with alerted := true }.logged .halted).goto t .idle)
  | _, _ => none

/-- One step of a thread. -/
def step (b : BufferSize) (w : ProcessorWorld E) : ProcessorAction E → Option (ProcessorWorld E)
  | .call t c =>
    match w.threads t with
    | .idle | .returned _ => some (w.goto t c.start)
    | _ => none
  | .step t i => w.threadStep t b (w.threads t) i

end ProcessorWorld

/-! ## The log -/

/-- Whose claim was the last one. -/
def lastClaim : List ProcessorEvent → Option Nat
  | [] => none
  | .claimed t :: _ => some t
  | _ :: log => lastClaim log

/-- The events since the last claim of `t`. -/
def since (t : Nat) : List ProcessorEvent → List ProcessorEvent
  | [] => []
  | e :: log => if e = .claimed t then [] else e :: since t log

/-- A probe resets `running` only while the true value is the one its own claim has set; a run leaves its loop because of a
halt since its claim or because its handler failed; and it enters its loop after its `on_start`. -/
structure Owned (log : List ProcessorEvent) : Prop where
  resets : ∀ t before, .reset t :: before <:+ log → lastClaim before = some t
  leaves : ∀ t before, .left t false :: before <:+ log → .halted ∈ since t before
  enters : ∀ t before, .entered t :: before <:+ log → .started t ∈ since t before

/-- The claims are made one after the other: when a `compare_exchange` is about to succeed, no thread is still inside a call
whose claim succeeded. -/
def ClaimsAlone (w : ProcessorWorld E) : ProcessorAction E → Prop
  | .step t _ => w.threads t = .runClaim ∨ w.threads t = .probeClaim → w.running = false → w.inside = []
  | .call _ _ => True

instance (w : ProcessorWorld E) : ∀ a, Decidable (ClaimsAlone w a)
  | .step t _ => inferInstanceAs (Decidable (w.threads t = .runClaim ∨ w.threads t = .probeClaim → w.running = false →
      w.inside = []))
  | .call _ _ => inferInstanceAs (Decidable True)

/-- What `e` must find in the log before it. -/
def ProcessorEvent.Ok (before : List ProcessorEvent) : ProcessorEvent → Prop
  | .reset t => lastClaim before = some t
  | .left t false => .halted ∈ since t before
  | .entered t => .started t ∈ since t before
  | _ => True

section Log

variable {log : List ProcessorEvent} {e : ProcessorEvent} {t : Nat}

theorem owned_nil : Owned [] where
  resets t before h := by simpa using List.suffix_nil.mp h
  leaves t before h := by simpa using List.suffix_nil.mp h
  enters t before h := by simpa using List.suffix_nil.mp h

theorem Owned.cons (h : Owned log) (he : e.Ok log) : Owned (e :: log) where
  resets t before hs := by
    rcases List.suffix_cons_iff.mp hs with heq | hs
    · cases heq
      exact he
    · exact h.resets t before hs
  leaves t before hs := by
    rcases List.suffix_cons_iff.mp hs with heq | hs
    · cases heq
      exact he
    · exact h.leaves t before hs
  enters t before hs := by
    rcases List.suffix_cons_iff.mp hs with heq | hs
    · cases heq
      exact he
    · exact h.enters t before hs

/-- Only a claim is forgotten about. -/
theorem since_cons (he : e ≠ .claimed t) : since t (e :: log) = e :: since t log := if_neg he

theorem lastClaim_cons (he : ∀ t, e ≠ .claimed t) : lastClaim (e :: log) = lastClaim log := by
  cases e with
  | claimed t => exact absurd rfl (he t)
  | _ => rfl

end Log

/-! ## One owner -/

/-- The thread is between a successful claim and its return. -/
def ProcessorPc.claimed : ProcessorPc → Bool
  | .idle | .returned _ | .runClaim | .probeClaim | .haltStore | .haltAlert => false
  | _ => true

/-- The thread holds the handler lock. -/
def ProcessorPc.holdsLock : ProcessorPc → Bool
  | .onStart | .loop | .waitFlag | .waitAlert | .waiting | .waitErr | .batch _ | .onShutdown | .unlock _ | .probeBarrier
  | .probeCheck _ | .probeBatch _ | .probeStore _ => true
  | _ => false

/-- A run that has called `on_start` with success, up to the end of its loop. -/
def ProcessorPc.started : ProcessorPc → Bool
  | .unlock (.complete started) | .complete started => started
  | .checkRunning | .lockLoop | .loop | .waitFlag | .waitAlert | .waiting | .waitErr | .batch _ => true
  | _ => false

/-- A run that has cleared the alert, up to the end of its loop. -/
def ProcessorPc.cleared : ProcessorPc → Bool
  | .tryLockStart | .onStart | .unlock (.complete _) | .complete _ => true
  | pc => pc.started

/-- A run up to the end of its loop. -/
def ProcessorPc.inRun : ProcessorPc → Bool
  | .reset | .clearAlert => true
  | pc => pc.cleared

/-- What the owner `t` of the processor finds in the log. -/
structure OwnerKnows (w : ProcessorWorld E) (t : Nat) (pc : ProcessorPc) : Prop where
  last : lastClaim w.log = some t
  running : pc.inRun = true → w.running = false → .halted ∈ since t w.log
  alerted : pc.cleared = true → w.alerted = true → .halted ∈ since t w.log
  started : pc.started = true → .started t ∈ since t w.log

/-- There is at most one owner, and only the owner holds the lock. -/
structure OwnerInv (w : ProcessorWorld E) : Prop where
  owned : Owned w.log
  one : w.inside = [] ∨ ∃ t, w.inside = [t]
  claimed : ∀ t, (w.threads t).claimed = true ↔ w.inside = [t]
  free : w.inside = [] → w.running = false
  lock : ∀ t, w.handlerLock = some t ↔ (w.threads t).holdsLock = true
  owner : ∀ t, w.inside = [t] → OwnerKnows w t (w.threads t)

section Owner

variable {b : BufferSize} {w w' : ProcessorWorld E} {t u : Nat} {pc pc' : ProcessorPc} {i : ProcessorInput E}
  {e : ProcessorEvent}

theorem ownerInv_new (ring : Nat → E) : OwnerInv (ProcessorWorld.new ring) where
  owned := owned_nil
  one := .inl rfl
  claimed t := by simp [ProcessorWorld.new, ProcessorPc.claimed]
  free _ := rfl
  lock t := by simp [ProcessorWorld.new, ProcessorPc.holdsLock]
  owner t ht := by cases ht

theorem ProcessorPc.claimed_of_holdsLock (h : pc.holdsLock = true) : pc.claimed = true := by
  cases pc <;> first | rfl | cases h

/-- The lock is free or the owner's. -/
theorem OwnerInv.lock_eq (h : OwnerInv w) (hu : w.inside = [u]) :
    w.handlerLock = if (w.threads u).holdsLock then some u else none := by
  cases hl : w.handlerLock with
  | none =>
    have hfree : ¬(w.threads u).holdsLock = true := fun hh => by
      rw [(h.lock u).mpr hh] at hl
      cases hl
    rw [if_neg hfree]
  | some t =>
    have hh := (h.lock t).mp hl
    have ht := (h.claimed t).mp (ProcessorPc.claimed_of_holdsLock hh)
    obtain rfl : u = t := by simpa [hu] using ht
    rw [if_pos hh]

/-- Nobody else is inside. -/
theorem OwnerInv.not_claimed (h : OwnerInv w) (hu : w.inside = [u]) (ht : t ≠ u) : (w.threads t).claimed = false := by
  by_contra hc
  have := (h.claimed t).mp (by simpa using hc)
  rw [hu] at this
  exact ht (by simpa using this.symm)

/-- A move of the owner. -/
theorem OwnerInv.move (h : OwnerInv w) (hu : w.inside = [u]) (hthreads : w'.threads = Function.update w.threads u pc')
    (hclaimed : pc'.claimed = true) (hinside : w'.inside = w.inside)
    (hlock : w'.handlerLock = if pc'.holdsLock then some u else none) (howned : Owned w'.log) (hok : OwnerKnows w' u pc') :
    OwnerInv w' := by
  have hself : w'.threads u = pc' := by rw [hthreads, Function.update_self]
  have hother : ∀ {t}, t ≠ u → w'.threads t = w.threads t := fun ht => by rw [hthreads, Function.update_of_ne ht]
  refine ⟨howned, .inr ⟨u, hinside.trans hu⟩, fun t => ?_, fun hn => ?_, fun t => ?_, fun t ht => ?_⟩
  · by_cases htu : t = u
    · subst htu
      rw [hself, hinside, hu]
      exact ⟨fun _ => rfl, fun _ => hclaimed⟩
    · rw [hother htu, hinside]
      exact h.claimed t
  · rw [hinside, hu] at hn
    cases hn
  · by_cases htu : t = u
    · subst htu
      rw [hself, hlock]
      split <;> rename_i hh
      · exact ⟨fun _ => hh, fun _ => rfl⟩
      · exact ⟨nofun, fun hh' => absurd hh' hh⟩
    · have hno : ¬(w.threads t).holdsLock = true := fun hh => by
        have := h.not_claimed hu htu
        rw [ProcessorPc.claimed_of_holdsLock hh] at this
        cases this
      rw [hother htu, hlock]
      refine ⟨fun hl => ?_, fun hh => absurd hh hno⟩
      split at hl
      · exact absurd (Option.some.inj hl).symm htu
      · cases hl
  · rw [hinside, hu] at ht
    obtain rfl : u = t := by simpa using ht
    rw [hself]
    exact hok

/-- The owner returns. -/
theorem OwnerInv.exit (h : OwnerInv w) (hu : w.inside = [u]) (hthreads : w'.threads = Function.update w.threads u pc')
    (hclaimed : pc'.claimed = false) (hinside : w'.inside = w.inside.erase u) (hlock : w'.handlerLock = none)
    (hrunning : w'.running = false) (howned : Owned w'.log) : OwnerInv w' := by
  have hnone : w'.inside = [] := by rw [hinside, hu]; simp
  have hout : ∀ t, (w'.threads t).claimed = false := fun t => by
    by_cases htu : t = u
    · subst htu
      rw [hthreads, Function.update_self]
      exact hclaimed
    · rw [hthreads, Function.update_of_ne htu]
      exact h.not_claimed hu htu
  refine ⟨howned, .inl hnone, fun t => ?_, fun _ => hrunning, fun t => ?_, fun t ht => ?_⟩
  · rw [hout t, hnone]
    exact ⟨nofun, nofun⟩
  · rw [hlock]
    refine ⟨nofun, fun hh => ?_⟩
    have := hout t
    rw [ProcessorPc.claimed_of_holdsLock hh] at this
    cases this
  · rw [hnone] at ht
    cases ht

/-- The events of the owner, and of a halt, are no claims. -/
def Extends (log log' : List ProcessorEvent) : Prop :=
  log' = log ∨ ∃ e : ProcessorEvent, (∀ t, e ≠ .claimed t) ∧ e.Ok log ∧ log' = e :: log

theorem Extends.owned {log log' : List ProcessorEvent} (h : Extends log log') (ho : Owned log) : Owned log' := by
  rcases h with rfl | ⟨e, -, hok, rfl⟩
  · exact ho
  · exact ho.cons hok

theorem Extends.last {log log' : List ProcessorEvent} (h : Extends log log') : lastClaim log' = lastClaim log := by
  rcases h with rfl | ⟨e, he, -, rfl⟩
  · rfl
  · exact lastClaim_cons he

theorem Extends.since {log log' : List ProcessorEvent} (h : Extends log log') (he : e ∈ since t log) : e ∈ since t log' := by
  rcases h with rfl | ⟨e', hne, -, rfl⟩
  · exact he
  · rw [since_cons (hne t)]
    exact List.mem_cons_of_mem _ he

/-- A step of the owner that leaves the flags alone. -/
theorem OwnerInv.advance (h : OwnerInv w) (hu : w.inside = [u]) (hpc : w.threads u = pc)
    (hthreads : w'.threads = Function.update w.threads u pc') (hinside : w'.inside = w.inside)
    (hrunning : w'.running = w.running) (halerted : w'.alerted = w.alerted) (hlog : Extends w.log w'.log)
    (hlock : w'.handlerLock = if pc'.holdsLock then some u else none) (hclaimed : pc'.claimed = true)
    (hrun : pc'.inRun = true → pc.inRun = true) (hcleared : pc'.cleared = true → pc.cleared = true)
    (hstarted : pc'.started = true → pc.started = true ∨ .started u ∈ since u w'.log) : OwnerInv w' := by
  have hok := h.owner u hu
  rw [hpc] at hok
  refine h.move hu hthreads hclaimed hinside hlock (hlog.owned h.owned) ⟨?_, fun hr hf => ?_, fun hc ha => ?_, fun hs => ?_⟩
  · rw [hlog.last]
    exact hok.last
  · rw [hrunning] at hf
    exact hlog.since (hok.running (hrun hr) hf)
  · rw [halerted] at ha
    exact hlog.since (hok.alerted (hcleared hc) ha)
  · rcases hstarted hs with hs | hs
    · exact hlog.since (hok.started hs)
    · exact hs

/-- The end of the loop. -/
theorem OwnerInv.leave (h : OwnerInv w) (hu : w.inside = [u]) (hpc : w.threads u = pc) (hl : pc.holdsLock = true)
    {failed : Bool} {next : AfterUnlock} (hnext : ∀ s, next ≠ .complete s)
    (hwhy : failed = true ∨ .halted ∈ since u w.log) : OwnerInv (w.leave u failed next) := by
  have hlock := h.lock_eq hu
  rw [hpc, hl] at hlock
  refine h.advance hu hpc rfl rfl rfl rfl (.inr ⟨.left u failed, nofun, ?_, rfl⟩) hlock rfl ?_ ?_ ?_
  · rcases hwhy with rfl | hhalt
    · trivial
    · cases failed
      · exact hhalt
      · trivial
  all_goals
    cases next with
    | complete s => exact absurd rfl (hnext s)
    | _ => exact nofun

/-- A lock of the owner is not contended. -/
theorem OwnerInv.tryLock (h : OwnerInv w) (hu : w.inside = [u]) (hpc : w.threads u = pc) (hl : pc.holdsLock = false)
    {contended : ProcessorPc} : w.tryLock u pc' contended = { w with handlerLock := some u }.goto u pc' := by
  have hlock := h.lock_eq hu
  rw [hpc, hl] at hlock
  exact if_pos hlock

@[simp] theorem ProcessorWorld.reset_threads : (w.reset t).threads = w.threads := by
  unfold ProcessorWorld.reset
  split <;> rfl

@[simp] theorem ProcessorWorld.reset_inside : (w.reset t).inside = w.inside := by
  unfold ProcessorWorld.reset
  split <;> rfl

@[simp] theorem ProcessorWorld.reset_handlerLock : (w.reset t).handlerLock = w.handlerLock := by
  unfold ProcessorWorld.reset
  split <;> rfl

/-- A store of `running` by the probe of the owner. -/
theorem OwnerInv.reset_log (h : OwnerInv w) (hu : w.inside = [u]) : Extends w.log (w.reset u).log := by
  unfold ProcessorWorld.reset
  split
  · exact .inr ⟨.reset u, nofun, (h.owner u hu).last, rfl⟩
  · exact .inl rfl

theorem mem_since_started {log : List ProcessorEvent} : .started t ∈ since t (.started t :: log) := by
  rw [since_cons (by simp)]
  exact List.mem_cons_self

/-- A step of the owner. -/
theorem ownerInv_owner (h : OwnerInv w) (hu : w.inside = [u]) (hs : w.threadStep u b (w.threads u) i = some w') :
    OwnerInv w' := by
  have hlock := h.lock_eq hu
  have hclaimed := (h.claimed u).mpr hu
  have hok := h.owner u hu
  cases hpc : w.threads u <;> rw [hpc] at hs hlock hclaimed hok
  case idle | returned | runClaim | probeClaim | haltStore | haltAlert => cases hclaimed
  case reset =>
    cases i <;> simp only [ProcessorWorld.threadStep, Option.some.injEq, reduceCtorEq] at hs
    subst hs
    exact h.advance hu hpc rfl rfl rfl rfl (.inl rfl) hlock rfl (fun _ => rfl) nofun nofun
  case clearAlert =>
    cases i <;> simp only [ProcessorWorld.threadStep, Option.some.injEq, reduceCtorEq] at hs
    subst hs
    exact h.move hu rfl rfl rfl hlock h.owned ⟨hok.last, fun _ => hok.running rfl, nofun, nofun⟩
  case tryLockStart =>
    cases i <;> simp only [ProcessorWorld.threadStep, h.tryLock hu hpc rfl, Option.some.injEq, reduceCtorEq] at hs
    subst hs
    exact h.advance hu hpc rfl rfl rfl rfl (.inl rfl) rfl rfl (fun _ => rfl) (fun _ => rfl) nofun
  case onStart =>
    cases i <;> simp only [ProcessorWorld.threadStep, reduceCtorEq] at hs
    rename_i r
    cases r <;> simp only [Option.some.injEq] at hs <;> subst hs <;>
      refine h.advance hu hpc rfl rfl rfl rfl (.inr ⟨.started u, fun _ => by simp, trivial, rfl⟩) hlock rfl ?_ ?_ ?_
    all_goals first | exact fun _ => rfl | exact fun _ => .inr mem_since_started
  case complete started =>
    cases i <;> simp only [ProcessorWorld.threadStep, Option.some.injEq, reduceCtorEq] at hs
    subst hs
    cases started
    · exact h.advance hu hpc rfl rfl rfl rfl (.inl rfl) hlock rfl nofun nofun nofun
    · exact h.advance hu hpc rfl rfl rfl rfl (.inl rfl) hlock rfl (fun _ => rfl) (fun _ => rfl) fun _ => .inl rfl
  case abandon =>
    cases i <;> simp only [ProcessorWorld.threadStep, Option.some.injEq, reduceCtorEq] at hs
    subst hs
    exact h.move hu rfl rfl rfl hlock h.owned ⟨hok.last, nofun, nofun, nofun⟩
  case checkRunning =>
    cases i <;> simp only [ProcessorWorld.threadStep, Option.some.injEq, reduceCtorEq] at hs
    subst hs
    cases w.running
    · exact h.advance hu hpc rfl rfl rfl rfl (.inl rfl) hlock rfl nofun nofun nofun
    · exact h.advance hu hpc rfl rfl rfl rfl (.inl rfl) hlock rfl (fun _ => rfl) (fun _ => rfl) fun _ => .inl rfl
  case lockLoop =>
    cases i <;> simp only [ProcessorWorld.threadStep, Option.ite_none_right_eq_some, Option.some.injEq, reduceCtorEq] at hs
    obtain ⟨-, rfl⟩ := hs
    exact h.advance hu hpc rfl rfl rfl rfl (.inr ⟨.entered u, nofun, hok.started rfl, rfl⟩) rfl rfl (fun _ => rfl)
      (fun _ => rfl) fun _ => .inl rfl
  case loop | waitFlag | waitErr =>
    cases i <;> simp only [ProcessorWorld.threadStep, Option.some.injEq, reduceCtorEq] at hs
    subst hs
    split <;> rename_i hr
    · exact h.advance hu hpc rfl rfl rfl rfl (.inl rfl) hlock rfl (fun _ => rfl) (fun _ => rfl) fun _ => .inl rfl
    · exact h.leave hu hpc rfl nofun (.inr (hok.running rfl (by simpa using hr)))
  case waitAlert =>
    cases i <;> simp only [ProcessorWorld.threadStep, Option.some.injEq, reduceCtorEq] at hs
    subst hs
    split <;> rename_i ha
    · exact h.leave hu hpc rfl nofun (.inr (hok.alerted rfl ha))
    · exact h.advance hu hpc rfl rfl rfl rfl (.inl rfl) hlock rfl (fun _ => rfl) (fun _ => rfl) fun _ => .inl rfl
  case waiting =>
    cases i with
    | tick =>
      simp only [ProcessorWorld.threadStep, Option.some.injEq] at hs
      subst hs
      split <;> rename_i ha
      · exact h.leave hu hpc rfl nofun (.inr (hok.alerted rfl ha))
      · exact h
    | answer r =>
      cases r with
      | ok available =>
        simp only [ProcessorWorld.threadStep, Option.some.injEq] at hs
        subst hs
        split <;>
          exact h.advance hu hpc rfl rfl rfl rfl (.inl rfl) hlock rfl (fun _ => rfl) (fun _ => rfl) fun _ => .inl rfl
      | error e =>
        simp only [ProcessorWorld.threadStep, Option.ite_none_left_eq_some, Option.some.injEq] at hs
        obtain ⟨-, rfl⟩ := hs
        exact h.advance hu hpc rfl rfl rfl rfl (.inl rfl) hlock rfl (fun _ => rfl) (fun _ => rfl) fun _ => .inl rfl
    | callback r => cases hs
    | batch p => cases hs
  case batch available =>
    cases i <;> simp only [ProcessorWorld.threadStep, reduceCtorEq] at hs
    rename_i p
    -- what the handler does to the consumer concerns no flag
    have hconsumer : ∀ c : Consumer E, OwnerInv { w with consumer := c } := fun c =>
      ⟨h.owned, h.one, h.claimed, h.free, h.lock, fun t ht => ⟨(h.owner t ht).last, (h.owner t ht).running,
        (h.owner t ht).alerted, (h.owner t ht).started⟩⟩
    split at hs <;> simp only [Option.some.injEq] at hs <;> subst hs
    · exact h.advance hu hpc rfl rfl rfl rfl (.inl rfl) hlock rfl (fun _ => rfl) (fun _ => rfl) fun _ => .inl rfl
    · rename_i consumer _
      exact (hconsumer consumer).leave hu hpc rfl (fun _ => by simp) (.inl rfl)
    · rename_i consumer _ _ _
      exact (hconsumer consumer).leave hu hpc rfl (fun _ => by simp) (.inl rfl)
  case tryLockShutdown =>
    cases i <;> simp only [ProcessorWorld.threadStep, h.tryLock hu hpc rfl, Option.some.injEq, reduceCtorEq] at hs
    subst hs
    exact h.advance hu hpc rfl rfl rfl rfl (.inl rfl) rfl rfl nofun nofun nofun
  case onShutdown =>
    cases i <;> simp only [ProcessorWorld.threadStep, reduceCtorEq] at hs
    split at hs <;> simp only [Option.some.injEq] at hs <;> subst hs <;>
      exact h.advance hu hpc rfl rfl rfl rfl (.inl rfl) hlock rfl nofun nofun nofun
  case panicRelease | release =>
    cases i <;> simp only [ProcessorWorld.threadStep, Option.some.injEq, reduceCtorEq] at hs
    subst hs
    exact h.exit hu rfl rfl rfl hlock rfl h.owned
  case unlock next =>
    cases i <;> simp only [ProcessorWorld.threadStep, Option.some.injEq, reduceCtorEq] at hs
    subst hs
    cases next with
    | complete started =>
      refine h.advance hu hpc rfl rfl rfl rfl (.inl rfl) rfl rfl (fun _ => rfl) (fun _ => rfl) fun hs => .inl hs
    | _ => exact h.advance hu hpc rfl rfl rfl rfl (.inl rfl) rfl rfl nofun nofun nofun
  case probeLock =>
    cases i <;> simp only [ProcessorWorld.threadStep, h.tryLock hu hpc rfl, Option.some.injEq, reduceCtorEq] at hs
    subst hs
    exact h.advance hu hpc rfl rfl rfl rfl (.inl rfl) rfl rfl nofun nofun nofun
  case probeBarrier =>
    cases i <;> simp only [ProcessorWorld.threadStep, reduceCtorEq] at hs
    rename_i r
    cases r with
    | ok available =>
      simp only [Option.some.injEq] at hs
      subst hs
      exact h.advance hu hpc rfl rfl rfl rfl (.inl rfl) hlock rfl nofun nofun nofun
    | error e =>
      simp only [Option.ite_none_left_eq_some, Option.some.injEq] at hs
      obtain ⟨-, rfl⟩ := hs
      exact h.advance hu hpc rfl rfl rfl rfl (.inl rfl) hlock rfl nofun nofun nofun
  case probeCheck available =>
    cases i <;> simp only [ProcessorWorld.threadStep, Option.some.injEq, reduceCtorEq] at hs
    subst hs
    split <;> exact h.advance hu hpc rfl rfl rfl rfl (.inl rfl) hlock rfl nofun nofun nofun
  case probeBatch available =>
    cases i <;> simp only [ProcessorWorld.threadStep, Option.some.injEq, reduceCtorEq] at hs
    subst hs
    split <;> exact h.advance hu hpc rfl rfl rfl rfl (.inl rfl) hlock rfl nofun nofun nofun
  case probeStore e =>
    cases i <;> simp only [ProcessorWorld.threadStep, Option.some.injEq, reduceCtorEq] at hs
    subst hs
    have hlog := h.reset_log hu
    have hthreads : ((w.reset u).goto u (.unlock (.probeDrop e))).threads =
        Function.update w.threads u (.unlock (.probeDrop e)) := by
      simp [ProcessorWorld.goto]
    refine h.move hu hthreads rfl ?_ ?_ (hlog.owned h.owned) ⟨?_, nofun, nofun, nofun⟩
    · simp [ProcessorWorld.goto]
    · exact ProcessorWorld.reset_handlerLock.trans hlock
    · exact hlog.last.trans hok.last
  case probeDrop e =>
    cases i <;> simp only [ProcessorWorld.threadStep, Option.some.injEq, reduceCtorEq] at hs
    subst hs
    have hlog := h.reset_log hu
    have hthreads : ((w.reset u).exit u e).threads = Function.update w.threads u (.returned e) := by
      simp [ProcessorWorld.exit, ProcessorWorld.goto]
    refine h.exit hu hthreads rfl ?_ ?_ rfl (hlog.owned h.owned)
    · simp [ProcessorWorld.exit, ProcessorWorld.goto]
    · exact ProcessorWorld.reset_handlerLock.trans hlock

/-- A thread that is not inside a claimed call goes to another such place. -/
theorem OwnerInv.outside (h : OwnerInv w) (ht : (w.threads t).claimed = false)
    (hthreads : w'.threads = Function.update w.threads t pc') (hpc' : pc'.claimed = false) (hinside : w'.inside = w.inside)
    (hlock : w'.handlerLock = w.handlerLock) (hlog : Extends w.log w'.log) (hfree : w.inside = [] → w'.running = false)
    (hrunning : w'.running = w.running ∨ ∀ u, .halted ∈ since u w'.log)
    (halerted : w'.alerted = w.alerted ∨ ∀ u, .halted ∈ since u w'.log) : OwnerInv w' := by
  have hsame : ∀ u, (w'.threads u).claimed = (w.threads u).claimed ∧ (w'.threads u).holdsLock = (w.threads u).holdsLock := by
    intro u
    by_cases hut : u = t
    · subst hut
      rw [hthreads, Function.update_self, ht, hpc']
      refine ⟨rfl, ?_⟩
      have hno : ∀ {pc : ProcessorPc}, pc.claimed = false → pc.holdsLock = false := fun hc => by
        by_contra hh
        rw [ProcessorPc.claimed_of_holdsLock (by simpa using hh)] at hc
        cases hc
      rw [hno ht, hno hpc']
    · rw [hthreads, Function.update_of_ne hut]
      exact ⟨rfl, rfl⟩
  refine ⟨hlog.owned h.owned, hinside ▸ h.one, fun u => ?_, fun hn => hfree (hinside ▸ hn), fun u => ?_, fun u hu => ?_⟩
  · rw [(hsame u).1, hinside]
    exact h.claimed u
  · rw [(hsame u).2, hlock]
    exact h.lock u
  · rw [hinside] at hu
    have hut : u ≠ t := fun he => by
      subst he
      rw [(h.claimed u).mpr hu] at ht
      cases ht
    have hok := h.owner u hu
    rw [hthreads, Function.update_of_ne hut]
    refine ⟨hlog.last.trans hok.last, fun hr hf => ?_, fun hc ha => ?_, fun hs => hlog.since (hok.started hs)⟩
    · rcases hrunning with he | hhalt
      · exact hlog.since (hok.running hr (he ▸ hf))
      · exact hhalt u
    · rcases halerted with he | hhalt
      · exact hlog.since (hok.alerted hc (he ▸ ha))
      · exact hhalt u

/-- A claim, when nobody is inside. -/
theorem ownerInv_claim (h : OwnerInv w) (halone : w.running = false → w.inside = []) (ht : (w.threads t).claimed = false)
    (hpc : pc.claimed = true) (hlock : pc.holdsLock = false) (hcleared : pc.cleared = false) (hstarted : pc.started = false)
    {refused : ProcessorPc} (hrefused : refused.claimed = false) : OwnerInv (w.claim t pc refused) := by
  unfold ProcessorWorld.claim
  split <;> rename_i hr
  · exact h.outside ht rfl hrefused rfl rfl (.inl rfl) (fun hn => h.free hn) (.inl rfl) (.inl rfl)
  · have hnone := halone (by simpa using hr)
    have hout : ∀ u, (w.threads u).claimed = false := fun u => by
      by_contra hc
      have := (h.claimed u).mp (by simpa using hc)
      rw [hnone] at this
      cases this
    have hunlocked : ∀ u, (w.threads u).holdsLock = false := fun u => by
      by_contra hh
      have := hout u
      rw [ProcessorPc.claimed_of_holdsLock (by simpa using hh)] at this
      cases this
    have hfree : ∀ u, w.handlerLock ≠ some u := fun u hl => by
      have := (h.lock u).mp hl
      rw [hunlocked u] at this
      cases this
    refine ⟨h.owned.cons trivial, .inr ⟨t, by simp [ProcessorWorld.goto, ProcessorWorld.logged, hnone]⟩, fun u => ?_,
      nofun, fun u => ?_, fun u hu => ?_⟩
    · simp only [ProcessorWorld.goto, ProcessorWorld.logged, hnone]
      by_cases hut : u = t
      · subst hut
        simp [hpc]
      · simp [Function.update_of_ne hut, hout u, Ne.symm hut]
    · simp only [ProcessorWorld.goto, ProcessorWorld.logged]
      by_cases hut : u = t
      · subst hut
        simp [hlock, hfree u]
      · simp [Function.update_of_ne hut, hunlocked u, hfree u]
    · simp only [ProcessorWorld.goto, ProcessorWorld.logged, hnone, List.cons.injEq, and_true] at hu
      subst hu
      simp only [ProcessorWorld.goto, ProcessorWorld.logged, Function.update_self]
      refine ⟨rfl, nofun, fun hc => ?_, fun hs => ?_⟩
      · rw [hcleared] at hc
        cases hc
      · rw [hstarted] at hs
        cases hs

theorem mem_since_halted {log : List ProcessorEvent} : .halted ∈ since u (.halted :: log) := by
  rw [since_cons (by simp)]
  exact List.mem_cons_self

/-- **Step lemma.** -/
theorem ownerInv_step {a : ProcessorAction E} (h : OwnerInv w) (ha : ClaimsAlone w a) (hs : w.step b a = some w') :
    OwnerInv w' := by
  cases a with
  | call t c =>
    have hstart : c.start.claimed = false := by cases c <;> rfl
    simp only [ProcessorWorld.step] at hs
    split at hs <;> simp only [Option.some.injEq, reduceCtorEq] at hs <;> subst hs <;> rename_i hpc <;>
      exact h.outside (by rw [hpc]; rfl) rfl hstart rfl rfl (.inl rfl) (fun hn => h.free hn) (.inl rfl) (.inl rfl)
  | step t i =>
    simp only [ProcessorWorld.step] at hs
    by_cases hc : (w.threads t).claimed = true
    · exact ownerInv_owner h ((h.claimed t).mp hc) hs
    · have ht : (w.threads t).claimed = false := by simpa using hc
      cases hpc : w.threads t <;> simp only [hpc, ProcessorPc.claimed, Bool.true_eq_false] at ht <;> rw [hpc] at hs
      case idle | returned => cases i <;> cases hs
      case runClaim =>
        cases i <;> simp only [ProcessorWorld.threadStep, Option.some.injEq, reduceCtorEq] at hs
        subst hs
        exact ownerInv_claim h (ha (.inl hpc)) (by rw [hpc]; rfl) rfl rfl rfl rfl rfl
      case probeClaim =>
        cases i <;> simp only [ProcessorWorld.threadStep, Option.some.injEq, reduceCtorEq] at hs
        subst hs
        exact ownerInv_claim h (ha (.inr hpc)) (by rw [hpc]; rfl) rfl rfl rfl rfl rfl
      case haltStore =>
        cases i <;> simp only [ProcessorWorld.threadStep, Option.some.injEq, reduceCtorEq] at hs
        subst hs
        exact h.outside (by rw [hpc]; rfl) rfl rfl rfl rfl (.inr ⟨.halted, nofun, trivial, rfl⟩) (fun _ => rfl)
          (.inr fun _ => mem_since_halted) (.inl rfl)
      case haltAlert =>
        cases i <;> simp only [ProcessorWorld.threadStep, Option.some.injEq, reduceCtorEq] at hs
        subst hs
        exact h.outside (by rw [hpc]; rfl) rfl rfl rfl rfl (.inr ⟨.halted, nofun, trivial, rfl⟩) (fun hn => h.free hn)
          (.inl rfl) (.inr fun _ => mem_since_halted)

/-- With one owner at a time, a probe resets only its own claim, a run leaves its loop because of a halt after its claim or a
failure of its handler, and it enters its loop with `on_start` done. -/
theorem running_flag_owned {ring : Nat → E} (hreach : Reach (ProcessorWorld.step b) ClaimsAlone (.new ring) w) :
    Owned w.log :=
  (Reach.inv (ownerInv_new ring) (fun hI ha hs => ownerInv_step hI ha hs) hreach).owned

/-- A run that is halted. -/
theorem running_flag_owned_halted : ∃ w : ProcessorWorld Nat,
    Reach (ProcessorWorld.step ⟨1, by omega⟩) ClaimsAlone (.new id) w ∧
    w.log = [.left 1 false, .halted, .entered 1, .started 1, .claimed 1] ∧ Owned w.log := by
  have hrun : ∃ w : ProcessorWorld Nat, Reach (ProcessorWorld.step ⟨1, by omega⟩) ClaimsAlone (.new id) w ∧
      w.log = [.left 1 false, .halted, .entered 1, .started 1, .claimed 1] :=
    ⟨_, reach_of_exec [.call 1 .run, .step 1 .tick, .step 1 .tick, .step 1 .tick, .step 1 .tick, .step 1 (.callback .ok),
      .step 1 .tick, .step 1 .tick, .step 1 .tick, .step 1 .tick, .step 1 .tick, .call 2 .halt, .step 2 .tick,
      .step 1 .tick] rfl, rfl⟩
  obtain ⟨w, hreach, hlog⟩ := hrun
  exact ⟨w, hreach, hlog, running_flag_owned hreach⟩

/-- A probe whose handler fails releases the flag, a run claims it, and then the guard of the probe releases it again. The run
has found the lock taken and skipped `on_start`, and it leaves its loop although nobody has called `halt`. -/
theorem running_flag_stray_release : ∃ w : ProcessorWorld Nat,
    Reach (ProcessorWorld.step ⟨1, by omega⟩) (fun _ _ => True) (.new id) w ∧ .halted ∉ w.log ∧
    (∃ before, .reset 0 :: before <:+ w.log ∧ lastClaim before = some 1) ∧
    (∃ before, .left 1 false :: before <:+ w.log ∧ .halted ∉ since 1 before) ∧
    (∃ before, .entered 1 :: before <:+ w.log ∧ .started 1 ∉ since 1 before) ∧ ¬Owned w.log := by
  have hrun : ∃ w : ProcessorWorld Nat, Reach (ProcessorWorld.step ⟨1, by omega⟩) (fun _ _ => True) (.new id) w ∧
      w.log = [.left 1 false, .reset 0, .entered 1, .claimed 1, .reset 0, .claimed 0] :=
    ⟨_, reach_of_exec [.call 0 .tryRunOnce, .step 0 .tick, .step 0 .tick, .step 0 (.answer (.ok 0)), .step 0 .tick,
      .step 0 (.batch ⟨.ok, fun _ => .err, fun _ => id, fun _ => .stop⟩), .step 0 .tick,
      .call 1 .run, .step 1 .tick, .step 1 .tick, .step 1 .tick, .step 1 .tick, .step 1 .tick, .step 1 .tick,
      .step 0 .tick, .step 1 .tick, .step 0 .tick, .step 1 .tick] rfl, rfl⟩
  obtain ⟨w, hreach, hlog⟩ := hrun
  have hreset : .reset 0 :: [.entered 1, .claimed 1, .reset 0, .claimed 0] <:+ w.log := ⟨[.left 1 false], hlog.symm⟩
  have hleft : .left 1 false :: [.reset 0, .entered 1, .claimed 1, .reset 0, .claimed 0] <:+ w.log := ⟨[], hlog.symm⟩
  have hentered : .entered 1 :: [.claimed 1, .reset 0, .claimed 0] <:+ w.log := ⟨[.left 1 false, .reset 0], hlog.symm⟩
  refine ⟨w, hreach, by rw [hlog]; decide, ⟨_, hreset, rfl⟩, ⟨_, hleft, by decide⟩, ⟨_, hentered, by decide⟩, fun howned => ?_⟩
  have hlast := howned.resets 0 _ hreset
  cases hlast

end Owner

end BadBatch
