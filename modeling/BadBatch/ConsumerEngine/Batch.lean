import BadBatch.ConsumerEngine.Loops
import BadBatch.Sequencer.Availability
import BadBatch.Lib.StepSys

/-!
# Batches of the sequential loops

`run_sequential_batch_loop_impl` and `run_sequential_readonly_loop_impl` once more, as functions: a thread that runs one of
them alone, with every callback, its arguments and its outcome in the result. The environment supplies one `Round` per turn
of the outer loop; a `BatchPattern` says how the callbacks of one batch end. No sequence comes twice in a batch, so a
pattern over sequences is every behaviour a handler can show.

The two loops are written apart in the program; `reference` is the one law both follow:

* `eventLoop_eq`, `readonlyEventLoop_eq`: the inner loops deliver the sequences up to the first that stops them
  (`firstStop`);
* `runSequentialBatchLoop_eq`, `runSequentialReadonlyLoop_eq`: the outer loops;
* `seqStep_follows_reference`: the loop of the interleaving model, when the callbacks end as the pattern says, does the same.
-/

namespace BadBatch

open MultiProducerSequencer StepSys

/-- How a callback ends. -/
inductive Callback
  | ok
  | err
  | panic
  deriving DecidableEq, Repr

/-- The callbacks of one batch: how each ends, what `on_event` leaves in the event, and the answer of the exception handler
to an error at each sequence. -/
structure BatchPattern (E : Type) where
  onBatchStart : Callback
  onEvent : Int → Callback
  edit : Int → E → E
  decision : Int → ErrorDecision

/-- A callback with its arguments and its outcome. -/
inductive Call (E : Type)
  | onStart (result : Callback)
  | handleOnStartException
  | onBatchStart (batchSize queueDepth : Int) (result : Callback)
  | onEvent (event : E) (sequence : Int) (endOfBatch : Bool) (result : Callback)
  | handleEventException (sequence : Int) (event : E) (decision : ErrorDecision)
  | onShutdown (result : Callback)
  | handleOnShutdownException
  deriving DecidableEq, Repr

/-- A consumer alone: the ring, its `Sequence`, the poison flag with the first failure, and the callbacks so far. -/
structure Consumer (E : Type) where
  ring : Nat → E
  sequence : Int
  poisoned : Bool
  firstFailure : Option FailureRecord
  calls : List (Call E)

/-- How a batch, or a loop, is left. -/
inductive LoopExit
  /-- The batch is done, `next_sequence` is the next one. -/
  | went (next : Int)
  /-- Inside the barrier wait. -/
  | waiting
  /-- The loop function returned. -/
  | returned
  | panicked
  deriving DecidableEq, Repr

variable {E : Type}

namespace Consumer

/-- `poison_with_failure` -/
def poisonWithFailure (st : Consumer E) (f : FailureRecord) : Consumer E :=
  { st with firstFailure := st.firstFailure.or (some f), poisoned := true }

/-- The consumer after the callback `c`. -/
def called (st : Consumer E) (c : Call E) : Consumer E := { st with calls := st.calls ++ [c] }

/-- `get_mut_unchecked` followed by a write through the reference. -/
def store (b : BufferSize) (st : Consumer E) (sequence : Int) (event : E) : Consumer E :=
  { st with ring := Function.update st.ring (calculateIndex b sequence) event }

end Consumer

section Loops

variable (b : BufferSize) (cfg : EngineConfig)

/-! ## The loops of the program -/

/-- `while next_sequence <= available_sequence` of `run_sequential_batch_loop_impl`, with as many turns as sequences are
left, and the store after it. -/
def eventLoop (p : BatchPattern E) (available : Int) : Nat → Int → Consumer E → LoopExit × Consumer E
  | 0, next, st => (.went next, { st with sequence := available })
  | turns + 1, next, st =>
    let endOfBatch := next == available
    let event := st.ring (calculateIndex b next)
    let st := (st.store b next (p.edit next event)).called (.onEvent event next endOfBatch (p.onEvent next))
    match p.onEvent next with
    | .panic => (.panicked, st)
    | .ok => eventLoop p available turns (next + 1) st
    | .err =>
      let (decision, st) :=
        if cfg.hasExceptionHandler then
          (p.decision next, st.called (.handleEventException next (p.edit next event) (p.decision next)))
        else (ErrorDecision.stop, st)
      if decision = .stop then
        let st := { st with sequence := next - 1 }
        (.returned, st.poisonWithFailure (cfg.failure .eventProcessing (some next)))
      else eventLoop p available turns (next + 1) st

/-- The body of `Ok(available_sequence)` in `run_sequential_batch_loop_impl`, for a batch that is not empty. -/
def runBatch (p : BatchPattern E) (next available : Int) (st : Consumer E) : LoopExit × Consumer E :=
  let batchSize := available - next + 1
  let queueDepth := available - st.sequence
  let st := st.called (.onBatchStart batchSize queueDepth p.onBatchStart)
  match p.onBatchStart with
  | .panic => (.panicked, st)
  | .err => (.returned, st.poisonWithFailure (cfg.failure .batchStart (some next)))
  | .ok => eventLoop b cfg p available (available - next + 1).toNat next st

/-- `while next_sequence <= available_sequence` of `run_sequential_readonly_loop_impl`: the event is not written, and every
error stops. -/
def readonlyEventLoop (p : BatchPattern E) (available : Int) : Nat → Int → Consumer E → LoopExit × Consumer E
  | 0, next, st => (.went next, { st with sequence := available })
  | turns + 1, next, st =>
    let endOfBatch := next == available
    let event := st.ring (calculateIndex b next)
    let st := st.called (.onEvent event next endOfBatch (p.onEvent next))
    match p.onEvent next with
    | .panic => (.panicked, st)
    | .ok => readonlyEventLoop p available turns (next + 1) st
    | .err =>
      let st := { st with sequence := next - 1 }
      (.returned, st.poisonWithFailure (cfg.failure .eventProcessing (some next)))

/-- One turn of an outer loop, as far as others decide it: the stop flag at its head, the answer of the barrier, the stop
flag after a failed wait, and the callbacks of the batch. -/
structure Round (E : Type) where
  shouldContinue : Bool
  answer : Except DisruptorError Int
  stillContinues : Bool
  pattern : BatchPattern E

/-- `while stop.should_continue()` with `body` for a batch that is not empty. -/
def outerLoop (body : BatchPattern E → Int → Int → Consumer E → LoopExit × Consumer E) :
    List (Round E) → Int → Consumer E → LoopExit × Consumer E
  | [], _, st => (.waiting, st)
  | r :: rs, next, st =>
    if r.shouldContinue then
      match r.answer with
      | .ok available =>
        if available < next then outerLoop body rs next st
        else
          match body r.pattern next available st with
          | (.went next, st) => outerLoop body rs next st
          | (e, st) => (e, st)
      | .error e => if endsLoop e ∨ r.stillContinues = false then (.returned, st) else outerLoop body rs next st
    else (.returned, st)

/-- `run_sequential_batch_loop_impl` -/
def runSequentialBatchLoop (rounds : List (Round E)) (st : Consumer E) : LoopExit × Consumer E :=
  outerLoop (runBatch b cfg) rounds (st.sequence + 1) st

/-- `run_sequential_readonly_loop_impl` -/
def runSequentialReadonlyLoop (rounds : List (Round E)) (st : Consumer E) : LoopExit × Consumer E :=
  outerLoop (fun p next available => readonlyEventLoop b cfg p available (available - next + 1).toNat next) rounds
    (st.sequence + 1) st

/-! ## The law -/

/-- The sequences `a, …, z`. -/
def span (a z : Int) : List Int := (List.range (z - a + 1).toNat).map fun k : Nat => a + k

/-- An error at `t` is answered with `Stop`: there is an exception handler that says so, or none. -/
def fatal (p : BatchPattern E) (t : Int) : Bool :=
  p.onEvent t == .err && (!(cfg.hasExceptionHandler && !cfg.readonly) || p.decision t == .stop)

/-- The `on_event` calls among `calls`: the sequence and `end_of_batch`. -/
def eventCalls (calls : List (Call E)) : List (Int × Bool) :=
  calls.filterMap fun
    | .onEvent _ t endOfBatch _ => some (t, endOfBatch)
    | _ => none

/-- The loop ends at `t`, by a fatal error or a panic. -/
def stops (p : BatchPattern E) (t : Int) : Bool := fatal cfg p t || p.onEvent t == .panic

/-- The first sequence of the batch at which the loop ends. -/
def firstStop (p : BatchPattern E) (a z : Int) : Option Int := (span a z).find? (stops cfg p)

/-- The callbacks for `t` in a batch that ends at `z`: `on_event`, and the exception handler after an error. -/
def deliveryCalls (p : BatchPattern E) (z : Int) (event : E) (t : Int) : List (Call E) :=
  .onEvent event t (t == z) (p.onEvent t) ::
    if p.onEvent t = .err ∧ cfg.hasExceptionHandler = true ∧ cfg.readonly = false then
      [.handleEventException t (p.edit t event) (p.decision t)]
    else []

/-- The delivery of `t`. -/
def deliver (p : BatchPattern E) (z : Int) (st : Consumer E) (t : Int) : Consumer E :=
  let event := st.ring (calculateIndex b t)
  { st with
    ring := if cfg.readonly then st.ring else Function.update st.ring (calculateIndex b t) (p.edit t event)
    calls := st.calls ++ deliveryCalls cfg p z event t }

/-- The events of a batch `[a, z]`, delivered in order up to the last one or up to the first that stops the loop. Only a
batch that ends moves the `Sequence` to `z`; a fatal error at `k` moves it to `k - 1` and poisons with a record that names
`k`; a panic moves nothing. -/
def referenceEvents (p : BatchPattern E) (a z : Int) (st : Consumer E) : LoopExit × Consumer E :=
  match firstStop cfg p a z with
  | none => (.went (z + 1), { (span a z).foldl (deliver b cfg p z) st with sequence := z })
  | some k =>
    let delivered := (span a k).foldl (deliver b cfg p z) st
    if p.onEvent k = .panic then (.panicked, delivered)
    else (.returned, { delivered with sequence := k - 1 }.poisonWithFailure (cfg.failure .eventProcessing (some k)))

/-- What a batch `[a, z]` does. `on_batch_start`, which the read-only loop does not have, gets the length of the batch and
the distance from the `Sequence`; when it fails, nothing is delivered. -/
def reference (p : BatchPattern E) (a z : Int) (st : Consumer E) : LoopExit × Consumer E :=
  if cfg.readonly then referenceEvents b cfg p a z st
  else
    let started := st.called (.onBatchStart (z - a + 1) (z - st.sequence) p.onBatchStart)
    match p.onBatchStart with
    | .panic => (.panicked, started)
    | .err => (.returned, started.poisonWithFailure (cfg.failure .batchStart (some a)))
    | .ok => referenceEvents b cfg p a z started

/-- The reference for a whole loop: a batch starts after the `Sequence`. -/
def referenceLoop : List (Round E) → Consumer E → LoopExit × Consumer E
  | [], st => (.waiting, st)
  | r :: rs, st =>
    if r.shouldContinue then
      match r.answer with
      | .ok available =>
        if available ≤ st.sequence then referenceLoop rs st
        else
          match reference b cfg r.pattern (st.sequence + 1) available st with
          | (.went _, st) => referenceLoop rs st
          | (e, st) => (e, st)
      | .error e => if endsLoop e ∨ r.stillContinues = false then (.returned, st) else referenceLoop rs st
    else (.returned, st)

end Loops

variable {b : BufferSize} {cfg : EngineConfig} {p : BatchPattern E} {a z t : Int} {st : Consumer E}

/-! ## The inner loops -/

theorem span_nil (h : z < a) : span a z = [] := by
  have : (z - a + 1).toNat = 0 := by omega
  simp [span, this]

theorem span_cons (h : a ≤ z) : span a z = a :: span (a + 1) z := by
  have : (z - a + 1).toNat = (z - (a + 1) + 1).toNat + 1 := by omega
  simp only [span, this, List.range_succ_eq_map, List.map_cons, List.map_map, Int.natCast_zero, add_zero]
  congr 1
  apply List.map_congr_left
  intro k _
  simp only [Function.comp_apply, Nat.succ_eq_add_one]
  omega

theorem mem_span : t ∈ span a z ↔ a ≤ t ∧ t ≤ z := by
  simp only [span, List.mem_map, List.mem_range]
  constructor
  · rintro ⟨k, hk, rfl⟩
    omega
  · rintro ⟨h1, h2⟩
    exact ⟨(t - a).toNat, by omega, by omega⟩

theorem firstStop_pos (h : a ≤ z) (hf : stops cfg p a = true) : firstStop cfg p a z = some a := by
  rw [firstStop, span_cons h, List.find?_cons_of_pos hf]

theorem firstStop_neg (h : a ≤ z) (hf : stops cfg p a = false) : firstStop cfg p a z = firstStop cfg p (a + 1) z := by
  rw [firstStop, firstStop, span_cons h, List.find?_cons_of_neg (by rw [hf]; decide)]

theorem span_append {m n : Int} (h1 : a ≤ m + 1) (h2 : m ≤ n) : span a m ++ span (m + 1) n = span a n := by
  obtain ⟨k, hk⟩ : ∃ k : Nat, m + 1 = a + k := ⟨(m + 1 - a).toNat, by omega⟩
  induction k generalizing a with
  | zero =>
    have ha : a = m + 1 := by omega
    rw [ha, span_nil (by omega), List.nil_append]
  | succ k ih =>
    rw [span_cons (show a ≤ m by omega), span_cons (show a ≤ n by omega), List.cons_append,
      ih (by omega) (by omega)]

theorem firstStop_le {k : Int} (h : firstStop cfg p a z = some k) : a ≤ k ∧ k ≤ z :=
  mem_span.mp (List.mem_of_find?_eq_some h)

/-- A fatal first event ends the batch. -/
theorem referenceEvents_stop (h : a ≤ z) (hf : stops cfg p a = true) :
    referenceEvents b cfg p a z st =
      if p.onEvent a = .panic then (.panicked, deliver b cfg p z st a)
      else (.returned, { deliver b cfg p z st a with sequence := a - 1 }.poisonWithFailure
        (cfg.failure .eventProcessing (some a))) := by
  have hk : span a a = [a] := by rw [span_cons le_rfl, span_nil (by omega)]
  simp only [referenceEvents, firstStop_pos h hf, hk, List.foldl_cons, List.foldl_nil]

/-- Any other first event is delivered, and the rest follows. -/
theorem referenceEvents_cons (h : a ≤ z) (hf : stops cfg p a = false) :
    referenceEvents b cfg p a z st = referenceEvents b cfg p (a + 1) z (deliver b cfg p z st a) := by
  unfold referenceEvents
  rw [firstStop_neg h hf]
  cases hk : firstStop cfg p (a + 1) z with
  | none => simp only [span_cons h, List.foldl_cons]
  | some k =>
    have hle := (firstStop_le hk).1
    simp only [span_cons (show a ≤ k by omega), List.foldl_cons]

theorem referenceEvents_nil : referenceEvents b cfg p (z + 1) z st = (.went (z + 1), { st with sequence := z }) := by
  have h : span (z + 1) z = [] := span_nil (by omega)
  simp only [referenceEvents, firstStop, h, List.find?_nil, List.foldl_nil]

/-- The inner loop of `run_sequential_batch_loop_impl`. -/
theorem eventLoop_eq (hm : cfg.readonly = false) : ∀ (turns : Nat) (next : Int) (st : Consumer E),
    z - next + 1 = turns → eventLoop b cfg p z turns next st = referenceEvents b cfg p next z st := by
  intro turns
  induction turns with
  | zero =>
    intro next st h
    have hn : next = z + 1 := by omega
    rw [hn, referenceEvents_nil]
    rfl
  | succ turns ih =>
    intro next st h
    have hle : next ≤ z := by omega
    have hrest := ih (next + 1)
    cases hr : p.onEvent next with
    | panic =>
      rw [referenceEvents_stop hle (by simp [stops, hr]), if_pos hr]
      simp [eventLoop, deliver, deliveryCalls, Consumer.called, Consumer.store, hr, hm]
    | ok =>
      rw [referenceEvents_cons hle (by simp [stops, fatal, hr]), ← hrest _ (by omega)]
      simp [eventLoop, deliver, deliveryCalls, Consumer.called, Consumer.store, hr, hm]
    | err =>
      by_cases hf : fatal cfg p next = true
      · rw [referenceEvents_stop hle (by simp [stops, hf]), if_neg (by simp [hr])]
        cases hx : cfg.hasExceptionHandler <;> simp_all [eventLoop, deliver, deliveryCalls,
          Consumer.called, Consumer.store, fatal]
      · rw [referenceEvents_cons hle (by simp [stops, hf, hr]), ← hrest _ (by omega)]
        simp_all [eventLoop, deliver, deliveryCalls, Consumer.called, Consumer.store, fatal]

/-- The inner loop of `run_sequential_readonly_loop_impl`. -/
theorem readonlyEventLoop_eq (hm : cfg.readonly = true) : ∀ (turns : Nat) (next : Int) (st : Consumer E),
    z - next + 1 = turns → readonlyEventLoop b cfg p z turns next st = referenceEvents b cfg p next z st := by
  intro turns
  induction turns with
  | zero =>
    intro next st h
    have hn : next = z + 1 := by omega
    rw [hn, referenceEvents_nil]
    rfl
  | succ turns ih =>
    intro next st h
    have hle : next ≤ z := by omega
    cases hr : p.onEvent next with
    | panic =>
      rw [referenceEvents_stop hle (by simp [stops, hr]), if_pos hr]
      simp [readonlyEventLoop, deliver, deliveryCalls, Consumer.called, hr, hm]
    | ok =>
      rw [referenceEvents_cons hle (by simp [stops, fatal, hr]), ← ih _ _ (by omega)]
      simp [readonlyEventLoop, deliver, deliveryCalls, Consumer.called, hr, hm]
    | err =>
      rw [referenceEvents_stop hle (by simp [stops, fatal, hr, hm]), if_neg (by simp [hr])]
      simp [readonlyEventLoop, deliver, deliveryCalls, Consumer.called, hr, hm]

/-! ## The outer loops -/

theorem runBatch_eq (hm : cfg.readonly = false) (h : a ≤ z) : runBatch b cfg p a z st = reference b cfg p a z st := by
  unfold runBatch reference
  rw [if_neg (by rw [hm]; decide)]
  cases p.onBatchStart with
  | panic => rfl
  | err => rfl
  | ok => exact eventLoop_eq hm _ _ _ (by omega)

theorem readonlyBatch_eq (hm : cfg.readonly = true) (h : a ≤ z) :
    readonlyEventLoop b cfg p z (z - a + 1).toNat a st = reference b cfg p a z st := by
  unfold reference
  rw [if_pos hm]
  exact readonlyEventLoop_eq hm _ _ _ (by omega)

/-- After a whole batch the local `next_sequence` is one past the `Sequence` again. -/
theorem reference_went {n : Int} {st' : Consumer E} (h : reference b cfg p a z st = (.went n, st')) :
    n = st'.sequence + 1 := by
  have hevents : ∀ {st : Consumer E}, referenceEvents b cfg p a z st = (.went n, st') → n = st'.sequence + 1 := by
    intro st h
    unfold referenceEvents at h
    split at h
    · simp only [Prod.mk.injEq, LoopExit.went.injEq] at h
      obtain ⟨rfl, rfl⟩ := h
      rfl
    · split at h <;> simp only [Prod.mk.injEq, reduceCtorEq, false_and] at h
  unfold reference at h
  split at h
  · exact hevents h
  · split at h
    · simp only [Prod.mk.injEq, reduceCtorEq, false_and] at h
    · simp only [Prod.mk.injEq, reduceCtorEq, false_and] at h
    · exact hevents h

/-- An outer loop whose batches follow the reference follows it as a whole. -/
theorem outerLoop_eq {body : BatchPattern E → Int → Int → Consumer E → LoopExit × Consumer E}
    (hbody : ∀ {p : BatchPattern E} {a z : Int} {st : Consumer E}, a ≤ z → body p a z st = reference b cfg p a z st) :
    ∀ (rounds : List (Round E)) (st : Consumer E),
      outerLoop body rounds (st.sequence + 1) st = referenceLoop b cfg rounds st := by
  intro rounds
  induction rounds with
  | nil => intro st; rfl
  | cons r rs ih =>
    intro st
    unfold outerLoop referenceLoop
    cases r.shouldContinue with
    | false => rfl
    | true =>
      simp only [if_true]
      cases r.answer with
      | error e => simp only [ih]
      | ok available =>
        by_cases hlt : available ≤ st.sequence
        · simp only [show available < st.sequence + 1 by omega, hlt, if_true, ih]
        · simp only [show ¬available < st.sequence + 1 by omega, hlt, if_false]
          rw [hbody (by omega)]
          rcases hout : reference b cfg r.pattern (st.sequence + 1) available st with ⟨e, st'⟩
          cases e with
          | went n =>
            rw [reference_went hout]
            exact ih st'
          | waiting => rfl
          | returned => rfl
          | panicked => rfl

theorem runSequentialBatchLoop_eq (hm : cfg.readonly = false) (rounds : List (Round E)) (st : Consumer E) :
    runSequentialBatchLoop b cfg rounds st = referenceLoop b cfg rounds st :=
  outerLoop_eq (runBatch_eq hm) rounds st

theorem runSequentialReadonlyLoop_eq (hm : cfg.readonly = true) (rounds : List (Round E)) (st : Consumer E) :
    runSequentialReadonlyLoop b cfg rounds st = referenceLoop b cfg rounds st :=
  outerLoop_eq (readonlyBatch_eq hm) rounds st

/-! ## What deliveries leave alone -/

@[simp] theorem eventCalls_append {xs ys : List (Call E)} : eventCalls (xs ++ ys) = eventCalls xs ++ eventCalls ys :=
  List.filterMap_append

theorem eventCalls_deliveryCalls {event : E} : eventCalls (deliveryCalls cfg p z event t) = [(t, t == z)] := by
  unfold deliveryCalls
  split <;> rfl

/-- Deliveries change the ring and the history only. -/
theorem foldl_deliver_frame : ∀ (ts : List Int) (st : Consumer E),
    (ts.foldl (deliver b cfg p z) st).sequence = st.sequence ∧
      (ts.foldl (deliver b cfg p z) st).poisoned = st.poisoned ∧
      (ts.foldl (deliver b cfg p z) st).firstFailure = st.firstFailure ∧
      eventCalls (ts.foldl (deliver b cfg p z) st).calls =
        eventCalls st.calls ++ ts.map fun t => (t, t == z) := by
  intro ts
  induction ts with
  | nil => intro st; simp
  | cons t ts ih =>
    intro st
    obtain ⟨h1, h2, h3, h4⟩ := ih (deliver b cfg p z st t)
    refine ⟨h1, h2, h3, ?_⟩
    rw [List.foldl_cons, h4, deliver, eventCalls_append, eventCalls_deliveryCalls, List.append_assoc]
    rfl

/-! ## The law of a batch -/

/-- What the failure policy promises of a batch `[a, z]` with outcome `out`. -/
structure BatchLaw (cfg : EngineConfig) (p : BatchPattern E) (a z : Int) (st : Consumer E) (out : LoopExit × Consumer E) :
    Prop where
  /-- `on_batch_start` comes first, with the length of the batch and the distance from the `Sequence`. -/
  sizes : cfg.readonly = false →
    ∃ rest, out.2.calls = st.calls ++ .onBatchStart (z - a + 1) (z - st.sequence) p.onBatchStart :: rest
  /-- When it fails, nothing is delivered. -/
  failedStart : cfg.readonly = false → p.onBatchStart = .err →
    out.1 = .returned ∧ eventCalls out.2.calls = eventCalls st.calls ∧ out.2.sequence = a - 1 ∧ out.2.poisoned = true ∧
      out.2.firstFailure = st.firstFailure.or (some (cfg.failure .batchStart (some a)))
  /-- No fatal error: every event is delivered, the last one as the end of the batch. -/
  whole : cfg.readonly = true ∨ p.onBatchStart = .ok → firstStop cfg p a z = none →
    out.1 = .went (z + 1) ∧ eventCalls out.2.calls = eventCalls st.calls ++ (span a z).map (fun t => (t, t == z)) ∧
      out.2.sequence = z ∧ out.2.poisoned = st.poisoned ∧ out.2.firstFailure = st.firstFailure
  /-- A fatal error at `k`: nothing after it is delivered. -/
  stopped : cfg.readonly = true ∨ p.onBatchStart = .ok → ∀ k, firstStop cfg p a z = some k → fatal cfg p k = true →
    out.1 = .returned ∧ eventCalls out.2.calls = eventCalls st.calls ++ (span a k).map (fun t => (t, t == z)) ∧
      out.2.sequence = k - 1 ∧ out.2.poisoned = true ∧
      out.2.firstFailure = st.firstFailure.or (some (cfg.failure .eventProcessing (some k)))

/-- Callbacks are only added. -/
theorem foldl_deliver_calls : ∀ (ts : List Int) (st : Consumer E),
    ∃ rest, (ts.foldl (deliver b cfg p z) st).calls = st.calls ++ rest := by
  intro ts
  induction ts with
  | nil => intro st; exact ⟨[], by simp⟩
  | cons t ts ih =>
    intro st
    obtain ⟨rest, h⟩ := ih (deliver b cfg p z st t)
    refine ⟨deliveryCalls cfg p z (st.ring (calculateIndex b t)) t ++ rest, ?_⟩
    rw [List.foldl_cons, h, deliver, List.append_assoc]

theorem referenceEvents_calls : ∃ rest, (referenceEvents b cfg p a z st).2.calls = st.calls ++ rest := by
  unfold referenceEvents
  split
  · exact foldl_deliver_calls _ _
  · split
    · exact foldl_deliver_calls _ _
    · exact foldl_deliver_calls _ _

/-- The delivered events, however the batch is left. -/
theorem referenceEvents_eventCalls : eventCalls (referenceEvents b cfg p a z st).2.calls =
    eventCalls st.calls ++ (span a ((firstStop cfg p a z).getD z)).map fun t => (t, t == z) := by
  unfold referenceEvents
  split
  · rename_i h
    rw [h]
    exact (foldl_deliver_frame _ _).2.2.2
  · rename_i k h
    rw [h]
    split
    · exact (foldl_deliver_frame _ _).2.2.2
    · exact (foldl_deliver_frame _ _).2.2.2

/-- The events of a batch without a fatal error. -/
theorem referenceEvents_whole (h : firstStop cfg p a z = none) :
    (referenceEvents b cfg p a z st).1 = .went (z + 1) ∧
      eventCalls (referenceEvents b cfg p a z st).2.calls = eventCalls st.calls ++ (span a z).map (fun t => (t, t == z)) ∧
      (referenceEvents b cfg p a z st).2.sequence = z ∧ (referenceEvents b cfg p a z st).2.poisoned = st.poisoned ∧
      (referenceEvents b cfg p a z st).2.firstFailure = st.firstFailure := by
  obtain ⟨-, hp, hf, -⟩ := @foldl_deliver_frame E b cfg p z (span a z) st
  refine ⟨?_, by rw [referenceEvents_eventCalls, h]; rfl, ?_⟩
  · simp only [referenceEvents, h]
  · simp only [referenceEvents, h]
    exact ⟨trivial, hp, hf⟩

/-- The events of a batch with a fatal error at `k`. -/
theorem referenceEvents_fatal {k : Int} (h : firstStop cfg p a z = some k) (hk : fatal cfg p k = true) :
    (referenceEvents b cfg p a z st).1 = .returned ∧
      eventCalls (referenceEvents b cfg p a z st).2.calls = eventCalls st.calls ++ (span a k).map (fun t => (t, t == z)) ∧
      (referenceEvents b cfg p a z st).2.sequence = k - 1 ∧ (referenceEvents b cfg p a z st).2.poisoned = true ∧
      (referenceEvents b cfg p a z st).2.firstFailure =
        st.firstFailure.or (some (cfg.failure .eventProcessing (some k))) := by
  obtain ⟨-, -, hf, -⟩ := @foldl_deliver_frame E b cfg p z (span a k) st
  have hne : p.onEvent k ≠ .panic := by
    intro hp
    simp [fatal, hp] at hk
  refine ⟨?_, by rw [referenceEvents_eventCalls, h]; rfl, ?_⟩
  · simp only [referenceEvents, h, if_neg hne]
  · simp only [referenceEvents, h, if_neg hne, Consumer.poisonWithFailure]
    exact ⟨trivial, trivial, by rw [hf]⟩

theorem batchLaw_reference (hs : st.sequence = a - 1) : BatchLaw cfg p a z st (reference b cfg p a z st) := by
  have hcalls : eventCalls (st.called (.onBatchStart (z - a + 1) (z - st.sequence) p.onBatchStart)).calls =
      eventCalls st.calls := by
    rw [Consumer.called, eventCalls_append]
    exact List.append_nil _
  refine ⟨fun hm => ?_, fun hm he => ?_, fun hstart hw => ?_, fun hstart k hk hfat => ?_⟩
  · simp only [reference, hm, Bool.false_eq_true, if_false]
    cases p.onBatchStart with
    | panic => exact ⟨[], rfl⟩
    | err => exact ⟨[], rfl⟩
    | ok =>
      obtain ⟨rest, h⟩ := @referenceEvents_calls E b cfg p a z
        (st.called (.onBatchStart (z - a + 1) (z - st.sequence) .ok))
      exact ⟨rest, by rw [h, Consumer.called, List.append_assoc]; rfl⟩
  · simp only [reference, hm, Bool.false_eq_true, if_false, he]
    rw [he] at hcalls
    exact ⟨trivial, hcalls, hs, rfl, rfl⟩
  · cases hm : cfg.readonly with
    | true =>
      simp only [reference, hm, if_true]
      exact referenceEvents_whole hw
    | false =>
      have ho : p.onBatchStart = .ok := hstart.resolve_left (by rw [hm]; decide)
      rw [ho] at hcalls
      simp only [reference, hm, Bool.false_eq_true, if_false, ho]
      rw [← hcalls]
      exact referenceEvents_whole hw
  · cases hm : cfg.readonly with
    | true =>
      simp only [reference, hm, if_true]
      exact referenceEvents_fatal hk hfat
    | false =>
      have ho : p.onBatchStart = .ok := hstart.resolve_left (by rw [hm]; decide)
      rw [ho] at hcalls
      simp only [reference, hm, Bool.false_eq_true, if_false, ho]
      rw [← hcalls]
      exact referenceEvents_fatal hk hfat

/-! ## The interleaving model -/

/-- How a callback comes back to `seqStep`. -/
def Callback.input (r : Callback) (d : ErrorDecision) : EngineInput :=
  match r with
  | .ok => .handler .ok
  | .err => .handler (.err d)
  | .panic => .panic

/-- The input that the pattern supplies at each place of a batch. -/
def BatchPattern.input (p : BatchPattern E) : SeqPc → EngineInput
  | .batchStart _ _ => p.onBatchStart.input .stop
  | .inEvent next _ => (p.onEvent next).input (p.decision next)
  | _ => .tick

/-- Where `seqStep` stands when a batch is left. -/
def LoopExit.seqPc (cfg : EngineConfig) (failed : Option Int) : LoopExit → SeqPc
  | went next => .loop next
  | returned => .record (cfg.failure .eventProcessing failed) false
  | panicked => .record (cfg.failure .consumerPanic none) true
  | waiting => .stopping

/-- The loop of the interleaving model, driven by a pattern. -/
def Fed (cfg : EngineConfig) (p : BatchPattern E) (x y : Int × SeqLoop) : Prop :=
  Reach (fun x i => seqStep cfg x.1 x.2 i) (fun x i => i = p.input x.2.pc) x y

theorem Fed.head {x y w : Int × SeqLoop} (h : seqStep cfg x.1 x.2 (p.input x.2.pc) = some y) (hy : Fed cfg p y w) :
    Fed cfg p x w :=
  Reach.trans (Reach.tail .refl rfl h) hy

section Fed

variable {l : SeqLoop} {s : Int}

theorem fed_call (hle : a ≤ z) (hpc : l.pc = .event a z) :
    seqStep cfg s l (p.input l.pc) = some (s, { l with pc := .inEvent a z, calls := l.calls ++ [a] }) := by
  simp [seqStep, BatchPattern.input, hpc, hle]

/-- An event that does not stop the loop. -/
theorem fed_pass (hle : a ≤ z) (hpc : l.pc = .event a z) (hstop : stops cfg p a = false) :
    ∃ l', Fed cfg p (s, l) (s, l') ∧ l'.pc = .event (a + 1) z ∧ l'.calls = l.calls ++ [a] := by
  cases hr : p.onEvent a with
  | panic => simp [stops, hr] at hstop
  | ok =>
    refine ⟨⟨.event (a + 1) z, l.calls ++ [a], l.returned ++ [a], l.batchEnds, l.failedAt⟩, ?_, rfl, rfl⟩
    refine .head (fed_call hle hpc) (.head ?_ .refl)
    simp [BatchPattern.input, Callback.input, hr, seqStep]
  | err =>
    refine ⟨⟨.event (a + 1) z, l.calls ++ [a], l.returned, l.batchEnds, l.failedAt⟩, ?_, rfl, rfl⟩
    refine .head (fed_call hle hpc) (.head ?_ .refl)
    have hd : cfg.hasExceptionHandler = true ∧ p.decision a = .continue := by
      cases hd : p.decision a <;> simp_all [stops, fatal]
    simp [BatchPattern.input, Callback.input, hr, seqStep, hd]

/-- A fatal error: the `Sequence` is stored before the failure is recorded. -/
theorem fed_fatal (hx : cfg.readonly = true → cfg.hasExceptionHandler = false) (hle : a ≤ z) (hpc : l.pc = .event a z)
    (hf : fatal cfg p a = true) :
    ∃ l', Fed cfg p (s, l) (a - 1, l') ∧ l'.pc = .record (cfg.failure .eventProcessing (some a)) false ∧
      l'.calls = l.calls ++ [a] := by
  have hr : p.onEvent a = .err := by
    cases hr : p.onEvent a <;> simp_all [fatal]
  have hd : ¬(cfg.hasExceptionHandler = true ∧ p.decision a = .continue) := by
    rintro ⟨h1, h2⟩
    cases hm : cfg.readonly <;> simp_all [fatal]
  refine ⟨⟨.record (cfg.failure .eventProcessing (some a)) false, l.calls ++ [a], l.returned, l.batchEnds, some a⟩,
    ?_, rfl, rfl⟩
  refine .head (fed_call hle hpc) (.head (y := (s, ⟨.freeze a, l.calls ++ [a], l.returned, l.batchEnds, some a⟩)) ?_
    (.head rfl .refl))
  simp [BatchPattern.input, Callback.input, hr, seqStep, hd]

theorem fed_panic (hle : a ≤ z) (hpc : l.pc = .event a z) (hr : p.onEvent a = .panic) :
    ∃ l', Fed cfg p (s, l) (s, l') ∧ l'.pc = .record (cfg.failure .consumerPanic none) true ∧
      l'.calls = l.calls ++ [a] := by
  refine ⟨⟨.record (cfg.failure .consumerPanic none) true, l.calls ++ [a], l.returned, l.batchEnds, l.failedAt⟩, ?_, rfl, rfl⟩
  refine .head (fed_call hle hpc) (.head ?_ .refl)
  simp [BatchPattern.input, Callback.input, hr, seqStep]

end Fed

/-- The interleaving model handles the events of a batch as the reference does. -/
theorem seqStep_follows_reference (hx : cfg.readonly = true → cfg.hasExceptionHandler = false) :
    ∀ (turns : Nat) (a : Int) (st : Consumer E) (l : SeqLoop), z - a + 1 = turns → l.pc = .event a z →
      ∃ l', Fed cfg p (st.sequence, l) ((referenceEvents b cfg p a z st).2.sequence, l') ∧
        l'.calls = l.calls ++ span a ((firstStop cfg p a z).getD z) ∧
        l'.pc = (referenceEvents b cfg p a z st).1.seqPc cfg (firstStop cfg p a z) := by
  intro turns
  induction turns with
  | zero =>
    intro a st l h hpc
    have ha : a = z + 1 := by omega
    subst ha
    have hspan : span (z + 1) z = [] := span_nil (by omega)
    refine ⟨{ l with pc := .loop (z + 1) }, ?_, ?_, ?_⟩
    · rw [referenceEvents_nil]
      refine .head (y := (st.sequence, { l with pc := .store z })) ?_ (.head rfl .refl)
      simp [seqStep, BatchPattern.input, hpc]
    · simp [firstStop, hspan]
    · rw [referenceEvents_nil]
      rfl
  | succ turns ih =>
    intro a st l h hpc
    have hle : a ≤ z := by omega
    cases hstop : stops cfg p a with
    | true =>
      have hspan : span a a = [a] := by rw [span_cons le_rfl, span_nil (by omega)]
      rw [referenceEvents_stop hle hstop, firstStop_pos hle hstop, Option.getD_some, hspan]
      by_cases hr : p.onEvent a = .panic
      · obtain ⟨l', hd, hpc', hcalls⟩ := @fed_panic E cfg p a z l st.sequence hle hpc hr
        exact ⟨l', by rwa [if_pos hr], hcalls, by rw [if_pos hr]; exact hpc'⟩
      · have hf : fatal cfg p a = true := by simpa [stops, hr] using hstop
        obtain ⟨l', hd, hpc', hcalls⟩ := fed_fatal (s := st.sequence) hx hle hpc hf
        exact ⟨l', by rwa [if_neg hr], hcalls, by rw [if_neg hr]; exact hpc'⟩
    | false =>
      obtain ⟨l₁, hd₁, hpc₁, hcalls₁⟩ := fed_pass (s := st.sequence) hle hpc hstop
      obtain ⟨l', hd, hcalls, hpc'⟩ := ih (a + 1) (deliver b cfg p z st a) l₁ (by omega) hpc₁
      rw [referenceEvents_cons hle hstop, firstStop_neg hle hstop]
      refine ⟨l', Reach.trans hd₁ hd, ?_, hpc'⟩
      have hlast : a ≤ (firstStop cfg p (a + 1) z).getD z := by
        cases hk : firstStop cfg p (a + 1) z with
        | none => exact hle
        | some k =>
          have := (firstStop_le hk).1
          simp only [Option.getD_some]
          omega
      rw [hcalls, hcalls₁, span_cons hlast, List.append_assoc]
      rfl

/-- **Both loops follow one law**: over any number of batches with any outcome of every callback, they are the reference
fold, and each of their batches keeps the failure policy. -/
theorem sequential_loops_follow_reference (b : BufferSize) (stage : Option Nat) (exceptions : Bool) (st : Consumer E) :
    (∀ rounds, runSequentialBatchLoop b ⟨stage, false, exceptions⟩ rounds st =
      referenceLoop b ⟨stage, false, exceptions⟩ rounds st) ∧
    (∀ rounds, runSequentialReadonlyLoop b ⟨stage, true, false⟩ rounds st =
      referenceLoop b ⟨stage, true, false⟩ rounds st) ∧
    (∀ p a z, st.sequence = a - 1 → a ≤ z →
      BatchLaw ⟨stage, false, exceptions⟩ p a z st (runBatch b ⟨stage, false, exceptions⟩ p a z st)) ∧
    (∀ p a z, st.sequence = a - 1 → a ≤ z → BatchLaw ⟨stage, true, false⟩ p a z st
      (readonlyEventLoop b ⟨stage, true, false⟩ p z (z - a + 1).toNat a st)) := by
  refine ⟨fun rounds => runSequentialBatchLoop_eq rfl rounds st, fun rounds => runSequentialReadonlyLoop_eq rfl rounds st,
    fun p a z hs hle => ?_, fun p a z hs hle => ?_⟩
  · rw [runBatch_eq rfl hle]
    exact batchLaw_reference hs
  · rw [readonlyBatch_eq rfl hle]
    exact batchLaw_reference hs

/-- The second event fails, and an exception handler skips it. -/
def failsSecond : BatchPattern Nat := ⟨.ok, fun t => if t = 1 then .err else .ok, fun _ v => v + 1, fun _ => .continue⟩

/-- A batch of three: the loop with an exception handler skips the second event, the read-only loop stops there. -/
theorem sequential_loops_follow_reference_three : ∃ st out out' : Consumer Nat,
    runBatch ⟨2, by decide⟩ ⟨none, false, true⟩ failsSecond 0 2 st = (.went 3, out) ∧ out.sequence = 2 ∧
      eventCalls out.calls = [(0, false), (1, false), (2, true)] ∧
      BatchLaw ⟨none, false, true⟩ failsSecond 0 2 st (.went 3, out) ∧
    readonlyEventLoop ⟨2, by decide⟩ ⟨none, true, false⟩ failsSecond 2 3 0 st = (.returned, out') ∧ out'.sequence = 0 ∧
      eventCalls out'.calls = [(0, false), (1, false)] ∧ out'.firstFailure = some ⟨.eventProcessing, none, some 1⟩ ∧
      BatchLaw ⟨none, true, false⟩ failsSecond 0 2 st (.returned, out') := by
  obtain ⟨-, -, hbatch, hreadonly⟩ := sequential_loops_follow_reference ⟨2, by decide⟩ none true
    (⟨fun _ => 0, -1, false, none, []⟩ : Consumer Nat)
  exact ⟨_, _, _, rfl, rfl, rfl, hbatch failsSecond 0 2 rfl (by decide), rfl, rfl, rfl, rfl,
    hreadonly failsSecond 0 2 rfl (by decide)⟩

end BadBatch
