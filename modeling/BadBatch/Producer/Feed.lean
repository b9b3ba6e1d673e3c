import BadBatch.SequenceBarrier
import BadBatch.ConsumerEngine.Loops

/-!
# Producers

`SimpleProducer::{publish, try_publish, batch_publish, try_batch_publish}` and `Disruptor::publish_event` all do the same:
claim, let the update closure write the claimed slots, publish. A closure that panics leaves its claim unpublished and
poisons the sequencer (`PoisonOnPanic`).

`Feed` is the sequencer with its producers and the ring, `Feed.step` one step of any of them; `FeedRule` says what each step
needs and does.
-/

namespace BadBatch

open MultiProducerSequencer

/-- What a producer is doing. -/
inductive ProducerPhase
  | idle
  /-- Inside a call on the claim path. -/
  | claiming (c : ClaimCall)
  /-- The closure writes the claimed slots; `next` is the first one not written yet. -/
  | writing (low high next : Int)
  /-- Inside `publish` or `publish_range`. -/
  | publishing
  /-- `PoisonOnPanic::drop`: `record_failure` -/
  | panicked (low : Int)
  /-- `PoisonOnPanic::drop`: `poison` -/
  | poisoning
  deriving DecidableEq, Repr

/-- The sequencer, its producers, the ring, and the first failure. `written` is history: the value that the producer of a
sequence left in its slot. -/
structure Feed (E : Type) where
  world : SequencerWorld
  phases : Nat → ProducerPhase
  ring : Nat → E
  written : Int → Option E
  firstFailure : Option FailureRecord

/-- One step of a producer. -/
inductive FeedAction (E : Type)
  | call (p : Nat) (c : ClaimCall)
  | step (p : Nat)
  /-- The claim call has returned. -/
  | claimed (p : Nat)
  | write (p : Nat) (value : E)
  | publish (p : Nat)
  | publishRange (p : Nat)
  /-- The publication has returned. -/
  | published (p : Nat)
  | panic (p : Nat)
  | record (p : Nat)
  | poison (p : Nat)
  | close
  | reopen

variable {E : Type}

/-- The producer that takes the step, for steps that belong to one. -/
def FeedAction.producer : FeedAction E → Option Nat
  | .call p _ | .step p | .claimed p | .write p _ | .publish p | .publishRange p | .published p | .panic p | .record p
  | .poison p => some p
  | .close | .reopen => none

namespace Feed

/-- `record_failure`: only the first one is kept. -/
def recordFailure (f : Feed E) (failure : FailureRecord) : Feed E :=
  { f with firstFailure := f.firstFailure.or (some failure) }

/-- Producer `p` moves to another phase. -/
def goto (f : Feed E) (p : Nat) (phase : ProducerPhase) : Feed E :=
  { f with phases := Function.update f.phases p phase }

/-- A producer handle is used by one thread at a time. Behind a single-producer sequencer there is one handle, or the
claim guard of the DSL serialises the threads. -/
def mayCall (f : Feed E) (p : Nat) : Bool :=
  match f.world with
  | .single w => f.phases w.driver == .idle
  | .multi _ => f.phases p == .idle

/-- One step of a producer. -/
def step (b : BufferSize) (f : Feed E) : FeedAction E → Option (Feed E)
  | .call p c =>
    if f.mayCall p then (f.world.step b (.call p c)).map fun w => { f with world := w }.goto p (.claiming c) else none
  | .step p => (f.world.step b (.step p)).map fun w => { f with world := w }
  | .claimed p =>
    match f.phases p, f.world.result p with
    | .claiming c, some (.ok high) => some (f.goto p (.writing (high - c.n + 1) high (high - c.n + 1)))
    | .claiming _, some _ => some (f.goto p .idle)
    | _, _ => none
  | .write p value =>
    match f.phases p with
    | .writing low high next =>
      if next ≤ high then
        some ({ f with
          ring := Function.update f.ring (calculateIndex b next) value
          written := Function.update f.written next (some value) }.goto p (.writing low high (next + 1)))
      else none
    | _ => none
  | .publish p =>
    match f.phases p with
    | .writing low high next =>
      if high < next ∧ low = high then
        (f.world.step b (.publish p low)).map fun w => { f with world := w }.goto p .publishing
      else none
    | _ => none
  | .publishRange p =>
    match f.phases p with
    | .writing low high next =>
      if high < next then
        (f.world.step b (.publishRange p low high)).map fun w => { f with world := w }.goto p .publishing
      else none
    | _ => none
  | .published p =>
    match f.phases p, f.world.result p with
    | .publishing, some _ => some (f.goto p .idle)
    | _, _ => none
  | .panic p =>
    match f.phases p with
    | .writing low _ _ => some (f.goto p (.panicked low))
    | _ => none
  | .record p =>
    match f.phases p with
    | .panicked low => some ((f.recordFailure ⟨.producerPanic, none, some low⟩).goto p .poisoning)
    | _ => none
  | .poison p =>
    match f.phases p with
    | .poisoning => (f.world.step b .poison).map fun w => { f with world := w }.goto p .idle
    | _ => none
  | .close => (f.world.step b .close).map fun w => { f with world := w }
  | .reopen => (f.world.step b .reopen).map fun w => { f with world := w }

end Feed

/-! ## The steps of a producer -/

section Rules

variable (b : BufferSize) (f : Feed E)

/-- The steps of a producer, one rule for each. -/
inductive FeedRule : FeedAction E → Feed E → Prop
  | call {p c w} (hmay : f.mayCall p = true) (hst : f.world.step b (.call p c) = some w) :
    FeedRule (.call p c) ({ f with world := w }.goto p (.claiming c))
  | step {p w} (hst : f.world.step b (.step p) = some w) : FeedRule (.step p) { f with world := w }
  | granted {p c high} (hp : f.phases p = .claiming c) (hr : f.world.result p = some (.ok high)) :
    FeedRule (.claimed p) (f.goto p (.writing (high - c.n + 1) high (high - c.n + 1)))
  | refused {p c r} (hp : f.phases p = .claiming c) (hr : f.world.result p = some r) (hno : ∀ high, r ≠ .ok high) :
    FeedRule (.claimed p) (f.goto p .idle)
  | write {p value low high next} (hp : f.phases p = .writing low high next) (hle : next ≤ high) :
    FeedRule (.write p value) ({ f with
      ring := Function.update f.ring (calculateIndex b next) value
      written := Function.update f.written next (some value) }.goto p (.writing low high (next + 1)))
  | publish {p low high next w} (hp : f.phases p = .writing low high next) (hlt : high < next) (heq : low = high)
    (hst : f.world.step b (.publish p low) = some w) : FeedRule (.publish p) ({ f with world := w }.goto p .publishing)
  | publishRange {p low high next w} (hp : f.phases p = .writing low high next) (hlt : high < next)
    (hst : f.world.step b (.publishRange p low high) = some w) :
    FeedRule (.publishRange p) ({ f with world := w }.goto p .publishing)
  | published {p r} (hp : f.phases p = .publishing) (hr : f.world.result p = some r) : FeedRule (.published p) (f.goto p .idle)
  | panic {p low high next} (hp : f.phases p = .writing low high next) : FeedRule (.panic p) (f.goto p (.panicked low))
  | record {p low} (hp : f.phases p = .panicked low) :
    FeedRule (.record p) ((f.recordFailure ⟨.producerPanic, none, some low⟩).goto p .poisoning)
  | poison {p w} (hp : f.phases p = .poisoning) (hst : f.world.step b .poison = some w) :
    FeedRule (.poison p) ({ f with world := w }.goto p .idle)
  | close {w} (hst : f.world.step b .close = some w) : FeedRule .close { f with world := w }
  | reopen {w} (hst : f.world.step b .reopen = some w) : FeedRule .reopen { f with world := w }

variable {b f} {f' : Feed E} {a : FeedAction E}

/-- Every step of a producer follows a rule. -/
theorem feedRule_of_step (hs : f.step b a = some f') : FeedRule b f a f' := by
  cases a with
  | call p c =>
    simp only [Feed.step, Option.ite_none_right_eq_some, Option.map_eq_some_iff] at hs
    obtain ⟨hmay, w, hst, rfl⟩ := hs
    exact .call hmay hst
  | step p =>
    simp only [Feed.step, Option.map_eq_some_iff] at hs
    obtain ⟨w, hst, rfl⟩ := hs
    exact .step hst
  | claimed p =>
    simp only [Feed.step] at hs
    split at hs
    · rename_i hp hr
      cases hs
      exact .granted hp hr
    · rename_i hno hp hr
      cases hs
      exact .refused hp hr hno
    · cases hs
  | write p value =>
    simp only [Feed.step] at hs
    split at hs <;> simp only [Option.ite_none_right_eq_some, Option.some.injEq, reduceCtorEq] at hs
    obtain ⟨hle, rfl⟩ := hs
    exact .write ‹_› hle
  | publish p =>
    simp only [Feed.step] at hs
    split at hs <;> simp only [Option.ite_none_right_eq_some, Option.map_eq_some_iff, reduceCtorEq] at hs
    obtain ⟨⟨hlt, heq⟩, w, hst, rfl⟩ := hs
    exact .publish ‹_› hlt heq hst
  | publishRange p =>
    simp only [Feed.step] at hs
    split at hs <;> simp only [Option.ite_none_right_eq_some, Option.map_eq_some_iff, reduceCtorEq] at hs
    obtain ⟨hlt, w, hst, rfl⟩ := hs
    exact .publishRange ‹_› hlt hst
  | published p =>
    simp only [Feed.step] at hs
    split at hs <;> cases hs
    exact .published ‹_› ‹_›
  | panic p =>
    simp only [Feed.step] at hs
    split at hs <;> cases hs
    exact .panic ‹_›
  | record p =>
    simp only [Feed.step] at hs
    split at hs <;> cases hs
    exact .record ‹_›
  | poison p =>
    simp only [Feed.step] at hs
    split at hs <;> simp only [Option.map_eq_some_iff, reduceCtorEq] at hs
    obtain ⟨w, hst, rfl⟩ := hs
    exact .poison ‹_› hst
  | close =>
    simp only [Feed.step, Option.map_eq_some_iff] at hs
    obtain ⟨w, hst, rfl⟩ := hs
    exact .close hst
  | reopen =>
    simp only [Feed.step, Option.map_eq_some_iff] at hs
    obtain ⟨w, hst, rfl⟩ := hs
    exact .reopen hst

end Rules

end BadBatch
