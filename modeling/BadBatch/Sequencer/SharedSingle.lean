import BadBatch.Sequencer.Single

/-!
# The single-producer sequencer shared by several threads

Nothing stops a program from driving one `SingleProducerSequencer` from several threads through an `Arc`; the claim lock
keeps all but one of them off `next_value` and `cached_value`. Here each access to one of these cells, to the lock, to a
flag, to the cursor or to a gating sequence is one step, and any thread may be unwound while it holds the claim guard.
A `UniqueProducerCapability` holds the lock without a guard for as long as it lives; it may be moved to another thread
between two calls.
-/

namespace BadBatch

/-- Where a thread stands. `nextValue` is the value it read at the start of the call. -/
inductive SharedPc
  | returned (r : ClaimResult)
  | loadClosed (c : ClaimCall)
  | loadPoisoned (c : ClaimCall)
  /-- `claim_lock.swap(true)` -/
  | acquire (c : ClaimCall)
  | readNext (c : ClaimCall)
  | readCached (c : ClaimCall) (nextValue : Int)
  | setVolatile (c : ClaimCall) (nextValue : Int)
  | loadGating (c : ClaimCall) (nextValue : Int)
  | scan (c : ClaimCall) (nextValue : Int) (rest : List Nat) (minimum : Int)
  | spinClosed (c : ClaimCall) (nextValue : Int)
  | spinPoisoned (c : ClaimCall) (nextValue : Int)
  | writeCached (c : ClaimCall) (nextValue minimum : Int)
  /-- `try_next_n_inner` reads `next_value` once more. -/
  | readNextAgain (n : Int)
  | writeNext (n value : Int)
  /-- `SingleClaimGuard::drop` -/
  | release (r : ClaimResult)
  /-- `cursor.set(high)` -/
  | publish (low high : Int)
  deriving DecidableEq, Repr

/-- A thread: whether its call goes through the capability, and where it stands. -/
structure SharedThread where
  unique : Bool
  pc : SharedPc
  deriving DecidableEq, Repr

namespace SingleProducerSequencer

variable (b : BufferSize) (unique : Bool)

/-- The end of a claim: a guarded one drops its guard. -/
def leave (r : ClaimResult) : SharedPc := if unique then .returned r else .release r

/-- The first step of a call: the argument checks. -/
def sharedStart : ClaimCall → SharedPc
  | .nextN n => if n < 1 ∨ n > b.sizeI64 then .returned (.err (.invalidSequence n)) else .loadClosed (.nextN n)
  | .tryNextN n => if n < 1 ∨ n > b.sizeI64 then .returned .none else .loadClosed (.tryNextN n)
  | .hasAvailableCapacity k => .acquire (.hasAvailableCapacity k)
  | .remainingCapacity => if unique then .readNext .remainingCapacity else .acquire .remainingCapacity

/-- One atomic step of a thread inside a call. -/
def sharedStep (sequences : Nat → Int) (m : SingleProducerSequencer) :
    SharedPc → Option (SingleProducerSequencer × SharedPc × LedgerEffect)
  | .returned _ => none
  | .loadClosed c => some (m, if m.closed then .returned (claimRefused .shutdown c) else .loadPoisoned c, .none)
  | .loadPoisoned c =>
    some (m, if m.poisoned then .returned (claimRefused .poisoned c) else if unique then .readNext c else .acquire c, .none)
  | .acquire c =>
    some ({ m with claimLock := true }, if m.claimLock then .returned (lockedOut c) else .readNext c, .none)
  | .readNext c =>
    match c with
    -- `i64::try_from(required_capacity).expect(..)`
    | .hasAvailableCapacity k =>
      some (m, if (k : Int) > i64Max then leave unique .panicked else .readCached c m.nextValue, .none)
    | .remainingCapacity => some (m, .loadGating c m.nextValue, .none)
    | _ => some (m, .readCached c m.nextValue, .none)
  | .readCached c nextValue =>
    let slow := decide (nextValue + c.n - b.sizeI64 > m.cachedValue ∨ m.cachedValue > nextValue)
    match c with
    | .nextN n => some (m, if slow then .setVolatile c nextValue else .writeNext n (nextValue + n), .none)
    | .tryNextN n => some (m, if slow then .setVolatile c nextValue else .readNextAgain n, .none)
    | .hasAvailableCapacity _ => some (m, if slow then .loadGating c nextValue else leave unique (.bool true), .none)
    -- `remaining_capacity` does not look at the cache
    | .remainingCapacity => some (m, .loadGating c nextValue, .none)
  | .setVolatile c nextValue => some ({ m with cursor := nextValue }, .loadGating c nextValue, .none)
  | .loadGating c nextValue => some (m, .scan c nextValue m.gatingSequences nextValue, .none)
  | .scan c nextValue (i :: rest) minimum => some (m, .scan c nextValue rest (lower minimum (sequences i)), .none)
  | .scan c nextValue [] minimum =>
    match c with
    | .remainingCapacity => some (m, leave unique (.capacity (b.sizeI64 - (nextValue - minimum))), .none)
    | .nextN n =>
      some (m, if nextValue + n - b.sizeI64 > minimum then .spinClosed c nextValue else .writeCached c nextValue minimum, .none)
    | _ => some (m, .writeCached c nextValue minimum, .none)
  | .spinClosed c nextValue =>
    some (m, if m.closed then leave unique (.err .shutdown) else .spinPoisoned c nextValue, .none)
  | .spinPoisoned c nextValue =>
    some (m, if m.poisoned then leave unique (.err .poisoned) else .loadGating c nextValue, .none)
  | .writeCached c nextValue minimum =>
    let m' := { m with cachedValue := minimum }
    let wrapPoint := nextValue + c.n - b.sizeI64
    match c with
    | .nextN n => some (m', .writeNext n (nextValue + n), .none)
    | .tryNextN n => some (m', if wrapPoint > minimum then leave unique .none else .readNextAgain n, .none)
    | .hasAvailableCapacity _ | .remainingCapacity => some (m', leave unique (.bool (decide ¬wrapPoint > minimum)), .none)
  | .readNextAgain n => some (m, .writeNext n (m.nextValue + n), .none)
  | .writeNext n value => some ({ m with nextValue := value }, leave unique (.ok value), .grant n value)
  | .release r => some ({ m with claimLock := false }, .returned r, .none)
  | .publish low high => some ({ m with cursor := high }, .returned .unit, .publish low (high + 1))

end SingleProducerSequencer

/-- The thread works on `next_value` and `cached_value`. -/
def SharedPc.inCells : SharedPc → Bool
  | .readNext _ | .readCached _ _ | .setVolatile _ _ | .loadGating _ _ | .scan _ _ _ _ | .spinClosed _ _ | .spinPoisoned _ _
  | .writeCached _ _ _ | .readNextAgain _ | .writeNext _ _ => true
  | _ => false

/-- The claim guard of the thread is alive. -/
def SharedPc.guarded : SharedPc → Bool
  | .release _ => true
  | pc => pc.inCells

/-! ## The whole system -/

/-- The sequencer, the sequences it may be gated on, every thread, the owner of the capability, and the ledger. -/
structure SharedWorld where
  sequencer : SingleProducerSequencer
  sequences : Nat → Int
  threads : Nat → SharedThread
  capability : Option Nat
  ledger : Ledger

/-- One step of one party. -/
inductive SharedAction
  /-- Thread `p` starts a call on the sequencer itself. -/
  | call (p : Nat) (c : ClaimCall)
  /-- Thread `p` starts a call on the capability, which has no `has_available_capacity`. -/
  | callUnique (p : Nat) (c : ClaimCall)
  /-- Thread `p` starts `publish_range(low, high)`, or `publish(high)` with `low = high`. -/
  | publish (p : Nat) (low high : Int)
  /-- Thread `p` takes its next atomic step. -/
  | step (p : Nat)
  /-- Thread `p` panics while it works on the cells. -/
  | unwind (p : Nat)
  | sendCapability (p q : Nat)
  | dropCapability (p : Nat)
  /-- A consumer stores `v` into sequence `i`. -/
  | advance (i : Nat) (v : Int)
  | close
  | reopen
  | poison
  | addGatingSequences (ids : List Nat)
  | removeGatingSequence (i : Nat)
  deriving DecidableEq, Repr

namespace SharedWorld

/-- `SingleProducerSequencer::new` without an owner, `new_unique` with one. -/
def init (capability : Option Nat) (gating : List Nat) : SharedWorld where
  sequencer := { SingleProducerSequencer.new capability.isSome with gatingSequences := addGatingSequencesRcu [] gating }
  sequences := fun _ => initialCursorValue
  threads := fun _ => ⟨false, .returned .unit⟩
  capability := capability
  ledger := Ledger.empty

/-- Thread `p` is between two calls. -/
def atRest (w : SharedWorld) (p : Nat) : Bool :=
  match (w.threads p).pc with
  | .returned _ => true
  | _ => false

/-- Thread `p` moves on. -/
def goto (w : SharedWorld) (p : Nat) (t : SharedThread) : SharedWorld :=
  { w with threads := Function.update w.threads p t }

/-- One step. The capability is used, sent and dropped by its owner, between two calls. -/
def step (b : BufferSize) (w : SharedWorld) : SharedAction → Option SharedWorld
  | .call p c =>
    if w.atRest p then some (w.goto p ⟨false, SingleProducerSequencer.sharedStart b false c⟩) else none
  | .callUnique p c =>
    if w.atRest p ∧ w.capability = some p then
      match c with
      | .hasAvailableCapacity _ => none
      | _ => some (w.goto p ⟨true, SingleProducerSequencer.sharedStart b true c⟩)
    else none
  | .publish p low high =>
    if w.atRest p ∧ low ≤ high ∧ w.ledger.Owns p low high then some (w.goto p ⟨false, .publish low high⟩) else none
  | .step p =>
    (SingleProducerSequencer.sharedStep b (w.threads p).unique w.sequences w.sequencer (w.threads p).pc).map
      fun (m, pc, e) =>
        { w with
          sequencer := m
          threads := Function.update w.threads p ⟨(w.threads p).unique, pc⟩
          ledger := e.apply p w.ledger }
  | .unwind p =>
    if (w.threads p).pc.inCells then
      some (w.goto p ⟨(w.threads p).unique, SingleProducerSequencer.leave (w.threads p).unique .panicked⟩)
    else none
  | .sendCapability p q =>
    if w.atRest p ∧ w.capability = some p then some { w with capability := some q } else none
  | .dropCapability p =>
    if w.atRest p ∧ w.capability = some p then
      some { w with capability := none, sequencer := { w.sequencer with claimLock := false } }
    else none
  | .advance i v =>
    if w.sequences i ≤ v then some { w with sequences := Function.update w.sequences i v } else none
  | .close => some { w with sequencer := { w.sequencer with closed := true } }
  | .reopen => some { w with sequencer := { w.sequencer with closed := false } }
  | .poison => some { w with sequencer := { w.sequencer with poisoned := true } }
  | .addGatingSequences ids =>
    some { w with
      sequencer := { w.sequencer with gatingSequences := addGatingSequencesRcu w.sequencer.gatingSequences ids } }
  | .removeGatingSequence i =>
    some { w with
      sequencer := { w.sequencer with gatingSequences := removeGatingSequenceCas w.sequencer.gatingSequences i } }

end SharedWorld

section Rules

variable (b : BufferSize) (w : SharedWorld)

/-- The steps of the system, one rule for each. -/
inductive SharedWorldRule : SharedAction → SharedWorld → Prop
  | call {p c} (hr : w.atRest p = true) :
    SharedWorldRule (.call p c) (w.goto p ⟨false, SingleProducerSequencer.sharedStart b false c⟩)
  | callUnique {p c} (hr : w.atRest p = true) (hc : w.capability = some p) (hne : ∀ k, c ≠ .hasAvailableCapacity k) :
    SharedWorldRule (.callUnique p c) (w.goto p ⟨true, SingleProducerSequencer.sharedStart b true c⟩)
  | publish {p low high} (hr : w.atRest p = true) (hle : low ≤ high) (ho : w.ledger.Owns p low high) :
    SharedWorldRule (.publish p low high) (w.goto p ⟨false, .publish low high⟩)
  | step {p m pc e} (hst : SingleProducerSequencer.sharedStep b (w.threads p).unique w.sequences w.sequencer
      (w.threads p).pc = some (m, pc, e)) :
    SharedWorldRule (.step p)
      { w with sequencer := m, threads := Function.update w.threads p ⟨(w.threads p).unique, pc⟩, ledger := e.apply p w.ledger }
  | unwind {p} (hc : (w.threads p).pc.inCells = true) : SharedWorldRule (.unwind p)
    (w.goto p ⟨(w.threads p).unique, SingleProducerSequencer.leave (w.threads p).unique .panicked⟩)
  | sendCapability {p q} (hr : w.atRest p = true) (hc : w.capability = some p) :
    SharedWorldRule (.sendCapability p q) { w with capability := some q }
  | dropCapability {p} (hr : w.atRest p = true) (hc : w.capability = some p) : SharedWorldRule (.dropCapability p)
    { w with capability := none, sequencer := { w.sequencer with claimLock := false } }
  | advance {i v} (hle : w.sequences i ≤ v) :
    SharedWorldRule (.advance i v) { w with sequences := Function.update w.sequences i v }
  | close : SharedWorldRule .close { w with sequencer := { w.sequencer with closed := true } }
  | reopen : SharedWorldRule .reopen { w with sequencer := { w.sequencer with closed := false } }
  | poison : SharedWorldRule .poison { w with sequencer := { w.sequencer with poisoned := true } }
  | addGatingSequences {ids} : SharedWorldRule (.addGatingSequences ids) { w with
      sequencer := { w.sequencer with gatingSequences := addGatingSequencesRcu w.sequencer.gatingSequences ids } }
  | removeGatingSequence {i} : SharedWorldRule (.removeGatingSequence i) { w with
      sequencer := { w.sequencer with gatingSequences := removeGatingSequenceCas w.sequencer.gatingSequences i } }

variable {b w}

/-- Every step of the system follows a rule. -/
theorem sharedWorldRule_of_step {w' : SharedWorld} {a : SharedAction} (hs : w.step b a = some w') :
    SharedWorldRule b w a w' := by
  cases a with
  | call p c =>
    simp only [SharedWorld.step, Option.ite_none_right_eq_some, Option.some.injEq] at hs
    obtain ⟨hr, rfl⟩ := hs
    exact .call hr
  | callUnique p c =>
    simp only [SharedWorld.step, Option.ite_none_right_eq_some] at hs
    obtain ⟨⟨hr, hc⟩, hs⟩ := hs
    split at hs <;> cases hs
    exact .callUnique hr hc ‹_›
  | publish p low high =>
    simp only [SharedWorld.step, Option.ite_none_right_eq_some, Option.some.injEq] at hs
    obtain ⟨⟨hr, hle, ho⟩, rfl⟩ := hs
    exact .publish hr hle ho
  | step p =>
    simp only [SharedWorld.step, Option.map_eq_some_iff] at hs
    obtain ⟨⟨m, pc, e⟩, hst, rfl⟩ := hs
    exact .step hst
  | unwind p =>
    simp only [SharedWorld.step, Option.ite_none_right_eq_some, Option.some.injEq] at hs
    obtain ⟨hc, rfl⟩ := hs
    exact .unwind hc
  | sendCapability p q =>
    simp only [SharedWorld.step, Option.ite_none_right_eq_some, Option.some.injEq] at hs
    obtain ⟨⟨hr, hc⟩, rfl⟩ := hs
    exact .sendCapability hr hc
  | dropCapability p =>
    simp only [SharedWorld.step, Option.ite_none_right_eq_some, Option.some.injEq] at hs
    obtain ⟨⟨hr, hc⟩, rfl⟩ := hs
    exact .dropCapability hr hc
  | advance i v =>
    simp only [SharedWorld.step, Option.ite_none_right_eq_some, Option.some.injEq] at hs
    obtain ⟨hle, rfl⟩ := hs
    exact .advance hle
  | close | reopen | poison | addGatingSequences ids | removeGatingSequence i =>
    cases hs
    constructor

end Rules

end BadBatch
