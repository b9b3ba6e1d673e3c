import BadBatch.Sequencer.Availability
import BadBatch.Sequencer.Ledger
import BadBatch.Lib.StepSys

/-!
# The multi-producer sequencer as a step system

Any number of producers call `next_n`, `try_next_n`, `has_available_capacity` and `remaining_capacity` and publish what
they were granted. Each atomic access (a load of `closed`, `poisoned`, `cursor`, `cached_gating_sequence`, of the gating
list or of one gating sequence, the store to `cached_gating_sequence`, the CAS on `cursor`, one publishing store or
`fetch_xor`) is one step; `MultiPc` is where a producer stands between two of them.

`claimStep` is the code of one producer, `MultiWorld.step` one step of the whole system, and `MultiWorldRule` says once what a
step can be. Consumers are seen through the sequences only: `advance` is a store of a larger value.
-/

namespace BadBatch

open MultiProducerSequencer

/-- A call on the claim path. -/
inductive ClaimCall
  | nextN (n : Int)
  | tryNextN (n : Int)
  | hasAvailableCapacity (requiredCapacity : Nat)
  | remainingCapacity
  deriving DecidableEq, Repr

/-- The number of sequences asked for. -/
def ClaimCall.n : ClaimCall → Int
  | nextN n => n
  | tryNextN n => n
  | hasAvailableCapacity k => k
  | remainingCapacity => 0

/-- What a call returns. -/
inductive ClaimResult
  | ok (sequence : Int)
  | err (e : DisruptorError)
  | none
  | bool (value : Bool)
  | capacity (value : Int)
  | panicked
  | unit
  deriving DecidableEq, Repr

/-- Where a producer stands. `current`, `guard`, `minimum` are the locals of the call. -/
inductive MultiPc
  | returned (r : ClaimResult)
  | loadClosed (c : ClaimCall)
  | loadPoisoned (c : ClaimCall)
  | loadCursor (c : ClaimCall)
  | loadGating (c : ClaimCall) (current : Int)
  | loadGatingFirst (c : ClaimCall)
  | loadCursorUnder (c : ClaimCall) (guard : List Nat)
  | loadCached (c : ClaimCall) (current : Int) (guard : List Nat)
  | scan (c : ClaimCall) (current : Int) (rest : List Nat) (minimum : Int)
  | storeCached (c : ClaimCall) (current : Int) (minimum : Int)
  | cas (c : ClaimCall) (current : Int)
  | publish (sequence : Int)
  | publishRange (sequence high : Int)
  deriving DecidableEq, Repr

/-- The trace of a step in the ledger. -/
inductive LedgerEffect
  | none
  | grant (n high : Int)
  | publish (lo hi : Int)
  deriving DecidableEq, Repr

def LedgerEffect.apply (p : Nat) (l : Ledger) : LedgerEffect → Ledger
  | none => l
  | grant n high => l.grant p n high
  | publish lo hi => l.publish lo hi

/-- The first step of a call: the argument checks. -/
def claimStart (b : BufferSize) : ClaimCall → MultiPc
  | .nextN n => if n < 1 ∨ n > b.sizeI64 then .returned (.err (.invalidSequence n)) else .loadClosed (.nextN n)
  | .tryNextN n => if n < 1 ∨ n > b.sizeI64 then .returned .none else .loadClosed (.tryNextN n)
  | .hasAvailableCapacity k => .loadGatingFirst (.hasAvailableCapacity k)
  | .remainingCapacity => .loadCursor .remainingCapacity

/-- How a call ends when the claim path is shut. -/
def claimRefused (e : DisruptorError) : ClaimCall → ClaimResult
  | .nextN _ => .err e
  | _ => .none

/-- One atomic step of a producer inside a call: the shared fields after it, where the producer stands after it, and
what the ledger records. -/
def claimStep (b : BufferSize) (sequences : Nat → Int) (m : MultiProducerSequencer) :
    MultiPc → Option (MultiProducerSequencer × MultiPc × LedgerEffect)
  | .returned _ => none
  | .loadClosed c =>
    some (m, if m.closed then .returned (claimRefused .shutdown c) else .loadPoisoned c, .none)
  | .loadPoisoned c =>
    some (m, if m.poisoned then .returned (claimRefused .poisoned c) else .loadCursor c, .none)
  | .loadCursor c =>
    match c with
    | .nextN _ => some (m, .loadCached c m.cursor [], .none)
    | _ => some (m, .loadGating c m.cursor, .none)
  | .loadGating c current =>
    match c with
    | .tryNextN _ => some (m, .loadCached c current m.gatingSequences, .none)
    | _ => some (m, .scan c current m.gatingSequences current, .none)
  | .loadGatingFirst c => some (m, .loadCursorUnder c m.gatingSequences, .none)
  | .loadCursorUnder c guard =>
    match c with
    -- `i64::try_from(required_capacity).expect(..)`
    | .hasAvailableCapacity k =>
      some (m, if (k : Int) ≤ i64Max then .loadCached c m.cursor guard else .returned .panicked, .none)
    | _ => some (m, .loadCached c m.cursor guard, .none)
  | .loadCached c current guard =>
    let wrapPoint := current + c.n - b.sizeI64
    if wrapPoint > m.cachedGatingSequence ∨ m.cachedGatingSequence > current then
      match c with
      | .nextN _ => some (m, .loadGating c current, .none)
      | _ => some (m, .scan c current guard current, .none)
    else
      match c with
      | .hasAvailableCapacity _ => some (m, .returned (.bool true), .none)
      | _ => some (m, .cas c current, .none)
  | .scan c current (i :: rest) minimum => some (m, .scan c current rest (lower minimum (sequences i)), .none)
  | .scan c current [] minimum =>
    let wrapPoint := current + c.n - b.sizeI64
    match c with
    -- `spin_loop(); continue` goes back to the terminal flags
    | .nextN _ => some (m, if wrapPoint > minimum then .loadClosed c else .storeCached c current minimum, .none)
    | .remainingCapacity => some (m, .returned (.capacity (b.sizeI64 - (current - minimum))), .none)
    | _ => some (m, .storeCached c current minimum, .none)
  | .storeCached c current minimum =>
    let m' := { m with cachedGatingSequence := minimum }
    let wrapPoint := current + c.n - b.sizeI64
    match c with
    | .nextN _ => some (m', .cas c current, .none)
    | .hasAvailableCapacity _ => some (m', .returned (.bool (decide ¬wrapPoint > minimum)), .none)
    | _ => some (m', if wrapPoint > minimum then .returned .none else .cas c current, .none)
  | .cas c current =>
    if m.cursor = current then
      some ({ m with cursor := current + c.n }, .returned (.ok (current + c.n)), .grant c.n (current + c.n))
    else
      match c with
      | .nextN _ => some (m, .loadClosed c, .none)
      | _ => some (m, .returned .none, .none)
  | .publish sequence => some (m.setAvailable b sequence, .returned .unit, .publish sequence (sequence + 1))
  | .publishRange sequence high =>
    if high < sequence then some (m, .returned .unit, .none)
    else
      let (m', sequence') := m.publishRangeStep b sequence high
      some (m', .publishRange sequence' high, .publish sequence sequence')

/-! ## The whole system -/

/-- The sequencer, the sequences it may be gated on, every producer, and the ledger. -/
structure MultiWorld where
  sequencer : MultiProducerSequencer
  sequences : Nat → Int
  producers : Nat → MultiPc
  ledger : Ledger

/-- One step of one party. -/
inductive SequencerAction
  /-- Producer `p` starts a call. -/
  | call (p : Nat) (c : ClaimCall)
  /-- Producer `p` starts `publish(s)`. -/
  | publish (p : Nat) (s : Int)
  /-- Producer `p` starts `publish_range(low, high)`. -/
  | publishRange (p : Nat) (low high : Int)
  /-- Producer `p` takes its next atomic step. -/
  | step (p : Nat)
  /-- A consumer stores `v` into sequence `i`. -/
  | advance (i : Nat) (v : Int)
  | close
  | reopen
  | poison
  | addGatingSequences (ids : List Nat)
  | removeGatingSequence (i : Nat)
  deriving DecidableEq, Repr

/-- `add_gating_sequences_rcu`: a set keyed by identity, in order of arrival. -/
def addGatingSequencesRcu (current toAdd : List Nat) : List Nat :=
  if toAdd.isEmpty then current else (current ++ toAdd).foldl (fun updated i =>
    if i ∈ updated then updated else updated ++ [i]) []

/-- `remove_gating_sequence_cas`: the list after a removal. -/
def removeGatingSequenceCas (current : List Nat) (i : Nat) : List Nat := current.filter (· ≠ i)

namespace MultiWorld

/-- A fresh sequencer with the sequences `gating` registered. Every `Sequence` starts at `INITIAL_CURSOR_VALUE`. -/
def init (b : BufferSize) (gating : List Nat) : MultiWorld where
  sequencer := { MultiProducerSequencer.new b with gatingSequences := addGatingSequencesRcu [] gating }
  sequences := fun _ => initialCursorValue
  producers := fun _ => .returned .unit
  ledger := Ledger.empty

/-- Producer `p` is between two calls. -/
def atRest (w : MultiWorld) (p : Nat) : Bool :=
  match w.producers p with
  | .returned _ => true
  | _ => false

/-- Producer `p` moves to `pc`. -/
def goto (w : MultiWorld) (p : Nat) (pc : MultiPc) : MultiWorld :=
  { w with producers := Function.update w.producers p pc }

/-- One step. A producer publishes only what it holds, and a sequence never gets smaller. -/
def step (b : BufferSize) (w : MultiWorld) : SequencerAction → Option MultiWorld
  | .call p c => if w.atRest p then some (w.goto p (claimStart b c)) else none
  | .publish p s => if w.atRest p ∧ w.ledger.Owns p s s then some (w.goto p (.publish s)) else none
  | .publishRange p low high =>
    if w.atRest p ∧ w.ledger.Owns p low high then some (w.goto p (.publishRange low high)) else none
  | .step p =>
    (claimStep b w.sequences w.sequencer (w.producers p)).map fun (m, pc, e) =>
      { w with
        sequencer := m
        producers := Function.update w.producers p pc
        ledger := e.apply p w.ledger }
  | .advance i v =>
    if w.sequences i ≤ v then some { w with sequences := Function.update w.sequences i v } else none
  | .close => some { w with sequencer := { w.sequencer with closed := true } }
  | .reopen => some { w with sequencer := { w.sequencer with closed := false } }
  | .poison => some { w with sequencer := { w.sequencer with poisoned := true } }
  | .addGatingSequences ids =>
    some { w with
      sequencer := { w.sequencer with gatingSequences := addGatingSequencesRcu w.sequencer.gatingSequences ids } }
  | .removeGatingSequence i =>
    some { w with
      sequencer := { w.sequencer with gatingSequences := removeGatingSequenceCas w.sequencer.gatingSequences i } }

end MultiWorld

section Rules

variable (b : BufferSize) (w : MultiWorld)

/-- The steps of the system, one rule for each. -/
inductive MultiWorldRule : SequencerAction → MultiWorld → Prop
  | call {p c} (hr : w.atRest p = true) : MultiWorldRule (.call p c) (w.goto p (claimStart b c))
  | publish {p s} (hr : w.atRest p = true) (ho : w.ledger.Owns p s s) : MultiWorldRule (.publish p s) (w.goto p (.publish s))
  | publishRange {p low high} (hr : w.atRest p = true) (ho : w.ledger.Owns p low high) :
    MultiWorldRule (.publishRange p low high) (w.goto p (.publishRange low high))
  | step {p m pc e} (hst : claimStep b w.sequences w.sequencer (w.producers p) = some (m, pc, e)) :
    MultiWorldRule (.step p)
      { w with sequencer := m, producers := Function.update w.producers p pc, ledger := e.apply p w.ledger }
  | advance {i v} (hle : w.sequences i ≤ v) :
    MultiWorldRule (.advance i v) { w with sequences := Function.update w.sequences i v }
  | close : MultiWorldRule .close { w with sequencer := { w.sequencer with closed := true } }
  | reopen : MultiWorldRule .reopen { w with sequencer := { w.sequencer with closed := false } }
  | poison : MultiWorldRule .poison { w with sequencer := { w.sequencer with poisoned := true } }
  | addGatingSequences {ids} : MultiWorldRule (.addGatingSequences ids) { w with
      sequencer := { w.sequencer with gatingSequences := addGatingSequencesRcu w.sequencer.gatingSequences ids } }
  | removeGatingSequence {i} : MultiWorldRule (.removeGatingSequence i) { w with
      sequencer := { w.sequencer with gatingSequences := removeGatingSequenceCas w.sequencer.gatingSequences i } }

variable {b w}

/-- Every step of the system follows a rule. -/
theorem multiWorldRule_of_step {w' : MultiWorld} {a : SequencerAction} (hs : w.step b a = some w') :
    MultiWorldRule b w a w' := by
  cases a with
  | call p c =>
    simp only [MultiWorld.step, Option.ite_none_right_eq_some, Option.some.injEq] at hs
    obtain ⟨hr, rfl⟩ := hs
    exact .call hr
  | publish p s =>
    simp only [MultiWorld.step, Option.ite_none_right_eq_some, Option.some.injEq] at hs
    obtain ⟨⟨hr, ho⟩, rfl⟩ := hs
    exact .publish hr ho
  | publishRange p low high =>
    simp only [MultiWorld.step, Option.ite_none_right_eq_some, Option.some.injEq] at hs
    obtain ⟨⟨hr, ho⟩, rfl⟩ := hs
    exact .publishRange hr ho
  | step p =>
    simp only [MultiWorld.step, Option.map_eq_some_iff] at hs
    obtain ⟨⟨m, pc, e⟩, hst, rfl⟩ := hs
    exact .step hst
  | advance i v =>
    simp only [MultiWorld.step, Option.ite_none_right_eq_some, Option.some.injEq] at hs
    obtain ⟨hle, rfl⟩ := hs
    exact .advance hle
  | close | reopen | poison | addGatingSequences ids | removeGatingSequence i =>
    cases hs
    constructor

end Rules

end BadBatch
