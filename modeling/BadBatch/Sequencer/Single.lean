import BadBatch.Sequencer.MultiClaims

/-!
# The single-producer sequencer

`next_value` and `cached_value` are private to the one thread that drives the claims, so only the flags, the cursor, the
gating list and the gating sequences are shared. `unique` says which claim path is used: the capability of the Builder,
which holds the claim lock for good, or the checked path of the DSL, which takes it for every claim. In both, one driver
claims, writes and publishes before the next claim starts.

* `SingleInv`, `singleInv_step`: the published sequences are `[0, cursor]`, the claimed ones `[0, next_value]`, and
  `next_value` is at most a lap ahead of every gating sequence;
* a driver whose update closure panicked leaves a claim unpublished, and the poison flag keeps every later claim out.
-/

namespace BadBatch

open StepSys

/-- The mutable fields of `SingleProducerSequencer`. -/
structure SingleProducerSequencer where
  cursor : Int
  gatingSequences : List Nat
  nextValue : Int
  cachedValue : Int
  claimLock : Bool
  poisoned : Bool
  closed : Bool
  deriving DecidableEq, Repr

/-- `SingleProducerSequencer::new`, and `new_unique` with the claim lock reserved -/
def SingleProducerSequencer.new (unique : Bool) : SingleProducerSequencer :=
  ⟨initialCursorValue, [], -1, -1, unique, false, false⟩

/-- Where the driver stands. -/
inductive SinglePc
  | returned (r : ClaimResult)
  /-- `claim_state_error`, first load -/
  | loadClosed (c : ClaimCall)
  /-- `claim_state_error`, second load -/
  | loadPoisoned (c : ClaimCall)
  /-- `claim_lock.swap(true)` -/
  | acquire (c : ClaimCall)
  /-- The wrap check on the private cells. -/
  | check (c : ClaimCall)
  /-- `cursor.set_volatile(next_value)` -/
  | setVolatile (c : ClaimCall)
  /-- `gating_sequences.load()` -/
  | loadGating (c : ClaimCall)
  | scan (c : ClaimCall) (rest : List Nat) (minimum : Int)
  /-- `claim_state_error` inside the backpressure loop -/
  | spinClosed (c : ClaimCall)
  | spinPoisoned (c : ClaimCall)
  /-- The claim guard is dropped. -/
  | release (r : ClaimResult)
  /-- `cursor.set(high)` -/
  | publish (high : Int)
  deriving DecidableEq, Repr

namespace SingleProducerSequencer

variable (b : BufferSize) (unique : Bool)

/-- The first step of a call: the argument checks. Capacity queries do not look at the flags. -/
def claimStart : ClaimCall → SinglePc
  | .nextN n => if n < 1 ∨ n > b.sizeI64 then .returned (.err (.invalidSequence n)) else .loadClosed (.nextN n)
  | .tryNextN n => if n < 1 ∨ n > b.sizeI64 then .returned .none else .loadClosed (.tryNextN n)
  | .hasAvailableCapacity k => .acquire (.hasAvailableCapacity k)
  | .remainingCapacity => if unique then .check .remainingCapacity else .acquire .remainingCapacity

/-- The end of a claim: on the checked path the claim guard is dropped. -/
def finish (r : ClaimResult) : SinglePc := if unique then .returned r else .release r

/-- What a call returns when the claim lock is taken. -/
def lockedOut : ClaimCall → ClaimResult
  | .nextN _ => .err .concurrentClaimDriver
  | .tryNextN _ => .none
  | .hasAvailableCapacity _ => .bool false
  | .remainingCapacity => .capacity 0

/-- One step of the driver. -/
def claimStep (sequences : Nat → Int) (m : SingleProducerSequencer) :
    SinglePc → Option (SingleProducerSequencer × SinglePc × LedgerEffect)
  | .returned _ => none
  | .loadClosed c => some (m, if m.closed then .returned (claimRefused .shutdown c) else .loadPoisoned c, .none)
  | .loadPoisoned c =>
    some (m, if m.poisoned then .returned (claimRefused .poisoned c) else if unique then .check c else .acquire c, .none)
  | .acquire c =>
    if m.claimLock then some (m, .returned (lockedOut c), .none)
    else some ({ m with claimLock := true }, .check c, .none)
  | .check c =>
    match c with
    | .remainingCapacity => some (m, .loadGating c, .none)
    | .hasAvailableCapacity k =>
      let wrapPoint := m.nextValue + c.n - b.sizeI64
      -- `i64::try_from(required_capacity).expect(..)`
      if (k : Int) > i64Max then some (m, finish unique .panicked, .none)
      else if wrapPoint > m.cachedValue ∨ m.cachedValue > m.nextValue then some (m, .loadGating c, .none)
      else some (m, finish unique (.bool true), .none)
    | _ =>
      let wrapPoint := m.nextValue + c.n - b.sizeI64
      if wrapPoint > m.cachedValue ∨ m.cachedValue > m.nextValue then some (m, .setVolatile c, .none)
      else
        some ({ m with nextValue := m.nextValue + c.n }, finish unique (.ok (m.nextValue + c.n)),
          .grant c.n (m.nextValue + c.n))
  | .setVolatile c => some ({ m with cursor := m.nextValue }, .loadGating c, .none)
  | .loadGating c => some (m, .scan c m.gatingSequences m.nextValue, .none)
  | .scan c (i :: rest) minimum => some (m, .scan c rest (lower minimum (sequences i)), .none)
  | .scan c [] minimum =>
    let wrapPoint := m.nextValue + c.n - b.sizeI64
    match c with
    | .remainingCapacity => some (m, finish unique (.capacity (b.sizeI64 - (m.nextValue - minimum))), .none)
    | .hasAvailableCapacity _ =>
      some ({ m with cachedValue := minimum }, finish unique (.bool (decide ¬wrapPoint > minimum)), .none)
    | .nextN n =>
      if wrapPoint > minimum then some (m, .spinClosed c, .none)
      else
        some ({ m with cachedValue := minimum, nextValue := m.nextValue + n }, finish unique (.ok (m.nextValue + n)),
          .grant n (m.nextValue + n))
    | .tryNextN n =>
      if wrapPoint > minimum then some ({ m with cachedValue := minimum }, finish unique .none, .none)
      else
        some ({ m with cachedValue := minimum, nextValue := m.nextValue + n }, finish unique (.ok (m.nextValue + n)),
          .grant n (m.nextValue + n))
  | .spinClosed c => some (m, if m.closed then finish unique (.err .shutdown) else .spinPoisoned c, .none)
  | .spinPoisoned c => some (m, if m.poisoned then finish unique (.err .poisoned) else .loadGating c, .none)
  | .release r => some ({ m with claimLock := false }, .returned r, .none)
  | .publish high => some ({ m with cursor := high }, .returned .unit, .publish (m.cursor + 1) (high + 1))

end SingleProducerSequencer

/-! ## The whole system -/

/-- The sequencer, the sequences it may be gated on, its current driver, and the ledger. -/
structure SingleWorld where
  unique : Bool
  sequencer : SingleProducerSequencer
  sequences : Nat → Int
  driver : Nat
  pc : SinglePc
  ledger : Ledger

namespace SingleWorld

/-- A fresh sequencer with the sequences `gating` registered. -/
def init (unique : Bool) (gating : List Nat) : SingleWorld where
  unique := unique
  sequencer := { SingleProducerSequencer.new unique with gatingSequences := addGatingSequencesRcu [] gating }
  sequences := fun _ => initialCursorValue
  driver := 0
  pc := .returned .unit
  ledger := Ledger.empty

/-- Nobody is inside a call. -/
def atRest (w : SingleWorld) : Bool :=
  match w.pc with
  | .returned _ => true
  | _ => false

/-- One step. `publish_range(low, high)` is `publish(high)`. -/
def step (b : BufferSize) (w : SingleWorld) : SequencerAction → Option SingleWorld
  | .call p c => if w.atRest then some { w with driver := p, pc := SingleProducerSequencer.claimStart b w.unique c } else none
  | .publish p s => if w.atRest ∧ w.driver = p ∧ w.ledger.Owns p s s then some { w with pc := .publish s } else none
  | .publishRange p low high =>
    if w.atRest ∧ w.driver = p ∧ low ≤ high ∧ w.ledger.Owns p low high then some { w with pc := .publish high } else none
  | .step p =>
    if p = w.driver then
      (SingleProducerSequencer.claimStep b w.unique w.sequences w.sequencer w.pc).map fun (m, pc, e) =>
        { w with sequencer := m, pc := pc, ledger := e.apply p w.ledger }
    else none
  | .advance i v =>
    if w.sequences i ≤ v then some { w with sequences := Function.update w.sequences i v } else none
  | .close => some { w with sequencer := { w.sequencer with closed := true } }
  | .reopen => some { w with sequencer := { w.sequencer with closed := false } }
  | .poison => some { w with sequencer := { w.sequencer with poisoned := true } }
  | .addGatingSequences ids =>
    some { w with
      sequencer := { w.sequencer with gatingSequences := addGatingSequencesRcu w.sequencer.gatingSequences ids } }
  | .removeGatingSequence i =>
    some { w with
      sequencer := { w.sequencer with gatingSequences := removeGatingSequenceCas w.sequencer.gatingSequences i } }

end SingleWorld

section WorldRules

variable (b : BufferSize) (w : SingleWorld) (mayPublish : Nat → Int → Int → Prop)

/-- The steps of the system, one rule for each. What the driver may publish is left open. -/
inductive SingleWorldRule : SequencerAction → SingleWorld → Prop
  | call {p c} (hr : w.atRest = true) : SingleWorldRule (.call p c)
    { w with driver := p, pc := SingleProducerSequencer.claimStart b w.unique c }
  | publish {s} (hr : w.atRest = true) (ho : mayPublish w.driver s s) :
    SingleWorldRule (.publish w.driver s) { w with pc := .publish s }
  | publishRange {low high} (hr : w.atRest = true) (ho : mayPublish w.driver low high) :
    SingleWorldRule (.publishRange w.driver low high) { w with pc := .publish high }
  | step {m pc e} (hst : SingleProducerSequencer.claimStep b w.unique w.sequences w.sequencer w.pc = some (m, pc, e)) :
    SingleWorldRule (.step w.driver) { w with sequencer := m, pc := pc, ledger := e.apply w.driver w.ledger }
  | advance {i v} (hle : w.sequences i ≤ v) :
    SingleWorldRule (.advance i v) { w with sequences := Function.update w.sequences i v }
  | close : SingleWorldRule .close { w with sequencer := { w.sequencer with closed := true } }
  | reopen : SingleWorldRule .reopen { w with sequencer := { w.sequencer with closed := false } }
  | poison : SingleWorldRule .poison { w with sequencer := { w.sequencer with poisoned := true } }
  | addGatingSequences {ids} : SingleWorldRule (.addGatingSequences ids) { w with
      sequencer := { w.sequencer with gatingSequences := addGatingSequencesRcu w.sequencer.gatingSequences ids } }
  | removeGatingSequence {i} : SingleWorldRule (.removeGatingSequence i) { w with
      sequencer := { w.sequencer with gatingSequences := removeGatingSequenceCas w.sequencer.gatingSequences i } }

variable {b w}

/-- The ranges a driver may publish: what it holds. -/
def SingleWorld.MayPublish (w : SingleWorld) (p : Nat) (low high : Int) : Prop :=
  low ≤ high ∧ w.ledger.Owns p low high

/-- Every step of the system follows a rule. -/
theorem singleWorldRule_of_step {w' : SingleWorld} {a : SequencerAction} (hs : w.step b a = some w') :
    SingleWorldRule b w w.MayPublish a w' := by
  cases a with
  | call p c =>
    simp only [SingleWorld.step, Option.ite_none_right_eq_some, Option.some.injEq] at hs
    obtain ⟨hr, rfl⟩ := hs
    exact .call hr
  | publish p s =>
    simp only [SingleWorld.step, Option.ite_none_right_eq_some, Option.some.injEq] at hs
    obtain ⟨⟨hr, rfl, ho⟩, rfl⟩ := hs
    exact .publish hr ⟨le_rfl, ho⟩
  | publishRange p low high =>
    simp only [SingleWorld.step, Option.ite_none_right_eq_some, Option.some.injEq] at hs
    obtain ⟨⟨hr, rfl, ho⟩, rfl⟩ := hs
    exact .publishRange hr ho
  | step p =>
    simp only [SingleWorld.step, Option.ite_none_right_eq_some, Option.map_eq_some_iff] at hs
    obtain ⟨rfl, ⟨m, pc, e⟩, hst, rfl⟩ := hs
    exact .step hst
  | advance i v =>
    simp only [SingleWorld.step, Option.ite_none_right_eq_some, Option.some.injEq] at hs
    obtain ⟨hle, rfl⟩ := hs
    exact .advance hle
  | close | reopen | poison | addGatingSequences ids | removeGatingSequence i =>
    cases hs
    constructor

/-- The rules of a stricter driver are rules. -/
theorem SingleWorldRule.mono {mayPublish mayPublish' : Nat → Int → Int → Prop} {w' : SingleWorld} {a : SequencerAction}
    (h : SingleWorldRule b w mayPublish a w') (hle : ∀ p low high, mayPublish p low high → mayPublish' p low high) :
    SingleWorldRule b w mayPublish' a w' := by
  cases h with
  | call hr => exact .call hr
  | publish hr ho => exact .publish hr (hle _ _ _ ho)
  | publishRange hr ho => exact .publishRange hr (hle _ _ _ ho)
  | step hst => exact .step hst
  | advance hle => exact .advance hle
  | close | reopen | poison | addGatingSequences | removeGatingSequence => constructor

end WorldRules

/-! ## The invariant -/

variable {b : BufferSize} {unique : Bool} {sequences sequences' : Nat → Int} {m m' : SingleProducerSequencer}
  {pc pc' : SinglePc} {e : LedgerEffect} {l : Ledger} {w w' : SingleWorld} {s : Int}

/-- The call asks for sequences. -/
def ClaimCall.isClaim : ClaimCall → Bool
  | .nextN _ => true
  | .tryNextN _ => true
  | _ => false

/-- What the driver knows where it stands. Inside a claim nothing is claimed and unpublished. -/
def SinglePcOk (b : BufferSize) (sequences : Nat → Int) (m : SingleProducerSequencer) (l : Ledger) (driver : Nat) :
    SinglePc → Prop
  | .returned _ | .release _ => True
  | .loadClosed c | .loadPoisoned c => c.Fits b ∧ (m.nextValue = m.cursor ∨ m.poisoned = true)
  | .acquire c | .check c | .loadGating c => c.Fits b ∧ (c.isClaim = true → m.nextValue = m.cursor)
  | .setVolatile c | .spinClosed c | .spinPoisoned c => c.Fits b ∧ m.nextValue = m.cursor
  | .scan c rest minimum =>
    c.Fits b ∧ (c.isClaim = true → m.nextValue = m.cursor) ∧
      ∃ scanned, scanned ++ rest = m.gatingSequences ∧ Below sequences scanned minimum
  | .publish high => l.owner high = some driver

/-- The invariant of one driver under a fixed gating set. -/
structure SingleInv (b : BufferSize) (w : SingleWorld) : Prop where
  low : -1 ≤ w.sequencer.cursor
  cursor_le : w.sequencer.cursor ≤ w.sequencer.nextValue
  cached : Below w.sequences w.sequencer.gatingSequences w.sequencer.cachedValue
  lap : Below w.sequences w.sequencer.gatingSequences (w.sequencer.nextValue - b.sizeI64)
  ledger : w.ledger.Inv w.sequencer.nextValue
  published : ∀ s, w.ledger.published s = true ↔ 0 ≤ s ∧ s ≤ w.sequencer.cursor
  /-- What is claimed and unpublished belongs to one claim. -/
  holder : ∀ {s t p q}, w.ledger.owner s = some p → w.ledger.owner t = some q → p = q
  passed : ∀ s, 0 ≤ s → Below w.sequences w.sequencer.gatingSequences s → w.ledger.published s = true
  pc : SinglePcOk b w.sequences w.sequencer w.ledger w.driver w.pc

theorem singleInv_init {gating : List Nat} (hg : gating ≠ []) : SingleInv b (SingleWorld.init unique gating) where
  low := le_rfl
  cursor_le := le_rfl
  cached := fun i _ => le_rfl
  lap := fun i _ => by
    have := b.sizeI64_pos
    simp only [SingleWorld.init, SingleProducerSequencer.new, initialCursorValue]
    omega
  ledger := Ledger.inv_empty
  published := fun s => by
    simp only [SingleWorld.init, SingleProducerSequencer.new, Ledger.empty, initialCursorValue]
    constructor
    · intro h; cases h
    · omega
  holder := fun h => by simp [SingleWorld.init, Ledger.empty] at h
  passed := by
    intro s hs hb
    obtain ⟨i, hi⟩ := List.exists_mem_of_ne_nil gating hg
    have := hb i (mem_addGatingSequencesRcu.mpr (.inr hi))
    simp only [SingleWorld.init, initialCursorValue] at this
    omega
  pc := trivial

/-- Fields that a step of a capacity check leaves alone. -/
def SingleSame (m m' : SingleProducerSequencer) : Prop :=
  m'.cursor = m.cursor ∧ m'.gatingSequences = m.gatingSequences ∧ m'.nextValue = m.nextValue ∧ m'.poisoned = m.poisoned

/-! ## The steps of the driver -/

section Rules

open SingleProducerSequencer

variable (b unique sequences m)

/-- The steps of the driver, one rule for each. -/
inductive SingleRule : SinglePc → SingleProducerSequencer → SinglePc → LedgerEffect → Prop
  | closed {c} (h : m.closed = true) : SingleRule (.loadClosed c) m (.returned (claimRefused .shutdown c)) .none
  | notClosed {c} (h : m.closed = false) : SingleRule (.loadClosed c) m (.loadPoisoned c) .none
  | poisoned {c} (h : m.poisoned = true) : SingleRule (.loadPoisoned c) m (.returned (claimRefused .poisoned c)) .none
  | toCheck {c} (h : m.poisoned = false) (hu : unique = true) : SingleRule (.loadPoisoned c) m (.check c) .none
  | toAcquire {c} (h : m.poisoned = false) (hu : unique = false) : SingleRule (.loadPoisoned c) m (.acquire c) .none
  | contended {c} (h : m.claimLock = true) : SingleRule (.acquire c) m (.returned (lockedOut c)) .none
  | acquire {c} (h : m.claimLock = false) : SingleRule (.acquire c) { m with claimLock := true } (.check c) .none
  | remaining : SingleRule (.check .remainingCapacity) m (.loadGating .remainingCapacity) .none
  | overflow {k : Nat} (h : (k : Int) > i64Max) : SingleRule (.check (.hasAvailableCapacity k)) m
      (finish unique .panicked) .none
  | askGating {k : Nat} (h : m.nextValue + k - b.sizeI64 > m.cachedValue ∨ m.cachedValue > m.nextValue) :
    SingleRule (.check (.hasAvailableCapacity k)) m (.loadGating (.hasAvailableCapacity k)) .none
  | askCached {k : Nat} (h : ¬(m.nextValue + k - b.sizeI64 > m.cachedValue ∨ m.cachedValue > m.nextValue)) :
    SingleRule (.check (.hasAvailableCapacity k)) m (finish unique (.bool true)) .none
  | stale {c} (hc : c.isClaim = true) (h : m.nextValue + c.n - b.sizeI64 > m.cachedValue ∨ m.cachedValue > m.nextValue) :
    SingleRule (.check c) m (.setVolatile c) .none
  | grantCached {c} (hc : c.isClaim = true)
    (h : ¬(m.nextValue + c.n - b.sizeI64 > m.cachedValue ∨ m.cachedValue > m.nextValue)) :
    SingleRule (.check c) { m with nextValue := m.nextValue + c.n } (finish unique (.ok (m.nextValue + c.n)))
      (.grant c.n (m.nextValue + c.n))
  | setVolatile {c} : SingleRule (.setVolatile c) { m with cursor := m.nextValue } (.loadGating c) .none
  | loadGating {c} : SingleRule (.loadGating c) m (.scan c m.gatingSequences m.nextValue) .none
  | scan {c i rest minimum} : SingleRule (.scan c (i :: rest) minimum) m (.scan c rest (lower minimum (sequences i))) .none
  | answerRemaining {minimum} : SingleRule (.scan .remainingCapacity [] minimum) m
    (finish unique (.capacity (b.sizeI64 - (m.nextValue - minimum)))) .none
  | answerAvailable {k : Nat} {minimum} : SingleRule (.scan (.hasAvailableCapacity k) [] minimum)
      { m with cachedValue := minimum }
    (finish unique (.bool (decide ¬m.nextValue + k - b.sizeI64 > minimum))) .none
  | full {n minimum} (h : m.nextValue + n - b.sizeI64 > minimum) :
    SingleRule (.scan (.nextN n) [] minimum) m (.spinClosed (.nextN n)) .none
  | tryFull {n minimum} (h : m.nextValue + n - b.sizeI64 > minimum) :
    SingleRule (.scan (.tryNextN n) [] minimum) { m with cachedValue := minimum } (finish unique .none) .none
  | grantScanned {c minimum} (hc : c.isClaim = true) (h : m.nextValue + c.n - b.sizeI64 ≤ minimum) :
    SingleRule (.scan c [] minimum) { m with cachedValue := minimum, nextValue := m.nextValue + c.n }
      (finish unique (.ok (m.nextValue + c.n))) (.grant c.n (m.nextValue + c.n))
  | spinShutdown {c} (h : m.closed = true) : SingleRule (.spinClosed c) m (finish unique (.err .shutdown)) .none
  | spinNotClosed {c} (h : m.closed = false) : SingleRule (.spinClosed c) m (.spinPoisoned c) .none
  | spinPoisoned {c} (h : m.poisoned = true) : SingleRule (.spinPoisoned c) m (finish unique (.err .poisoned)) .none
  | spin {c} (h : m.poisoned = false) : SingleRule (.spinPoisoned c) m (.loadGating c) .none
  | release {r} : SingleRule (.release r) { m with claimLock := false } (.returned r) .none
  | publish {high} : SingleRule (.publish high) { m with cursor := high } (.returned .unit) (.publish (m.cursor + 1) (high + 1))

variable {b unique sequences m}

/-- Every step of the driver follows a rule. -/
theorem singleRule_of_claimStep (h : SingleProducerSequencer.claimStep b unique sequences m pc = some (m', pc', e)) :
    SingleRule b unique sequences m pc m' pc' e := by
  cases pc with
  | returned r => cases h
  | setVolatile c =>
    cases h
    exact .setVolatile
  | loadGating c =>
    cases h
    exact .loadGating
  | release r =>
    cases h
    exact .release
  | publish high =>
    cases h
    exact .publish
  | loadClosed c =>
    simp only [SingleProducerSequencer.claimStep] at h
    cases hc : m.closed <;> rw [hc] at h <;> cases h
    · exact .notClosed hc
    · exact .closed hc
  | loadPoisoned c =>
    simp only [SingleProducerSequencer.claimStep] at h
    cases hp : m.poisoned <;> rw [hp] at h
    · cases unique <;> cases h
      · exact .toAcquire hp rfl
      · exact .toCheck hp rfl
    · cases h
      exact .poisoned hp
  | spinClosed c =>
    simp only [SingleProducerSequencer.claimStep] at h
    cases hc : m.closed <;> rw [hc] at h <;> cases h
    · exact .spinNotClosed hc
    · exact .spinShutdown hc
  | spinPoisoned c =>
    simp only [SingleProducerSequencer.claimStep] at h
    cases hp : m.poisoned <;> rw [hp] at h <;> cases h
    · exact .spin hp
    · exact .spinPoisoned hp
  | acquire c =>
    simp only [SingleProducerSequencer.claimStep] at h
    cases hl : m.claimLock <;> rw [hl] at h <;> cases h
    · exact .acquire hl
    · exact .contended hl
  | check c =>
    cases c with
    | remainingCapacity =>
      cases h
      exact .remaining
    | hasAvailableCapacity k =>
      simp only [SingleProducerSequencer.claimStep] at h
      split at h
      · cases h
        exact .overflow ‹_›
      · split at h <;> cases h
        · exact .askGating ‹_›
        · exact .askCached ‹_›
    | nextN n | tryNextN n =>
      simp only [SingleProducerSequencer.claimStep] at h
      split at h <;> cases h
      · exact .stale rfl ‹_›
      · exact .grantCached rfl ‹_›
  | scan c rest minimum =>
    cases rest with
    | cons i rest =>
      cases h
      exact .scan
    | nil =>
      cases c with
      | remainingCapacity =>
        cases h
        exact .answerRemaining
      | hasAvailableCapacity k =>
        cases h
        exact .answerAvailable
      | nextN n =>
        simp only [SingleProducerSequencer.claimStep] at h
        split at h <;> cases h
        · exact .full ‹_›
        · exact .grantScanned rfl (not_lt.mp ‹_›)
      | tryNextN n =>
        simp only [SingleProducerSequencer.claimStep] at h
        split at h <;> cases h
        · exact .tryFull ‹_›
        · exact .grantScanned rfl (not_lt.mp ‹_›)

end Rules

/-- Everything one step of the driver can do: nothing that counts, `set_volatile`, a grant, a publication. -/
theorem singleStep_cases (h : SingleProducerSequencer.claimStep b unique sequences m pc = some (m', pc', e)) :
    (e = .none ∧ SingleSame m m' ∧ (m'.cachedValue = m.cachedValue ∨ ∃ c, pc = .scan c [] m'.cachedValue)) ∨
    (∃ c, pc = .setVolatile c ∧ e = .none ∧ m' = { m with cursor := m.nextValue } ∧ pc' = .loadGating c) ∨
    (∃ c, c.isClaim = true ∧ e = .grant c.n (m.nextValue + c.n) ∧
      m' = { m with nextValue := m.nextValue + c.n, cachedValue := m'.cachedValue } ∧
      m.nextValue + c.n - b.sizeI64 ≤ m'.cachedValue ∧
      pc' = SingleProducerSequencer.finish unique (.ok (m.nextValue + c.n)) ∧
      ((pc = .check c ∧ m'.cachedValue = m.cachedValue) ∨ pc = .scan c [] m'.cachedValue)) ∨
    (∃ high, pc = .publish high ∧ e = .publish (m.cursor + 1) (high + 1) ∧ m' = { m with cursor := high } ∧
      pc' = .returned .unit) := by
  cases singleRule_of_claimStep h with
  | setVolatile => exact .inr (.inl ⟨_, rfl, rfl, rfl, rfl⟩)
  | grantCached hc hfresh => exact .inr (.inr (.inl ⟨_, hc, rfl, rfl, by simp only; omega, rfl, .inl ⟨rfl, rfl⟩⟩))
  | grantScanned hc hfits => exact .inr (.inr (.inl ⟨_, hc, rfl, rfl, hfits, rfl, .inr rfl⟩))
  | publish => exact .inr (.inr (.inr ⟨_, rfl, rfl, rfl, rfl⟩))
  | answerAvailable | tryFull => exact .inl ⟨rfl, ⟨rfl, rfl, rfl, rfl⟩, .inr ⟨_, rfl⟩⟩
  | _ => exact .inl ⟨rfl, ⟨rfl, rfl, rfl, rfl⟩, .inl rfl⟩

/-- The call the driver is inside. -/
def SinglePc.call : SinglePc → Option ClaimCall
  | .loadClosed c | .loadPoisoned c | .acquire c | .check c | .setVolatile c | .loadGating c | .scan c _ _
  | .spinClosed c | .spinPoisoned c => some c
  | _ => none

theorem finish_cases (unique : Bool) (r : ClaimResult) :
    SingleProducerSequencer.finish unique r = .returned r ∨ SingleProducerSequencer.finish unique r = .release r := by
  unfold SingleProducerSequencer.finish
  cases unique
  · exact .inr rfl
  · exact .inl rfl

@[simp] theorem call_finish (r : ClaimResult) : (SingleProducerSequencer.finish unique r).call = none := by
  rcases finish_cases unique r with h | h <;> rw [h] <;> rfl

/-- A step inside a call stays in the call, or ends it; the claim guard may still have to be dropped. -/
theorem singleStep_call {c : ClaimCall}
    (h : SingleProducerSequencer.claimStep b unique sequences m pc = some (m', pc', e)) (hc : pc.call = some c) :
    (pc'.call = some c ∧ e = .none) ∨
      (∃ r, (pc' = .returned r ∨ pc' = .release r) ∧ (∀ high, r ≠ .ok high) ∧ e = .none) ∨
      ∃ high, (pc' = .returned (.ok high) ∨ pc' = .release (.ok high)) ∧ e = .grant c.n high := by
  cases singleRule_of_claimStep h with
  | closed | poisoned =>
    cases hc
    exact .inr (.inl ⟨_, .inl rfl, by cases c <;> simp [claimRefused], rfl⟩)
  | contended =>
    cases hc
    exact .inr (.inl ⟨_, .inl rfl, by cases c <;> simp [SingleProducerSequencer.lockedOut], rfl⟩)
  | overflow | askCached | answerRemaining | answerAvailable | tryFull | spinShutdown | spinPoisoned =>
    exact .inr (.inl ⟨_, finish_cases unique _, by simp, rfl⟩)
  | grantCached | grantScanned =>
    cases hc
    exact .inr (.inr ⟨_, finish_cases unique _, rfl⟩)
  | release | publish => cases hc
  | _ =>
    cases hc
    exact .inl ⟨rfl, rfl⟩

/-- The argument checks let only fitting requests in. -/
theorem fits_claimStart {c c' : ClaimCall} (h : (SingleProducerSequencer.claimStart b unique c).call = some c') :
    c'.Fits b := by
  cases c with
  | nextN n | tryNextN n =>
    simp only [SingleProducerSequencer.claimStart] at h
    split at h
    · cases h
    · cases h
      exact ⟨by omega, by omega⟩
  | hasAvailableCapacity k =>
    cases h
    trivial
  | remainingCapacity =>
    simp only [SingleProducerSequencer.claimStart] at h
    split at h <;> cases h <;> trivial

/-- No step of the driver starts a call. -/
theorem call_claimStep {c : ClaimCall} (hst : SingleProducerSequencer.claimStep b unique sequences m pc = some (m', pc', e))
    (h : pc'.call = some c) : pc.call = some c := by
  cases hc : pc.call with
  | some c₀ =>
    rcases singleStep_call hst hc with ⟨hc', -⟩ | ⟨r, hr | hr, -⟩ | ⟨high, hr | hr, -⟩
    · rw [← hc', h]
    all_goals
      rw [hr] at h
      cases h
  | none =>
    cases pc <;> simp only [SinglePc.call, reduceCtorEq] at hc <;>
      simp only [SingleProducerSequencer.claimStep, Option.some.injEq, Prod.mk.injEq, reduceCtorEq] at hst <;>
      obtain ⟨-, rfl, -⟩ := hst <;> cases h

/-- Local facts survive growth of the sequences. -/
theorem SinglePcOk.mono {driver : Nat} (h : SinglePcOk b sequences m l driver pc)
    (hs : ∀ i, sequences i ≤ sequences' i) : SinglePcOk b sequences' m l driver pc := by
  cases pc with
  | scan c rest minimum =>
    obtain ⟨hf, hc, scanned, he, hb⟩ := h
    exact ⟨hf, hc, scanned, he, hb.mono hs⟩
  | _ => exact h

theorem singlePcOk_finish {driver : Nat} (r : ClaimResult) :
    SinglePcOk b sequences m l driver (SingleProducerSequencer.finish unique r) := by
  unfold SingleProducerSequencer.finish
  split <;> trivial

/-- The argument checks let only fitting requests in. -/
theorem singlePcOk_claimStart {driver : Nat} (c : ClaimCall)
    (hc : c.isClaim = true → m.nextValue = m.cursor ∨ m.poisoned = true) :
    SinglePcOk b sequences m l driver (SingleProducerSequencer.claimStart b unique c) := by
  cases c with
  | nextN n | tryNextN n =>
    simp only [SingleProducerSequencer.claimStart]
    split
    · trivial
    · exact ⟨⟨by omega, by omega⟩, hc rfl⟩
  | hasAvailableCapacity k => exact ⟨trivial, fun h => by cases h⟩
  | remainingCapacity =>
    simp only [SingleProducerSequencer.claimStart]
    split <;> exact ⟨trivial, fun h => by cases h⟩

/-- A capacity check takes the driver from one local fact to the next. -/
theorem singlePcOk_claimStep {driver : Nat}
    (h : SingleProducerSequencer.claimStep b unique sequences m pc = some (m', pc', .none))
    (hp : SinglePcOk b sequences m l driver pc) : SinglePcOk b sequences m' l driver pc' := by
  cases singleRule_of_claimStep h with
  | closed | poisoned | contended | release => trivial
  | overflow | askCached | answerRemaining | answerAvailable | tryFull | spinShutdown | spinPoisoned =>
    exact singlePcOk_finish _
  | notClosed | acquire | remaining | askGating | spinNotClosed => exact hp
  | toCheck hnp | toAcquire hnp =>
    -- not poisoned: the last claim is published
    have heq : m.nextValue = m.cursor := hp.2.resolve_right (by rw [hnp]; exact Bool.false_ne_true)
    exact ⟨hp.1, fun _ => heq⟩
  | stale hc => exact ⟨hp.1, hp.2 hc⟩
  | setVolatile => exact ⟨hp.1, fun _ => rfl⟩
  | loadGating => exact ⟨hp.1, hp.2, [], by simp, by simp⟩
  | scan =>
    obtain ⟨hf, hcl, scanned, he, hb⟩ := hp
    exact ⟨hf, hcl, scanned ++ [_], by rw [← he]; simp, hb.scan⟩
  | full => exact ⟨hp.1, hp.2.1 rfl⟩
  | spin => exact ⟨hp.1, fun _ => hp.2⟩

/-- A finished scan is a lower bound of the gating sequences. -/
theorem SinglePcOk.below {driver : Nat} {c : ClaimCall} {minimum : Int}
    (h : SinglePcOk b sequences m l driver (.scan c [] minimum)) : Below sequences m.gatingSequences minimum := by
  obtain ⟨-, -, scanned, he, hb⟩ := h
  rw [List.append_nil] at he
  exact he ▸ hb

theorem ClaimCall.Fits.one_le {c : ClaimCall} (hf : c.Fits b) (hc : c.isClaim = true) : 1 ≤ c.n := by
  cases c <;> first | exact hf.1 | cases hc

/-- A driver that publishes `high` holds everything between the cursor and `high`. -/
theorem SingleInv.publishing (h : SingleInv b w) {high : Int} (he : w.pc = .publish high) :
    w.sequencer.cursor < high ∧ high ≤ w.sequencer.nextValue ∧
      ∀ s, w.sequencer.cursor + 1 ≤ s → s < high + 1 → w.ledger.owner s = some w.driver := by
  have hown : w.ledger.owner high = some w.driver := by
    have := h.pc
    rwa [he] at this
  obtain ⟨h0, h1, h2⟩ := h.ledger.held hown
  refine ⟨?_, h1, fun s hs1 hs2 => ?_⟩
  · by_contra hle
    have := (h.published high).mpr ⟨h0, by omega⟩
    rw [h2] at this; cases this
  · have hlow := h.low
    rcases h.ledger.settled (s := s) (by omega) (by omega) with hp | ⟨q, hq⟩
    · have := ((h.published s).mp hp).2
      omega
    · -- everything unpublished belongs to the same claim
      rw [hq, h.holder hq hown]

/-- A step of the driver keeps the invariant. -/
theorem singleInv_claimStep (h : SingleInv b w)
    (hst : SingleProducerSequencer.claimStep b w.unique w.sequences w.sequencer w.pc = some (m', pc', e)) :
    SingleInv b { w with sequencer := m', pc := pc', ledger := e.apply w.driver w.ledger } := by
  have hpc := h.pc
  rcases singleStep_cases hst with ⟨rfl, hsame, hcach⟩ | ⟨c, he, rfl, rfl, rfl⟩ |
    ⟨c, hc, rfl, hm, hwrap, rfl, hfrom⟩ | ⟨high, he, rfl, rfl, rfl⟩
  · have hok := singlePcOk_claimStep hst hpc
    obtain ⟨hcur, hgat, hnext, -⟩ := hsame
    have hb : Below w.sequences w.sequencer.gatingSequences m'.cachedValue := by
      rcases hcach with hcach | ⟨c, hpc'⟩
      · rw [hcach]; exact h.cached
      · rw [hpc'] at hpc; exact hpc.below
    exact ⟨by simpa only [hcur] using h.low, by simpa only [hcur, hnext] using h.cursor_le, by simpa only [hgat] using hb,
      by simpa only [hgat, hnext] using h.lap, by simp only [hnext]; exact h.ledger,
      by simp only [hcur]; exact h.published, h.holder, by simp only [hgat]; exact h.passed, hok⟩
  · -- inside a claim the cursor already is `next_value`
    rw [he] at hpc
    have heq : w.sequencer.nextValue = w.sequencer.cursor := hpc.2
    exact ⟨heq ▸ h.low, le_rfl, h.cached, h.lap, h.ledger, by simp only [heq]; exact h.published, h.holder, h.passed,
      ⟨hpc.1, fun _ => rfl⟩⟩
  · have hfits : c.Fits b ∧ w.sequencer.nextValue = w.sequencer.cursor ∧
        Below w.sequences w.sequencer.gatingSequences m'.cachedValue := by
      rcases hfrom with ⟨he, hce⟩ | he
      · rw [he] at hpc
        exact ⟨hpc.1, hpc.2 hc, hce ▸ h.cached⟩
      · rw [he] at hpc
        exact ⟨hpc.1, hpc.2.1 hc, hpc.below⟩
    obtain ⟨hf, heq, hb⟩ := hfits
    have hn := hf.one_le hc
    rw [hm]
    refine ⟨h.low, ?_, hb, hb.le hwrap, Ledger.inv_grant h.ledger hn, h.published, ?_, h.passed, singlePcOk_finish _⟩
    · simp only
      omega
    · -- before the grant nothing is held
      have hnone : ∀ {s p}, w.ledger.owner s = some p → False := fun {s p} ho => by
        obtain ⟨h0, h1, h2⟩ := h.ledger.held ho
        have := (h.published s).mpr ⟨h0, by omega⟩
        rw [h2] at this; cases this
      intro s t p q hs ht
      simp only [LedgerEffect.apply, Ledger.grant] at hs ht
      split at hs
      · split at ht
        · exact (Option.some.inj hs).symm.trans (Option.some.inj ht)
        · exact (hnone ht).elim
      · exact (hnone hs).elim
  · obtain ⟨hgt, h1, hall⟩ := h.publishing he
    refine ⟨by simp only; have := h.low; omega, h1, h.cached, h.lap, Ledger.inv_publish h.ledger hall, fun s => ?_, ?_,
      fun s h0 hb => Ledger.published_publish (h.passed s h0 hb), trivial⟩
    · simp only [LedgerEffect.apply, Ledger.publish]
      split
      · have := h.low
        simp only [true_iff]; omega
      · rw [h.published s]; omega
    · intro s t p q hs ht
      simp only [LedgerEffect.apply, Ledger.publish] at hs ht
      split at hs
      · cases hs
      · split at ht
        · cases ht
        · exact h.holder hs ht

/-- **Step lemma.** Every step that keeps the gating set keeps the invariant, if a claim starts only when the last one is
published or the sequencer is poisoned, and if no gating sequence passes an unpublished one. -/
theorem singleInv_step {a : SequencerAction} (h : SingleInv b w) (ha : a.KeepsGating) (hs : w.step b a = some w')
    (hcall : ∀ p c, a = .call p c → w.sequencer.nextValue = w.sequencer.cursor ∨ w.sequencer.poisoned = true)
    (hadv : ∀ i v, a = .advance i v →
      ∀ s, 0 ≤ s → Below w'.sequences w'.sequencer.gatingSequences s → w'.ledger.published s = true) :
    SingleInv b w' := by
  obtain ⟨low, cursor_le, cached, lap, ledger, published, holder, passed, pc⟩ := h
  cases singleWorldRule_of_step hs with
  | @call p c hr =>
    exact ⟨low, cursor_le, cached, lap, ledger, published, holder, passed,
      singlePcOk_claimStart c fun _ => hcall p c rfl⟩
  | publish hr ho =>
    exact ⟨low, cursor_le, cached, lap, ledger, published, holder, passed, Ledger.owns_iff.mp ho.2 _ le_rfl le_rfl⟩
  | publishRange hr ho =>
    exact ⟨low, cursor_le, cached, lap, ledger, published, holder, passed, Ledger.owns_iff.mp ho.2 _ ho.1 le_rfl⟩
  | step hst => exact singleInv_claimStep ⟨low, cursor_le, cached, lap, ledger, published, holder, passed, pc⟩ hst
  | @advance i v hle =>
    exact ⟨low, cursor_le, cached.mono (le_update hle), lap.mono (le_update hle), ledger, published, holder,
      hadv i v rfl, pc.mono (le_update hle)⟩
  | close | reopen =>
    refine ⟨low, cursor_le, cached, lap, ledger, published, holder, passed, ?_⟩
    revert pc
    cases w.pc <;> exact id
  | poison =>
    refine ⟨low, cursor_le, cached, lap, ledger, published, holder, passed, ?_⟩
    revert pc
    cases w.pc with
    | loadClosed c | loadPoisoned c => exact fun hp => ⟨hp.1, .inr rfl⟩
    | _ => exact id
  | addGatingSequences | removeGatingSequence => exact ha.elim

end BadBatch
