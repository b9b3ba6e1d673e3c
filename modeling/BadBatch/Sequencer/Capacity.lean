import BadBatch.Lib.CheckedArith
import BadBatch.Sequencer.GatingCache

/-!
# The two capacity queries

`has_available_capacity` adds the request to a position and compares with the cached minimum; `remaining_capacity` subtracts
the minimum from the position, saturating. Both are written here with the operations of the machine: the conversion of the
request to `i64`, and the addition and the subtraction that a build may check or let wrap.

* `Lap`, `lap_step`: claims stay within a lap of the gating sequences, also when sequences are removed;
* `capacity_call`, `remaining_call`: a call of the sequencer answers like its query;
* `capacity_queries_agree`: when the first query answers the second one's question, and what the second one can return.
-/

namespace BadBatch

open CheckedArith MultiProducerSequencer StepSys SequencerWorld

/-! ## The queries -/

/-- How a capacity query can stop. -/
inductive CapacityPanic
  /-- `i64::try_from(required_capacity).expect(..)` -/
  | expect
  /-- An operation overflows in a build that checks it. -/
  | overflow
  deriving DecidableEq, Repr

/-- An `i64` operation, with or without overflow checks. -/
def machineI64 (overflowChecks : Bool) (x : Int) : Except CapacityPanic Int :=
  if overflowChecks then (if InI64 x then .ok x else .error .overflow) else .ok (wrapI64 x)

theorem machineI64_ok {x : Int} (h : InI64 x) : machineI64 true x = .ok x := if_pos h

theorem machineI64_overflow {x : Int} (h : ¬InI64 x) : machineI64 true x = .error .overflow := if_neg h

theorem machineI64_wrap (x : Int) : machineI64 false x = .ok (wrapI64 x) := rfl

/-- The body that both sequencers have: the answer, and what it leaves in the cache. -/
def capacityCheck (b : BufferSize) (overflowChecks : Bool) (sequences : Nat → Int) (gating : List Nat) (cached position : Int)
    (requiredCapacity : Nat) : Except CapacityPanic (Bool × Int) := do
  let required ← if (requiredCapacity : Int) ≤ i64Max then .ok (requiredCapacity : Int) else .error .expect
  let sum ← machineI64 overflowChecks (position + required)
  let wrapPoint ← machineI64 overflowChecks (sum - b.sizeI64)
  if wrapPoint > cached ∨ cached > position then
    let minSequence := getMinimumSequenceWithDefault sequences gating position
    pure (decide ¬wrapPoint > minSequence, minSequence)
  else
    pure (true, cached)

/-- `has_available_capacity_internal(required_capacity, false)` -/
def SingleProducerSequencer.hasAvailableCapacityInternal (b : BufferSize) (overflowChecks : Bool) (sequences : Nat → Int)
    (m : SingleProducerSequencer) (requiredCapacity : Nat) : Except CapacityPanic (Bool × Int) :=
  capacityCheck b overflowChecks sequences m.gatingSequences m.cachedValue m.nextValue requiredCapacity

def MultiProducerSequencer.hasAvailableCapacityInternal (b : BufferSize) (overflowChecks : Bool) (sequences : Nat → Int)
    (m : MultiProducerSequencer) (gating : List Nat) (requiredCapacity : Nat) (cursorValue : Int) :
    Except CapacityPanic (Bool × Int) :=
  capacityCheck b overflowChecks sequences gating m.cachedGatingSequence cursorValue requiredCapacity

/-- The body of `remaining_capacity` -/
def saturatingRemaining (b : BufferSize) (sequences : Nat → Int) (gating : List Nat) (nextValue : Int) : Int :=
  let consumed := getMinimumSequenceWithDefault sequences gating nextValue
  let usedCapacity := saturateI64 (nextValue - consumed)
  saturateI64 (b.sizeI64 - usedCapacity)

namespace SequencerWorld

/-- A claim driver holds the claim lock. -/
def claimLocked : SequencerWorld → Bool
  | single w => w.sequencer.claimLock
  | multi _ => false

/-- `has_available_capacity` -/
def hasAvailableCapacity (b : BufferSize) (overflowChecks : Bool) (w : SequencerWorld) (requiredCapacity : Nat) :
    Except CapacityPanic Bool :=
  match w with
  | single w =>
    if w.sequencer.claimLock then .ok false
    else (w.sequencer.hasAvailableCapacityInternal b overflowChecks w.sequences requiredCapacity).map Prod.fst
  | multi w =>
    (w.sequencer.hasAvailableCapacityInternal b overflowChecks w.sequences w.sequencer.gatingSequences requiredCapacity
      w.sequencer.cursor).map Prod.fst

/-- `remaining_capacity` -/
def remainingCapacity (b : BufferSize) : SequencerWorld → Int
  | single w =>
    if w.sequencer.claimLock then 0
    else saturatingRemaining b w.sequences w.sequencer.gatingSequences w.sequencer.nextValue
  | multi w => saturatingRemaining b w.sequences w.sequencer.gatingSequences w.sequencer.cursor

end SequencerWorld

/-! ## Within a lap -/

variable {b : BufferSize} {sequences sequences' : Nat → Int} {gating gating' : List Nat} {p : Nat}

section Multi

variable {m m' : MultiProducerSequencer} {pc pc' : MultiPc} {e : LedgerEffect} {w w' : MultiWorld} {a : SequencerAction}

/-- The claim a producer is about to make stays within a lap. -/
def MultiPc.Laps (b : BufferSize) (sequences : Nat → Int) (gating : List Nat) : MultiPc → Prop
  | .storeCached c current minimum => ∀ n, c = .nextN n → current + n - b.sizeI64 ≤ minimum
  | .cas c current => Below sequences gating (current + c.n - b.sizeI64)
  | _ => True

/-- The cursor is at most a lap ahead of every gating sequence. -/
structure MultiLap (b : BufferSize) (w : MultiWorld) : Prop where
  books : MultiBooks b w
  cache : MultiCache w
  lap : Below w.sequences w.sequencer.gatingSequences (w.sequencer.cursor - b.sizeI64)
  pcs : ∀ p, (w.producers p).Laps b w.sequences w.sequencer.gatingSequences

theorem MultiPc.Laps.mono (h : pc.Laps b sequences gating) (hs : ∀ i, sequences i ≤ sequences' i)
    (hg : ∀ i ∈ gating', i ∈ gating) : pc.Laps b sequences' gating' := by
  cases pc with
  | storeCached c current minimum => exact h
  | cas c current => exact Below.shrink h hs hg
  | _ => trivial

theorem laps_claimStart (c : ClaimCall) : (claimStart b c).Laps b sequences gating := by
  cases c with
  | nextN n | tryNextN n =>
    simp only [claimStart]
    split <;> trivial
  | hasAvailableCapacity k | remainingCapacity => trivial

/-- A producer's next place: the cached minimum and the scanned one are lower bounds. -/
theorem laps_claimStep (h : claimStep b sequences m pc = some (m', pc', e))
    (hcached : Below sequences m.gatingSequences m.cachedGatingSequence) (hc : pc.Caches sequences m.gatingSequences)
    (hp : pc.Laps b sequences m.gatingSequences) : pc'.Laps b sequences m.gatingSequences := by
  cases multiRule_of_claimStep h with
  | fresh hk hfresh => exact hcached.le (by omega)
  | scanned hr hfits => exact hfits
  | store hk hfits =>
    refine Below.le hc ?_
    rcases hfits with ⟨n, rfl⟩ | hfits
    · exact hp n rfl
    · exact hfits
  | _ => trivial

theorem MultiLap.goto (h : MultiLap b w) (hb : MultiBooks b (w.goto p pc)) (hc : MultiCache (w.goto p pc))
    (hp : pc.Laps b w.sequences w.sequencer.gatingSequences) : MultiLap b (w.goto p pc) := by
  refine ⟨hb, hc, h.lap, fun q => ?_⟩
  by_cases hq : q = p
  · subst hq
    simpa [MultiWorld.goto] using hp
  · simpa [MultiWorld.goto, Function.update_of_ne hq] using h.pcs q

/-- **Step lemma.** -/
theorem multiLap_step (h : MultiLap b w) (ha : a.registers = false) (hs : w.step b a = some w') : MultiLap b w' := by
  have hbooks := multiBooks_step h.books hs
  have hcache := multiCache_step h.cache ha hs
  cases multiWorldRule_of_step hs with
  | @call p c => exact h.goto hbooks hcache (laps_claimStart c)
  | publish | publishRange => exact h.goto hbooks hcache trivial
  | @step p m' pc' e hst =>
    have hg : m'.gatingSequences = w.sequencer.gatingSequences := (cached_claimStep hst h.cache.cached (h.cache.pcs p)).1
    refine ⟨hbooks, hcache, ?_, fun q => ?_⟩
    · -- only a grant moves the cursor, and it was checked
      simp only [hg]
      rcases claimStep_cases hst with ⟨rfl, -⟩ | ⟨c, current, minimum, -, -, rfl⟩ | ⟨c, he, -, rfl⟩ | ⟨lo, hi, hpub, -⟩
      · exact h.lap
      · exact h.lap
      · have hp := h.pcs p
        rw [he] at hp
        exact hp
      · rw [hpub.cursor_eq.1]
        exact h.lap
    · simp only [hg]
      by_cases hq : q = p
      · subst hq
        simpa using laps_claimStep hst h.cache.cached (h.cache.pcs q) (h.pcs q)
      · simpa [Function.update_of_ne hq] using h.pcs q
  | advance hle =>
    exact ⟨hbooks, hcache, h.lap.mono (le_update hle), fun q => (h.pcs q).mono (le_update hle) fun i hi => hi⟩
  | close | reopen | poison => exact ⟨hbooks, hcache, h.lap, h.pcs⟩
  | addGatingSequences => cases ha
  | removeGatingSequence =>
    exact ⟨hbooks, hcache, h.lap.shrink (fun _ => le_rfl) fun j => mem_of_mem_removeGatingSequenceCas,
      fun q => (h.pcs q).mono (fun _ => le_rfl) fun j => mem_of_mem_removeGatingSequenceCas⟩

theorem multiLap_init {gating : List Nat} : MultiLap b (MultiWorld.init b gating) :=
  ⟨(claimInv_init gating).books, multiCache_init, (claimInv_init gating).lap, fun _ => trivial⟩

end Multi

section Single

variable {unique : Bool} {w w' : SingleWorld} {a : SequencerAction}

/-- `next_value` is at most a lap ahead of every gating sequence, whatever is published. -/
structure SingleLap (b : BufferSize) (w : SingleWorld) : Prop where
  cache : SingleCache w
  low : -1 ≤ w.sequencer.nextValue
  lap : Below w.sequences w.sequencer.gatingSequences (w.sequencer.nextValue - b.sizeI64)
  call : ∀ c, w.pc.call = some c → c.Fits b

/-- **Step lemma.** -/
theorem singleLap_step (h : SingleLap b w) (ha : a.registers = false) (hs : w.step b a = some w') : SingleLap b w' := by
  have hcache := singleCache_step h.cache ha hs
  cases singleWorldRule_of_step hs with
  | call => exact ⟨hcache, h.low, h.lap, fun c' hc' => fits_claimStart hc'⟩
  | publish | publishRange => exact ⟨hcache, h.low, h.lap, by rintro _ ⟨⟩⟩
  | @step m' pc' e hst =>
    obtain ⟨hg, hbelow⟩ := cached_singleStep hst h.cache.cached h.cache.pc
    have hcall : ∀ c, pc'.call = some c → c.Fits b := fun c hc => h.call c (call_claimStep hst hc)
    have hkeep : m'.nextValue = w.sequencer.nextValue → SingleLap b
        { w with sequencer := m', pc := pc', ledger := e.apply w.driver w.ledger } := fun hn =>
      ⟨hcache, by simp only [hn]; exact h.low, by simp only [hn, hg]; exact h.lap, hcall⟩
    rcases singleStep_cases hst with ⟨-, ⟨-, -, hn, -⟩, -⟩ | ⟨c, -, -, rfl, -⟩ | ⟨c, hc, -, hm, hwrap, -, hfrom⟩ |
      ⟨high, -, -, rfl, -⟩
    · exact hkeep hn
    · exact hkeep rfl
    · -- the cached minimum lets the claim through, and is a lower bound
      have hn : m'.nextValue = w.sequencer.nextValue + c.n := by rw [hm]
      have hpc : w.pc.call = some c := by rcases hfrom with ⟨he, -⟩ | he <;> rw [he] <;> rfl
      have h1 : 1 ≤ c.n := (h.call c hpc).one_le hc
      have := h.low
      refine ⟨hcache, by simp only [hn]; omega, ?_, hcall⟩
      simp only [hn]
      exact hbelow.le hwrap
    · exact hkeep rfl
  | advance hle => exact ⟨hcache, h.low, h.lap.mono (le_update hle), h.call⟩
  | close | reopen | poison => exact ⟨hcache, h.low, h.lap, h.call⟩
  | addGatingSequences => cases ha
  | removeGatingSequence =>
    exact ⟨hcache, h.low, h.lap.shrink (fun _ => le_rfl) fun j => mem_of_mem_removeGatingSequenceCas, h.call⟩

theorem singleLap_init {gating : List Nat} : SingleLap b (SingleWorld.init unique gating) := by
  refine ⟨singleCache_init, le_rfl, fun i _ => ?_, nofun⟩
  have := b.sizeI64_pos
  simp only [SingleWorld.init, SingleProducerSequencer.new, initialCursorValue]
  omega

end Single

namespace SequencerWorld

variable {w w' : SequencerWorld} {a : SequencerAction}

/-- The cached gating minimum -/
def cachedMinimum : SequencerWorld → Int
  | single w => w.sequencer.cachedValue
  | multi w => w.sequencer.cachedGatingSequence

/-- The invariant of either sequencer. -/
def Lap (b : BufferSize) : SequencerWorld → Prop
  | single w => SingleLap b w
  | multi w => MultiLap b w

theorem lap_init {multiProducer unique : Bool} {gating : List Nat} : (init b multiProducer unique gating).Lap b := by
  cases multiProducer
  · exact singleLap_init
  · exact multiLap_init

theorem lap_step (h : w.Lap b) (ha : a.registers = false) (hs : w.step b a = some w') : w'.Lap b := by
  cases w with
  | single w =>
    simp only [SequencerWorld.step, Option.map_eq_some_iff] at hs
    obtain ⟨w₁, hs, rfl⟩ := hs
    exact singleLap_step h ha hs
  | multi w =>
    simp only [SequencerWorld.step, Option.map_eq_some_iff] at hs
    obtain ⟨w₁, hs, rfl⟩ := hs
    exact multiLap_step h ha hs

theorem Lap.cached (h : w.Lap b) : w.Cached := by
  cases w with
  | single w => exact SingleLap.cache h
  | multi w => exact MultiLap.cache h

theorem Cached.below (h : w.Cached) : Below w.sequences w.gatingSequences w.cachedMinimum := by
  cases w with
  | single w => exact SingleCache.cached h
  | multi w => exact MultiCache.cached h

theorem Lap.below (h : w.Lap b) : Below w.sequences w.gatingSequences (w.high - b.sizeI64) := by
  cases w with
  | single w => exact SingleLap.lap h
  | multi w => exact MultiLap.lap h

theorem Lap.low (h : w.Lap b) : -1 ≤ w.high := by
  cases w with
  | single w => exact SingleLap.low h
  | multi w => exact (MultiLap.books h).ledger.neg_one_le

end SequencerWorld

/-! ## The answers -/

section Answers

variable {cached position : Int} {k : Nat}

/-- Nothing saturates within a lap. -/
theorem saturatingRemaining_eq (hlap : Below sequences gating (position - b.sizeI64)) :
    saturatingRemaining b sequences gating position =
        b.sizeI64 - (position - getMinimumSequenceWithDefault sequences gating position) ∧
      0 ≤ saturatingRemaining b sequences gating position ∧ saturatingRemaining b sequences gating position ≤ b.sizeI64 := by
  have hle : getMinimumSequenceWithDefault sequences gating position ≤ position :=
    (le_getMinimumSequenceWithDefault.mp le_rfl).1
  have hpos := b.sizeI64_pos
  have hsize := b.sizeI64_le
  have hge : position - b.sizeI64 ≤ getMinimumSequenceWithDefault sequences gating position :=
    le_getMinimumSequenceWithDefault.mpr ⟨by omega, hlap⟩
  unfold i64Max at hsize
  have hused : saturateI64 (position - getMinimumSequenceWithDefault sequences gating position) =
      position - getMinimumSequenceWithDefault sequences gating position := saturateI64_eq ⟨by omega, by omega⟩
  have hremaining : saturatingRemaining b sequences gating position =
      b.sizeI64 - (position - getMinimumSequenceWithDefault sequences gating position) := by
    unfold saturatingRemaining
    simp only [hused]
    exact saturateI64_eq ⟨by omega, by omega⟩
  rw [hremaining]
  exact ⟨rfl, by omega, by omega⟩

/-- The request is what the other query leaves. -/
theorem le_saturatingRemaining (hlap : Below sequences gating (position - b.sizeI64)) :
    (k : Int) ≤ saturatingRemaining b sequences gating position ↔
      position + k - b.sizeI64 ≤ getMinimumSequenceWithDefault sequences gating position := by
  rw [(saturatingRemaining_eq hlap).1]
  omega

/-- After the conversion and the arithmetic the cache decides as the sequences do. -/
theorem capacityCheck_of_wrapPoint {overflowChecks : Bool} (sum : Int) (hcached : Below sequences gating cached)
    (hk : (k : Int) ≤ i64Max) (hsum : machineI64 overflowChecks (position + k) = .ok sum)
    (hwrap : machineI64 overflowChecks (sum - b.sizeI64) = .ok (position + k - b.sizeI64)) :
    (capacityCheck b overflowChecks sequences gating cached position k).map Prod.fst =
      .ok (decide (position + k - b.sizeI64 ≤ getMinimumSequenceWithDefault sequences gating position)) := by
  unfold capacityCheck
  simp only [if_pos hk, hsum, hwrap, bind, Except.bind]
  by_cases hs : position + k - b.sizeI64 > cached ∨ cached > position
  · rw [if_pos hs]
    simp only [Except.map, pure, Except.pure, not_lt, gt_iff_lt]
  · rw [if_neg hs, decide_eq_true (accepts_of_cached hcached hs)]
    rfl

/-- A build with overflow checks. -/
theorem capacityCheck_checked (hcached : Below sequences gating cached) (hlow : -1 ≤ position) (answer : Bool)
    (hanswer : answer = decide (position + k - b.sizeI64 ≤ getMinimumSequenceWithDefault sequences gating position)) :
    (capacityCheck b true sequences gating cached position k).map Prod.fst = .ok answer ↔
      (k : Int) ≤ i64Max ∧ position + k ≤ i64Max := by
  have hpos := b.sizeI64_pos
  have hsize := b.sizeI64_le
  unfold i64Max at *
  constructor
  · intro h
    by_contra hno
    by_cases hk : (k : Int) ≤ 2 ^ 63 - 1
    · -- the addition overflows
      have hsum : machineI64 true (position + k) = .error .overflow := machineI64_overflow fun hin => hno ⟨hk, hin.2⟩
      unfold capacityCheck i64Max at h
      simp only [if_pos hk, hsum, bind, Except.bind] at h
      cases h
    · unfold capacityCheck i64Max at h
      simp only [if_neg hk, bind, Except.bind] at h
      cases h
  · rintro ⟨hk, hsum⟩
    rw [hanswer]
    refine capacityCheck_of_wrapPoint (position + k) hcached hk (machineI64_ok ⟨by omega, hsum⟩) ?_
    exact machineI64_ok ⟨by omega, by omega⟩

/-- A build without them: the addition may wrap as long as the subtraction wraps back. -/
theorem capacityCheck_wrapping (hcached : Below sequences gating cached) (hlow : -1 ≤ position) (hfits : position ≤ i64Max)
    (hlap : Below sequences gating (position - b.sizeI64)) (answer : Bool)
    (hanswer : answer = decide (position + k - b.sizeI64 ≤ getMinimumSequenceWithDefault sequences gating position)) :
    (capacityCheck b false sequences gating cached position k).map Prod.fst = .ok answer ↔
      (k : Int) ≤ i64Max ∧ position + k - b.sizeI64 ≤ i64Max := by
  have hpos := b.sizeI64_pos
  have hsize := b.sizeI64_le
  have hle : getMinimumSequenceWithDefault sequences gating position ≤ position :=
    (le_getMinimumSequenceWithDefault.mp le_rfl).1
  have hge : position - b.sizeI64 ≤ getMinimumSequenceWithDefault sequences gating position :=
    le_getMinimumSequenceWithDefault.mpr ⟨by omega, hlap⟩
  unfold i64Max at *
  constructor
  · intro h
    by_contra hno
    by_cases hk : (k : Int) ≤ 2 ^ 63 - 1
    · -- the wrapped sum is below every sequence, so the answer is that there is room
      have hover : 2 ^ 63 - 1 < position + k - b.sizeI64 := not_le.mp fun hin => hno ⟨hk, hin⟩
      have hwrap : wrapI64 (wrapI64 (position + k) - b.sizeI64) = position + k - b.sizeI64 - 2 ^ 64 := by
        rw [wrapI64_wrap_sub]
        exact wrapI64_of_gt hover (by omega)
      have hyes : (capacityCheck b false sequences gating cached position k).map Prod.fst = .ok true := by
        unfold capacityCheck i64Max
        simp only [if_pos hk, machineI64_wrap, hwrap, bind, Except.bind]
        split_ifs
        · have : ¬position + k - b.sizeI64 - 2 ^ 64 > getMinimumSequenceWithDefault sequences gating position := by omega
          simp only [Except.map, pure, Except.pure, decide_eq_true this]
        · rfl
      rw [hyes, hanswer, Except.ok.injEq, eq_comm, decide_eq_true_iff] at h
      omega
    · unfold capacityCheck i64Max at h
      simp only [if_neg hk, bind, Except.bind] at h
      cases h
  · rintro ⟨hk, hsum⟩
    rw [hanswer]
    refine capacityCheck_of_wrapPoint (wrapI64 (position + k)) hcached hk (machineI64_wrap _) ?_
    rw [machineI64_wrap, wrapI64_wrap_sub, wrapI64_eq ⟨by omega, hsum⟩]

end Answers

/-! ## The queries of a state -/

namespace SequencerWorld

variable {w w₀ : SequencerWorld} {k : Nat}

theorem hasAvailableCapacity_eq (hfree : w.claimLocked = false) (overflowChecks : Bool) :
    w.hasAvailableCapacity b overflowChecks k =
      (capacityCheck b overflowChecks w.sequences w.gatingSequences w.cachedMinimum w.high k).map Prod.fst := by
  cases w with
  | single w => exact if_neg (Bool.eq_false_iff.mp hfree)
  | multi w => rfl

theorem remainingCapacity_eq (hfree : w.claimLocked = false) :
    w.remainingCapacity b = saturatingRemaining b w.sequences w.gatingSequences w.high := by
  cases w with
  | single w => exact if_neg (Bool.eq_false_iff.mp hfree)
  | multi w => rfl

/-- Between two calls of the checked path the claim lock is free. -/
theorem Cached.claimLocked (h : w.Cached) (hcap : w.capability = false) (hrest : w.atRest p = true) :
    w.claimLocked = false := by
  cases w with
  | single w => exact SingleCache.lock h hcap (unguarded_of_atRest hrest)
  | multi w => rfl

theorem rest_of_call {c : ClaimCall} (hs : w.step b (.call p c) = some w₀) : w.atRest p = true := by
  cases rule_of_step hs with
  | single hr =>
    cases hr with | call hrest =>
    exact hrest
  | multi hr =>
    cases hr with | call hrest =>
    exact hrest

end SequencerWorld

/-! ## The calls of the step system -/

section Calls

variable {w₀ : SequencerWorld} {k : Nat}

/-- `remaining_capacity` reads the cursor, the gating list and the gating sequences. -/
theorem multi_remaining {w : MultiWorld} : Alone b p (.multi (w.goto p (.loadCursor .remainingCapacity)))
    (.multi (w.goto p (.returned (.capacity (b.sizeI64 - (w.sequencer.cursor - w.gatingMinimum)))))) :=
  Reach.trans (alone_load rfl) (Reach.trans (alone_load rfl) (Reach.trans (alone_scan _ _) (alone_load rfl)))

/-- On the checked path under the claim lock. -/
theorem single_remaining {w : SingleWorld} (hlock : w.unique = false → w.sequencer.claimLock = false) :
    Alone b p (w.driven p w.sequencer (SingleProducerSequencer.claimStart b w.unique .remainingCapacity) w.ledger)
      (w.driven p w.sequencer (.returned (.capacity (b.sizeI64 - (w.sequencer.nextValue - w.gatingMinimum)))) w.ledger) := by
  have hcheck : Alone b p
      (w.driven p w.sequencer (SingleProducerSequencer.claimStart b w.unique .remainingCapacity) w.ledger)
      (w.driven p w.guarded (.check .remainingCapacity) w.ledger) := by
    unfold SingleWorld.guarded SingleProducerSequencer.claimStart
    cases hu : w.unique with
    | true => exact .refl
    | false =>
      refine alone_quiet ?_
      simp [SingleProducerSequencer.claimStep, hlock hu]
  have hscan := Reach.trans hcheck (Reach.trans (alone_quiet rfl) (Reach.trans (alone_quiet rfl)
    (alone_singleScan (b := b) (p := p) (w := w) (c := .remainingCapacity) (m := w.guarded) (l := w.ledger)
      w.sequencer.gatingSequences w.sequencer.nextValue)))
  have hend := alone_end (r := .capacity (b.sizeI64 - (w.sequencer.nextValue - w.gatingMinimum))) w.guarded .none hscan rfl
  simpa only [SingleWorld.guarded, released_eq hlock, LedgerEffect.apply] using hend

/-- Where the arithmetic goes through, a call that nobody disturbs returns the answer of the state. -/
theorem capacity_call {w : SequencerWorld} (h : w.Lap b) (hcap : w.capability = false)
    (hk : (k : Int) ≤ i64Max ∧ w.high + k ≤ i64Max) (hs : w.step b (.call p (.hasAvailableCapacity k)) = some w₀) :
    ∃ answer w', w.hasAvailableCapacity b true k = .ok answer ∧ Alone b p w₀ w' ∧ w'.result p = some (.bool answer) := by
  have hrest := rest_of_call hs
  refine ⟨decide (w.Accepts b k), ?_⟩
  rw [hasAvailableCapacity_eq (h.cached.claimLocked hcap hrest)]
  have hanswer := (capacityCheck_checked h.cached.below h.low (decide (w.Accepts b k)) rfl).mpr hk
  cases rule_of_step hs with
  | single hr =>
    cases hr
    obtain ⟨w', halone, hresult⟩ := single_capacity (p := p) (SingleLap.cache h) hrest hcap hk.1
    exact ⟨w', hanswer, halone, hresult⟩
  | multi hr =>
    cases hr
    obtain ⟨w', halone, hresult⟩ := multi_capacity (p := p) (MultiLap.cache h) hk.1
    exact ⟨w', hanswer, halone, hresult⟩

/-- So does a call of `remaining_capacity`. -/
theorem remaining_call {w : SequencerWorld} (h : w.Lap b) (hcap : w.capability = false)
    (hs : w.step b (.call p .remainingCapacity) = some w₀) :
    ∃ w', Alone b p w₀ w' ∧ w'.result p = some (.capacity (w.remainingCapacity b)) := by
  have hrest := rest_of_call hs
  rw [remainingCapacity_eq (h.cached.claimLocked hcap hrest), (saturatingRemaining_eq h.below).1]
  cases rule_of_step hs with
  | single hr =>
    cases hr
    exact ⟨_, single_remaining fun hu => (SingleLap.cache h).lock hu (unguarded_of_atRest hrest), result_driven⟩
  | multi hr =>
    cases hr
    exact ⟨_, multi_remaining, result_goto⟩

end Calls

/-- **When the two capacity queries agree.** What is left is never negative and never more than the ring. A build with overflow
checks answers every request as `remaining_capacity` does exactly when the request and the position it is added to fit `i64`; a
build without them, when they fit after the size of the ring is taken off again. -/
theorem capacity_queries_agree (b : BufferSize) (multiProducer unique : Bool) (gating : List Nat) (w : SequencerWorld)
    (h : Reach (SequencerWorld.step b) (fun _ a => a.registers = false) (.init b multiProducer unique gating) w)
    (hfree : w.claimLocked = false) (k : Nat) :
    (0 ≤ w.remainingCapacity b ∧ w.remainingCapacity b ≤ b.sizeI64) ∧
    (w.hasAvailableCapacity b true k = .ok (decide ((k : Int) ≤ w.remainingCapacity b)) ↔
      (k : Int) ≤ i64Max ∧ w.high + k ≤ i64Max) ∧
    (w.high ≤ i64Max → (w.hasAvailableCapacity b false k = .ok (decide ((k : Int) ≤ w.remainingCapacity b)) ↔
      (k : Int) ≤ i64Max ∧ w.high + k - b.sizeI64 ≤ i64Max)) := by
  have hlap : w.Lap b := Reach.inv lap_init (fun hI ha hs => lap_step hI ha hs) h
  have hanswer : decide ((k : Int) ≤ saturatingRemaining b w.sequences w.gatingSequences w.high) =
      decide (w.high + k - b.sizeI64 ≤ getMinimumSequenceWithDefault w.sequences w.gatingSequences w.high) :=
    decide_eq_decide.mpr (le_saturatingRemaining hlap.below)
  simp only [remainingCapacity_eq hfree, hasAvailableCapacity_eq hfree]
  exact ⟨(saturatingRemaining_eq hlap.below).2, capacityCheck_checked hlap.cached.below hlap.low _ hanswer,
    fun hfits => capacityCheck_wrapping hlap.cached.below hlap.low hfits hlap.below _ hanswer⟩

/-- Three sequences through a ring of one slot, the last one not yet consumed. -/
def fullRingRun : List SequencerAction :=
  .call 0 (.nextN 1) :: List.replicate 5 (.step 0) ++ [.publish 0 0, .step 0, .advance 0 0] ++
    .call 0 (.nextN 1) :: List.replicate 9 (.step 0) ++ [.publish 0 1, .step 0, .advance 0 1] ++
    .call 0 (.nextN 1) :: List.replicate 9 (.step 0)

/-- A full ring of one slot, and what it answers there. -/
theorem exists_fullRing : ∃ w, Reach (SequencerWorld.step ⟨0, by decide⟩) (fun _ a => a.registers = false)
    (.init ⟨0, by decide⟩ false false [0]) w ∧ w.claimLocked = false ∧ w.high = 2 ∧ w.remainingCapacity ⟨0, by decide⟩ = 0 ∧
    w.hasAvailableCapacity ⟨0, by decide⟩ true (2 ^ 64 - 1) = .error .expect ∧
    w.hasAvailableCapacity ⟨0, by decide⟩ true (2 ^ 63 - 1) = .error .overflow ∧
    w.hasAvailableCapacity ⟨0, by decide⟩ false (2 ^ 64 - 1) = .error .expect ∧
    w.hasAvailableCapacity ⟨0, by decide⟩ false (2 ^ 63 - 1) = .ok true :=
  ⟨_, reach_of_exec fullRingRun rfl, rfl, rfl, by decide, by decide, by decide, by decide, by decide⟩

/-- On the full ring a request of one sequence is refused by both queries. -/
theorem capacity_queries_agree_full : ∃ w : SequencerWorld, w.claimLocked = false ∧ w.remainingCapacity ⟨0, by decide⟩ = 0 ∧
    w.hasAvailableCapacity ⟨0, by decide⟩ true 1 = .ok false := by
  obtain ⟨w, hreach, hfree, hhigh, hremaining, -⟩ := exists_fullRing
  have hagree := (capacity_queries_agree ⟨0, by decide⟩ false false [0] w hreach hfree 1).2.1.mpr
    ⟨by decide, by rw [hhigh]; decide⟩
  rw [hremaining] at hagree
  exact ⟨w, hfree, hremaining, hagree⟩

/-- `usize::MAX` and `i64::MAX` are not answered there: the conversion or the addition panics, and without overflow checks there
is room for `i64::MAX` sequences. -/
theorem has_available_capacity_panics : ∃ w, Reach (SequencerWorld.step ⟨0, by decide⟩) (fun _ a => a.registers = false)
    (.init ⟨0, by decide⟩ false false [0]) w ∧ w.claimLocked = false ∧
    (∀ checks, w.hasAvailableCapacity ⟨0, by decide⟩ checks (2 ^ 64 - 1) ≠
      .ok (decide (((2 ^ 64 - 1 : Nat) : Int) ≤ w.remainingCapacity ⟨0, by decide⟩))) ∧
    ∀ checks, w.hasAvailableCapacity ⟨0, by decide⟩ checks (2 ^ 63 - 1) ≠
      .ok (decide (((2 ^ 63 - 1 : Nat) : Int) ≤ w.remainingCapacity ⟨0, by decide⟩)) := by
  obtain ⟨w, hreach, hfree, -, hremaining, hexpect, hoverflow, hexpect', hwrap⟩ := exists_fullRing
  refine ⟨w, hreach, hfree, fun checks => ?_, fun checks => ?_⟩
  · cases checks
    · rw [hexpect']
      nofun
    · rw [hexpect]
      nofun
  · cases checks
    · rw [hwrap, hremaining]
      decide
    · rw [hoverflow]
      nofun

end BadBatch
