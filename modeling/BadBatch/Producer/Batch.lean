import BadBatch.Sequencer.GatingCache
import BadBatch.Sequencer.SingleVisibility

/-!
# Batches of a producer

`SimpleProducer::{publish, batch_publish, try_batch_publish}` as functions: the producer makes its calls on the sequencer while
nobody else takes a step. A call is run through the steps of the sequencer until it has returned; `fuel` bounds their number.
A closure that is given an iterator over its slots is a function of the iterator and of the ring.

* `BatchIterMut`: the slots of a batch, in order.
* `batch_publish_eq_publishes`: a batch of `n` writes is `n` publications, for both sequencers.
-/

namespace BadBatch

open MultiProducerSequencer StepSys SequencerWorld

variable {E : Type}

/-! ## The iterator -/

/-- `BatchIterMut` without the ring it borrows -/
structure BatchIterMut where
  current : Int
  last : Int
  deriving DecidableEq, Repr

namespace BatchIterMut

/-- `RingBuffer::batch_iter_mut` -/
def new (start last : Int) : BatchIterMut := ⟨start, last⟩

def remaining (it : BatchIterMut) : Nat := if it.current > it.last then 0 else (it.last - it.current + 1).toNat

/-- The slot that is handed out, and the iterator after it. -/
def next (b : BufferSize) (it : BatchIterMut) : Option (Nat × BatchIterMut) :=
  if it.current > it.last then none else some (calculateIndex b it.current, { it with current := it.current + 1 })

def sizeHint (it : BatchIterMut) : Nat × Option Nat := (it.remaining, some it.remaining)

def count (it : BatchIterMut) : Nat := it.remaining

/-- The closure that applies one write to each item, until it has no more writes or no more items. -/
def applyWrites (b : BufferSize) : BatchIterMut → List (E → E) → (Nat → E) → Nat → E
  | _, [], ring => ring
  | it, f :: fs, ring =>
    match it.next b with
    | none => ring
    | some (i, it') => it'.applyWrites b fs (Function.update ring i (f (ring i)))

end BatchIterMut

/-! ## The producer -/

/-- Producer `p` takes its steps until its call has returned. -/
def SequencerWorld.complete (b : BufferSize) (p : Nat) : Nat → SequencerWorld → Option (ClaimResult × SequencerWorld)
  | 0, _ => none
  | fuel + 1, w =>
    match w.result p with
    | some r => some (r, w)
    | none => (w.step b (.step p)).bind (complete b p fuel)

/-- Why a non-blocking publication is refused. -/
inductive TryPublishError
  | full
  | invalidBatchSize (requested capacity : Nat)
  | contended
  | missingFreeSlots (deficit : Nat)
  | poisoned
  | shutdown
  | reentrantPublish
  deriving DecidableEq, Repr

/-- The sequencer and the ring that a producer publishes to. -/
structure SimpleProducer (E : Type) where
  world : SequencerWorld
  ring : Nat → E

namespace SimpleProducer

variable (b : BufferSize) (p fuel : Nat)

/-- A call of the sequencer. -/
def invoke (w : SequencerWorld) (a : SequencerAction) : Option (ClaimResult × SequencerWorld) :=
  (w.step b a).bind (SequencerWorld.complete b p fuel)

def publish (update : E → E) (st : SimpleProducer E) : Option (Except DisruptorError Int × SimpleProducer E) :=
  (invoke b p fuel st.world (.call p (.nextN 1))).bind fun (claim, w) =>
    match claim with
    | .ok sequence =>
      let i := calculateIndex b sequence
      let ring := Function.update st.ring i (update (st.ring i))
      (invoke b p fuel w (.publish p sequence)).map fun (_, w) => (.ok sequence, ⟨w, ring⟩)
    | .err e => some (.error e, { st with world := w })
    | _ => none

def batchPublish (n : Nat) (update : BatchIterMut → (Nat → E) → Nat → E) (st : SimpleProducer E) :
    Option (Except DisruptorError Int × SimpleProducer E) :=
  if n = 0 ∨ n > b.size then some (.error (.invalidSequence (min n i64Max)), st)
  else
    (invoke b p fuel st.world (.call p (.nextN n))).bind fun (claim, w) =>
      match claim with
      | .ok endSequence =>
        let startSequence := endSequence - (n - 1)
        let ring := update (.new startSequence endSequence) st.ring
        (invoke b p fuel w (.publishRange p startSequence endSequence)).map fun (_, w) => (.ok endSequence, ⟨w, ring⟩)
      | .err e => some (.error e, { st with world := w })
      | _ => none

/-- Terminal states are reported before backpressure. -/
def classifyTryRejection (w : SequencerWorld) (fallback : TryPublishError) : TryPublishError :=
  if w.poisoned then .poisoned else if w.closed then .shutdown else fallback

def tryPublish (update : E → E) (st : SimpleProducer E) : Option (Except TryPublishError Int × SimpleProducer E) :=
  (invoke b p fuel st.world (.call p (.tryNextN 1))).bind fun (claim, w) =>
    match claim with
    | .ok sequence =>
      let i := calculateIndex b sequence
      let ring := Function.update st.ring i (update (st.ring i))
      (invoke b p fuel w (.publish p sequence)).map fun (_, w) => (.ok sequence, ⟨w, ring⟩)
    | .none =>
      (invoke b p fuel w (.call p .remainingCapacity)).bind fun (capacity, w) =>
        match capacity with
        | .capacity remaining =>
          let transient := if remaining > 0 then .contended else .full
          some (.error (classifyTryRejection w transient), { st with world := w })
        | _ => none
    | _ => none

def tryBatchPublish (n : Nat) (update : BatchIterMut → (Nat → E) → Nat → E) (st : SimpleProducer E) :
    Option (Except TryPublishError Int × SimpleProducer E) :=
  if n = 0 ∨ n > b.size then some (.error (classifyTryRejection st.world (.invalidBatchSize n b.size)), st)
  else
    (invoke b p fuel st.world (.call p (.tryNextN n))).bind fun (claim, w) =>
      match claim with
      | .ok endSequence =>
        let startSequence := endSequence - (n - 1)
        let ring := update (.new startSequence endSequence) st.ring
        (invoke b p fuel w (.publishRange p startSequence endSequence)).map fun (_, w) => (.ok endSequence, ⟨w, ring⟩)
      | .none =>
        (invoke b p fuel w (.call p .remainingCapacity)).bind fun (capacity, w) =>
          match capacity with
          | .capacity remaining =>
            let deficit := n - (max remaining 0).toNat
            -- capacity remains, so the single failed compare-and-swap was contention
            let transient := if deficit = 0 then .contended else .missingFreeSlots deficit
            some (.error (classifyTryRejection w transient), { st with world := w })
          | _ => none
      | _ => none

/-- One `publish` after another. -/
def publishEach : List (E → E) → SimpleProducer E → Option (List (Except DisruptorError Int) × SimpleProducer E)
  | [], st => some ([], st)
  | f :: fs, st =>
    (publish b p fuel f st).bind fun (r, st) => (publishEach fs st).map fun (rs, st) => (r :: rs, st)

end SimpleProducer

/-- `is_available` -/
def SequencerWorld.isAvailable (b : BufferSize) : SequencerWorld → Int → Bool
  | single w, s => w.sequencer.isAvailable s
  | multi w, s => w.sequencer.isAvailableInternal b s

/-- `remaining_capacity` of the state as it is -/
def SequencerWorld.freeSlots (b : BufferSize) (w : SequencerWorld) : Int :=
  b.sizeI64 - (w.high - getMinimumSequenceWithDefault w.sequences w.gatingSequences w.high)

/-- Two producers that cannot be told apart, the cached gating minimum aside. -/
structure SimpleProducer.SameAnswers (b : BufferSize) (st st' : SimpleProducer E) : Prop where
  ring : st.ring = st'.ring
  cursor : st.world.cursor = st'.world.cursor
  nextValue : st.world.high = st'.world.high
  isAvailable : ∀ s, st.world.isAvailable b s = st'.world.isAvailable b s

/-! ## Iterating -/

section Iterator

variable {b : BufferSize} {it : BatchIterMut}

theorem BatchIterMut.next_of_le (h : it.current ≤ it.last) :
    it.next b = some (calculateIndex b it.current, { it with current := it.current + 1 }) := if_neg (not_lt.mpr h)

theorem BatchIterMut.next_eq_none (h : it.last < it.current) : it.next b = none := if_pos h

/-- What `k` calls of `next` hand out, and the iterator after them. -/
def BatchIterMut.nextMany (b : BufferSize) : Nat → BatchIterMut → List (Option Nat) × BatchIterMut
  | 0, it => ([], it)
  | k + 1, it =>
    match it.next b with
    | none => (none :: (nextMany b k it).1, (nextMany b k it).2)
    | some (i, it') => (some i :: (nextMany b k it').1, (nextMany b k it').2)

/-- The first calls hand out the slots in order. -/
theorem BatchIterMut.nextMany_eq : ∀ (k : Nat) (start last : Int), start + k ≤ last + 1 →
    nextMany b k ⟨start, last⟩ = ((List.range k).map fun i : Nat => some (calculateIndex b (start + i)),
      ⟨start + k, last⟩) := by
  intro k
  induction k with
  | zero =>
    intro start last _
    simp [nextMany]
  | succ k ih =>
    intro start last h
    have hle : start ≤ last := by omega
    rw [nextMany, @next_of_le b ⟨start, last⟩ hle]
    simp only [ih (start + 1) last (by push_cast at h ⊢; omega)]
    rw [List.range_succ_eq_map, List.map_cons, List.map_map]
    refine Prod.ext ?_ ?_
    · refine congrArg₂ _ (by simp) (List.map_congr_left fun i _ => ?_)
      simp only [Function.comp_apply, Nat.succ_eq_add_one]
      congr 2
      push_cast
      ring
    · simp only [BatchIterMut.mk.injEq, and_true]
      push_cast
      ring

/-- Nothing is reached but the slots of the items. -/
theorem BatchIterMut.applyWrites_other {i : Nat} : ∀ (fs : List (E → E)) (start last : Int) (ring : Nat → E),
    (∀ t, start ≤ t → t ≤ last → calculateIndex b t ≠ i) → applyWrites b ⟨start, last⟩ fs ring i = ring i
  | [], _, _, _, _ => rfl
  | f :: fs, start, last, ring, h => by
    by_cases hend : start ≤ last
    · rw [applyWrites, @next_of_le b ⟨start, last⟩ hend]
      refine (applyWrites_other fs (start + 1) last _ fun t h1 h2 => h t (by omega) h2).trans ?_
      exact Function.update_of_ne (h start le_rfl hend).symm _ _
    · rw [applyWrites, @next_eq_none b ⟨start, last⟩ (not_le.mp hend)]

/-- The iterator hands out the slots of `start`, …, `start + n - 1`, and knows at every step how many are left. -/
structure BatchIterMut.Yields (b : BufferSize) (start : Int) (n : Nat) (it : BatchIterMut) : Prop where
  slots : ∀ k, k ≤ n → (nextMany b k it).1 = (List.range k).map fun i : Nat => some (calculateIndex b (start + i))
  sizeHint : ∀ k, k ≤ n → (nextMany b k it).2.sizeHint = (n - k, some (n - k))
  count : ∀ k, k ≤ n → (nextMany b k it).2.count = n - k
  exhausted : (nextMany b n it).2.next b = none
  distinct : ∀ i j : Nat, i < j → j < n → calculateIndex b (start + i) ≠ calculateIndex b (start + j)
  other : ∀ (E : Type) (fs : List (E → E)) (ring : Nat → E) (i : Nat),
    (∀ k : Nat, k < n → calculateIndex b (start + k) ≠ i) → applyWrites b it fs ring i = ring i

/-- At most one lap. -/
theorem BatchIterMut.Yields.new {n : Nat} {high : Int} (hn : (n : Int) ≤ b.sizeI64) :
    (BatchIterMut.new (high + 1) (high + n)).Yields b (high + 1) n := by
  have hmany : ∀ k, k ≤ n → nextMany b k (BatchIterMut.new (high + 1) (high + n)) = _ := fun k hk =>
    nextMany_eq k (high + 1) (high + n) (by omega)
  have hremaining : ∀ k, k ≤ n → (nextMany b k (BatchIterMut.new (high + 1) (high + n))).2.remaining = n - k := by
    intro k hk
    rw [hmany k hk, BatchIterMut.remaining]
    simp only
    split_ifs <;> omega
  refine ⟨fun k hk => ?_, fun k hk => ?_, hremaining, ?_, fun i j hij hj he => ?_, fun E fs ring i h => ?_⟩
  · rw [hmany k hk]
  · rw [BatchIterMut.sizeHint, hremaining k hk]
  · rw [hmany n le_rfl]
    exact next_eq_none (show high + n < high + 1 + n by omega)
  · have := eq_of_calculateIndex_eq b he (by omega) (by omega)
    omega
  · refine applyWrites_other fs _ _ ring fun t h1 h2 => ?_
    have := h (t - (high + 1)).toNat (by omega)
    rwa [show high + 1 + ((t - (high + 1)).toNat : Int) = t by omega] at this

end Iterator

/-! ## Running a call -/

section Calls

variable {b : BufferSize} {p : Nat} {w w' : SequencerWorld} {r : ClaimResult}

/-- A producer that can take a step is inside a call. -/
theorem result_of_step (hs : w.step b (.step p) = some w') : w.result p = none := by
  cases rule_of_step hs with
  | @single w _ _ hr =>
    cases hr with | step hst =>
    simp only [SequencerWorld.result]
    cases hpc : w.pc with
    | returned r =>
      rw [hpc] at hst
      cases hst
    | _ => rfl
  | @multi w _ _ hr =>
    cases hr with | step hst =>
    simp only [SequencerWorld.result]
    cases hpc : w.producers p with
    | returned r =>
      rw [hpc] at hst
      cases hst
    | _ => rfl

/-- Enough fuel takes a call to its end. -/
theorem complete_of_alone (h : Alone b p w w') (hr : w'.result p = some r) :
    ∃ k, ∀ fuel, k ≤ fuel → SequencerWorld.complete b p fuel w = some (r, w') := by
  have hrun : ∃ k, ∀ fuel, SequencerWorld.complete b p (fuel + k) w = SequencerWorld.complete b p fuel w' := by
    clear hr
    induction h with
    | refl => exact ⟨0, fun _ => rfl⟩
    | @tail u v a _ ha hs ih =>
      subst ha
      obtain ⟨k, hk⟩ := ih
      refine ⟨k + 1, fun fuel => ?_⟩
      rw [show fuel + (k + 1) = fuel + 1 + k by omega, hk, SequencerWorld.complete, result_of_step hs, hs]
      rfl
  obtain ⟨k, hk⟩ := hrun
  refine ⟨k + 1, fun fuel hfuel => ?_⟩
  obtain ⟨rest, rfl⟩ := Nat.exists_eq_add_of_le hfuel
  rw [show k + 1 + rest = rest + 1 + k by omega, hk, SequencerWorld.complete, hr]

/-- A call that runs to its end on its own. -/
theorem invoke_of_alone {a : SequencerAction} {w₀ : SequencerWorld} (hs : w₀.step b a = some w) (h : Alone b p w w')
    (hr : w'.result p = some r) : ∃ k, ∀ fuel, k ≤ fuel → SimpleProducer.invoke b p fuel w₀ a = some (r, w') := by
  obtain ⟨k, hk⟩ := complete_of_alone h hr
  refine ⟨k, fun fuel hfuel => ?_⟩
  rw [SimpleProducer.invoke, hs, Option.bind_some, hk fuel hfuel]

end Calls

/-! ## Flags -/

/-- The flags of the sequences in `[lo, hi)` are turned, the others are left. -/
structure Turned (b : BufferSize) (f f' : Nat → Int) (lo hi : Int) : Prop where
  marked : ∀ t, lo ≤ t → t < hi →
    f' (calculateIndex b t) = if b.size < 64 then t / b.sizeI64 % 2 else 1 - f (calculateIndex b t)
  other : ∀ i, i < b.size → (∀ t, lo ≤ t → t < hi → calculateIndex b t ≠ i) → f' i = f i

section Flags

variable {b : BufferSize} {f f' f'' : Nat → Int} {lo mid hi : Int}

theorem MultiProducerSequencer.Marks.turned {m m' : MultiProducerSequencer} (h : Marks b m m' lo hi) :
    Turned b m.slotFlag m'.slotFlag lo hi := ⟨h.marked, h.other⟩

theorem Turned.nil (h : hi ≤ lo) : Turned b f f lo hi := ⟨fun t h1 h2 => by omega, fun _ _ _ => rfl⟩

/-- Adjacent ranges of one lap. -/
theorem Turned.trans (h : Turned b f f' lo mid) (h' : Turned b f' f'' mid hi) (hlo : lo ≤ mid) (hhi : mid ≤ hi)
    (hlap : hi - lo ≤ b.sizeI64) : Turned b f f'' lo hi := by
  have hapart : ∀ {s t}, lo ≤ s → s < hi → lo ≤ t → t < hi → s ≠ t → calculateIndex b s ≠ calculateIndex b t :=
    fun hs1 hs2 ht1 ht2 hne he => hne (eq_of_calculateIndex_eq b he (by omega) (by omega))
  refine ⟨fun t h1 h2 => ?_, fun i hi hne => ?_⟩
  · by_cases ht : t < mid
    · rw [h'.other _ (calculateIndex_lt b t) fun s hs1 hs2 => hapart (by omega) (by omega) h1 h2 (by omega)]
      exact h.marked t h1 ht
    · rw [h'.marked t (by omega) h2]
      rw [h.other _ (calculateIndex_lt b t) fun s hs1 hs2 => hapart hs1 (by omega) h1 h2 (by omega)]
  · rw [h'.other i hi fun t h1 h2 => hne t (by omega) h2]
    exact h.other i hi fun t h1 h2 => hne t h1 (by omega)

/-- The result is determined. -/
theorem Turned.unique (h : Turned b f f' lo hi) (h' : Turned b f f'' lo hi) {i : Nat} (hi' : i < b.size) : f' i = f'' i := by
  by_cases hin : ∃ t, lo ≤ t ∧ t < hi ∧ calculateIndex b t = i
  · obtain ⟨t, h1, h2, rfl⟩ := hin
    rw [h.marked t h1 h2, h'.marked t h1 h2]
  · push Not at hin
    rw [h.other i hi' hin, h'.other i hi' hin]

end Flags

/-! ## One claim and its publication -/

def SequencerWorld.isMulti : SequencerWorld → Bool
  | single _ => false
  | multi _ => true

/-- The flags of a multi-producer sequencer; a single-producer one has none. -/
def SequencerWorld.flags : SequencerWorld → Nat → Int
  | single _ => fun _ => 0
  | multi w => w.sequencer.slotFlag

/-- What the state must have for calls to work: the arrays of the flags, and a claim lock that is free between two calls. -/
def SequencerWorld.Ready (b : BufferSize) : SequencerWorld → Prop
  | single w => w.unique = false → w.pc.unguarded = true → w.sequencer.claimLock = false
  | multi w => MultiBooks b w

/-- `w'` is `w` after producer `p` has claimed and published `n` sequences. -/
structure Published (b : BufferSize) (p : Nat) (w : SequencerWorld) (n : Int) (w' : SequencerWorld) : Prop where
  high : w'.high = w.high + n
  cursor : w'.cursor = if n = 0 then w.cursor else w.high + n
  flags : w.isMulti = true → Turned b w.flags w'.flags (w.high + 1) (w.high + n + 1)
  sequences : w'.sequences = w.sequences
  gating : w'.gatingSequences = w.gatingSequences
  closed : w'.closed = w.closed
  poisoned : w'.poisoned = w.poisoned
  rest : w'.atRest p = true
  ready : w'.Ready b
  isMulti : w'.isMulti = w.isMulti

section Published

variable {b : BufferSize} {p : Nat} {w w' w'' : SequencerWorld} {a : SequencerAction}

theorem ready_init {multiProducer unique : Bool} {gating : List Nat} :
    (SequencerWorld.init b multiProducer unique gating).Ready b := by
  cases multiProducer
  · exact fun hu _ => hu
  · exact (claimInv_init gating).books

/-- **Step lemma.** -/
theorem ready_step (h : w.Ready b) (hs : w.step b a = some w') : w'.Ready b := by
  cases rule_of_step hs with
  | @multi w w' _ hr =>
    simp only [SequencerWorld.step, Option.map_eq_some_iff, SequencerWorld.multi.injEq, exists_eq_right] at hs
    exact multiBooks_step h hs
  | @single w _ _ hr =>
    have hlock : w.unique = false → w.pc.unguarded = true → w.sequencer.claimLock = false := h
    cases hr with
    | step hst =>
      intro hu hp
      simp only at hu
      rw [hu] at hst
      exact unguarded_singleStep hst (hlock hu) hp
    | call hr | publish hr | publishRange hr => exact fun hu _ => hlock hu (unguarded_of_atRest hr)
    | advance | close | reopen | poison | addGatingSequences | removeGatingSequence => exact hlock

theorem ready_alone (h : w.Ready b) (hr : Alone b p w w') : w'.Ready b :=
  Reach.inv h (fun hI _ hs => ready_step hI hs) hr

theorem Published.refl (hrest : w.atRest p = true) (hready : w.Ready b) : Published b p w 0 w :=
  ⟨by simp, by simp, fun _ => .nil (by omega), rfl, rfl, rfl, rfl, hrest, hready, rfl⟩

theorem Published.trans {m n : Int} (h : Published b p w m w') (h' : Published b p w' n w'') (hm : 0 ≤ m) (hn : 0 ≤ n)
    (hlap : m + n ≤ b.sizeI64) : Published b p w (m + n) w'' where
  high := by rw [h'.high, h.high]; ring
  cursor := by
    rw [h'.cursor, h.cursor, h.high]
    split_ifs <;> omega
  flags hw := by
    have hflags := h'.flags (h.isMulti.trans hw)
    rw [h.high] at hflags
    rw [show w.high + (m + n) + 1 = w.high + m + n + 1 by ring]
    exact (h.flags hw).trans hflags (by omega) (by omega) (by omega)
  sequences := h'.sequences.trans h.sequences
  gating := h'.gating.trans h.gating
  closed := h'.closed.trans h.closed
  poisoned := h'.poisoned.trans h.poisoned
  rest := h'.rest
  ready := h'.ready
  isMulti := h'.isMulti.trans h.isMulti

/-- The answers after a publication are determined. -/
theorem Published.isAvailable {n : Int} (h : Published b p w n w') (h' : Published b p w n w'') (s : Int) :
    w'.isAvailable b s = w''.isAvailable b s := by
  have hcursor : w'.cursor = w''.cursor := h.cursor.trans h'.cursor.symm
  have hflags (hw : w.isMulti = true) : w'.flags (calculateIndex b s) = w''.flags (calculateIndex b s) :=
    (h.flags hw).unique (h'.flags hw) (calculateIndex_lt b s)
  have hkind := h.isMulti.trans h'.isMulti.symm
  cases w' with
  | single w₁ =>
    cases w'' with
    | single w₂ =>
      simp only [SequencerWorld.isAvailable, SingleProducerSequencer.isAvailable]
      rw [show w₁.sequencer.cursor = w₂.sequencer.cursor from hcursor]
    | multi w₂ => cases hkind
  | multi w₁ =>
    cases w'' with
    | single w₂ => cases hkind
    | multi w₂ =>
      have h₁ : MultiBooks b w₁ := h.ready
      have h₂ : MultiBooks b w₂ := h'.ready
      refine Bool.eq_iff_iff.mpr ?_
      simp only [SequencerWorld.isAvailable]
      rw [isAvailableInternal_iff h₁.laid, isAvailableInternal_iff h₂.laid,
        show w₁.sequencer.slotFlag (calculateIndex b s) = w₂.sequencer.slotFlag (calculateIndex b s) from
          hflags h.isMulti.symm]

/-- `publish_range` of a multi-producer sequencer, word by word. -/
theorem alone_publishRange {w : MultiWorld} (high : Int) : ∀ (turns : Nat) (m : MultiProducerSequencer) (l : Ledger)
    (sequence : Int), Laid b m → high + 1 - sequence ≤ turns → high + 1 - sequence ≤ b.sizeI64 →
    ∃ m' l', Alone b p (.multi ({ w with sequencer := m, ledger := l }.goto p (.publishRange sequence high)))
        (.multi ({ w with sequencer := m', ledger := l' }.goto p (.returned .unit))) ∧
      m' = { m with availableBitmap := m'.availableBitmap, availableBuffer := m'.availableBuffer } ∧
      Turned b m.slotFlag m'.slotFlag sequence (high + 1) := by
  have hdone : ∀ (m : MultiProducerSequencer) (l : Ledger) (sequence : Int), high < sequence →
      Alone b p (.multi ({ w with sequencer := m, ledger := l }.goto p (.publishRange sequence high)))
        (.multi ({ w with sequencer := m, ledger := l }.goto p (.returned .unit))) := by
    intro m l sequence h
    refine alone_load (w := { w with sequencer := m, ledger := l }) ?_
    unfold claimStep
    exact if_pos h
  intro turns
  induction turns with
  | zero =>
    intro m l sequence _ h _
    exact ⟨m, l, hdone m l sequence (by omega), rfl, .nil (by omega)⟩
  | succ turns ih =>
    intro m l sequence hl h hlap
    by_cases hend : high < sequence
    · exact ⟨m, l, hdone m l sequence hend, rfl, .nil (by omega)⟩
    · obtain ⟨hmarks, hlt, hle⟩ := publishRangeStep_marks hl (not_lt.mp hend)
      rcases hstep : m.publishRangeStep b sequence high with ⟨m₁, next⟩
      rw [hstep] at hmarks hlt hle
      simp only at hmarks hlt hle
      have hturn : claimStep b w.sequences m (.publishRange sequence high) =
          some (m₁, .publishRange next high, .publish sequence next) := by
        unfold claimStep
        refine (if_neg hend).trans ?_
        rw [hstep]
      have hrun := alone_multi (w := { w with sequencer := m, ledger := l }) (p := p) hturn
      obtain ⟨m', l', hrest, hframe, hflags⟩ := ih m₁ (l.publish sequence next) next hmarks.laid (by push_cast at h; omega)
        (by omega)
      refine ⟨m', l', Reach.trans hrun hrest, hframe.trans ?_, hmarks.turned.trans hflags (by omega) hle hlap⟩
      exact congrArg (fun x : MultiProducerSequencer =>
        { x with availableBitmap := m'.availableBitmap, availableBuffer := m'.availableBuffer }) hmarks.frame

/-- The calls of one publication: a claim of `n`, and the publication of what was claimed. -/
def Publishes (b : BufferSize) (p : Nat) (w : SequencerWorld) (n : Int) (c : ClaimCall) (a : SequencerAction)
    (w₂ : SequencerWorld) : Prop :=
  ∃ w₁ k, ∀ fuel, k ≤ fuel → SimpleProducer.invoke b p fuel w (.call p c) = some (.ok (w.high + n), w₁) ∧
    SimpleProducer.invoke b p fuel w₁ a = some (.unit, w₂)

theorem publishes_of_alone {n : Int} {c : ClaimCall} {w₀ w₁ w₂ w₃ : SequencerWorld}
    (hcall : w.step b (.call p c) = some w₀) (hclaim : Alone b p w₀ w₁) (hr : w₁.result p = some (.ok (w.high + n)))
    (hpub : w₁.step b a = some w₂) (hrun : Alone b p w₂ w₃) (hr' : w₃.result p = some .unit) :
    Publishes b p w n c a w₃ := by
  obtain ⟨k, hk⟩ := invoke_of_alone hcall hclaim hr
  obtain ⟨k', hk'⟩ := invoke_of_alone hpub hrun hr'
  exact ⟨w₁, max k k', fun fuel hfuel => ⟨hk fuel (by omega), hk' fuel (by omega)⟩⟩

theorem multi_publishes {w : MultiWorld} {n : Int} (hb : MultiBooks b w) (hrest : w.atRest p = true)
    (hclosed : w.sequencer.closed = false) (hpoisoned : w.sequencer.poisoned = false) (h1 : 1 ≤ n)
    (hn : n ≤ b.sizeI64) (ha : (SequencerWorld.multi w).Accepts b n)
    (hpub : a = .publishRange p (w.sequencer.cursor + 1) (w.sequencer.cursor + n) ∨
      n = 1 ∧ a = .publish p (w.sequencer.cursor + 1)) :
    ∃ w', (∀ c, c = .nextN n ∨ c = .tryNextN n → Publishes b p (.multi w) n c a w') ∧ Published b p (.multi w) n w' := by
  have hvalid : ¬(n < 1 ∨ n > b.sizeI64) := by omega
  generalize hcached : w.cacheAfter b n = cached
  have hclaim : ∀ c, c = .nextN n ∨ c = .tryNextN n → ∃ w₀, (SequencerWorld.multi w).step b (.call p c) = some w₀ ∧
      Alone b p w₀ (.multi (w.granted p n cached)) := by
    intro c hc
    have hcn : c.n = n := by rcases hc with rfl | rfl <;> rfl
    have hgrant := multi_granted (b := b) (p := p) c (by rcases hc with rfl | rfl <;> rfl) hclosed hpoisoned
      (by rw [hcn]; exact ha)
    rw [hcn, hcached] at hgrant
    refine ⟨_, ?_, hgrant⟩
    rcases hc with rfl | rfl <;> simp [SequencerWorld.step, MultiWorld.step, hrest, claimStart, hvalid]
  have hr : (SequencerWorld.multi (w.granted p n cached)).result p = some (.ok ((SequencerWorld.multi w).high + n)) :=
    result_goto
  have hatRest : (w.granted p n cached).atRest p = true := by
    simp [MultiWorld.granted, MultiWorld.goto, MultiWorld.atRest]
  have howns : ∀ lo, w.sequencer.cursor + 1 ≤ lo →
      (w.granted p n cached).ledger.Owns p lo (w.sequencer.cursor + n) := by
    intro lo hlo
    refine Ledger.owns_iff.mpr fun s hs1 hs2 => ?_
    exact if_pos ⟨by omega, hs2⟩
  have hready : (SequencerWorld.multi (w.granted p n cached)).Ready b := by
    obtain ⟨w₀, hcall, hgrant⟩ := hclaim _ (.inl rfl)
    exact ready_alone (@ready_step b (.multi w) w₀ _ hb hcall) hgrant
  -- the two publications end in the same kind of state
  have hend : ∀ {w₂ : SequencerWorld} {m' : MultiProducerSequencer} {l' : Ledger},
      (SequencerWorld.multi (w.granted p n cached)).step b a = some w₂ →
      Alone b p w₂ (.multi ({ w.granted p n cached with sequencer := m', ledger := l' }.goto p (.returned .unit))) →
      m' = { (w.granted p n cached).sequencer with
        availableBitmap := m'.availableBitmap, availableBuffer := m'.availableBuffer } →
      Turned b w.sequencer.slotFlag m'.slotFlag (w.sequencer.cursor + 1) (w.sequencer.cursor + n + 1) →
      ∃ w', (∀ c, c = .nextN n ∨ c = .tryNextN n → Publishes b p (.multi w) n c a w') ∧
        Published b p (.multi w) n w' := by
    intro w₂ m' l' hstep hrun hframe hflags
    refine ⟨_, fun c hc => (hclaim c hc).elim fun w₀ h => publishes_of_alone h.1 h.2 hr hstep hrun result_goto, ?_⟩
    have hready' := ready_alone (ready_step hready hstep) hrun
    have hn0 : n ≠ 0 := by omega
    refine ⟨?_, ?_, fun _ => hflags, rfl, ?_, ?_, ?_, ?_, hready', rfl⟩
    · exact congrArg MultiProducerSequencer.cursor hframe
    · exact (congrArg MultiProducerSequencer.cursor hframe).trans (if_neg hn0).symm
    · exact (congrArg MultiProducerSequencer.gatingSequences hframe :)
    · exact (congrArg MultiProducerSequencer.closed hframe :)
    · exact (congrArg MultiProducerSequencer.poisoned hframe :)
    · simp [SequencerWorld.atRest, MultiWorld.goto, MultiWorld.atRest]
  rcases hpub with rfl | ⟨rfl, rfl⟩
  · have hstep : (SequencerWorld.multi (w.granted p n cached)).step b
        (.publishRange p (w.sequencer.cursor + 1) (w.sequencer.cursor + n)) =
        some (.multi ((w.granted p n cached).goto p
          (.publishRange (w.sequencer.cursor + 1) (w.sequencer.cursor + n)))) := by
      simp [SequencerWorld.step, MultiWorld.step, hatRest, howns _ le_rfl]
    obtain ⟨m', l', hrun, hframe, hflags⟩ := alone_publishRange (b := b) (p := p) (w := w.granted p n cached)
      (w.sequencer.cursor + n) n.toNat (w.granted p n cached).sequencer (w.granted p n cached).ledger
      (w.sequencer.cursor + 1) hready.laid (by omega) (by omega)
    exact hend hstep hrun hframe hflags
  · have hstep : (SequencerWorld.multi (w.granted p 1 cached)).step b (.publish p (w.sequencer.cursor + 1)) =
        some (.multi ((w.granted p 1 cached).goto p (.publish (w.sequencer.cursor + 1)))) := by
      simp [SequencerWorld.step, MultiWorld.step, hatRest, howns _ le_rfl]
    have hmarks := setAvailable_marks hready.laid (w.sequencer.cursor + 1)
    have hpublish : claimStep b (w.granted p 1 cached).sequences (w.granted p 1 cached).sequencer
        (.publish (w.sequencer.cursor + 1)) = some (_, .returned .unit, _) := rfl
    exact hend hstep (alone_multi hpublish) hmarks.frame hmarks.turned

theorem single_publishes {w : SingleWorld} {n : Int} (hb : (SequencerWorld.single w).Ready b)
    (hrest : w.atRest = true) (hclosed : w.sequencer.closed = false) (hpoisoned : w.sequencer.poisoned = false)
    (h1 : 1 ≤ n) (hn : n ≤ b.sizeI64) (ha : (SequencerWorld.single w).Accepts b n)
    (hpub : a = .publishRange p (w.sequencer.nextValue + 1) (w.sequencer.nextValue + n) ∨
      n = 1 ∧ a = .publish p (w.sequencer.nextValue + 1)) :
    ∃ w', (∀ c, c = .nextN n ∨ c = .tryNextN n → Publishes b p (.single w) n c a w') ∧ Published b p (.single w) n w' := by
  have hvalid : ¬(n < 1 ∨ n > b.sizeI64) := by omega
  generalize hcached : w.cacheAfter b n = cached
  generalize hcursor : w.cursorAfter b n = cursor
  have hlock : w.unique = false → w.sequencer.claimLock = false := fun hu => hb hu (unguarded_of_atRest hrest)
  have hclaim : ∀ c, c = .nextN n ∨ c = .tryNextN n → ∃ w₀, (SequencerWorld.single w).step b (.call p c) = some w₀ ∧
      Alone b p w₀ (w.granted p n cached cursor) := by
    intro c hc
    have hcn : c.n = n := by rcases hc with rfl | rfl <;> rfl
    have hgrant := single_granted (b := b) (p := p) hlock c (by rcases hc with rfl | rfl <;> rfl) hclosed hpoisoned
      (by rw [hcn]; exact ha)
    rw [hcn, hcached, hcursor] at hgrant
    refine ⟨_, ?_, hgrant⟩
    rcases hc with rfl | rfl <;>
      simp [SequencerWorld.step, SingleWorld.step, hrest, SingleProducerSequencer.claimStart, hvalid, SingleWorld.driven]
  have howns : ∀ lo, w.sequencer.nextValue + 1 ≤ lo →
      (w.ledger.grant p n (w.sequencer.nextValue + n)).Owns p lo (w.sequencer.nextValue + n) := by
    intro lo hlo
    refine Ledger.owns_iff.mpr fun s hs1 hs2 => ?_
    exact if_pos ⟨by omega, hs2⟩
  have hstep : (w.granted p n cached cursor).step b a = some (w.driven p
      { w.sequencer with nextValue := w.sequencer.nextValue + n, cachedValue := cached, cursor := cursor }
      (.publish (w.sequencer.nextValue + n)) (w.ledger.grant p n (w.sequencer.nextValue + n))) := by
    rcases hpub with rfl | ⟨rfl, rfl⟩
    · have hle : w.sequencer.nextValue + 1 ≤ w.sequencer.nextValue + n := by omega
      simp [SequencerWorld.step, SingleWorld.step, SingleWorld.granted, SingleWorld.driven, SingleWorld.atRest,
        howns _ le_rfl, hle]
    · simp [SequencerWorld.step, SingleWorld.step, SingleWorld.granted, SingleWorld.driven, SingleWorld.atRest,
        howns _ le_rfl]
  have hpublish : SingleProducerSequencer.claimStep b w.unique w.sequences
      { w.sequencer with nextValue := w.sequencer.nextValue + n, cachedValue := cached, cursor := cursor }
      (.publish (w.sequencer.nextValue + n)) = some (_, .returned .unit, _) := rfl
  have hrun := alone_single (p := p) (w := w) (l := w.ledger.grant p n (w.sequencer.nextValue + n)) hpublish
  refine ⟨_, fun c hc => (hclaim c hc).elim fun w₀ h =>
    publishes_of_alone h.1 h.2 result_driven hstep hrun result_driven, ?_⟩
  obtain ⟨w₀, hcall, hgrant⟩ := hclaim _ (.inl rfl)
  have hready := ready_alone (ready_step (ready_alone (ready_step hb hcall) hgrant) hstep) hrun
  exact ⟨rfl, (if_neg (by omega)).symm, by rintro ⟨⟩, rfl, rfl, rfl, rfl, rfl, hready, rfl⟩

/-- A call finds room for `n` sequences, and nothing in its way. -/
structure HasRoom (b : BufferSize) (p : Nat) (w : SequencerWorld) (n : Int) : Prop where
  ready : w.Ready b
  rest : w.atRest p = true
  closed : w.closed = false
  poisoned : w.poisoned = false
  accepts : w.Accepts b n

/-- Both claims lead to the same state. -/
theorem HasRoom.publishes {n : Int} (h : HasRoom b p w n) (h1 : 1 ≤ n) (hn : n ≤ b.sizeI64)
    (hpub : a = .publishRange p (w.high + 1) (w.high + n) ∨ n = 1 ∧ a = .publish p (w.high + 1)) :
    ∃ w', (∀ c, c = .nextN n ∨ c = .tryNextN n → Publishes b p w n c a w') ∧ Published b p w n w' := by
  cases w with
  | single w => exact single_publishes h.ready h.rest h.closed h.poisoned h1 hn h.accepts hpub
  | multi w => exact multi_publishes h.ready h.rest h.closed h.poisoned h1 hn h.accepts hpub

/-- What is left of the room. -/
theorem HasRoom.next {m n : Int} (h : HasRoom b p w (m + n)) (hp : Published b p w m w') (hm : 0 ≤ m) :
    HasRoom b p w' n := by
  refine ⟨hp.ready, hp.rest, hp.closed.trans h.closed, hp.poisoned.trans h.poisoned, ?_⟩
  have ha := le_getMinimumSequenceWithDefault.mp h.accepts
  unfold SequencerWorld.Accepts
  rw [hp.high, hp.sequences, hp.gating, add_assoc]
  exact le_getMinimumSequenceWithDefault.mpr ⟨by omega, ha.2⟩

theorem HasRoom.mono {m n : Int} (h : HasRoom b p w n) (hm : m ≤ n) : HasRoom b p w m :=
  { h with accepts := le_trans (by omega) h.accepts }

end Published

/-! ## Writes -/

/-- The writes to the slots of `sequence`, `sequence + 1`, … -/
def writeFrom (b : BufferSize) : Int → List (E → E) → (Nat → E) → Nat → E
  | _, [], ring => ring
  | sequence, f :: fs, ring =>
    let i := calculateIndex b sequence
    writeFrom b (sequence + 1) fs (Function.update ring i (f (ring i)))

section Writes

variable {b : BufferSize} {p : Nat}

theorem writeFrom_append : ∀ (fs gs : List (E → E)) (sequence : Int) (ring : Nat → E),
    writeFrom b sequence (fs ++ gs) ring = writeFrom b (sequence + fs.length) gs (writeFrom b sequence fs ring)
  | [], gs, sequence, ring => by simp [writeFrom]
  | f :: fs, gs, sequence, ring => by
    simp only [List.cons_append, writeFrom, writeFrom_append fs gs]
    congr 1
    simp only [List.length_cons]
    push_cast
    ring

/-- A slot that is not written keeps its value. -/
theorem writeFrom_id : ∀ (k : Nat) (sequence : Int) (ring : Nat → E),
    writeFrom b sequence (List.replicate k id) ring = ring
  | 0, _, _ => rfl
  | k + 1, sequence, ring => by
    simp only [List.replicate_succ, writeFrom, id_eq, Function.update_eq_self]
    exact writeFrom_id k (sequence + 1) ring

/-- As long as there is an item for each write. -/
theorem BatchIterMut.applyWrites_eq : ∀ (fs : List (E → E)) (start last : Int) (ring : Nat → E),
    fs.length ≤ last + 1 - start → applyWrites b ⟨start, last⟩ fs ring = writeFrom b start fs ring
  | [], _, _, _, _ => rfl
  | f :: fs, start, last, ring, h => by
    have hlen : (fs.length : Int) + 1 ≤ last + 1 - start := by simpa using h
    rw [applyWrites, @next_of_le b ⟨start, last⟩ (show start ≤ last by omega)]
    exact applyWrites_eq fs (start + 1) last _ (by omega)

end Writes

/-! ## Publications -/

section Publications

variable {b : BufferSize} {p : Nat} {w : SequencerWorld}

/-- The blocking and the non-blocking publication. -/
theorem publish_ok (f : E → E) (ring : Nat → E) (h : HasRoom b p w 1) : ∃ w' k, Published b p w 1 w' ∧ ∀ fuel, k ≤ fuel →
    SimpleProducer.publish b p fuel f ⟨w, ring⟩ = some (.ok (w.high + 1), ⟨w', writeFrom b (w.high + 1) [f] ring⟩) ∧
    SimpleProducer.tryPublish b p fuel f ⟨w, ring⟩ = some (.ok (w.high + 1), ⟨w', writeFrom b (w.high + 1) [f] ring⟩) := by
  obtain ⟨w', hall, hp⟩ := h.publishes le_rfl b.sizeI64_pos (.inr ⟨rfl, rfl⟩)
  obtain ⟨w₁, k, hk⟩ := hall _ (.inl rfl)
  obtain ⟨w₂, k', hk'⟩ := hall _ (.inr rfl)
  refine ⟨w', max k k', hp, fun fuel hfuel => ⟨?_, ?_⟩⟩
  · obtain ⟨hclaim, hpub⟩ := hk fuel (by omega)
    simp only [SimpleProducer.publish, hclaim, Option.bind_some, hpub, Option.map_some]
    rfl
  · obtain ⟨hclaim, hpub⟩ := hk' fuel (by omega)
    simp only [SimpleProducer.tryPublish, hclaim, Option.bind_some, hpub, Option.map_some]
    rfl

/-- One `publish` after another, by induction on the writes: each leaves room for the next ones. -/
theorem publishEach_ok : ∀ (fs : List (E → E)) (ring : Nat → E) {w : SequencerWorld}, HasRoom b p w fs.length →
    (fs.length : Int) ≤ b.sizeI64 → ∃ w' k, Published b p w fs.length w' ∧ ∀ fuel, k ≤ fuel →
      SimpleProducer.publishEach b p fuel fs ⟨w, ring⟩ =
        some ((List.range fs.length).map fun i : Nat => .ok (w.high + 1 + i), ⟨w', writeFrom b (w.high + 1) fs ring⟩) := by
  intro fs
  induction fs with
  | nil =>
    intro ring w h _
    exact ⟨w, 0, .refl h.rest h.ready, fun _ _ => rfl⟩
  | cons f fs ih =>
    intro ring w h hlen
    rw [List.length_cons, Nat.cast_add, Nat.cast_one, add_comm] at h hlen
    obtain ⟨w₁, k, hp, hk⟩ := publish_ok f ring (h.mono (by omega))
    obtain ⟨w₂, k', hp', hk'⟩ := ih (writeFrom b (w.high + 1) [f] ring) (h.next hp (by omega)) (by omega)
    refine ⟨w₂, max k k', ?_, fun fuel hfuel => ?_⟩
    · rw [List.length_cons, Nat.cast_add, Nat.cast_one, add_comm]
      exact hp.trans hp' (by omega) (by omega) hlen
    · simp only [SimpleProducer.publishEach, (hk fuel (by omega)).1, Option.bind_some, hk' fuel (by omega), Option.map_some]
      rw [hp.high, List.length_cons, List.range_succ_eq_map, List.map_cons, List.map_map]
      refine congrArg some (Prod.ext (congrArg₂ _ (by simp) (List.map_congr_left fun i _ => ?_)) rfl)
      simp only [Function.comp_apply, Nat.succ_eq_add_one]
      congr 1
      push_cast
      ring

variable {n : Nat}

/-- The blocking and the non-blocking batch. -/
theorem batch_ok (update : BatchIterMut → (Nat → E) → Nat → E) (ring : Nat → E) (h : HasRoom b p w n) (h1 : 1 ≤ n)
    (hn : n ≤ b.size) : ∃ w' k, Published b p w n w' ∧ ∀ fuel, k ≤ fuel →
      SimpleProducer.batchPublish b p fuel n update ⟨w, ring⟩ =
        some (.ok (w.high + n), ⟨w', update (.new (w.high + 1) (w.high + n)) ring⟩) ∧
      SimpleProducer.tryBatchPublish b p fuel n update ⟨w, ring⟩ =
        some (.ok (w.high + n), ⟨w', update (.new (w.high + 1) (w.high + n)) ring⟩) := by
  have hvalid : ¬(n = 0 ∨ n > b.size) := by omega
  have hstart : w.high + (n : Int) - (n - 1) = w.high + 1 := by ring
  have hsize : (n : Int) ≤ b.sizeI64 := Int.ofNat_le.mpr hn
  obtain ⟨w', hall, hp⟩ := h.publishes (by exact_mod_cast h1) hsize (.inl rfl)
  obtain ⟨w₁, k, hk⟩ := hall _ (.inl rfl)
  obtain ⟨w₂, k', hk'⟩ := hall _ (.inr rfl)
  refine ⟨w', max k k', hp, fun fuel hfuel => ⟨?_, ?_⟩⟩
  · obtain ⟨hclaim, hpub⟩ := hk fuel (by omega)
    simp only [SimpleProducer.batchPublish, if_neg hvalid, hclaim, Option.bind_some, hstart, hpub, Option.map_some]
  · obtain ⟨hclaim, hpub⟩ := hk' fuel (by omega)
    simp only [SimpleProducer.tryBatchPublish, if_neg hvalid, hclaim, Option.bind_some, hstart, hpub, Option.map_some]

variable {multiProducer unique : Bool} {gating : List Nat}

/-- A batch of `n` is `n` publications: the same last sequence, ring, cursor, `next_value` and answers of `is_available`.
Its iterator hands out the `n` slots of the batch and reaches no other. -/
theorem batch_publish_eq_publishes
    (hreach : Reach (SequencerWorld.step b) (fun _ _ => True) (.init b multiProducer unique gating) w)
    (hrest : w.atRest p = true) (hclosed : w.closed = false) (hpoisoned : w.poisoned = false) (h1 : 1 ≤ n)
    (hn : n ≤ b.size) (hfree : (n : Int) ≤ w.freeSlots b) (writes : List (E → E)) (hwrites : writes.length ≤ n)
    (ring : Nat → E) :
    (∃ batch tried each results k, (∀ fuel, k ≤ fuel →
        SimpleProducer.batchPublish b p fuel n (fun it => it.applyWrites b writes) ⟨w, ring⟩ =
          some (.ok (w.high + n), batch) ∧
        SimpleProducer.tryBatchPublish b p fuel n (fun it => it.applyWrites b writes) ⟨w, ring⟩ =
          some (.ok (w.high + n), tried) ∧
        SimpleProducer.publishEach b p fuel (writes ++ List.replicate (n - writes.length) id) ⟨w, ring⟩ =
          some (results, each)) ∧
      results.getLast? = some (.ok (w.high + n)) ∧ batch.SameAnswers b each ∧ tried.SameAnswers b each) ∧
    (BatchIterMut.new (w.high + 1) (w.high + n)).Yields b (w.high + 1) n := by
  have hready : w.Ready b := Reach.inv ready_init (fun hI _ hs => ready_step hI hs) hreach
  have hroom : HasRoom b p w n := by
    refine ⟨hready, hrest, hclosed, hpoisoned, ?_⟩
    unfold SequencerWorld.freeSlots at hfree
    unfold SequencerWorld.Accepts
    omega
  have hsize : (n : Int) ≤ b.sizeI64 := Int.ofNat_le.mpr hn
  have hlen : (writes ++ List.replicate (n - writes.length) id).length = n := by
    rw [List.length_append, List.length_replicate]
    omega
  obtain ⟨w₁, k₁, hp₁, hk₁⟩ := batch_ok (fun it => it.applyWrites b writes) ring hroom h1 hn
  obtain ⟨w₃, k₃, hp₃, hk₃⟩ := publishEach_ok (b := b) (p := p) (w := w)
    (writes ++ List.replicate (n - writes.length) id) ring (by rw [hlen]; exact hroom) (by rw [hlen]; exact hsize)
  rw [hlen] at hp₃ hk₃
  -- the slots without a write are written with what they hold
  have hring : (BatchIterMut.new (w.high + 1) (w.high + n)).applyWrites b writes ring =
      writeFrom b (w.high + 1) (writes ++ List.replicate (n - writes.length) id) ring := by
    rw [writeFrom_append, writeFrom_id]
    exact BatchIterMut.applyWrites_eq writes _ _ ring (by omega)
  have hsame : ∀ {w' : SequencerWorld}, Published b p w n w' → SimpleProducer.SameAnswers b
      ⟨w', (BatchIterMut.new (w.high + 1) (w.high + n)).applyWrites b writes ring⟩
      ⟨w₃, writeFrom b (w.high + 1) (writes ++ List.replicate (n - writes.length) id) ring⟩ := fun hp =>
    ⟨hring, hp.cursor.trans hp₃.cursor.symm, hp.high.trans hp₃.high.symm, hp.isAvailable hp₃⟩
  have hlast : ((List.range n).map fun i : Nat => (.ok (w.high + 1 + i) : Except DisruptorError Int)).getLast? =
      some (.ok (w.high + n)) := by
    obtain ⟨m, rfl⟩ := Nat.exists_eq_add_of_le' h1
    rw [List.range_succ, List.map_append, List.map_singleton, List.getLast?_concat]
    push_cast
    congr 2
    ring
  refine ⟨⟨_, _, _, _, max k₁ k₃, fun fuel hfuel => ?_, hlast, hsame hp₁, hsame hp₁⟩, .new hsize⟩
  exact ⟨(hk₁ fuel (by omega)).1, (hk₁ fuel (by omega)).2, hk₃ fuel (by omega)⟩

/-- A batch across the wrap, with one of its two slots written. -/
theorem batch_publish_eq_publishes_wrap : ∃ w, Reach (SequencerWorld.step ⟨1, by decide⟩) (fun _ _ => True)
      (.init ⟨1, by decide⟩ false true [7]) w ∧ w.freeSlots ⟨1, by decide⟩ = 2 ∧
    ∃ batch each results fuel,
      SimpleProducer.batchPublish ⟨1, by decide⟩ 0 fuel 2 (fun it => it.applyWrites ⟨1, by decide⟩ [fun _ => 5])
        ⟨w, fun i => i⟩ =
        some (.ok 2, batch) ∧
      SimpleProducer.publishEach ⟨1, by decide⟩ 0 fuel [fun _ => 5, id] ⟨w, fun i => i⟩ = some (results, each) ∧
      batch.SameAnswers ⟨1, by decide⟩ each := by
  have hrun : ∃ w, Reach (SequencerWorld.step ⟨1, by decide⟩) (fun _ _ => True) (.init ⟨1, by decide⟩ false true [7]) w ∧
      w.high = 0 ∧ w.atRest 0 = true ∧ w.closed = false ∧ w.poisoned = false ∧ w.freeSlots ⟨1, by decide⟩ = 2 :=
    ⟨_, reach_of_exec [.call 0 (.nextN 1), .step 0, .step 0, .step 0, .publish 0 0, .step 0, .advance 7 0] rfl, rfl, rfl,
      rfl, rfl, rfl⟩
  obtain ⟨w, hreach, hhigh, hrest, hclosed, hpoisoned, hfree⟩ := hrun
  obtain ⟨⟨batch, tried, each, results, fuel, hk, -, hsame, -⟩, -⟩ := batch_publish_eq_publishes (n := 2) hreach hrest hclosed
    hpoisoned (by decide) (by decide) (le_of_eq hfree.symm) [fun _ : Nat => 5] (by decide) fun i => i
  obtain ⟨hbatch, -, heach⟩ := hk fuel le_rfl
  rw [hhigh] at hbatch
  exact ⟨w, hreach, hfree, batch, each, results, fuel, hbatch, heach, hsame⟩

end Publications

end BadBatch
