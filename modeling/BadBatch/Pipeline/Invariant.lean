import BadBatch.Pipeline.System
import BadBatch.Producer.Invariant

/-!
# The invariant of a pipeline

Producers look at the last stage only, so everything rests on the chain of barrier dependencies. What is true of every
consumer is local: what it may access, and what its `Sequence` covers, was released to it (`Released`: published, and
passed by the whole stage before). From this the chain follows link by link (`ConsumersOk.passed_of_succ`): what a stage
has passed, the stage before it has passed, and it is published. So the slowest gating sequence is below every consumer,
which is all that claims and flags need.

* `PipeInv`: the invariant;
* `PipeInv.reads`: so the flags that a consumer reads are publications.
-/

namespace BadBatch

open MultiProducerSequencer

variable {E : Type} {b : BufferSize} {t : Wiring} {handlers : Nat → E → Int → Bool → E} {st st' : Pipeline E}
  {c d k : Nat} {s x : Int}

/-- Sequence `s` is published and every consumer that `c` waits for has passed it. -/
def Released (t : Wiring) (w : SequencerWorld) (c : Nat) (s : Int) : Prop :=
  w.ledger.published s = true ∧ ∀ d ∈ t.dependentSequences c, s ≤ w.sequences d

/-- Everything stage `k` has passed is at least `x`. -/
def Passed (t : Wiring) (w : SequencerWorld) (k : Nat) (x : Int) : Prop := ∀ c < t.count, t.stage c = k → x ≤ w.sequences c

/-- A sequential consumer. -/
structure SeqOk (t : Wiring) (w : SequencerWorld) (c : Nat) (l : SeqLoop) (pc : BarrierPc) : Prop where
  place : SeqPlace (w.sequences c) l
  /-- What the barrier released and the consumer has not stored yet. -/
  window : ∀ hi, l.pc.released = some hi → ∀ s, w.sequences c < s → s ≤ hi → Released t w c s
  covered : ∀ s, 0 ≤ s → s ≤ w.sequences c → Released t w c s
  waits : pc ≠ .idle → ∃ next, l.pc = .waiting next

/-- A claim that the worker may access. -/
def WorkPc.accessing : WorkPc → Option Int
  | .batchStart claimed => some claimed
  | .event claimed => some claimed
  | .inEvent claimed => some claimed
  | _ => none

/-- A worker of a pool, apart from what the pool as a whole guarantees. -/
structure WorkOk (t : Wiring) (w : SequencerWorld) (c : Nat) (l : WorkLoop) (pc : BarrierPc) : Prop where
  cached : ∀ s, w.sequences c < s → s ≤ l.cachedAvailable → Released t w c s
  accessing : ∀ s, l.pc.accessing = some s → s ≤ l.cachedAvailable
  processed : ∀ s ∈ l.returned, Released t w c s
  waits : pc ≠ .idle → ∃ claimed, l.pc = .waiting claimed

/-- What holds of consumer `c`. -/
structure ConsumerOk (t : Wiring) (st : Pipeline E) (c : Nat) : Prop where
  low : -1 ≤ st.sequences c
  barrier : BarrierOk st.feed.world (t.dependentSequences c) (st.sequences c + 1) (st.barriers c)
  sequential : t.runMode (t.stage c) = .sequential → SeqOk t st.feed.world c (st.sequential c) (st.barriers c)
  worker : t.runMode (t.stage c) = .workPool → WorkOk t st.feed.world c (st.workers c) (st.barriers c)

/-- The consumers of a pipeline. -/
structure ConsumersOk (t : Wiring) (st : Pipeline E) : Prop where
  each : ∀ c < t.count, ConsumerOk t st c
  pool : ∀ k, t.runMode k = .workPool → PoolInv (t.members k) ⟨st.work k, st.sequences, st.workers⟩

/-- The invariant of a pipeline. -/
structure PipeInv (b : BufferSize) (t : Wiring) (st : Pipeline E) : Prop where
  feed : FeedInv b st.feed
  gating : ∀ i, i ∈ st.feed.world.gatingSequences ↔ i ∈ t.gatingSequences
  consumers : ConsumersOk t st

/-! ## The chain of stages -/

theorem Released.mono {w w' : SequencerWorld} (h : Released t w c s)
    (hp : ∀ s, w.ledger.published s = true → w'.ledger.published s = true)
    (hs : ∀ i, w.sequences i ≤ w'.sequences i) : Released t w' c s :=
  ⟨hp s h.1, fun d hd => le_trans (h.2 d hd) (hs d)⟩

/-- What a stage has passed was released to it. -/
theorem ConsumersOk.released_of_passed (h : ConsumersOk t st) (hc : c < t.count) (h0 : 0 ≤ s)
    (hs : Passed t st.feed.world (t.stage c) s) : ∃ d < t.count, t.stage d = t.stage c ∧ Released t st.feed.world d s := by
  cases hm : t.runMode (t.stage c) with
  | sequential => exact ⟨c, hc, rfl, ((h.each c hc).sequential hm).covered s h0 (hs c hc rfl)⟩
  | workPool =>
    -- some worker of the pool has processed it
    have hne : t.members (t.stage c) ≠ [] := List.ne_nil_of_mem (Wiring.mem_members.mpr ⟨hc, rfl⟩)
    obtain ⟨d, hd, hr⟩ := (h.pool _ hm).processed_of_le hne h0 fun i hi =>
      hs i (Wiring.mem_members.mp hi).1 (Wiring.mem_members.mp hi).2
    obtain ⟨hd, hstage⟩ := Wiring.mem_members.mp hd
    exact ⟨d, hd, hstage, ((h.each d hd).worker (hstage ▸ hm)).processed s hr⟩

theorem ConsumersOk.published_of_passed (hwf : t.Wf) (h : ConsumersOk t st) (h0 : 0 ≤ s) (hk : k < t.stageCount)
    (hs : Passed t st.feed.world k s) : st.feed.world.ledger.published s = true := by
  obtain ⟨c, hc, rfl⟩ := hwf.filled k hk
  obtain ⟨d, -, -, hr⟩ := h.released_of_passed hc h0 hs
  exact hr.1

/-- What was released to a consumer, the whole stage before it has passed. -/
theorem Released.passed {w : SequencerWorld} (hwf : t.Wf) (hc : c < t.count) (h : Released t w c s)
    (hroot : t.root (t.stage c) = false) (hk : k + 1 = t.stage c) : Passed t w k s :=
  fun d hd hstage => h.2 d ((hwf.dependents c hc d).mpr ⟨hd, hroot, by omega⟩)

/-- **One link of the chain.** What a stage has passed, the stage before it has passed. -/
theorem ConsumersOk.passed_of_succ (hwf : t.Wf) (h : ConsumersOk t st) (h0 : 0 ≤ s) (hk : k + 1 < t.stageCount)
    (hroot : t.root (k + 1) = false) (hs : Passed t st.feed.world (k + 1) s) : Passed t st.feed.world k s := by
  obtain ⟨c, hc, hstage⟩ := hwf.filled (k + 1) hk
  obtain ⟨d, hd, hds, hr⟩ := h.released_of_passed hc h0 (by rw [hstage]; exact hs)
  rw [hstage] at hds
  exact hr.passed hwf hd (by rw [hds]; exact hroot) hds.symm

/-- What was released to a consumer, every earlier stage of its chain has passed. -/
theorem ConsumersOk.passed_of_released (hwf : t.Wf) (h : ConsumersOk t st) (h0 : 0 ≤ s) (hc : c < t.count)
    (hr : Released t st.feed.world c s) (hk : k < t.stage c)
    (hroot : ∀ j, k < j → j ≤ t.stage c → t.root j = false) : Passed t st.feed.world k s := by
  -- from the stage before `c` down to `k`
  suffices hall : ∀ n j, k ≤ j → j + n + 1 = t.stage c → Passed t st.feed.world j s from
    hall (t.stage c - k - 1) k le_rfl (by omega)
  have hlt := hwf.stage_lt c hc
  intro n
  induction n with
  | zero => exact fun j hj hn => hr.passed hwf hc (hroot _ hk le_rfl) (by omega)
  | succ n ih =>
    intro j hj hn
    exact h.passed_of_succ hwf h0 (by omega) (hroot (j + 1) (by omega) (by omega)) (ih (j + 1) (by omega) (by omega))

/-- What the gating sequences have passed, every stage has passed. -/
theorem ConsumersOk.passed_of_gating (hwf : t.Wf) (h : ConsumersOk t st) (h0 : 0 ≤ s)
    (hg : ∀ i ∈ t.gatingSequences, s ≤ st.sequences i) (hk : k < t.stageCount) : Passed t st.feed.world k s := by
  -- from the last stage down
  suffices hall : ∀ n j, j + n + 1 = t.stageCount → Passed t st.feed.world j s from
    hall (t.stageCount - k - 1) k (by omega)
  intro n
  induction n with
  | zero => exact fun j hj d hd hstage => hg d (hwf.terminal d hd (.inl (by omega)))
  | succ n ih =>
    intro j hj
    cases hroot : t.root (j + 1) with
    | false => exact h.passed_of_succ hwf h0 (by omega) hroot (ih (j + 1) (by omega))
    | true => exact fun d hd hstage => hg d (hwf.terminal d hd (.inr (by rw [hstage]; exact hroot)))

/-- The gating sequences are below every consumer. -/
theorem ConsumersOk.below_gating (hwf : t.Wf) (h : ConsumersOk t st)
    (hg : ∀ i ∈ t.gatingSequences, x ≤ st.sequences i) (hc : c < t.count) : x ≤ st.sequences c := by
  by_cases h0 : 0 ≤ x
  · exact h.passed_of_gating hwf h0 hg (hwf.stage_lt c hc) c hc rfl
  · have := (h.each c hc).low
    omega

/-- What all gating sequences have passed is published. -/
theorem ConsumersOk.published_of_gating (hwf : t.Wf) (h : ConsumersOk t st) (h0 : 0 ≤ s)
    (hg : ∀ i ∈ t.gatingSequences, s ≤ st.sequences i) : st.feed.world.ledger.published s = true :=
  h.published_of_passed hwf h0 hwf.started (h.passed_of_gating hwf h0 hg hwf.started)

/-- Claims stay within a lap of every consumer. -/
theorem PipeInv.high_le (hwf : t.Wf) (h : PipeInv b t st) (hc : c < t.count) :
    st.feed.world.high ≤ st.sequences c + b.sizeI64 := by
  have := h.consumers.below_gating hwf (x := st.feed.world.high - b.sizeI64)
    (fun i hi => h.feed.world.lap i ((h.gating i).mpr hi)) hc
  omega

/-! ## What a barrier may conclude from the flags -/

/-- What the dependents have passed is published. -/
theorem ConsumersOk.published_of_offered (hwf : t.Wf) (h : ConsumersOk t st) (hc : c < t.count) (h0 : 0 ≤ s)
    (hne : t.dependentSequences c ≠ []) (ho : Offered st.feed.world (t.dependentSequences c) s) :
    st.feed.world.ledger.published s = true := by
  rw [Offered, if_neg hne] at ho
  obtain ⟨d, hd⟩ := List.exists_mem_of_ne_nil _ hne
  obtain ⟨hd, hroot, hstage⟩ := (hwf.dependents c hc d).mp hd
  exact h.published_of_passed hwf h0 (hwf.stage_lt d hd) fun i hi hs =>
    ho i ((hwf.dependents c hc i).mpr ⟨hi, hroot, by omega⟩)

/-- An offered sequence is claimed. -/
theorem PipeInv.offered_le (hwf : t.Wf) (h : PipeInv b t st) (hc : c < t.count) (h0 : 0 ≤ s)
    (ho : Offered st.feed.world (t.dependentSequences c) s) : s ≤ st.feed.world.high := by
  by_cases hne : t.dependentSequences c = []
  · rw [Offered, if_pos hne] at ho
    exact le_trans ho h.feed.world.cursor_le
  · exact (h.feed.world.ledger.claimed (h.consumers.published_of_offered hwf hc h0 hne ho)).2

/-- In the window of consumer `c` the flags tell publications. -/
theorem PipeInv.reads (hwf : t.Wf) (h : PipeInv b t st) (hc : c < t.count) :
    Reads b st.feed.world (t.dependentSequences c) (st.sequences c + 1) := by
  intro s hs ho
  have hlow := (h.consumers.each c hc).low
  have hhigh := h.offered_le hwf hc (by omega) ho
  have hlap := h.high_le hwf hc
  have hworld := h.feed.world
  have hpass := fun hne => h.consumers.published_of_offered hwf hc (by omega : 0 ≤ s) hne ho
  have hlap' := hworld.lap
  cases hw : st.feed.world with
  | single w =>
    rw [hw] at hworld ho hpass
    show w.ledger.published s = true
    by_cases hne : t.dependentSequences c = []
    · rw [Offered, if_pos hne] at ho
      exact (SingleInv.published hworld s).mpr ⟨by omega, ho⟩
    · exact hpass hne
  | multi w =>
    rw [hw] at hworld hhigh hlap hlap'
    have hA : AvailInv b w := hworld
    have h1 : w.sequencer.cursor - b.sizeI64 < s := by
      simp only [SequencerWorld.high] at hlap
      omega
    have h2 : Below w.sequences w.sequencer.gatingSequences (s - b.sizeI64) :=
      Below.le hlap' (by simp only [SequencerWorld.high] at hhigh ⊢; omega)
    exact ⟨hA.claims.laid, (hA.available_iff (by omega) h1 h2).mp⟩

end BadBatch
