import BadBatch.Pipeline.Runs

/-!
# Who may access a slot

A producer may access the slots it has claimed and not published, a consumer what its barrier released and its `Sequence`
does not cover yet. Everything that is accessed lies in one lap below the highest claim (`PipeInv.accessed_window`), so two
threads at one slot are at one sequence, and then the ledger, the stages or the pool tell them apart.

* `PipeInv.exclusive`: two threads share a slot only to read it, for any wiring of one chain;
* `pipeline_slots_exclusive`: the same for every run of every pipeline of the Builder;
* `barrier_exposes_published`: what a barrier returns, in every assembly.
-/

namespace BadBatch

open MultiProducerSequencer StepSys

variable {E : Type} {b : BufferSize} {t : Wiring} {handlers : Nat → E → Int → Bool → E} {st : Pipeline E}
  {c d : Nat} {s u : Int}

/-- The threads of a pipeline. -/
inductive Thread
  | producer (p : Nat)
  | consumer (c : Nat)
  deriving DecidableEq, Repr

/-- The claim of a worker from the release of its barrier to the store of its `Sequence`. -/
def WorkLoop.window (l : WorkLoop) : Option Int :=
  match l.pc with
  | .guard s => if s ≤ l.cachedAvailable then some s else none
  | .batchStart s | .event s | .inEvent s | .store s => some s
  | _ => none

/-- The thread may be accessing the slot of sequence `s`: a producer between claim and publication of `s`, a consumer
between the release of its barrier and the store of its `Sequence`. -/
def Accesses (t : Wiring) (st : Pipeline E) : Thread → Int → Prop
  | .producer p, s => st.feed.world.ledger.owner s = some p
  | .consumer c, s => c < t.count ∧
    match t.runMode (t.stage c) with
    | .sequential => ∃ hi, (st.sequential c).pc.released = some hi ∧ st.sequences c < s ∧ s ≤ hi
    | .workPool => (st.workers c).window = some s

/-! ## What a thread accesses -/

/-- A worker at its claim. -/
theorem PipeInv.worker_window (h : PipeInv b t st) (hc : c < t.count) (hm : t.runMode (t.stage c) = .workPool)
    (hs : (st.workers c).window = some s) :
    st.sequences c < s ∧ Released t st.feed.world c s ∧ (st.workers c).Has s := by
  have hok := (h.consumers.pool _ hm).each c (Wiring.mem_members.mpr ⟨hc, rfl⟩)
  have hW := (h.consumers.each c hc).worker hm
  -- an unfinished claim is in the released range
  have hclaim : (st.workers c).pc.claim = some s → s ≤ (st.workers c).cachedAvailable →
      st.sequences c < s ∧ Released t st.feed.world c s ∧ (st.workers c).Has s := fun hcl hle => by
    have hseq : st.sequences c = s - 1 := (hok.claimed s hcl).2.1
    exact ⟨by omega, hW.cached s (by show st.sequences c < s; omega) hle, .inr hcl⟩
  have hacc := hW.accessing
  have hplace := hok.place
  unfold WorkLoop.window at hs
  split at hs <;> rename_i hpc <;> simp only [Option.some.injEq, reduceCtorEq, Option.ite_none_right_eq_some] at hs
  · obtain ⟨hle, rfl⟩ := hs
    exact hclaim (by rw [hpc]; rfl) hle
  · subst hs; exact hclaim (by rw [hpc]; rfl) (hacc _ (by rw [hpc]; rfl))
  · subst hs; exact hclaim (by rw [hpc]; rfl) (hacc _ (by rw [hpc]; rfl))
  · subst hs; exact hclaim (by rw [hpc]; rfl) (hacc _ (by rw [hpc]; rfl))
  · -- processed, but not stored yet
    subst hs
    simp only [WorkPcOk, hpc] at hplace
    have hseq : st.sequences c = _ - 1 := hplace.1
    exact ⟨by omega, hW.processed _ hplace.2, .inl hplace.2⟩

/-- What a consumer accesses was released to it and is not covered by its `Sequence`. -/
theorem PipeInv.consumer_accesses (h : PipeInv b t st) (hs : Accesses t st (.consumer c) s) :
    c < t.count ∧ 0 ≤ s ∧ st.sequences c < s ∧ Released t st.feed.world c s := by
  obtain ⟨hc, hs⟩ := hs
  have hlow := (h.consumers.each c hc).low
  suffices hsuff : st.sequences c < s ∧ Released t st.feed.world c s from
    ⟨hc, by omega, hsuff.1, hsuff.2⟩
  split at hs <;> rename_i hm
  · obtain ⟨hi, hr, h1, h2⟩ := hs
    exact ⟨h1, ((h.consumers.each c hc).sequential hm).window hi hr s h1 h2⟩
  · obtain ⟨h1, h2, -⟩ := h.worker_window hc hm hs
    exact ⟨h1, h2⟩

/-- Everything that is accessed lies in one lap below the highest claim. -/
theorem PipeInv.accessed_window (hwf : t.Wf) (h : PipeInv b t st) {x : Thread} (hs : Accesses t st x s) :
    st.feed.world.high - b.sizeI64 < s ∧ s ≤ st.feed.world.high := by
  have hledger := h.feed.world.ledger
  -- some consumer has not passed it
  suffices hsuff : s ≤ st.feed.world.high ∧ ∃ c < t.count, st.sequences c < s by
    obtain ⟨hle, c, hc, hlt⟩ := hsuff
    have := h.high_le hwf hc
    exact ⟨by omega, hle⟩
  cases x with
  | producer p =>
    obtain ⟨h0, hle, hunpub⟩ := hledger.held hs
    refine ⟨hle, ?_⟩
    by_contra hno
    push Not at hno
    have := h.consumers.published_of_gating hwf h0 fun i hi => hno i (hwf.gating i hi)
    rw [hunpub] at this
    cases this
  | consumer c =>
    obtain ⟨hc, -, hlt, hr⟩ := h.consumer_accesses hs
    exact ⟨(hledger.claimed hr.1).2, c, hc, hlt⟩

/-- Two consumers of one chain at one sequence read it on the same stage. -/
theorem PipeInv.consumers_shared (hwf : t.Wf) (hroot : ∀ k, 0 < k → t.root k = false) (h : PipeInv b t st) (hcd : c ≠ d)
    (hc : Accesses t st (.consumer c) s) (hd : Accesses t st (.consumer d) s) :
    t.stage c = t.stage d ∧ t.access c = .readonly ∧ t.access d = .readonly := by
  obtain ⟨hc', h0, hclt, hcr⟩ := h.consumer_accesses hc
  obtain ⟨hd', -, hdlt, hdr⟩ := h.consumer_accesses hd
  -- an earlier stage has passed what a later one accesses
  have hstage : t.stage c = t.stage d := by
    rcases Nat.lt_trichotomy (t.stage c) (t.stage d) with hlt | heq | hlt
    · have := h.consumers.passed_of_released hwf h0 hd' hdr hlt (fun j hj _ => hroot j (by omega)) c hc' rfl
      exact absurd this (by show ¬s ≤ st.sequences c; omega)
    · exact heq
    · have := h.consumers.passed_of_released hwf h0 hc' hcr hlt (fun j hj _ => hroot j (by omega)) d hd' rfl
      exact absurd this (by show ¬s ≤ st.sequences d; omega)
  cases hm : t.runMode (t.stage c) with
  | sequential =>
    exact ⟨hstage, hwf.readonly c hc' d hd' hcd hstage hm,
      hwf.readonly d hd' c hc' hcd.symm hstage.symm (hstage ▸ hm)⟩
  | workPool =>
    -- a pool gives every sequence to one worker
    have hwc := hc.2
    have hwd := hd.2
    rw [hm] at hwc
    rw [← hstage, hm] at hwd
    exact absurd ((h.consumers.pool _ hm).unique c (Wiring.mem_members.mpr ⟨hc', rfl⟩) d
      (Wiring.mem_members.mpr ⟨hd', hstage.symm⟩) s (h.worker_window hc' hm hwc).2.2
      (h.worker_window hd' (hstage ▸ hm) hwd).2.2) hcd

/-- **Exclusive slots.** Two threads at one slot are read-only consumers of one stage, at one sequence. -/
theorem PipeInv.exclusive (hwf : t.Wf) (hroot : ∀ k, 0 < k → t.root k = false) (h : PipeInv b t st) {x y : Thread}
    (hxy : x ≠ y) (hx : Accesses t st x s) (hy : Accesses t st y u) (hslot : calculateIndex b s = calculateIndex b u) :
    s = u ∧ ∃ c d, x = .consumer c ∧ y = .consumer d ∧ t.stage c = t.stage d ∧ t.access c = .readonly ∧
      t.access d = .readonly := by
  obtain ⟨hx1, hx2⟩ := h.accessed_window hwf hx
  obtain ⟨hy1, hy2⟩ := h.accessed_window hwf hy
  obtain rfl : s = u := eq_of_calculateIndex_eq b hslot (by omega) (by omega)
  refine ⟨rfl, ?_⟩
  -- what is claimed and unpublished is released to nobody
  have hunpub : ∀ p c, Accesses t st (.producer p) s → Accesses t st (.consumer c) s → False := fun p c hp hc => by
    have h1 := (h.feed.world.ledger.held hp).2.2
    have h2 := (h.consumer_accesses hc).2.2.2.1
    rw [h1] at h2
    cases h2
  cases x with
  | producer p =>
    cases y with
    | producer q =>
      have : p = q := by
        have h1 : st.feed.world.ledger.owner s = some p := hx
        have h2 : st.feed.world.ledger.owner s = some q := hy
        rw [h1] at h2
        exact Option.some.inj h2
      exact absurd (by rw [this]) hxy
    | consumer d => exact (hunpub p d hx hy).elim
  | consumer c =>
    cases y with
    | producer q => exact (hunpub q c hy hx).elim
    | consumer d =>
      exact ⟨c, d, rfl, rfl, h.consumers_shared hwf hroot (fun he => hxy (by rw [he])) hx hy⟩

/-! ## Pipelines of the Builder -/

section Builder

variable {first : ConsumerAccess} {calls : List BuilderCall} {consumers : List ConsumerInfo} {multiProducer : Bool}
  {factory : Nat → E}

/-- **Slot exclusivity of a pipeline.** In every state of every run, two threads may access one slot only when both are
read-only consumers of the same stage, at the same sequence; in particular producers, gated on the last stage only, never
touch a slot that any stage still needs. -/
theorem pipeline_slots_exclusive (hcalls : builderConsumers first calls = some consumers)
    (h : BuilderReach b consumers handlers (builderInit b consumers multiProducer factory) st) {x y : Thread} (hxy : x ≠ y)
    (hx : Accesses (createDisruptorCore consumers) st x s) (hy : Accesses (createDisruptorCore consumers) st y u)
    (hslot : calculateIndex b s = calculateIndex b u) :
    s = u ∧ ∃ c d, x = .consumer c ∧ y = .consumer d ∧ stageOf consumers c = stageOf consumers d ∧
      accessOf consumers c = .readonly ∧ accessOf consumers d = .readonly :=
  (h.inv hcalls).exclusive (wf_createDisruptorCore hcalls)
    (fun k hk => by simp only [createDisruptorCore, beq_eq_false_iff_ne]; omega) hxy hx hy hslot

/-- Two read-only consumers of one stage at the same event of a ring of one slot. -/
theorem pipeline_slots_exclusive_shared : ∃ st : Pipeline Nat,
    BuilderReach ⟨0, by decide⟩ [⟨0, .readonly⟩, ⟨0, .readonly⟩] (fun _ e _ _ => e)
      (builderInit ⟨0, by decide⟩ [⟨0, .readonly⟩, ⟨0, .readonly⟩] false fun _ => 0) st ∧
    Accesses (createDisruptorCore [⟨0, .readonly⟩, ⟨0, .readonly⟩]) st (.consumer 0) 0 ∧
    Accesses (createDisruptorCore [⟨0, .readonly⟩, ⟨0, .readonly⟩]) st (.consumer 1) 0 ∧
    ∃ c d, Thread.consumer 0 = .consumer c ∧ Thread.consumer 1 = .consumer d ∧
      accessOf [⟨0, .readonly⟩, ⟨0, .readonly⟩] c = .readonly := by
  obtain ⟨st, hr, h0, h1⟩ : ∃ st : Pipeline Nat,
      BuilderReach ⟨0, by decide⟩ [⟨0, .readonly⟩, ⟨0, .readonly⟩] (fun _ e _ _ => e)
      (builderInit ⟨0, by decide⟩ [⟨0, .readonly⟩, ⟨0, .readonly⟩] false fun _ => 0) st ∧
      Accesses (createDisruptorCore [⟨0, .readonly⟩, ⟨0, .readonly⟩]) st (.consumer 0) 0 ∧
      Accesses (createDisruptorCore [⟨0, .readonly⟩, ⟨0, .readonly⟩]) st (.consumer 1) 0 :=
    ⟨_, reach_of_exec [.producer (.call 0 (.nextN 1)), .producer (.step 0), .producer (.step 0), .producer (.step 0),
      .producer (.claimed 0), .producer (.write 0 7), .producer (.publish 0), .producer (.step 0),
      .producer (.published 0), .consumer 0 .tick none, .consumer 0 .tick none, .consumer 0 (.flag true) none,
      .wait 0 .waitForWithShutdown, .barrier 0 .next, .barrier 0 .next, .barrier 0 .next, .barrier 0 .next,
      .consumer 0 (.answer (.ok 0)) none, .consumer 1 .tick none, .consumer 1 .tick none, .consumer 1 (.flag true) none,
      .wait 1 .waitForWithShutdown, .barrier 1 .next, .barrier 1 .next, .barrier 1 .next, .barrier 1 .next,
      .consumer 1 (.answer (.ok 0)) none] rfl,
      ⟨by decide, 0, rfl, by decide, by decide⟩, ⟨by decide, 0, rfl, by decide, by decide⟩⟩
  obtain ⟨-, c, d, hc, hd, -, hro, -⟩ := pipeline_slots_exclusive
    (show builderConsumers .readonly [.also .readonly] = some _ from rfl) hr (by decide) h0 h1 rfl
  exact ⟨st, hr, h0, h1, c, d, hc, hd, hro⟩

end Builder

/-! ## What barriers return -/

/-- **A barrier exposes only a contiguous published prefix.** Behind a multi-producer sequencer as behind a single-producer
one, in every state of every run in which a call of any of the four entry points has returned `Ok(r)` to consumer `c`: the
call asked for the sequence after the consumer's own, and if `r` reaches the request, everything from the request to `r` is
published, `r` is claimed, and all dependents have passed `r`. -/
theorem barrier_exposes_published (ht : Assembled t) {multiProducer unique : Bool} {factory : Nat → E} {r : Int}
    (h : PipeReach b t handlers (fun _ _ => True) (.init b t multiProducer unique factory) st) (hc : c < t.count)
    (hr : st.barriers c = .returned (.ok r)) :
    ∃ sequence, st.awaited t c = some sequence ∧ sequence = st.sequences c + 1 ∧
      (sequence ≤ r → (∀ u, sequence ≤ u → u ≤ r → st.feed.world.ledger.published u = true) ∧
        r ≤ st.feed.world.high ∧
        (t.dependentSequences c ≠ [] → r ≤ getMinimumSequence st.sequences (t.dependentSequences c))) := by
  have hI : PipeInv b t st := PipeReach.inv ht.wf h (pipeInv_init ht.wf _ _ _)
  have hC := hI.consumers.each c hc
  -- the consumer is still waiting for the answer
  obtain ⟨sequence, ha⟩ : ∃ sequence, st.awaited t c = some sequence := by
    unfold Pipeline.awaited
    cases hm : t.runMode (t.stage c) with
    | sequential =>
      obtain ⟨next, hn⟩ := (hC.sequential hm).waits (by rw [hr]; simp)
      exact ⟨next, by simp only [hn]⟩
    | workPool =>
      obtain ⟨claimed, hn⟩ := (hC.worker hm).waits (by rw [hr]; simp)
      exact ⟨claimed, by simp only [hn]⟩
  obtain ⟨rfl, -⟩ := hI.awaited hc ha
  have hB := hC.barrier
  rw [hr] at hB
  refine ⟨_, ha, rfl, fun hle => ?_⟩
  obtain ⟨ho, hp⟩ := hB hle
  have hlow := hC.low
  refine ⟨hp, hI.offered_le ht.wf hc (by omega) ho, fun hne => ?_⟩
  rw [Offered, if_neg hne] at ho
  exact (le_getMinimumSequence hne).mpr ho

set_option maxRecDepth 2000 in
/-- Sequence 1 is claimed, only 0 is published: the barrier returns 0. -/
theorem barrier_exposes_published_below_cursor : ∃ st : Pipeline Nat,
    PipeReach ⟨1, by decide⟩ (createDisruptorCore [⟨0, .mutable⟩]) (fun _ e _ _ => e) (fun _ _ => True)
      (.init ⟨1, by decide⟩ (createDisruptorCore [⟨0, .mutable⟩]) true true fun _ => 0) st ∧
    st.feed.world.cursor = 1 ∧ st.barriers 0 = .returned (.ok 0) ∧ st.feed.world.ledger.published 0 = true := by
  obtain ⟨st, hreach, hcur, hr, hs⟩ : ∃ st : Pipeline Nat,
      PipeReach ⟨1, by decide⟩ (createDisruptorCore [⟨0, .mutable⟩]) (fun _ e _ _ => e) (fun _ _ => True)
        (.init ⟨1, by decide⟩ (createDisruptorCore [⟨0, .mutable⟩]) true true fun _ => 0) st ∧
      st.feed.world.cursor = 1 ∧ st.barriers 0 = .returned (.ok 0) ∧ st.sequences 0 = -1 :=
    ⟨_, reach_of_exec [.producer (.call 0 (.nextN 1)), .producer (.step 0), .producer (.step 0), .producer (.step 0),
      .producer (.step 0), .producer (.step 0), .producer (.claimed 0), .producer (.call 1 (.nextN 1)),
      .producer (.step 1), .producer (.step 1), .producer (.step 1), .producer (.step 1), .producer (.step 1),
      .producer (.claimed 1), .producer (.write 0 7), .producer (.publish 0), .producer (.step 0),
      .producer (.published 0), .consumer 0 (.handler .ok) none, .consumer 0 .tick none, .consumer 0 (.flag true) none,
      .wait 0 .waitForWithShutdown, .barrier 0 .next, .barrier 0 .next, .barrier 0 .next, .barrier 0 .next,
      .barrier 0 .next, .barrier 0 .next] rfl, rfl, rfl, rfl⟩
  obtain ⟨sequence, -, hseq, hexp⟩ := barrier_exposes_published
    (.builder (show builderConsumers .mutable [] = some [⟨0, .mutable⟩] from rfl)) hreach (c := 0) (by decide) hr
  exact ⟨st, hreach, hcur, hr, (hexp (by omega)).1 0 (by omega) le_rfl⟩

end BadBatch
