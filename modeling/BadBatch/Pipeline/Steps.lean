import BadBatch.Pipeline.Invariant

/-!
# Every step keeps the invariant

First the step of one consumer with its own data (`seqOk_step`, `workOk_step`), then the frame: the other consumers see
sequences and publications grow (`Grows`). The sequencer needs to know that no gating sequence passes an unpublished
sequence; that is the chain of the state after the step.

* `pipeInv_step`: the step lemma;
* `PipeInv.grows`: no sequence ever decreases.
-/

namespace BadBatch

open MultiProducerSequencer

variable {E : Type} {b : BufferSize} {t : Wiring} {handlers : Nat → E → Int → Bool → E} {st st' : Pipeline E}
  {c d k : Nat} {s x : Int}

/-! ## One consumer -/

/-- What a barrier call exposed was released to its consumer. -/
theorem Exposes.released {w : SequencerWorld} {r : Int} (h : Exposes w (t.dependentSequences c) s r) (h1 : s ≤ x)
    (h2 : x ≤ r) : Released t w c x := by
  obtain ⟨ho, hp⟩ := h (le_trans h1 h2)
  refine ⟨hp x h1 h2, fun d hd => ?_⟩
  unfold Offered at ho
  rw [if_neg (List.ne_nil_of_mem hd)] at ho
  exact le_trans h2 (ho d hd)

theorem SequencerWorld.sequences_store (w : SequencerWorld) (i : Nat) (v : Int) :
    (w.store i v).sequences = Function.update w.sequences i v := by
  cases w <;> rfl

theorem SequencerWorld.ledger_store (w : SequencerWorld) (i : Nat) (v : Int) : (w.store i v).ledger = w.ledger := by
  cases w <;> rfl

theorem SequencerWorld.cursor_store (w : SequencerWorld) (i : Nat) (v : Int) : (w.store i v).cursor = w.cursor := by
  cases w <;> rfl

/-- A store lets what is released stay released. -/
theorem Released.store {w : SequencerWorld} {v : Int} (h : Released t w c s) (hv : w.sequences d ≤ v) :
    Released t (w.store d v) c s :=
  h.mono (fun _ hp => by rw [w.ledger_store]; exact hp) fun i => by rw [w.sequences_store]; exact le_update hv i

/-- One step of a sequential consumer. -/
theorem seqOk_step {w : SequencerWorld} {l l' : SeqLoop} {pc : BarrierPc} {i : EngineInput} {v : Int} {cfg : EngineConfig}
    (h : SeqOk t w c l pc) (hb : BarrierOk w (t.dependentSequences c) (w.sequences c + 1) pc)
    (hin : ∀ r, i = .answer r → pc = .returned r) (hst : seqStep cfg (w.sequences c) l i = some (v, l')) :
    SeqOk t (w.store c v) c l' .idle := by
  obtain ⟨hplace, hle⟩ := seqPlace_step hst h.place
  have hv : (w.store c v).sequences c = v := by rw [w.sequences_store, Function.update_self]
  have hp := h.place
  -- it is enough to know what is released before the store
  suffices hsuff : (∀ hi, l'.pc.released = some hi → ∀ s, v < s → s ≤ hi → Released t w c s) ∧
      (∀ s, 0 ≤ s → s ≤ v → Released t w c s) from
    ⟨by rw [hv]; exact hplace, fun hi hr s h1 h2 => (hsuff.1 hi hr s (hv ▸ h1) h2).store hle,
      fun s h0 h1 => (hsuff.2 s h0 (hv ▸ h1)).store hle, fun hne => absurd rfl hne⟩
  rcases seqStep_cases hst with ⟨rfl, -, -, -, -, hrel, -⟩ | ⟨next, available, hpc, rfl, hav, rfl, hl⟩ |
    ⟨next, available, hpc, hav, rfl, rfl⟩ | ⟨next, available, hpc, -, rfl, rfl⟩ |
    ⟨next, available, hpc, -, rfl, -, rfl⟩ | ⟨next, available, e, hpc, -, rfl, rfl⟩ | ⟨available, hpc, rfl, rfl⟩ |
    ⟨next, f, hpc, rfl, rfl⟩
  · refine ⟨fun hi hr => ?_, h.covered⟩
    rcases hrel with hrel | hrel
    · exact h.window hi (hrel ▸ hr)
    · rw [hrel] at hr; cases hr
  · -- the barrier releases a batch
    simp only [SeqPlace, hpc] at hp
    rw [hin _ rfl] at hb
    refine ⟨fun hi hr s h1 h2 => ?_, h.covered⟩
    obtain rfl : available = hi := by rcases hl with rfl | rfl <;> simpa [SeqPc.released] using hr
    exact Exposes.released hb (by omega) h2
  · exact ⟨fun hi hr => h.window hi (by rw [hpc]; exact hr), h.covered⟩
  · exact ⟨fun hi hr => h.window hi (by rw [hpc]; exact hr), h.covered⟩
  · exact ⟨fun hi hr => h.window hi (by rw [hpc]; exact hr), h.covered⟩
  · simp only [SeqPlace, hpc] at hp
    refine ⟨fun hi hr s h1 h2 => ?_, h.covered⟩
    obtain rfl : next = hi := by simpa [SeqPc.released] using hr
    exact h.window available (by rw [hpc]; rfl) s h1 (by omega)
  · refine ⟨fun hi hr => (by cases hr), fun s h0 h1 => ?_⟩
    by_cases hs : s ≤ w.sequences c
    · exact h.covered s h0 hs
    · exact h.window v (by rw [hpc]; rfl) s (by omega) h1
  · refine ⟨fun hi hr => (by cases hr), fun s h0 h1 => ?_⟩
    by_cases hs : s ≤ w.sequences c
    · exact h.covered s h0 hs
    · exact h.window next (by rw [hpc]; rfl) s (by omega) (by omega)

/-- What a step of a worker does to the range it has seen released. -/
theorem workStep_cached {cfg : EngineConfig} {work work' sequence v : Int} {l l' : WorkLoop} {i : EngineInput}
    (h : workStep cfg work sequence l i = some (work', v, l')) :
    (l'.cachedAvailable = l.cachedAvailable ∧
        (∀ s, l'.pc.accessing = some s → l.pc.accessing = some s ∨ s ≤ l.cachedAvailable)) ∨
      (l'.cachedAvailable = initialCursorValue ∧ l'.pc.accessing = none) ∨
      ∃ claimed available, l.pc = .waiting claimed ∧ i = .answer (.ok available) ∧ l'.cachedAvailable = available ∧
        l'.pc.accessing = none := by
  obtain ⟨pc, ca, la, calls, ret⟩ := l
  cases workRule_of_workStep h with
  | enter => exact .inr (.inl ⟨rfl, rfl⟩)
  | cached hle =>
    refine .inl ⟨rfl, fun s hs => .inr ?_⟩
    cases hs
    exact hle
  | batchStart | call => exact .inl ⟨rfl, fun s hs => .inl hs⟩
  | released => exact .inr (.inr ⟨_, _, rfl, rfl, rfl, rfl⟩)
  | _ => exact .inl ⟨rfl, fun s hs => by cases hs⟩

/-- One step of a worker. -/
theorem workOk_step {w : SequencerWorld} {l l' : WorkLoop} {pc : BarrierPc} {i : EngineInput} {work work' v : Int}
    {cfg : EngineConfig} (h : WorkOk t w c l pc) (hok : WorkerOk work (w.sequences c) l)
    (hb : BarrierOk w (t.dependentSequences c) (w.sequences c + 1) pc) (hin : ∀ r, i = .answer r → pc = .returned r)
    (hst : workStep cfg work (w.sequences c) l i = some (work', v, l')) : WorkOk t (w.store c v) c l' .idle := by
  obtain ⟨-, hle, -⟩ := workerOk_step hst hok
  have hv : (w.store c v).sequences c = v := by rw [w.sequences_store, Function.update_self]
  have hlow := hok.low
  have hproc : ∀ s ∈ l'.returned, Released t w c s := by
    intro s hs
    rcases workStep_cases hst hok.high with ⟨-, -, -, hr, -⟩ | ⟨_, -, -, -, rfl⟩ | ⟨-, -, -, rfl⟩ | ⟨_, -, -, -, rfl⟩ |
      ⟨claimed, hpc, -, -, rfl⟩ | ⟨_, -, -, -, rfl⟩
    · exact h.processed s (hr ▸ hs)
    · exact h.processed s hs
    · exact h.processed s hs
    · exact h.processed s hs
    · rcases List.mem_append.mp hs with hs | hs
      · exact h.processed s hs
      · -- the claim it has just finished was released to it
        rw [List.mem_singleton.mp hs]
        have hcl := hok.claimed claimed (by rw [hpc]; rfl)
        exact h.cached claimed (by omega) (h.accessing claimed (by rw [hpc]; rfl))
    · exact h.processed s hs
  refine ⟨fun s h1 h2 => ?_, fun s hs => ?_, fun s hs => (hproc s hs).store hle, fun hne => absurd rfl hne⟩
  · rw [hv] at h1
    refine Released.store ?_ hle
    rcases workStep_cached hst with ⟨hca, -⟩ | ⟨hca, -⟩ | ⟨claimed, available, hpc, rfl, hca, -⟩
    · exact h.cached s (by omega) (hca ▸ h2)
    · rw [hca, initialCursorValue] at h2
      omega
    · rw [hin _ rfl] at hb
      exact Exposes.released hb (by omega) (hca ▸ h2)
  · rcases workStep_cached hst with ⟨hca, hacc⟩ | ⟨-, hacc⟩ | ⟨claimed, available, -, -, -, hacc⟩
    · rw [hca]
      rcases hacc s hs with ha | ha
      · exact h.accessing s ha
      · exact ha
    · rw [hacc] at hs; cases hs
    · rw [hacc] at hs; cases hs

/-! ## The other consumers -/

/-- The cursor, the sequences and the publications of `w` stay or grow. -/
structure Grows (w w' : SequencerWorld) : Prop where
  cursor : w.cursor ≤ w'.cursor
  sequences : ∀ i, w.sequences i ≤ w'.sequences i
  published : ∀ s, w.ledger.published s = true → w'.ledger.published s = true

theorem Grows.refl (w : SequencerWorld) : Grows w w := ⟨le_rfl, fun _ => le_rfl, fun _ => id⟩

theorem SeqOk.mono {w w' : SequencerWorld} {l : SeqLoop} {pc : BarrierPc} (h : SeqOk t w c l pc) (hg : Grows w w')
    (hc : w'.sequences c = w.sequences c) : SeqOk t w' c l pc where
  place := hc ▸ h.place
  window hi hr s h1 h2 := (h.window hi hr s (hc ▸ h1) h2).mono hg.published hg.sequences
  covered s h0 h1 := (h.covered s h0 (hc ▸ h1)).mono hg.published hg.sequences
  waits := h.waits

theorem WorkOk.mono {w w' : SequencerWorld} {l : WorkLoop} {pc : BarrierPc} (h : WorkOk t w c l pc) (hg : Grows w w')
    (hc : w'.sequences c = w.sequences c) : WorkOk t w' c l pc where
  cached s h1 h2 := (h.cached s (hc ▸ h1) h2).mono hg.published hg.sequences
  accessing := h.accessing
  processed s hs := (h.processed s hs).mono hg.published hg.sequences
  waits := h.waits

/-- The step left the data of consumer `c` alone. -/
structure Same (st st' : Pipeline E) (c : Nat) : Prop where
  sequences : st'.sequences c = st.sequences c
  barriers : st'.barriers c = st.barriers c
  sequential : st'.sequential c = st.sequential c
  workers : st'.workers c = st.workers c

theorem ConsumerOk.mono (h : ConsumerOk t st c) (hg : Grows st.feed.world st'.feed.world) (hs : Same st st' c) :
    ConsumerOk t st' c where
  low := hs.sequences ▸ h.low
  barrier := by
    rw [hs.sequences, hs.barriers]
    exact h.barrier.mono hg.cursor (fun i _ => hg.sequences i) hg.published
  sequential hm := by
    rw [hs.sequential, hs.barriers]
    exact (h.sequential hm).mono hg hs.sequences
  worker hm := by
    rw [hs.workers, hs.barriers]
    exact (h.worker hm).mono hg hs.sequences

/-- A pool is its cursor and its members. -/
theorem PoolInv.congr {members : List Nat} {p p' : WorkerPool} (h : PoolInv members p) (hw : p'.work = p.work)
    (hs : ∀ i ∈ members, p'.sequences i = p.sequences i ∧ p'.workers i = p.workers i) : PoolInv members p' := by
  refine ⟨fun i hi => ?_, fun i hi j hj s h1 h2 => ?_, fun s h0 h1 => ?_⟩
  · rw [hw, (hs i hi).1, (hs i hi).2]
    exact h.each i hi
  · rw [(hs i hi).2] at h1
    rw [(hs j hj).2] at h2
    exact h.unique i hi j hj s h1 h2
  · obtain ⟨i, hi, hh⟩ := h.complete s h0 (hw ▸ h1)
    exact ⟨i, hi, by rw [(hs i hi).2]; exact hh⟩

/-- A step of consumer `c` outside a pool, or of no consumer. -/
theorem ConsumersOk.step_sequential (h : ConsumersOk t st) (hg : Grows st.feed.world st'.feed.world)
    (hwork : st'.work = st.work) (hoth : ∀ d ≠ c, Same st st' d)
    (hpool : t.runMode (t.stage c) = .workPool → st'.sequences c = st.sequences c ∧ st'.workers c = st.workers c)
    (hc : c < t.count → ConsumerOk t st' c) : ConsumersOk t st' := by
  refine ⟨fun d hd => ?_, fun k hk => (h.pool k hk).congr (by rw [hwork]) fun i hi => ?_⟩
  · by_cases hdc : d = c
    · subst hdc; exact hc hd
    · exact (h.each d hd).mono hg (hoth d hdc)
  · by_cases hic : i = c
    · subst hic
      exact hpool ((Wiring.mem_members.mp hi).2.symm ▸ hk)
    · exact ⟨(hoth i hic).sequences, (hoth i hic).workers⟩

/-! ## The stores of a consumer -/

section Settle

variable {v : Int} {fault : Fault}

theorem SequencerWorld.step_advance {w : SequencerWorld} (hv : w.sequences c ≤ v) :
    w.step b (.advance c v) = some (w.store c v) := by
  cases w <;> simp only [sequences] at hv <;> simp [SequencerWorld.step, SingleWorld.step, MultiWorld.step, store, hv]

theorem SequencerWorld.step_poison (w : SequencerWorld) : w.step b .poison = some w.poison := by
  cases w <;> rfl

theorem SequencerWorld.sequences_poison (w : SequencerWorld) : w.poison.sequences = w.sequences := by cases w <;> rfl

theorem SequencerWorld.ledger_poison (w : SequencerWorld) : w.poison.ledger = w.ledger := by cases w <;> rfl

theorem SequencerWorld.cursor_poison (w : SequencerWorld) : w.poison.cursor = w.cursor := by cases w <;> rfl

theorem SequencerWorld.gatingSequences_poison (w : SequencerWorld) : w.poison.gatingSequences = w.gatingSequences := by
  cases w <;> rfl

theorem SequencerWorld.gatingSequences_store (w : SequencerWorld) : (w.store c v).gatingSequences = w.gatingSequences := by
  cases w <;> rfl

theorem grows_store {w : SequencerWorld} (hv : w.sequences c ≤ v) : Grows w (w.store c v) where
  cursor := le_of_eq (w.cursor_store c v).symm
  sequences i := by rw [w.sequences_store]; exact le_update hv i
  published s hp := by rw [w.ledger_store]; exact hp

theorem grows_poison (w : SequencerWorld) : Grows w w.poison where
  cursor := le_of_eq w.cursor_poison.symm
  sequences i := by rw [w.sequences_poison]
  published s hp := by rw [w.ledger_poison]; exact hp

theorem Grows.trans {w w' w'' : SequencerWorld} (h : Grows w w') (h' : Grows w' w'') : Grows w w'' where
  cursor := le_trans h.cursor h'.cursor
  sequences i := le_trans (h.sequences i) (h'.sequences i)
  published s hp := h'.published s (h.published s hp)

theorem world_settle : (st.settle c v fault).feed.world =
    if fault.poison then (st.feed.world.store c v).poison else st.feed.world.store c v := rfl

/-- The last store of a step, after the `Sequence`. -/
theorem grows_settle (st : Pipeline E) (fault : Fault) :
    Grows (st.feed.world.store c v) (st.settle c v fault).feed.world := by
  rw [world_settle]
  split
  · exact grows_poison _
  · exact .refl _

theorem sequences_settle : (st.settle c v fault).sequences = Function.update st.sequences c v := by
  show (st.settle c v fault).feed.world.sequences = _
  rw [world_settle]
  split
  · rw [SequencerWorld.sequences_poison, SequencerWorld.sequences_store]; rfl
  · rw [SequencerWorld.sequences_store]; rfl

theorem same_settle (st : Pipeline E) (v : Int) (fault : Fault) (hd : d ≠ c) : Same st (st.settle c v fault) d where
  sequences := by rw [sequences_settle, Function.update_of_ne hd]
  barriers := Function.update_of_ne hd _ _
  sequential := rfl
  workers := rfl

/-- The producer side after the stores of a consumer. That no gating sequence has passed an unpublished sequence is the
chain of stages, in the state after the stores. -/
theorem pipeInv_settle (hwf : t.Wf) (h : PipeInv b t st) (hv : st.sequences c ≤ v) (he : st'.feed = st.feed)
    (hC : ConsumersOk t (st'.settle c v fault)) : PipeInv b t (st'.settle c v fault) := by
  have hstep : st.feed.world.step b (.advance c v) = some (st.feed.world.store c v) := SequencerWorld.step_advance hv
  have hpub : ∀ s, 0 ≤ s → Below (st.feed.world.store c v).sequences (st.feed.world.store c v).gatingSequences s →
      (st.feed.world.store c v).ledger.published s = true := by
    intro s h0 hb
    have hseq : (st'.settle c v fault).sequences = (st.feed.world.store c v).sequences := by
      rw [sequences_settle, SequencerWorld.sequences_store, Pipeline.sequences, he]
    have hled : (st'.settle c v fault).feed.world.ledger = (st.feed.world.store c v).ledger := by
      rw [world_settle, he]
      split
      · rw [SequencerWorld.ledger_poison]
      · rfl
    rw [← hled]
    refine hC.published_of_gating hwf h0 fun i hi => ?_
    rw [hseq]
    exact hb i (by rw [SequencerWorld.gatingSequences_store]; exact (h.gating i).mpr hi)
  have hworld := SequencerWorld.inv_step (a := .advance c v) h.feed.world trivial hstep (by simp) fun _ _ _ => hpub
  have hphases : ∀ p, PhaseOk (st.feed.world.store c v) p (st.feed.phases p) := fun p =>
    phaseOk_flags (.inl ⟨c, v, rfl⟩) (h.feed.phases p) hstep
  refine ⟨⟨?_, ?_⟩, fun i => ?_, hC⟩
  · rw [world_settle, he]
    split
    · exact SequencerWorld.inv_step (a := .poison) hworld trivial (SequencerWorld.step_poison _) (by simp) (by simp)
    · exact hworld
  · show ∀ p, PhaseOk (st'.settle c v fault).feed.world p (st'.feed.phases p)
    rw [world_settle, he]
    split
    · exact fun p => phaseOk_flags (b := b) (.inr (.inr (.inr rfl))) (hphases p) (SequencerWorld.step_poison _)
    · exact hphases
  · rw [world_settle, he, ← h.gating i]
    split
    · rw [SequencerWorld.gatingSequences_poison, SequencerWorld.gatingSequences_store]
    · rw [SequencerWorld.gatingSequences_store]

end Settle

/-- What a handler does to the event concerns no sequence. -/
theorem access_frame (b : BufferSize) (t : Wiring) (handlers : Nat → E → Int → Bool → E) (st : Pipeline E) (c : Nat)
    (before after : Option (Int × Bool)) (i : EngineInput) (torn : Option E) :
    ∃ ring held received doneBy, st.access b t handlers c before after i torn =
      { st with feed := { st.feed with ring := ring }, held := held, received := received, doneBy := doneBy } := by
  unfold Pipeline.access
  split
  · exact ⟨_, _, _, _, rfl⟩
  · split
    · exact ⟨_, _, _, _, rfl⟩
    · split
      · exact ⟨_, _, _, _, rfl⟩
      · exact ⟨_, _, _, _, rfl⟩
  · exact ⟨_, _, _, _, rfl⟩

theorem access_world {before after : Option (Int × Bool)} {i : EngineInput} {torn : Option E} :
    (st.access b t handlers c before after i torn).feed.world = st.feed.world := by
  obtain ⟨ring, held, received, doneBy, he⟩ := access_frame b t handlers st c before after i torn
  rw [he]

theorem access_sequences {before after : Option (Int × Bool)} {i : EngineInput} {torn : Option E} :
    (st.access b t handlers c before after i torn).sequences = st.sequences := by
  rw [Pipeline.sequences, access_world, Pipeline.sequences]

theorem pipeInv_access {before after : Option (Int × Bool)} {i : EngineInput} {torn : Option E} (h : PipeInv b t st) :
    PipeInv b t (st.access b t handlers c before after i torn) := by
  obtain ⟨ring, held, received, doneBy, he⟩ := access_frame b t handlers st c before after i torn
  rw [he]
  exact ⟨⟨h.feed.world, h.feed.phases⟩, h.gating,
    ⟨fun d hd => ⟨(h.consumers.each d hd).low, (h.consumers.each d hd).barrier, (h.consumers.each d hd).sequential,
      (h.consumers.each d hd).worker⟩, h.consumers.pool⟩⟩

/-! ## One step of the system -/

/-- The two kinds of consumer steps. -/
theorem consumerStep_cases {i : EngineInput} {torn : Option E}
    (hs : st.consumerStep b t handlers c i torn = some st') :
    c < t.count ∧ st.inputOk t c i = true ∧
      ((t.runMode (t.stage c) = .sequential ∧ ∃ v l,
        seqStep (Pipeline.config t c) (st.sequences c) (st.sequential c) i = some (v, l) ∧
        st' = ({ st with sequential := Function.update st.sequential c l }.settle c v
          (st.sequential c).pc.fault).access b t handlers c (st.sequential c).pc.inside l.pc.inside i torn) ∨
      (t.runMode (t.stage c) = .workPool ∧ ∃ work v l,
        workStep (Pipeline.config t c) (st.work (t.stage c)) (st.sequences c) (st.workers c) i = some (work, v, l) ∧
        st' = ({ st with
          workers := Function.update st.workers c l
          work := Function.update st.work (t.stage c) work }.settle c v (st.workers c).pc.fault).access b t
            handlers c (st.workers c).inside l.inside i torn)) := by
  simp only [Pipeline.consumerStep, Option.ite_none_right_eq_some] at hs
  obtain ⟨⟨hc, hin⟩, hs⟩ := hs
  refine ⟨hc, hin, ?_⟩
  split at hs <;> rename_i hm <;> simp only [Option.map_eq_some_iff] at hs
  · obtain ⟨⟨v, l⟩, hst, rfl⟩ := hs
    exact .inl ⟨hm, v, l, hst, rfl⟩
  · obtain ⟨⟨work, v, l⟩, hst, rfl⟩ := hs
    exact .inr ⟨hm, work, v, l, hst, rfl⟩

theorem inputOk_answer {i : EngineInput} (hin : st.inputOk t c i = true) {r : Except DisruptorError Int}
    (hi : i = .answer r) : st.barriers c = .returned r := by
  subst hi
  simpa [Pipeline.inputOk] using hin

/-- A step of a sequential consumer. -/
theorem pipeInv_sequential {i : EngineInput} {v : Int} {l : SeqLoop} (hwf : t.Wf) (h : PipeInv b t st)
    (hc : c < t.count) (hm : t.runMode (t.stage c) = .sequential) (hin : st.inputOk t c i = true)
    (hst : seqStep (Pipeline.config t c) (st.sequences c) (st.sequential c) i = some (v, l)) (fault : Fault) :
    PipeInv b t ({ st with sequential := Function.update st.sequential c l }.settle c v fault) := by
  have hC := h.consumers.each c hc
  have hseq := hC.sequential hm
  obtain ⟨-, hle⟩ := seqPlace_step hst hseq.place
  refine pipeInv_settle hwf h hle rfl ?_
  have hself := (seqOk_step hseq hC.barrier (fun r => inputOk_answer hin) hst).mono
    (grows_settle { st with sequential := Function.update st.sequential c l } fault)
    (by rw [SequencerWorld.sequences_store]; exact congrFun sequences_settle c)
  refine h.consumers.step_sequential (c := c) ((grows_store hle).trans (grows_settle _ _)) rfl (fun d hd => ?_)
    (fun hk => by rw [hm] at hk; cases hk) fun _ => ⟨?_, ?_, fun _ => ?_, fun hk => by rw [hm] at hk; cases hk⟩
  · have hsame := same_settle { st with sequential := Function.update st.sequential c l } v fault hd
    exact ⟨hsame.sequences, hsame.barriers, Function.update_of_ne hd _ _, rfl⟩
  · have := hC.low
    rw [sequences_settle, Function.update_self]
    omega
  · simp only [Pipeline.settle, Function.update_self]
    trivial
  · simpa only [Pipeline.settle, Function.update_self] using hself

/-- A step of a worker. -/
theorem pipeInv_worker {i : EngineInput} {work v : Int} {l : WorkLoop} (hwf : t.Wf) (h : PipeInv b t st)
    (hc : c < t.count) (hm : t.runMode (t.stage c) = .workPool) (hin : st.inputOk t c i = true)
    (hst : workStep (Pipeline.config t c) (st.work (t.stage c)) (st.sequences c) (st.workers c) i = some (work, v, l))
    (fault : Fault) :
    PipeInv b t ({ st with
      workers := Function.update st.workers c l
      work := Function.update st.work (t.stage c) work }.settle c v fault) := by
  have hC := h.consumers.each c hc
  have hmem : c ∈ t.members (t.stage c) := Wiring.mem_members.mpr ⟨hc, rfl⟩
  have hok := (h.consumers.pool _ hm).each c hmem
  obtain ⟨-, hle, -⟩ := workerOk_step hst hok
  refine pipeInv_settle hwf h hle rfl ?_
  have hself := (workOk_step (hC.worker hm) hok hC.barrier (fun r => inputOk_answer hin) hst).mono
    (grows_settle { st with
      workers := Function.update st.workers c l
      work := Function.update st.work (t.stage c) work } fault)
    (by rw [SequencerWorld.sequences_store]; exact congrFun sequences_settle c)
  refine ⟨fun d hd => ?_, fun k hk => ?_⟩
  · by_cases hdc : d = c
    · subst hdc
      refine ⟨?_, ?_, fun hk => (by rw [hm] at hk; cases hk), fun _ => ?_⟩
      · have := hC.low
        rw [sequences_settle, Function.update_self]
        omega
      · simp only [Pipeline.settle, Function.update_self]
        trivial
      · simpa only [Pipeline.settle, Function.update_self] using hself
    · have hsame := same_settle { st with
        workers := Function.update st.workers c l
        work := Function.update st.work (t.stage c) work } v fault hdc
      exact (h.consumers.each d hd).mono ((grows_store hle).trans (grows_settle _ _))
        ⟨hsame.sequences, hsame.barriers, rfl, Function.update_of_ne hdc _ _⟩
  · by_cases hkc : k = t.stage c
    · subst hkc
      exact (poolInv_workStep (h.consumers.pool _ hm) hmem hst).congr (by simp [Pipeline.settle]) fun i _ =>
        ⟨congrFun sequences_settle i, rfl⟩
    · -- the other pools have other members
      refine (h.consumers.pool k hk).congr (Function.update_of_ne hkc _ _) fun i hi => ?_
      have hic : i ≠ c := by rintro rfl; exact hkc (Wiring.mem_members.mp hi).2.symm
      exact ⟨(congrFun sequences_settle i).trans (Function.update_of_ne hic _ _), Function.update_of_ne hic _ _⟩

/-- A call of a barrier starts or goes on; only the barrier of consumer `c` changes. -/
theorem pipeInv_barrier {pc : BarrierPc} (h : PipeInv b t st)
    (hpc : c < t.count → BarrierOk st.feed.world (t.dependentSequences c) (st.sequences c + 1) pc)
    (hseq : c < t.count → t.runMode (t.stage c) = .sequential → ∃ next, (st.sequential c).pc = .waiting next)
    (hwork : c < t.count → t.runMode (t.stage c) = .workPool → ∃ claimed, (st.workers c).pc = .waiting claimed) :
    PipeInv b t { st with barriers := Function.update st.barriers c pc } := by
  refine ⟨h.feed, h.gating, h.consumers.step_sequential (c := c) (.refl _) rfl
    (fun d hd => ⟨rfl, Function.update_of_ne hd _ _, rfl, rfl⟩) (fun _ => ⟨rfl, rfl⟩) fun hc => ?_⟩
  have hC := h.consumers.each c hc
  refine ⟨hC.low, ?_, fun hm => ?_, fun hm => ?_⟩
  · show BarrierOk st.feed.world _ (st.sequences c + 1) (Function.update st.barriers c pc c)
    rw [Function.update_self]
    exact hpc hc
  · have hs := hC.sequential hm
    exact ⟨hs.place, hs.window, hs.covered, fun _ => hseq hc hm⟩
  · have hs := hC.worker hm
    exact ⟨hs.cached, hs.accessing, hs.processed, fun _ => hwork hc hm⟩

/-- The consumer of a barrier call asks for the sequence after its own. -/
theorem PipeInv.awaited (h : PipeInv b t st) (hc : c < t.count) (ha : st.awaited t c = some s) :
    s = st.sequences c + 1 ∧
      (t.runMode (t.stage c) = .sequential → ∃ next, (st.sequential c).pc = .waiting next) ∧
      (t.runMode (t.stage c) = .workPool → ∃ claimed, (st.workers c).pc = .waiting claimed) := by
  unfold Pipeline.awaited at ha
  split at ha <;> rename_i hm <;> split at ha <;> rename_i hpc <;> simp only [Option.some.injEq, reduceCtorEq] at ha <;>
    subst ha
  · have hp := ((h.consumers.each c hc).sequential hm).place
    simp only [SeqPlace, hpc] at hp
    exact ⟨hp, fun _ => ⟨_, hpc⟩, fun hm' => by rw [hm] at hm'; cases hm'⟩
  · have hcl := ((h.consumers.pool _ hm).each c (Wiring.mem_members.mpr ⟨hc, rfl⟩)).claimed _ (by rw [hpc]; rfl)
    refine ⟨?_, fun hm' => (by rw [hm] at hm'; cases hm'), fun _ => ⟨_, hpc⟩⟩
    have := hcl.2.1
    simp only at this
    omega

/-- A barrier call that has started belongs to a waiting consumer. -/
theorem barrierStep_ne_idle {w : SequencerWorld} {deps : List Nat} {alerted stopped : Bool} {pc pc' : BarrierPc}
    {i : BarrierInput} (hs : barrierStep b w deps alerted stopped pc i = some pc') : pc ≠ .idle := by
  rintro rfl
  cases i <;> simp [barrierStep] at hs

/-- A step of a producer. -/
theorem pipeInv_producer {a : FeedAction E} {feed : Feed E} (h : PipeInv b t st) (hs : st.feed.step b a = some feed) :
    PipeInv b t { st with feed := feed } := by
  obtain ⟨hseq, hgat, hcur, p, hmove⟩ := feedStep_world h.feed hs
  have hg : Grows st.feed.world feed.world :=
    ⟨hcur, fun i => by rw [hseq], fun s hp => hmove.published hp⟩
  have hsame : ∀ d, Same st { st with feed := feed } d := fun d => ⟨congrFun hseq d, rfl, rfl, rfl⟩
  refine ⟨feedInv_step h.feed hs, fun i => ?_, fun d hd => (h.consumers.each d hd).mono hg (hsame d), fun k hk => ?_⟩
  · show i ∈ feed.world.gatingSequences ↔ _
    rw [hgat]
    exact h.gating i
  · exact (h.consumers.pool k hk).congr rfl fun i _ => ⟨congrFun hseq i, rfl⟩

/-- **Step lemma of a pipeline.** -/
theorem pipeInv_step {a : PipelineAction E} (hwf : t.Wf) (h : PipeInv b t st)
    (hs : st.step b t handlers a = some st') : PipeInv b t st' := by
  cases pipelineRule_of_step hs with
  | producer hst => exact pipeInv_producer h hst
  | wait hawaited hc =>
    obtain ⟨rfl, hseq, hwork⟩ := h.awaited hc hawaited
    exact pipeInv_barrier h (fun _ => barrierOk_start _ _) (fun _ => hseq) (fun _ => hwork)
  | @barrier c i pc hc hst =>
    have hC := h.consumers.each c hc
    have hne := barrierStep_ne_idle hst
    exact pipeInv_barrier h (fun _ => barrierOk_step (h.reads hwf hc) hC.barrier hst)
      (fun _ hm => (hC.sequential hm).waits hne) (fun _ hm => (hC.worker hm).waits hne)
  | consumer hstep =>
    obtain ⟨hc, hin, ⟨hm, v, l, hst, rfl⟩ | ⟨hm, work, v, l, hst, rfl⟩⟩ := consumerStep_cases hstep
    · exact pipeInv_access (pipeInv_sequential hwf h hc hm hin hst _)
    · exact pipeInv_access (pipeInv_worker hwf h hc hm hin hst _)
  | @restart c hc hm hdone =>
    have hC := h.consumers.each c hc
    have hseq := hC.sequential hm
    refine ⟨h.feed, h.gating, h.consumers.step_sequential (c := c) (.refl _) rfl
      (fun d hd => ⟨rfl, rfl, Function.update_of_ne hd _ _, rfl⟩) (fun _ => ⟨rfl, rfl⟩) fun _ =>
      ⟨hC.low, hC.barrier, fun _ => ?_, fun hk => by rw [hm] at hk; cases hk⟩⟩
    simp only [Function.update_self]
    refine ⟨trivial, fun hi hr => (by cases hr), hseq.covered, fun hne => ?_⟩
    -- a finished thread waits for nothing
    obtain ⟨next, hw⟩ := hseq.waits hne
    rw [hdone] at hw; cases hw
  | raiseShutdown | setRunning | setAlert =>
    exact ⟨h.feed, h.gating, ⟨fun d hd => (h.consumers.each d hd).mono (.refl _) ⟨rfl, rfl, rfl, rfl⟩, h.consumers.pool⟩⟩

/-- What a step is to the producer side: a step of a producer, one of a consumer, or nothing. -/
theorem step_feed {a : PipelineAction E} (hs : st.step b t handlers a = some st') :
    (∃ a', a = .producer a' ∧ st.feed.step b a' = some st'.feed) ∨
      (∃ c i torn, a = .consumer c i torn ∧ st.consumerStep b t handlers c i torn = some st') ∨ st'.feed = st.feed := by
  cases pipelineRule_of_step hs with
  | @producer a feed hst => exact .inl ⟨a, rfl, hst⟩
  | @consumer c i torn _ hst => exact .inr (.inl ⟨c, i, torn, rfl, hst⟩)
  | wait | barrier | restart | raiseShutdown | setRunning | setAlert => exact .inr (.inr rfl)

/-- A step lets the cursor, the sequences and the publications grow, if the consumer that takes it only moves forward. -/
theorem FeedBooks.grows {a : PipelineAction E} (h : FeedBooks b st.feed) (hs : st.step b t handlers a = some st')
    (hforward : ∀ c i torn, a = .consumer c i torn → st.sequences c ≤ st'.sequences c) :
    Grows st.feed.world st'.feed.world := by
  rcases step_feed hs with ⟨a', -, hst⟩ | ⟨c, i, torn, rfl, hst⟩ | he
  · obtain ⟨hseq, -, hcur, p, hmove⟩ := h.step_world hst
    exact ⟨hcur, fun i => by rw [hseq], fun s hp => hmove.published hp⟩
  · have hle := hforward c i torn rfl
    obtain ⟨-, -, ⟨-, v, l, -, rfl⟩ | ⟨-, work, v, l, -, rfl⟩⟩ := consumerStep_cases hst <;>
      rw [access_sequences, sequences_settle, Function.update_self] at hle <;> rw [access_world] <;>
      exact (grows_store hle).trans (grows_settle _ _)
  · rw [he]
    exact .refl _

theorem PipeInv.grows {a : PipelineAction E} (h : PipeInv b t st) (hs : st.step b t handlers a = some st') :
    Grows st.feed.world st'.feed.world := by
  refine h.feed.books.grows hs ?_
  rintro c i torn rfl
  obtain ⟨hc, -, ⟨hm, v, l, hst, rfl⟩ | ⟨hm, work, v, l, hst, rfl⟩⟩ := consumerStep_cases hs <;>
    rw [access_sequences, sequences_settle, Function.update_self]
  · exact (seqPlace_step hst ((h.consumers.each c hc).sequential hm).place).2
  · exact (workerOk_step hst ((h.consumers.pool _ hm).each c (Wiring.mem_members.mpr ⟨hc, rfl⟩))).2.1

end BadBatch
