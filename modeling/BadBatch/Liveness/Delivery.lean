import BadBatch.Liveness.Consumers
import BadBatch.Liveness.Refusals

/-!
# A pipeline delivers

Producers and consumers of a Builder pipeline in one run: nothing fails, nobody asks for a stop, and whoever is inside of an
operation keeps taking steps. Then the circle in which producers wait for consumers and consumers for producers keeps turning:

* `builder_consumes`: what is published all stages handle, whether or not producers take another step;
* `builder_delivers`: what is claimed is published, and so it is handled;
* `builder_grants`: so a producer that waits for capacity sees a claim succeed, and behind a single-producer sequencer it is
  its own.
-/

namespace BadBatch

open MultiProducerSequencer StepSys Temporal

variable {E : Type} {b : BufferSize} {t : Wiring} {handlers : Nat → E → Int → Bool → E} {st st' : Pipeline E} {c p : Nat}
  {s x n : Int} {a : PipelineAction E}

/-! ## The producers' side -/

/-- The invariant with the producers' side. -/
structure SupplyInv (b : BufferSize) (t : Wiring) (st : Pipeline E) : Prop where
  live : LiveInv b t st
  unpoisoned : st.feed.Unpoisoned
  held : HeldInv st.feed
  unique : st.feed.world.Unique

/-- A step of producer `p`. -/
def ProducerMoves (b : BufferSize) (t : Wiring) (handlers : Nat → E → Int → Bool → E) (p : Nat) (st st' : Pipeline E) : Prop :=
  ∃ a : FeedAction E, a.producer = some p ∧ (PipelineAction.producer a).live = true ∧
    st.step b t handlers (.producer a) = some st'

theorem fails_of_live {a : FeedAction E} (h : (PipelineAction.producer a).live = true) : a.fails = false := by
  simpa [PipelineAction.live] using h

theorem SeqPc.fault_of_inLoop {pc : SeqPc} (h : pc.inLoop = true) : pc.fault = ⟨none, false⟩ := by
  cases pc <;> first | rfl | cases h

theorem WorkPc.fault_of_not_stopped {pc : WorkPc} (h : pc.stopped = false) : pc.fault = ⟨none, false⟩ := by
  cases pc <;> first | rfl | cases h

/-- What a step of a run without failures is to the producers: a step of one of them, or at most the store of a consumer. -/
theorem feed_of_live (h : CalmInv st) (ha : a.live = true) (hs : st.step b t handlers a = some st') :
    (∃ a', a = .producer a' ∧ st.feed.step b a' = some st'.feed) ∨
      (∀ a', a ≠ .producer a') ∧ st'.feed.phases = st.feed.phases ∧
        (st'.feed.world = st.feed.world ∨ ∃ c v, st'.feed.world = st.feed.world.store c v) := by
  cases pipelineRule_of_step hs with
  | @producer a feed hst => exact .inl ⟨a, rfl, hst⟩
  | wait | barrier => exact .inr ⟨nofun, rfl, .inl rfl⟩
  | @consumer c i torn _ hstep =>
    obtain ⟨-, -, ⟨-, v, l, -, rfl⟩ | ⟨-, work, v, l, -, rfl⟩⟩ := consumerStep_cases hstep
    · obtain ⟨ring, held, received, doneBy, he⟩ := access_frame b t handlers
        ({ st with sequential := Function.update st.sequential c l }.settle c v (st.sequential c).pc.fault) c
        (st.sequential c).pc.inside l.pc.inside i torn
      rw [he]
      refine .inr ⟨nofun, rfl, .inr ⟨c, v, ?_⟩⟩
      simp only [Pipeline.settle, SeqPc.fault_of_inLoop (h.sequential c), Bool.false_eq_true, if_false]
    · obtain ⟨ring, held, received, doneBy, he⟩ := access_frame b t handlers
        ({ st with
          workers := Function.update st.workers c l
          work := Function.update st.work (t.stage c) work }.settle c v (st.workers c).pc.fault) c
        (st.workers c).inside l.inside i torn
      rw [he]
      refine .inr ⟨nofun, rfl, .inr ⟨c, v, ?_⟩⟩
      simp only [Pipeline.settle, WorkPc.fault_of_not_stopped (h.workers c), Bool.false_eq_true, if_false]
  | restart | raiseShutdown | setRunning | setAlert => cases ha

/-- What producers see of the sequencer is not what consumers store. -/
structure SameSupply (f f' : Feed E) : Prop where
  phases : f'.phases = f.phases
  ledger : f'.world.ledger = f.world.ledger
  poisoned : f'.world.poisoned = f.world.poisoned
  left : f'.world.left = f.world.left
  granted : ∀ p high, f.world.Granted p high → f'.world.Granted p high
  publishing : ∀ p s, f.world.publishing p s → f'.world.publishing p s
  unique : f.world.Unique → f'.world.Unique

theorem sameSupply_of_store {f f' : Feed E} (hp : f'.phases = f.phases)
    (hw : f'.world = f.world ∨ ∃ c v, f'.world = f.world.store c v) : SameSupply f f' := by
  obtain ⟨world, phases, ring, written, failure⟩ := f
  obtain ⟨world', phases', ring', written', failure'⟩ := f'
  obtain rfl : phases' = phases := hp
  rcases hw with hw | ⟨c, v, hw⟩
  · obtain rfl : world' = world := hw
    exact ⟨rfl, rfl, rfl, rfl, fun _ _ => id, fun _ _ => id, id⟩
  · obtain rfl : world' = world.store c v := hw
    cases world <;> exact ⟨rfl, rfl, rfl, rfl, fun _ _ => id, fun _ _ => id, id⟩

/-- **Step lemma.** -/
theorem supplyInv_step (hwf : t.Wf) (ht : t.stop = .external) (h : SupplyInv b t st) (ha : a.live = true)
    (hs : st.step b t handlers a = some st') : SupplyInv b t st' := by
  have hlive := liveInv_step hwf ht h.live ha hs
  have hbooks := h.live.pipe.feed.books
  rcases feed_of_live h.live.calm ha hs with ⟨a', rfl, hst⟩ | ⟨-, hph, hw⟩
  · have hf := fails_of_live ha
    refine ⟨hlive, unpoisoned_step h.unpoisoned hst hf, heldInv_step hbooks h.unpoisoned h.held hst hf, ?_⟩
    rcases feedStep_action hst with he | ⟨_, hst', -⟩
    · rw [he]
      exact h.unique
    · exact unique_step h.unique hst'
  · have hsame := sameSupply_of_store hph hw
    refine ⟨hlive, ⟨hsame.poisoned.trans h.unpoisoned.poisoned, fun p => ?_⟩,
      fun p s ho => ?_, hsame.unique h.unique⟩
    · rw [hsame.phases]
      exact h.unpoisoned.unwinding p
    · rw [hsame.ledger] at ho
      exact (h.held p s ho).congr (congrFun hsame.phases p) (hsame.granted p) (hsame.publishing p s)

/-- **Publication.** A step of the holder of `s` takes it to the publication of `s` or closer; no step sets it back. -/
theorem publish_step (h : SupplyInv b t st) (ha : a.live = true) (hs : st.step b t handlers a = some st')
    (ho : st.feed.world.ledger.owner s = some p) :
    st'.feed.world.ledger.published s = true ∨ st'.feed.world.ledger.owner s = some p ∧
      toLex (st'.feed.publishRank p) ≤ toLex (st.feed.publishRank p) ∧
        (OwnStep p a → toLex (st'.feed.publishRank p) < toLex (st.feed.publishRank p)) := by
  have hbooks := h.live.pipe.feed.books
  have hh := h.held p s ho
  rcases feed_of_live h.live.calm ha hs with ⟨a', rfl, hst⟩ | ⟨hno, hph, hw⟩
  · by_cases hp : a'.producer = some p
    · exact (publish_own hbooks hh ho hst (fails_of_live ha) hp).imp id fun hq => ⟨hq.1, le_of_lt hq.2, fun _ => hq.2⟩
    · obtain ⟨ho', hr⟩ := publish_other hbooks hh ho hst hp
      exact .inr ⟨ho', le_of_eq (congrArg toLex hr), fun hown => absurd hown (not_ownStep hp)⟩
  · have hsame := sameSupply_of_store hph hw
    refine .inr ⟨by rw [hsame.ledger]; exact ho, le_of_eq ?_, ?_⟩
    · unfold Feed.publishRank
      rw [hsame.phases, hsame.left]
    · rintro ⟨a', he, -⟩
      exact absurd he (hno a')

/-- **Claims.** While the claim path is open a step of a producer inside `next_n` ends in its grant or brings it closer,
once the gating sequences have caught up. The steps of others set it back only by a grant of their own, behind a
multi-producer sequencer. -/
theorem claim_step (h : SupplyInv b t st) (ha : a.live = true) (hs : st.step b t handlers a = some st')
    (hc : st.feed.world.call p = some (.nextN n)) :
    (st'.feed.world.result p = some (.ok st'.feed.world.high) ∨ st'.feed.world.closed = true) ∨
      st'.feed.world.call p = some (.nextN n) ∧ (st'.feed.world.isMulti = true ∧ st.feed.world.high < st'.feed.world.high ∨
        st'.feed.world.high = st.feed.world.high ∧
        (Below st.feed.world.sequences st.feed.world.gatingSequences st.feed.world.high →
          toLex (st'.feed.world.claimRank b p) ≤ toLex (st.feed.world.claimRank b p) ∧
            (OwnStep p a → toLex (st'.feed.world.claimRank b p) < toLex (st.feed.world.claimRank b p)))) := by
  have hbooks := h.live.pipe.feed.books
  by_cases hown : OwnStep p a ∧ st.feed.world.closed = true
  · obtain ⟨⟨a', rfl, hp⟩, hclosed⟩ := hown
    rcases feed_of_live h.live.calm ha hs with ⟨_, he, hst⟩ | ⟨hno, -⟩
    · cases he
      exact .inl (.inr ((SequencerWorld.closed_own (step_of_call hbooks hc hst hp)).trans hclosed))
    · exact absurd rfl (hno a')
  · have hopen : OwnStep p a → ¬st.feed.world.Shut := fun ho hshut =>
      hshut.elim (fun hclosed => hown ⟨ho, hclosed⟩) (by rw [h.unpoisoned.poisoned]; exact Bool.false_ne_true)
    rcases granted_step hbooks h.unique hopen hs hc with hr | ⟨hc', hover | ⟨hhigh, hcloser, hsame⟩⟩
    · exact .inl (.inl hr)
    · exact .inr ⟨hc', .inl hover⟩
    · refine .inr ⟨hc', .inr ⟨hhigh, fun hroom => ?_⟩⟩
      have hlt := fun ho => hcloser ho fun i hi => hroom i (h.live.pipe.feed.world.scans hi)
      by_cases ho : OwnStep p a
      · exact ⟨le_of_lt (hlt ho), hlt⟩
      · exact ⟨le_of_eq (congrArg toLex (hsame ho)), hlt⟩

/-! ## Runs -/

/-- The runs in which also every producer inside of an operation keeps taking steps. -/
structure SuppliedRun (b : BufferSize) (t : Wiring) (handlers : Nat → E → Int → Bool → E) (run : ℕ → Pipeline E) : Prop
    extends FairRun b t handlers run where
  producers : ∀ p n, ∃ m, n ≤ m ∧ ((run m).feed.phases p ≠ .idle → ProducerMoves b t handlers p (run m) (run (m + 1)))

section Runs

variable {run : ℕ → Pipeline E}

theorem FairRun.supply (hwf : t.Wf) (ht : t.stop = .external) (h : FairRun b t handlers run) (h0 : SupplyInv b t (run 0))
    (n : ℕ) : SupplyInv b t (run n) :=
  h.steps.inv h0 (fun hI ⟨_, ha, hs⟩ => supplyInv_step hwf ht hI ha hs) n

/-- What is held gets published. -/
theorem SuppliedRun.held_leadsTo (h : SuppliedRun b t handlers run) (hI : ∀ n, SupplyInv b t (run n)) (p : Nat) (s : Int) :
    LeadsTo run (fun st => st.feed.world.ledger.owner s = some p) fun st => st.feed.world.ledger.published s = true := by
  refine leadsTo_of_rank (T := ProducerMoves b t handlers p) (fun st => toLex (st.feed.publishRank p)) h.steps (fun n => ?_)
    hI ?_ ?_
  · obtain ⟨m, hm, hmv⟩ := h.producers p n
    exact ⟨m, hm, fun ho => hmv (Feed.Holds.busy ((hI m).held p s ho))⟩
  · rintro st st' hinv - ho ⟨a, ha, hs⟩
    exact (publish_step hinv ha hs ho).imp id fun hq => ⟨hq.1, hq.2.1⟩
  · rintro st st' hinv - ho ⟨a, hp, ha, hs⟩
    exact (publish_step hinv ha hs ho).imp id fun hq => ⟨hq.1, hq.2.2 ⟨a, rfl, hp⟩⟩

/-- **Claimed, then published.** -/
theorem SuppliedRun.claimed_leadsTo (h : SuppliedRun b t handlers run) (hI : ∀ n, SupplyInv b t (run n)) (x : Int) :
    LeadsTo run (fun st => x ≤ st.feed.world.high) fun st => ∀ s, 0 ≤ s → s ≤ x → st.feed.world.ledger.published s = true := by
  have hgrows := fun {n m} (hle : n ≤ m) => h.grows (fun n => (hI n).live) hle
  have hall : LeadsTo run (fun st => x ≤ st.feed.world.high) fun st =>
      ∀ i < (x + 1).toNat, st.feed.world.ledger.published (i : Int) = true := by
    refine LeadsTo.forall_lt (Q := fun i (st : Pipeline E) => st.feed.world.ledger.published (i : Int) = true)
      (fun i hi n hx => ?_) fun i n m hle hp => (hgrows hle).published _ hp
    rcases (hI n).live.pipe.feed.world.ledger.settled (s := i) (by omega) (by omega) with hp | ⟨p, ho⟩
    · exact ⟨n, le_rfl, hp⟩
    · exact h.held_leadsTo hI p i n ho
  intro n hx
  obtain ⟨m, hm, hp⟩ := hall n hx
  refine ⟨m, hm, fun s h0 hs => ?_⟩
  have := hp s.toNat (by omega)
  rwa [Int.toNat_of_nonneg h0] at this

/-- **Claimed, then consumed.** -/
theorem SuppliedRun.passed_leadsTo (hwf : t.Wf) (ht : t.stop = .external) (h : SuppliedRun b t handlers run)
    (hI : ∀ n, SupplyInv b t (run n)) (x : Int) :
    LeadsTo run (fun st => x ≤ st.feed.world.high) fun st => ∀ c < t.count, x ≤ st.sequences c := by
  refine (h.claimed_leadsTo hI x).trans ((h.stages_leadTo hwf ht (fun n => (hI n).live) x t.stageCount).trans ?_)
  exact .of_imp fun n hp c hc => hp.stages c hc (hwf.stage_lt c hc)

/-- Producer `p` is inside `next_n(n)`, and claimed is what is up to `v`. -/
def Pipeline.Waits (p : Nat) (n v : Int) (st : Pipeline E) : Prop :=
  st.feed.world.call p = some (.nextN n) ∧ st.feed.world.high = v

/-- Producer `p` has been granted its claim or the claim path is closed, or `p` is still inside `next_n(n)` and somebody
else has been granted a claim. -/
def Pipeline.Advanced (p : Nat) (n v : Int) (st : Pipeline E) : Prop :=
  (st.feed.world.result p = some (.ok st.feed.world.high) ∨ st.feed.world.closed = true) ∨
    st.feed.world.isMulti = true ∧ st.feed.world.call p = some (.nextN n) ∧ v < st.feed.world.high

/-- A step while the consumers have passed all that is claimed. -/
theorem waits_step {v : Int} (hwf : t.Wf) (h : SupplyInv b t st) (hp : st.Waits p n v ∧ ∀ c < t.count, v ≤ st.sequences c)
    (ha : a.live = true) (hs : st.step b t handlers a = some st') :
    st'.Advanced p n v ∨ (st'.Waits p n v ∧ ∀ c < t.count, v ≤ st'.sequences c) ∧
      toLex (st'.feed.world.claimRank b p) ≤ toLex (st.feed.world.claimRank b p) ∧
        (OwnStep p a → toLex (st'.feed.world.claimRank b p) < toLex (st.feed.world.claimRank b p)) := by
  obtain ⟨⟨hc, rfl⟩, hpassed⟩ := hp
  have hroom : Below st.feed.world.sequences st.feed.world.gatingSequences st.feed.world.high := fun i hi =>
    hpassed i (hwf.gating i ((h.live.pipe.gating i).mp hi))
  rcases claim_step h ha hs hc with hr | ⟨hc', ⟨hw, hlt⟩ | ⟨hhigh, hrank⟩⟩
  · exact .inl (.inl hr)
  · exact .inl (.inr ⟨hw, hc', hlt⟩)
  · exact .inr ⟨⟨⟨hc', hhigh⟩, fun c hlt => le_trans (hpassed c hlt) ((h.live.pipe.grows hs).sequences c)⟩, hrank hroom⟩

/-- **Waiting, then granted**, or somebody else is. -/
theorem SuppliedRun.waits_leadsTo (hwf : t.Wf) (ht : t.stop = .external) (h : SuppliedRun b t handlers run)
    (hI : ∀ n, SupplyInv b t (run n)) (p : Nat) (n v : Int) :
    LeadsTo run (Pipeline.Waits p n v) (Pipeline.Advanced p n v) := by
  -- the consumers catch up
  have hcaught : LeadsTo run (Pipeline.Waits p n v) fun st =>
      st.Advanced p n v ∨ st.Waits p n v ∧ ∀ c < t.count, v ≤ st.sequences c := by
    intro k hk
    obtain ⟨m, hm, hpassed⟩ := h.passed_leadsTo hwf ht hI v k (le_of_eq hk.2.symm)
    have hstay : ∀ {st st'}, SupplyInv b t st → SupplyInv b t st' → st.Waits p n v → LiveStep b t handlers st st' →
        st'.Advanced p n v ∨ st'.Waits p n v := by
      rintro st st' hinv - ⟨hc, rfl⟩ ⟨a, ha, hs⟩
      rcases claim_step hinv ha hs hc with hr | ⟨hc', ⟨hw, hlt⟩ | ⟨hhigh, -⟩⟩
      · exact .inl (.inl hr)
      · exact .inl (.inr ⟨hw, hc', hlt⟩)
      · exact .inr ⟨hc', hhigh⟩
    rcases h.steps.until hI hstay hm hk with ⟨j, hj, hq⟩ | hp
    · exact ⟨j, hj, .inl hq⟩
    · exact ⟨m, hm, .inr ⟨hp, hpassed⟩⟩
  -- and then a look at them is enough
  have hlook : LeadsTo run (fun st => st.Waits p n v ∧ ∀ c < t.count, v ≤ st.sequences c) (Pipeline.Advanced p n v) := by
    refine leadsTo_of_rank (T := ProducerMoves b t handlers p) (fun st => toLex (st.feed.world.claimRank b p)) h.steps
      (fun n => ?_) hI ?_ ?_
    · obtain ⟨m, hm, hmv⟩ := h.producers p n
      refine ⟨m, hm, fun hp => hmv ?_⟩
      rw [claiming_of_call (hI m).live.pipe.feed.books hp.1.1]
      nofun
    · rintro st st' hinv - hp ⟨a, ha, hs⟩
      exact (waits_step hwf hinv hp ha hs).imp id fun hq => ⟨hq.1, hq.2.1⟩
    · rintro st st' hinv - hp ⟨a, hown, ha, hs⟩
      exact (waits_step hwf hinv hp ha hs).imp id fun hq => ⟨hq.1, hq.2.2 ⟨a, rfl, hown⟩⟩
  refine hcaught.trans fun k hk => ?_
  rcases hk with hq | hk
  · exact ⟨k, le_rfl, hq⟩
  · exact hlook k hk

/-- **Lock-free.** A producer inside `next_n` is granted its claim, or others are granted claims while it waits. -/
theorem SuppliedRun.granted_leadsTo (hwf : t.Wf) (ht : t.stop = .external) (h : SuppliedRun b t handlers run)
    (hI : ∀ n, SupplyInv b t (run n)) (p : Nat) (n x : Int) :
    LeadsTo run (fun st => st.feed.world.call p = some (.nextN n)) fun st =>
      (st.feed.world.result p = some (.ok st.feed.world.high) ∨ st.feed.world.closed = true) ∨
        st.feed.world.call p = some (.nextN n) ∧ x ≤ st.feed.world.high := by
  refine leadsTo_of_progress (f := fun st : Pipeline E => st.feed.world.high) fun v _ => ?_
  refine (h.waits_leadsTo hwf ht hI p n v).trans (.of_imp fun k hk => ?_)
  exact hk.imp id fun hk => hk.2

/-- The kind of the sequencer stays. -/
theorem FairRun.isMulti (h : FairRun b t handlers run) {multiProducer : Bool}
    (h0 : (run 0).feed.world.isMulti = multiProducer) (n : ℕ) : (run n).feed.world.isMulti = multiProducer :=
  h.steps.inv (I := fun st : Pipeline E => st.feed.world.isMulti = multiProducer) h0
    (fun hm ⟨_, _, hs⟩ => (kind_step hs).2.trans hm) n

end Runs

/-! ## The Builder -/

/-- Stage `k` has handled `s`: `on_event` has returned `Ok` for it, of every consumer of the stage, or of one worker of its
pool. -/
def Pipeline.HandledBy (t : Wiring) (st : Pipeline E) (k : Nat) (s : Int) : Prop :=
  match t.runMode k with
  | .sequential => ∀ c ∈ t.members k, s ∈ (st.sequential c).returned
  | .workPool => ∃ c ∈ t.members k, s ∈ (st.workers c).returned

/-- What all consumers have passed all stages have handled. -/
theorem handledBy_of_passed {multiProducer unique : Bool} {factory : Nat → E} (hwf : t.Wf)
    (he : ∀ c, t.exceptionHandler c = false)
    (h : PipeReach b t handlers (fun _ a => a.isRestart = false) (.init b t multiProducer unique factory) st)
    (hx : ∀ c < t.count, x ≤ st.sequences c) (h0 : 0 ≤ s) (hs : s ≤ x) {k : Nat} (hk : k < t.stageCount) :
    st.HandledBy t k s := by
  have hpassed : ∀ c ∈ t.members k, s ≤ st.sequences c := fun c hc => hs.trans (hx c (Wiring.mem_members.mp hc).1)
  unfold Pipeline.HandledBy
  cases hm : t.runMode k with
  | sequential =>
    intro c hc
    have htrace := PipeReach.seqTrace hwf ((Wiring.mem_members.mp hc).2 ▸ hm) (he c) h
    have := htrace.covered
    have := hpassed c hc
    rw [htrace.returned]
    exact mem_upTo.mpr ⟨h0, by omega⟩
  | workPool =>
    obtain ⟨c, hc, rfl⟩ := hwf.filled k hk
    exact ((PipeReach.inv hwf h (pipeInv_init hwf _ _ _)).consumers.pool _ hm).processed_of_le
      (List.ne_nil_of_mem (Wiring.mem_members.mpr ⟨hc, rfl⟩)) h0 hpassed

theorem isRestart_of_live (h : a.live = true) : a.isRestart = false := by
  cases a with
  | restart => cases h
  | _ => rfl

/-- Every state of such a run is reached. -/
theorem FairRun.reach {run : ℕ → Pipeline E} (h : FairRun b t handlers run) (n : ℕ) :
    PipeReach b t handlers (fun _ a => a.isRestart = false) (run 0) (run n) := by
  induction n with
  | zero => exact .refl
  | succ n ih =>
    rcases h.steps n with he | ⟨a, ha, hs⟩
    · rw [he]
      exact ih
    · exact ih.tail (isRestart_of_live ha) hs

/-- The invariant holds after assembly. -/
theorem supplyInv_init {multiProducer : Bool} {factory : Nat → E} (hwf : t.Wf) :
    SupplyInv b t (.init b t multiProducer true factory) where
  live := ⟨pipeInv_init hwf _ _ _, calmInv_init, fun _ => trivial⟩
  unpoisoned := ⟨by cases multiProducer <;> rfl, fun _ => rfl⟩
  held p s ho := by cases multiProducer <;> cases ho
  unique := by
    cases multiProducer
    · exact ⟨rfl, nofun⟩
    · trivial

/-! ### A run that goes on for ever -/

/-- A consumer of the first stage that waits for what is not there polls, and nothing changes. -/
theorem consumerMoves_self (hc : c < t.count) (hd : t.dependentSequences c = []) (hs : st.feed.world.cursor < s)
    (hw : st.barriers c = .waiting .waitForWithShutdown s) : ConsumerMoves b t handlers c st st := by
  refine ⟨.barrier c .next, rfl, by simp [PipelineAction.moves], ?_⟩
  have hpoll : barrierStep b st.feed.world (t.dependentSequences c) (st.alerted c) (!st.shouldContinue t c)
      (st.barriers c) .next =
      some (st.barriers c) := by
    rw [hw, hd]
    simp only [barrierStep, BarrierPc.polled, if_neg (not_le.mpr hs)]
  simp only [Pipeline.step, if_pos hc, hpoll, Option.map_some, Function.update_eq_self]

/-- The producer publishes the first event, -/
def publishFirst : List (PipelineAction Nat) :=
  [.producer (.call 0 (.nextN 1)), .producer (.step 0), .producer (.step 0), .producer (.step 0), .producer (.claimed 0),
    .producer (.write 0 7), .producer (.publish 0), .producer (.step 0), .producer (.published 0)]

/-- and asks for a second one, for which there is no room. -/
def askSecond : List (PipelineAction Nat) := .producer (.call 0 (.nextN 1)) :: List.replicate 7 (.producer (.step 0))

/-- The consumer starts, -/
def startUp : List (PipelineAction Nat) := [.consumer 0 (.handler .ok) none, .consumer 0 .tick none]

/-- waits for an event and begins to handle it, -/
def receive (s : Int) : List (PipelineAction Nat) :=
  [.consumer 0 (.flag true) none, .wait 0 .waitForWithShutdown, .barrier 0 .next, .barrier 0 .next, .barrier 0 .next,
    .barrier 0 .next, .consumer 0 (.answer (.ok s)) none, .consumer 0 (.handler .ok) none, .consumer 0 .tick none]

/-- and has handled it. -/
def finishBatch : List (PipelineAction Nat) :=
  [.consumer 0 (.handler .ok) none, .consumer 0 .tick none, .consumer 0 .tick none]

/-- There is room for the second event. -/
def publishSecond (looks : Nat) : List (PipelineAction Nat) :=
  List.replicate looks (.producer (.step 0)) ++
    [.producer (.claimed 0), .producer (.write 0 8), .producer (.publish 0), .producer (.step 0), .producer (.published 0)]

/-- Two events through a ring of one slot, and then the consumer waits for the next. -/
def soloSteps : List (PipelineAction Nat) :=
  publishFirst ++ askSecond ++ startUp ++ receive 0 ++ finishBatch ++ publishSecond 5 ++ receive 1 ++ finishBatch ++
    [.consumer 0 (.flag true) none, .wait 0 .waitForWithShutdown, .barrier 0 .next, .barrier 0 .next]

/-- A ring of one slot. -/
def soloSize : BufferSize := ⟨0, by decide⟩

/-- Its run. -/
def soloRun : ℕ → Pipeline Nat :=
  play (Pipeline.step soloSize (createDisruptorCore [⟨0, .mutable⟩]) fun _ e _ _ => e)
    (builderInit soloSize [⟨0, .mutable⟩] false fun _ => 0) soloSteps

/-- It ends in the last state of the list. -/
theorem soloRun_rest {m : ℕ} (hm : soloSteps.length ≤ m) : soloRun m = soloRun soloSteps.length := play_rest _ _ m hm

theorem soloRun_open (m : ℕ) : (soloRun m).feed.world.closed = false := by
  have hall : ∀ m ≤ soloSteps.length, (soloRun m).feed.world.closed = false := by decide
  rcases le_total m soloSteps.length with hm | hm
  · exact hall m hm
  · rw [soloRun_rest hm]
    exact hall _ le_rfl

theorem suppliedRun_solo : SuppliedRun soloSize (createDisruptorCore [⟨0, .mutable⟩]) (fun _ e _ _ => e) soloRun where
  steps := by
    refine steps_play soloSteps _ fun s s' a ha hs => ⟨a, ?_, hs⟩
    have hall : ∀ a ∈ soloSteps, a.live = true := by decide
    exact hall a ha
  consumers c hc n := by
    obtain rfl : c = 0 := Nat.lt_one_iff.mp hc
    refine ⟨max n soloSteps.length, le_max_left .., ?_⟩
    rw [soloRun_rest (le_max_right ..), soloRun_rest (by omega : soloSteps.length ≤ max n soloSteps.length + 1)]
    have hcursor : (soloRun soloSteps.length).feed.world.cursor < 2 := show (1 : Int) < 2 by decide
    exact consumerMoves_self Nat.zero_lt_one rfl hcursor rfl
  producers p n := by
    refine ⟨max n soloSteps.length, le_max_left .., fun hne => absurd ?_ hne⟩
    rw [soloRun_rest (le_max_right ..)]
    cases p <;> rfl

section Builder

variable {first : ConsumerAccess} {calls : List BuilderCall} {consumers : List ConsumerInfo} {multiProducer : Bool}
  {factory : Nat → E} {run : ℕ → Pipeline E}

/-- **What is published is handled.** In a run of a Builder pipeline without failures whose consumers are not stopped and keep
taking steps, once everything up to `x` is published every consumer passes `x`, and every stage handles everything up to it;
the producers need not take another step. -/
theorem builder_consumes (hcalls : builderConsumers first calls = some consumers)
    (h0 : run 0 = builderInit b consumers multiProducer factory)
    (h : FairRun b (createDisruptorCore consumers) handlers run) (x : Int) :
    LeadsTo run (fun st => ∀ s, 0 ≤ s → s ≤ x → st.feed.world.ledger.published s = true) fun st =>
      (∀ c < consumers.length, x ≤ st.sequences c) ∧
        ∀ k < (createDisruptorCore consumers).stageCount, ∀ s, 0 ≤ s → s ≤ x →
          st.HandledBy (createDisruptorCore consumers) k s := by
  have hwf := wf_createDisruptorCore hcalls
  have hI := h.inv hwf rfl (by rw [h0]; exact (supplyInv_init hwf).live)
  refine (h.stages_leadTo hwf rfl hI x (createDisruptorCore consumers).stageCount).trans (.of_imp fun n hp => ?_)
  have hpassed : ∀ c < consumers.length, x ≤ (run n).sequences c := fun c hc => hp.stages c hc (hwf.stage_lt c hc)
  have hreach := h.reach n
  rw [h0] at hreach
  exact ⟨hpassed, fun k hk s h0 hs => handledBy_of_passed hwf (fun _ => rfl) hreach hpassed h0 hs hk⟩

/-- The first event is handled; when it is published the consumer has not even started. -/
theorem builder_consumes_solo : ((soloRun 8).sequential 0).pc = .start ∧ ∃ m, 8 ≤ m ∧
    0 ∈ ((soloRun m).sequential 0).returned := by
  have hpub : ∀ s, 0 ≤ s → s ≤ 0 → (soloRun 8).feed.world.ledger.published s = true := by
    intro s h0 hs
    obtain rfl : s = 0 := by omega
    rfl
  obtain ⟨m, hm, -, hall⟩ := builder_consumes (show builderConsumers .mutable [] = some _ from rfl) rfl
    suppliedRun_solo.toFairRun 0 8 hpub
  exact ⟨rfl, m, hm, hall 0 (by decide) 0 le_rfl le_rfl 0 (by decide)⟩

/-- **What is claimed is published and handled.** When the producers inside of an operation keep taking steps as well, all that
is claimed up to `x` gets published, and all stages handle it. -/
theorem builder_delivers (hcalls : builderConsumers first calls = some consumers)
    (h0 : run 0 = builderInit b consumers multiProducer factory)
    (h : SuppliedRun b (createDisruptorCore consumers) handlers run) (x : Int) :
    LeadsTo run (fun st => x ≤ st.feed.world.high) fun st =>
      (∀ s, 0 ≤ s → s ≤ x → st.feed.world.ledger.published s = true) ∧
        ∀ k < (createDisruptorCore consumers).stageCount, ∀ s, 0 ≤ s → s ≤ x →
          st.HandledBy (createDisruptorCore consumers) k s := by
  have hwf := wf_createDisruptorCore hcalls
  have hI := h.supply hwf rfl (by rw [h0]; exact supplyInv_init hwf)
  refine (h.claimed_leadsTo hI x).trans ?_
  refine (h.stages_leadTo hwf rfl (fun n => (hI n).live) x (createDisruptorCore consumers).stageCount).trans
    (.of_imp fun n hp => ⟨hp.published, fun k hk s hs hx => ?_⟩)
  have hreach := h.reach n
  rw [h0] at hreach
  exact handledBy_of_passed hwf (fun _ => rfl) hreach (fun c hc => hp.stages c hc (hwf.stage_lt c hc)) hs hx hk

/-- The claim of the first event is enough. -/
theorem builder_delivers_solo : ∃ m, 4 ≤ m ∧ (soloRun m).feed.world.ledger.published 0 = true ∧
    0 ∈ ((soloRun m).sequential 0).returned := by
  obtain ⟨m, hm, hpub, hall⟩ := builder_delivers (show builderConsumers .mutable [] = some _ from rfl) rfl suppliedRun_solo 0 4
    (show (0 : Int) ≤ 0 from le_rfl)
  exact ⟨m, hm, hpub 0 le_rfl le_rfl, hall 0 (by decide) 0 le_rfl le_rfl 0 (by decide)⟩

/-- **Whoever waits for capacity gets it.** In such a run a producer inside `next_n(n)` is granted its claim sooner or
later, unless the claim path is closed, or other producers behind a multi-producer sequencer are granted claims without end
while it waits. -/
theorem builder_grants (hcalls : builderConsumers first calls = some consumers)
    (h0 : run 0 = builderInit b consumers multiProducer factory)
    (h : SuppliedRun b (createDisruptorCore consumers) handlers run) {m : ℕ}
    (hcall : (run m).feed.world.call p = some (.nextN n)) :
    (∃ k, m ≤ k ∧ ((run k).feed.world.result p = some (.ok (run k).feed.world.high) ∨ (run k).feed.world.closed = true)) ∨
      multiProducer = true ∧ ∀ x, ∃ k, m ≤ k ∧ (run k).feed.world.call p = some (.nextN n) ∧ x ≤ (run k).feed.world.high := by
  have hwf := wf_createDisruptorCore hcalls
  have hI := h.supply hwf rfl (by rw [h0]; exact supplyInv_init hwf)
  cases multiProducer with
  | false =>
    have hsingle : ∀ k, (run k).feed.world.isMulti = false := h.isMulti (by rw [h0]; rfl)
    obtain ⟨k, hk, hr | ⟨hmulti, -⟩⟩ := h.waits_leadsTo hwf rfl hI p n _ m ⟨hcall, rfl⟩
    · exact .inl ⟨k, hk, hr⟩
    · rw [hsingle k] at hmulti
      cases hmulti
  | true =>
    by_cases hgranted : ∃ k, m ≤ k ∧ ((run k).feed.world.result p = some (.ok (run k).feed.world.high) ∨
        (run k).feed.world.closed = true)
    · exact .inl hgranted
    · refine .inr ⟨rfl, fun x => ?_⟩
      obtain ⟨k, hk, hr | hq⟩ := h.granted_leadsTo hwf rfl hI p n x m hcall
      · exact absurd ⟨k, hk, hr⟩ hgranted
      · exact ⟨k, hk, hq⟩

/-- The ring is full, the producer has found no room for the second event, and it gets it. -/
theorem builder_grants_solo : (soloRun 17).feed.world.hasCapacity soloSize 1 = false ∧
    ∃ k, 17 ≤ k ∧ (soloRun k).feed.world.result 0 = some (.ok (soloRun k).feed.world.high) := by
  refine ⟨rfl, ?_⟩
  rcases builder_grants (show builderConsumers .mutable [] = some _ from rfl) rfl suppliedRun_solo (p := 0) (n := 1) (m := 17)
    rfl with ⟨k, hk, hr | hclosed⟩ | ⟨h, -⟩
  · exact ⟨k, hk, hr⟩
  · rw [soloRun_open k] at hclosed
    cases hclosed
  · cases h

end Builder

end BadBatch
