import BadBatch.Liveness.Loops
import BadBatch.Pipeline.Delivery
import BadBatch.Lib.Temporal

/-!
# What is published is consumed

In a run without failures in which no consumer is stopped every consumer that keeps taking steps gets past everything
published, stage by stage: the barrier of a stage offers what the stage before has passed. Nothing is asked of the
producers; what the consumers have to do is more than load the alert and shutdown flags for ever.

* `LiveInv`, `liveInv_step`: nobody has been told to stop, and every barrier call is patient;
* `onward_step`: a step takes a consumer with something to consume further or closer to that, and the steps of the others do
  not set it back;
* `FairRun`: the runs in question;
* `stages_leadTo`: from the first stage to the last.
-/

namespace BadBatch

open MultiProducerSequencer StepSys Temporal

variable {E : Type} {b : BufferSize} {t : Wiring} {handlers : Nat → E → Int → Bool → E} {st st' : Pipeline E} {c d k : Nat}
  {s x : Int} {a : PipelineAction E}

/-- A step that fails nothing and stops no consumer, of consumers that wait without a deadline. The claim path may be closed. -/
def PipelineAction.live : PipelineAction E → Bool
  | wait _ call => call == .waitForWithShutdown
  | producer a => !a.fails
  | a => a.calm

/-- A step of consumer `c` other than one more load of a flag while it waits. -/
def PipelineAction.moves (c : Nat) : PipelineAction E → Bool
  | wait d _ => d == c
  | barrier d i => d == c && i == .next
  | consumer d _ _ => d == c
  | _ => false

theorem calm_of_live (h : a.live = true) : a = .producer .close ∨ a.calm = true := by
  cases a with
  | producer a =>
    cases a with
    | close => exact .inl rfl
    | _ => exact .inr h
  | wait => exact .inr rfl
  | _ => exact .inr h

/-! ## The invariant -/

/-- The invariant of the pipeline, and no call ends before its sequence is there. -/
structure LiveInv (b : BufferSize) (t : Wiring) (st : Pipeline E) : Prop where
  pipe : PipeInv b t st
  calm : CalmInv st
  patient : ∀ c, (st.barriers c).Patient

/-- A step of the loop of consumer `d`: the others stay as they are, and its barrier call is over. -/
theorem consumerStep_frame {i : EngineInput} {torn : Option E} (hs : st.consumerStep b t handlers d i torn = some st') :
    (∀ c, c ≠ d → Same st st' c) ∧ st'.barriers d = .idle ∧
      ((t.runMode (t.stage d) = .sequential ∧ st'.work = st.work ∧
        seqStep (Pipeline.config t d) (st.sequences d) (st.sequential d) i = some (st'.sequences d, st'.sequential d)) ∨
      (t.runMode (t.stage d) = .workPool ∧ (∀ k, k ≠ t.stage d → st'.work k = st.work k) ∧
        workStep (Pipeline.config t d) (st.work (t.stage d)) (st.sequences d) (st.workers d) i =
          some (st'.work (t.stage d), st'.sequences d, st'.workers d))) := by
  obtain ⟨-, -, ⟨hm, v, l, hst, rfl⟩ | ⟨hm, work, v, l, hst, rfl⟩⟩ := consumerStep_cases hs
  · rw [access_sequences, access_sequential, sequences_settle, Function.update_self, hst]
    obtain ⟨ring, held, received, doneBy, he⟩ := access_frame b t handlers
      ({ st with sequential := Function.update st.sequential d l }.settle d v (st.sequential d).pc.fault) d
      (st.sequential d).pc.inside l.pc.inside i torn
    rw [he]
    refine ⟨fun c hc => ?_, Function.update_self d _ st.barriers, .inl ⟨hm, rfl, ?_⟩⟩
    · have hsame := same_settle { st with sequential := Function.update st.sequential d l } v (st.sequential d).pc.fault hc
      exact ⟨hsame.sequences, hsame.barriers, Function.update_of_ne hc _ _, rfl⟩
    · simp only [Pipeline.settle, Function.update_self]
  · rw [access_sequences, access_workers, sequences_settle, Function.update_self, hst]
    obtain ⟨ring, held, received, doneBy, he⟩ := access_frame b t handlers
      ({ st with
        workers := Function.update st.workers d l
        work := Function.update st.work (t.stage d) work }.settle d v (st.workers d).pc.fault) d
      (st.workers d).inside l.inside i torn
    rw [he]
    refine ⟨fun c hc => ?_, Function.update_self d _ st.barriers, .inr ⟨hm, fun k hk => Function.update_of_ne hk _ _, ?_⟩⟩
    · have hsame := same_settle { st with
        workers := Function.update st.workers d l
        work := Function.update st.work (t.stage d) work } v (st.workers d).pc.fault hc
      exact ⟨hsame.sequences, hsame.barriers, rfl, Function.update_of_ne hc _ _⟩
    · simp only [Pipeline.settle, Function.update_self]

/-- **Step lemma.** -/
theorem liveInv_step (hwf : t.Wf) (ht : t.stop = .external) (h : LiveInv b t st) (ha : a.live = true)
    (hs : st.step b t handlers a = some st') : LiveInv b t st' := by
  have hcalm : CalmInv st' := by
    rcases calm_of_live ha with rfl | hc
    · cases pipelineRule_of_step hs with
      | producer => exact ⟨h.calm.shutdown, h.calm.alerted, h.calm.barriers, h.calm.sequential, h.calm.workers⟩
    · exact calmInv_step ht h.calm hc hs
  refine ⟨pipeInv_step hwf h.pipe hs, hcalm, fun c => ?_⟩
  cases pipelineRule_of_step hs with
  | producer => exact h.patient c
  | @wait d call s =>
    by_cases hc : c = d
    · subst hc
      obtain rfl : call = .waitForWithShutdown := by simpa [PipelineAction.live] using ha
      simp only [Function.update_self, ht]
      exact patient_start
    · simp only [Function.update_of_ne hc]
      exact h.patient c
  | @barrier d i pc hd hst =>
    by_cases hc : c = d
    · subst hc
      rw [h.calm.alerted c, h.calm.shouldContinue ht] at hst
      simp only [Function.update_self]
      rcases patient_step (h.pipe.reads hwf hd) (h.pipe.consumers.each c hd).barrier (h.patient c) hst with
        ⟨-, rfl⟩ | ⟨-, hcloser⟩
      · exact h.patient c
      · exact hcloser.patient
    · simp only [Function.update_of_ne hc]
      exact h.patient c
  | @consumer d i torn _ hstep =>
    obtain ⟨hothers, hidle, -⟩ := consumerStep_frame hstep
    by_cases hc : c = d
    · subst hc
      rw [hidle]
      trivial
    · rw [(hothers c hc).barriers]
      exact h.patient c
  | restart | raiseShutdown | setRunning | setAlert => cases ha

/-! ## One consumer -/

/-- How far consumer `c` is from its next claim or store. -/
def Pipeline.rank (t : Wiring) (st : Pipeline E) (c : Nat) : Nat × Nat :=
  match t.runMode (t.stage c) with
  | .sequential => (st.sequential c).pc.rank (st.sequences c) (st.barriers c)
  | .workPool => (st.workers c).rank (st.work (t.stage c)) (st.sequences c) (st.barriers c)

/-- How far consumer `c` is on its way past `x`; a worker also gets further when its pool claims. -/
def Pipeline.reach (t : Wiring) (x : Int) (c : Nat) (st : Pipeline E) : Int :=
  min (st.sequences c) x +
    match t.runMode (t.stage c) with
    | .sequential => x
    | .workPool => min (st.work (t.stage c)) x

/-- The step `a` takes consumer `c` further, or it does not set it back, and brings it closer if it is its own. -/
def Pipeline.Onward (t : Wiring) (x : Int) (c : Nat) (a : PipelineAction E) (st st' : Pipeline E) : Prop :=
  st.reach t x c < st'.reach t x c ∨ st'.reach t x c = st.reach t x c ∧ toLex (st'.rank t c) ≤ toLex (st.rank t c) ∧
    (a.moves c = true → toLex (st'.rank t c) < toLex (st.rank t c))

/-- Consumer `c` may get past `x`: all up to `x` is published, and the consumers it waits for are past it. -/
structure Pipeline.Offers (t : Wiring) (st : Pipeline E) (c : Nat) (x : Int) : Prop where
  published : ∀ s, 0 ≤ s → s ≤ x → st.feed.world.ledger.published s = true
  dependents : ∀ d ∈ t.dependentSequences c, x ≤ st.sequences d

theorem Pipeline.Offers.mono (h : st.Offers t c x) (hg : Grows st.feed.world st'.feed.world) : st'.Offers t c x :=
  ⟨fun s h0 hs => hg.published s (h.published s h0 hs), fun d hd => le_trans (h.dependents d hd) (hg.sequences d)⟩

/-- What is offered and comes next is available. -/
theorem PipeInv.available_of_offers (hwf : t.Wf) (h : PipeInv b t st) (hc : c < t.count) (ho : st.Offers t c x)
    (hx : st.sequences c < x) : st.Available b t c (st.sequences c + 1) := by
  have hlow := (h.consumers.each c hc).low
  have hpub := ho.published (st.sequences c + 1) (by omega) (by omega)
  refine h.available hwf hc (by omega) ?_ hpub
  unfold Offered
  split
  · exact h.feed.world.books.le_cursor hpub
  · intro d hd
    exact le_trans (by omega) (ho.dependents d hd)

/-- Whoever is inside a barrier call awaits something. -/
theorem PipeInv.awaited_of_barrier (h : PipeInv b t st) (hc : c < t.count) (hne : st.barriers c ≠ .idle) :
    ∃ s, st.awaited t c = some s := by
  have hC := h.consumers.each c hc
  unfold Pipeline.awaited
  cases hm : t.runMode (t.stage c) with
  | sequential =>
    obtain ⟨next, hpc⟩ := (hC.sequential hm).waits hne
    exact ⟨next, by simp only [hpc]⟩
  | workPool =>
    obtain ⟨claimed, hpc⟩ := (hC.worker hm).waits hne
    exact ⟨claimed, by simp only [hpc]⟩

/-- Whoever is not past `x` is short of it by its `Sequence`. -/
theorem PipeInv.lt_of_reach (h : PipeInv b t st) (hc : c < t.count) (hr : st.reach t x c < 2 * x) : st.sequences c < x := by
  unfold Pipeline.reach at hr
  cases hm : t.runMode (t.stage c) with
  | sequential =>
    simp only [hm] at hr
    omega
  | workPool =>
    have hok := (h.consumers.pool _ hm).each c (Wiring.mem_members.mpr ⟨hc, rfl⟩)
    have hhigh : st.sequences c ≤ st.work (t.stage c) := hok.high
    simp only [hm] at hr
    grind

/-- A step of others, in which only the work cursor of the stage may move. -/
theorem onward_other (h : PipeInv b t st) (hc : c < t.count) (hsame : Same st st' c)
    (hwork : st.work (t.stage c) ≤ st'.work (t.stage c)) (hx : st.sequences c < x) (hm : a.moves c = false) :
    st.Onward t x c a st' := by
  suffices hsuff : st.reach t x c < st'.reach t x c ∨ st'.reach t x c = st.reach t x c ∧ st'.rank t c = st.rank t c from
    hsuff.imp id fun ⟨hr, hk⟩ => ⟨hr, le_of_eq (congrArg toLex hk), fun hm' => by rw [hm] at hm'; cases hm'⟩
  unfold Pipeline.reach Pipeline.rank
  rw [hsame.sequences, hsame.barriers, hsame.sequential, hsame.workers]
  cases hm : t.runMode (t.stage c) with
  | sequential => exact .inr ⟨rfl, rfl⟩
  | workPool =>
    have hok := (h.consumers.pool _ hm).each c (Wiring.mem_members.mpr ⟨hc, rfl⟩)
    have hhigh : st.sequences c ≤ st.work (t.stage c) := hok.high
    rcases eq_or_lt_of_le hwork with he | hlt
    · exact .inr ⟨by rw [he], by rw [he]⟩
    · by_cases hwx : st.work (t.stage c) < x
      · exact .inl (by simp only; omega)
      · exact .inr ⟨by simp only; omega, workRank_mono hok (by omega) hwork⟩

/-- A step of the barrier call that `c` is inside of. -/
theorem onward_barrier {pc : BarrierPc} (ha : ∃ s, st.awaited t c = some s)
    (hlt : toLex (pc.rank (st.sequences c + 1)) < toLex ((st.barriers c).rank (st.sequences c + 1))) :
    st.Onward t x c a { st with barriers := Function.update st.barriers c pc } := by
  suffices hsuff : toLex (({ st with barriers := Function.update st.barriers c pc } : Pipeline E).rank t c) <
      toLex (st.rank t c) from .inr ⟨rfl, le_of_lt hsuff, fun _ => hsuff⟩
  obtain ⟨s, ha⟩ := ha
  unfold Pipeline.awaited at ha
  unfold Pipeline.rank
  cases hm : t.runMode (t.stage c) with
  | sequential =>
    simp only [hm, Function.update_self] at ha ⊢
    cases hpc : (st.sequential c).pc with
    | waiting next => exact toLex_add_lt hlt
    | _ => simp [hpc] at ha
  | workPool =>
    simp only [hm, WorkLoop.rank, Function.update_self] at ha ⊢
    cases hpc : (st.workers c).pc with
    | waiting claimed => exact toLex_add_lt hlt
    | _ => simp [hpc] at ha

/-- The barrier has answered with a value. -/
theorem LiveInv.answered {i : EngineInput} (h : LiveInv b t st) (hin : st.inputOk t c i = true) :
    Answered (st.barriers c) i := by
  rintro r rfl
  have hb := inputOk_answer hin rfl
  have hp := h.patient c
  rw [hb] at hp
  cases r with
  | ok v => exact ⟨v, rfl, hb⟩
  | error e => exact hp.elim

/-- A step of the loop of consumer `c`. -/
theorem onward_consumer {i : EngineInput} {torn : Option E} (ht : t.stop = .external) (h : LiveInv b t st) (hc : c < t.count)
    (hi : i.fails = false) (hx : st.sequences c < x) (hs : st.consumerStep b t handlers c i torn = some st') :
    st.Onward t x c a st' := by
  suffices hsuff : st.reach t x c < st'.reach t x c ∨
      st'.reach t x c = st.reach t x c ∧ toLex (st'.rank t c) < toLex (st.rank t c) from
    hsuff.imp id fun ⟨hr, hlt⟩ => ⟨hr, le_of_lt hlt, fun _ => hlt⟩
  have hin := (consumerStep_cases hs).2.1
  have hcalm := h.calm.input ht hin hi
  have hans := h.answered hin
  obtain ⟨-, hidle, ⟨hm, hwork, hst⟩ | ⟨hm, -, hst⟩⟩ := consumerStep_frame hs
  · have hplace := ((h.pipe.consumers.each c hc).sequential hm).place
    unfold Pipeline.reach Pipeline.rank
    simp only [hm, hidle]
    rcases seqRank_step hst hcalm (h.calm.sequential c) hplace hans with hlt | ⟨he, hlt⟩
    · exact .inl (by omega)
    · rw [he]
      exact .inr ⟨rfl, hlt⟩
  · have hok : WorkerOk (st.work (t.stage c)) (st.sequences c) (st.workers c) :=
      (h.pipe.consumers.pool _ hm).each c (Wiring.mem_members.mpr ⟨hc, rfl⟩)
    have hhigh := hok.high
    have hgrow := workerOk_step hst hok
    unfold Pipeline.reach Pipeline.rank
    simp only [hm, hidle]
    rcases workRank_step hst hcalm (h.calm.workers c) hok hans with hlt | ⟨he, hlt⟩ | ⟨hwe, he, hlt⟩
    · refine .inl ?_
      rcases hgrow.2.2 with ⟨hw, -⟩ | ⟨hw, -⟩ <;> grind
    · have hle := hgrow.2.1
      exact .inl (by grind)
    · rw [he, hwe]
      exact .inr ⟨rfl, hlt⟩

/-- **Step lemma.** A step of consumer `c` takes it further or closer to that, and no step sets it back. -/
theorem onward_step (hwf : t.Wf) (ht : t.stop = .external) (h : LiveInv b t st) (ha : a.live = true)
    (hs : st.step b t handlers a = some st') (hc : c < t.count) (ho : st.Offers t c x) (hx : st.sequences c < x) :
    st.Onward t x c a st' := by
  cases pipelineRule_of_step hs with
  | producer hst =>
    exact onward_other h.pipe hc ⟨congrFun (h.pipe.feed.books.step_world hst).1 c, rfl, rfl, rfl⟩ le_rfl hx rfl
  | @wait d call s haw hd hidle =>
    by_cases hcd : c = d
    · subst hcd
      obtain rfl : call = .waitForWithShutdown := by simpa [PipelineAction.live] using ha
      refine onward_barrier ⟨s, haw⟩ ?_
      rw [hidle, ht]
      exact Prod.Lex.left _ _ (show 7 < 8 by decide)
    · refine onward_other h.pipe hc ⟨rfl, Function.update_of_ne hcd _ _, rfl, rfl⟩ le_rfl hx ?_
      simpa [PipelineAction.moves] using Ne.symm hcd
  | @barrier d i pc hd hst =>
    by_cases hcd : c = d
    · subst hcd
      rw [h.calm.alerted c, h.calm.shouldContinue ht] at hst
      rcases patient_step (h.pipe.reads hwf hc) (h.pipe.consumers.each c hc).barrier (h.patient c) hst with
        ⟨hi, rfl⟩ | ⟨rfl, hcloser⟩
      · rw [Function.update_eq_self]
        exact .inr ⟨rfl, le_rfl, fun hm => by simp [PipelineAction.moves, hi] at hm⟩
      · have hav := h.pipe.available_of_offers hwf hc ho hx
        exact onward_barrier (h.pipe.awaited_of_barrier hc (barrierStep_ne_idle hst)) (hcloser.lower hav.1 hav.2)
    · refine onward_other h.pipe hc ⟨rfl, Function.update_of_ne hcd _ _, rfl, rfl⟩ le_rfl hx ?_
      simp [PipelineAction.moves, Ne.symm hcd]
  | @consumer d i torn _ hstep =>
    by_cases hcd : c = d
    · subst hcd
      have hi : i.fails = false := by simpa [PipelineAction.live, PipelineAction.calm] using ha
      exact onward_consumer ht h hc hi hx hstep
    · obtain ⟨hothers, -, hloop⟩ := consumerStep_frame hstep
      refine onward_other h.pipe hc (hothers c hcd) ?_ hx (by simpa [PipelineAction.moves] using Ne.symm hcd)
      rcases hloop with ⟨-, hwork, -⟩ | ⟨hm, hwork, hst⟩
      · rw [hwork]
      · by_cases hk : t.stage c = t.stage d
        · have hd := (consumerStep_cases hstep).1
          have hok : WorkerOk (st.work (t.stage d)) (st.sequences d) (st.workers d) :=
            (h.pipe.consumers.pool _ hm).each d (Wiring.mem_members.mpr ⟨hd, rfl⟩)
          rw [hk]
          rcases (workerOk_step hst hok).2.2 with ⟨he, -⟩ | ⟨he, -⟩ <;> omega
        · rw [hwork _ hk]
  | restart | raiseShutdown | setRunning | setAlert => cases ha

/-! ## Runs -/

/-- A step of such a run. -/
def LiveStep (b : BufferSize) (t : Wiring) (handlers : Nat → E → Int → Bool → E) (st st' : Pipeline E) : Prop :=
  ∃ a, a.live = true ∧ st.step b t handlers a = some st'

/-- A step of consumer `c` that is more than the load of a flag. -/
def ConsumerMoves (b : BufferSize) (t : Wiring) (handlers : Nat → E → Int → Bool → E) (c : Nat) (st st' : Pipeline E) : Prop :=
  ∃ a, a.live = true ∧ a.moves c = true ∧ st.step b t handlers a = some st'

/-- The runs in which nothing fails, no consumer is asked to stop, and every consumer keeps taking steps. -/
structure FairRun (b : BufferSize) (t : Wiring) (handlers : Nat → E → Int → Bool → E) (run : ℕ → Pipeline E) : Prop where
  steps : Steps (LiveStep b t handlers) run
  consumers : ∀ c < t.count, InfinitelyOften (ConsumerMoves b t handlers c) run

section Runs

variable {run : ℕ → Pipeline E}

theorem FairRun.inv (hwf : t.Wf) (ht : t.stop = .external) (h : FairRun b t handlers run) (h0 : LiveInv b t (run 0)) (n : ℕ) :
    LiveInv b t (run n) :=
  h.steps.inv h0 (fun hI ⟨_, ha, hs⟩ => liveInv_step hwf ht hI ha hs) n

/-- Sequences and publications grow along a run. -/
theorem FairRun.grows (h : FairRun b t handlers run) (hI : ∀ n, LiveInv b t (run n)) {n m : ℕ} (hle : n ≤ m) :
    Grows (run n).feed.world (run m).feed.world := by
  refine h.steps.stays (P := fun st => Grows (run n).feed.world st.feed.world) hI ?_ hle (.refl _)
  rintro st st' hinv hg ⟨a, -, hs⟩
  exact hg.trans (hinv.pipe.grows hs)

/-- **One consumer.** Whoever is offered all up to `x` gets past it. -/
theorem FairRun.consumer_leadsTo (hwf : t.Wf) (ht : t.stop = .external) (h : FairRun b t handlers run)
    (hI : ∀ n, LiveInv b t (run n)) (hc : c < t.count) (x : Int) :
    LeadsTo run (fun st => st.Offers t c x) fun st => x ≤ st.sequences c := by
  have hreach : LeadsTo run (fun st => st.Offers t c x) fun st =>
      x ≤ st.sequences c ∨ st.Offers t c x ∧ 2 * x ≤ st.reach t x c := by
    refine leadsTo_of_progress fun v hv => ?_
    -- as long as it is not further it comes closer
    have hstep : ∀ {st st' : Pipeline E} {a}, LiveInv b t st → st.Offers t c x ∧ st.reach t x c = v → a.live = true →
        st.step b t handlers a = some st' → (x ≤ st'.sequences c ∨ st'.Offers t c x ∧ v < st'.reach t x c) ∨
          (st'.Offers t c x ∧ st'.reach t x c = v) ∧ toLex (st'.rank t c) ≤ toLex (st.rank t c) ∧
            (a.moves c = true → toLex (st'.rank t c) < toLex (st.rank t c)) := by
      rintro st st' a hinv ⟨ho, hr⟩ ha hs
      have ho' := ho.mono (hinv.pipe.grows hs)
      rcases onward_step hwf ht hinv ha hs hc ho (hinv.pipe.lt_of_reach hc (by rw [hr]; exact hv)) with hlt | ⟨he, hle, hmv⟩
      · exact .inl (.inr ⟨ho', by rw [← hr]; exact hlt⟩)
      · exact .inr ⟨⟨ho', by rw [he, hr]⟩, hle, hmv⟩
    refine leadsTo_of_rank (T := ConsumerMoves b t handlers c) (fun st => toLex (st.rank t c)) h.steps
      (fun n => (h.consumers c hc n).imp fun m hm => ⟨hm.1, fun _ => hm.2⟩) hI ?_ ?_
    · rintro st st' hinv - hp ⟨a, ha, hs⟩
      exact (hstep hinv hp ha hs).imp id fun hq => ⟨hq.1, hq.2.1⟩
    · rintro st st' hinv - hp ⟨a, ha, hm, hs⟩
      exact (hstep hinv hp ha hs).imp id fun hq => ⟨hq.1, hq.2.2 hm⟩
  intro n hn
  obtain ⟨m, hm, hx | ⟨-, hx⟩⟩ := hreach n hn
  · exact ⟨m, hm, hx⟩
  refine ⟨m, hm, ?_⟩
  have hle : (run m).reach t x c ≤ min ((run m).sequences c) x + x := by
    unfold Pipeline.reach
    split
    · exact le_rfl
    · exact Int.add_le_add_left (min_le_right _ _) _
  omega

/-- All up to `x` is published, and the stages before `k` are past it. -/
structure Pipeline.Through (t : Wiring) (st : Pipeline E) (x : Int) (k : Nat) : Prop where
  published : ∀ s, 0 ≤ s → s ≤ x → st.feed.world.ledger.published s = true
  stages : ∀ c < t.count, t.stage c < k → x ≤ st.sequences c

/-- **Stage by stage.** -/
theorem FairRun.stages_leadTo (hwf : t.Wf) (ht : t.stop = .external) (h : FairRun b t handlers run)
    (hI : ∀ n, LiveInv b t (run n)) (x : Int) (k : Nat) :
    LeadsTo run (fun st => ∀ s, 0 ≤ s → s ≤ x → st.feed.world.ledger.published s = true) fun st => st.Through t x k := by
  induction k with
  | zero => exact .of_imp fun n hp => ⟨hp, fun c _ hk => absurd hk (Nat.not_lt_zero _)⟩
  | succ k ih =>
    refine ih.trans ?_
    have hall : LeadsTo run (fun st => st.Through t x k) fun st => ∀ c < t.count, t.stage c < k + 1 → x ≤ st.sequences c := by
      refine LeadsTo.forall_lt (Q := fun c (st : Pipeline E) => t.stage c < k + 1 → x ≤ st.sequences c) (fun c hc n hp => ?_)
        fun c n m hle hq hk => le_trans (hq hk) ((h.grows hI hle).sequences c)
      by_cases hk : t.stage c < k
      · exact ⟨n, le_rfl, fun _ => hp.stages c hc hk⟩
      · by_cases hk' : t.stage c = k
        · -- its dependents are on the stage before
          have ho : (run n).Offers t c x := ⟨hp.published, fun d hd => by
            obtain ⟨hd, -, hs⟩ := (hwf.dependents c hc d).mp hd
            exact hp.stages d hd (by omega)⟩
          obtain ⟨m, hm, hx⟩ := h.consumer_leadsTo hwf ht hI hc x n ho
          exact ⟨m, hm, fun _ => hx⟩
        · exact ⟨n, le_rfl, fun hlt => by omega⟩
    intro n hp
    obtain ⟨m, hm, hq⟩ := hall n hp
    exact ⟨m, hm, fun s h0 hs => (h.grows hI hm).published s (hp.published s h0 hs), hq⟩

end Runs

end BadBatch
