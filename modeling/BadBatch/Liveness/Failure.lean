import BadBatch.Liveness.Stop
import BadBatch.Liveness.Delivery
import BadBatch.Pipeline.Panic

/-!
# A failure poisons

Nobody leaves a running pipeline quietly: as long as the shutdown flag is down, a consumer that fails or panics and a producer
whose update closure panics go on to poison the sequencer, and a consumer that has left has done so.

* `RunInv`: what holds while the shutdown flag is down;
* `faulty_step`, `unwinding_lower`: every step of whoever fails brings the poison closer;
* `live_of_orderly`: where nobody fails, every step is one of a failure-free run.
-/

namespace BadBatch

open MultiProducerSequencer

variable {E : Type} {b : BufferSize} {t : Wiring} {handlers : Nat → E → Int → Bool → E} {st st' : Pipeline E} {c d p : Nat}
  {s : Int} {a : PipelineAction E}

/-! ## Consumers -/

/-- The thread is on its way to poison the sequencer. -/
def SeqPc.faulty : SeqPc → Bool
  | .freeze _ | .record _ _ | .poison _ _ => true
  | _ => false

def WorkPc.faulty : WorkPc → Bool
  | .record _ _ _ | .poison _ _ _ => true
  | _ => false

/-- The thread has left its loop. -/
def SeqPc.left : SeqPc → Bool
  | .stopping | .recordShutdown _ | .done => true
  | _ => false

def WorkPc.left : WorkPc → Bool
  | .stopping _ | .recordShutdown _ _ | .done _ => true
  | _ => false

theorem SeqPc.inLoop_or (pc : SeqPc) : pc.inLoop = true ∨ pc.faulty = true ∨ pc.left = true := by
  cases pc <;> simp [SeqPc.inLoop, SeqPc.faulty, SeqPc.left]

theorem WorkPc.stopped_or (pc : WorkPc) : pc.stopped = false ∨ pc.faulty = true ∨ pc.left = true := by
  cases pc <;> simp [WorkPc.stopped, WorkPc.faulty, WorkPc.left]

section Loops

variable {cfg : EngineConfig} {work work' sequence sequence' : Int} {i : EngineInput}

/-- A step of a failing loop poisons, or it goes on to do so. -/
theorem faulty_seqStep {l l' : SeqLoop} (h : seqStep cfg sequence l i = some (sequence', l')) (hf : l.pc.faulty = true) :
    i ≠ .flag true ∧ (l.pc.fault.poison = true ∨ l'.pc.faulty = true) := by
  obtain ⟨pc, calls, ret, ends, failed⟩ := l
  cases seqRule_of_seqStep h with
  | panic => exact ⟨by simp, .inr rfl⟩
  | freeze | record => exact ⟨by simp, .inr rfl⟩
  | poison | poisonLast => exact ⟨by simp, .inl rfl⟩
  | _ => cases hf

theorem faulty_workStep {l l' : WorkLoop} (h : workStep cfg work sequence l i = some (work', sequence', l'))
    (hf : l.pc.faulty = true) : i ≠ .flag true ∧ (l.pc.fault.poison = true ∨ l'.pc.faulty = true) := by
  obtain ⟨pc, ca, la, calls, ret⟩ := l
  cases workRule_of_workStep h with
  | panic | record => exact ⟨by simp, .inr rfl⟩
  | poison | poisonLast => exact ⟨by simp, .inl rfl⟩
  | _ => cases hf

/-- Whoever leaves its loop while no flag stops it poisons. -/
theorem left_seqStep {l l' : SeqLoop} (h : seqStep cfg sequence l i = some (sequence', l')) (hi : i ≠ .flag false)
    (ha : ∀ e, i ≠ .answer (.error e)) (hl : l'.pc.left = true) : l.pc.fault.poison = true ∨ l.pc.left = true := by
  obtain ⟨pc, calls, ret, ends, failed⟩ := l
  cases seqRule_of_seqStep h with
  | stop | giveUp => exact absurd rfl hi
  | ended | waitErr => exact absurd rfl (ha _)
  | poison | poisonLast => exact .inl rfl
  | doneReadonly | done | shutdownFailed | recordShutdown => exact .inr rfl
  | _ => cases hl

theorem left_workStep {l l' : WorkLoop} (h : workStep cfg work sequence l i = some (work', sequence', l'))
    (hi : i ≠ .flag false) (ha : ∀ e, i ≠ .answer (.error e)) (hl : l'.pc.left = true) :
    l.pc.fault.poison = true ∨ l.pc.left = true := by
  obtain ⟨pc, ca, la, calls, ret⟩ := l
  cases workRule_of_workStep h with
  | stopOuter | stopInner | stopGuard | giveUp => exact absurd rfl hi
  | ended | waitErr => exact absurd rfl (ha _)
  | poison | poisonLast => exact .inl rfl
  | done | shutdownFailed | recordShutdown => exact .inr rfl
  | _ => cases hl

/-- A failure ends the loop, unless an exception handler answers it. -/
theorem inLoop_of_fails {l l' : SeqLoop} (h : seqStep cfg sequence l i = some (sequence', l'))
    (hx : cfg.hasExceptionHandler = false) (hi : i.fails = true) : l'.pc.inLoop = false := by
  obtain ⟨pc, calls, ret, ends, failed⟩ := l
  cases seqRule_of_seqStep h with
  | panic | startFailed | batchStartFailed | fail | shutdownFailed => rfl
  | skip he =>
    rw [hx] at he
    cases he
  | _ => cases hi

theorem stopped_of_fails {l l' : WorkLoop} (h : workStep cfg work sequence l i = some (work', sequence', l'))
    (hi : i.fails = true) : l'.pc.stopped = true := by
  obtain ⟨pc, ca, la, calls, ret⟩ := l
  cases workRule_of_workStep h with
  | panic | startFailed | batchStartFailed | fail | shutdownFailed => rfl
  | _ => cases hi

end Loops

/-! ## The pipeline -/

/-- Consumer `c` is on its way to poison the sequencer. -/
def Pipeline.faulty (t : Wiring) (st : Pipeline E) (c : Nat) : Bool :=
  match t.runMode (t.stage c) with
  | .sequential => (st.sequential c).pc.faulty
  | .workPool => (st.workers c).pc.faulty

/-- Consumer `c` has left its loop. -/
def Pipeline.left (t : Wiring) (st : Pipeline E) (c : Nat) : Bool :=
  match t.runMode (t.stage c) with
  | .sequential => (st.sequential c).pc.left
  | .workPool => (st.workers c).pc.left

/-- A step of a consumer raises no alert and moves no producer. -/
theorem consumerStep_alerted {i : EngineInput} {torn : Option E} (hs : st.consumerStep b t handlers c i torn = some st') :
    st'.alerted = st.alerted ∧ st'.feed.phases = st.feed.phases := by
  obtain ⟨-, -, ⟨-, v, l, -, rfl⟩ | ⟨-, work, v, l, -, rfl⟩⟩ := consumerStep_cases hs
  · obtain ⟨ring, held, received, doneBy, he⟩ := access_frame b t handlers
      ({ st with sequential := Function.update st.sequential c l }.settle c v (st.sequential c).pc.fault) c
      (st.sequential c).pc.inside l.pc.inside i torn
    rw [he]
    exact ⟨rfl, rfl⟩
  · obtain ⟨ring, held, received, doneBy, he⟩ := access_frame b t handlers
      ({ st with
        workers := Function.update st.workers c l
        work := Function.update st.work (t.stage c) work }.settle c v (st.workers c).pc.fault) c
      (st.workers c).inside l.inside i torn
    rw [he]
    exact ⟨rfl, rfl⟩

/-- The step that poisons. -/
theorem poisoned_consumer {i : EngineInput} {torn : Option E} (hs : st.consumerStep b t handlers c i torn = some st')
    (hp : match t.runMode (t.stage c) with
      | .sequential => (st.sequential c).pc.fault.poison = true
      | .workPool => (st.workers c).pc.fault.poison = true) : st'.feed.world.poisoned = true := by
  have hflag : ∀ {w : SequencerWorld} {v}, (w.store c v).poison.poisoned = true := by
    intro w v
    cases w <;> rfl
  obtain ⟨-, -, ⟨hm, v, l, -, rfl⟩ | ⟨hm, work, v, l, -, rfl⟩⟩ := consumerStep_cases hs
  · obtain ⟨ring, held, received, doneBy, he⟩ := access_frame b t handlers
      ({ st with sequential := Function.update st.sequential c l }.settle c v (st.sequential c).pc.fault) c
      (st.sequential c).pc.inside l.pc.inside i torn
    simp only [hm] at hp
    rw [he]
    simp only [world_settle, hp, if_true]
    exact hflag
  · obtain ⟨ring, held, received, doneBy, he⟩ := access_frame b t handlers
      ({ st with
        workers := Function.update st.workers c l
        work := Function.update st.work (t.stage c) work }.settle c v (st.workers c).pc.fault) c
      (st.workers c).inside l.inside i torn
    simp only [hm] at hp
    rw [he]
    simp only [world_settle, hp, if_true]
    exact hflag

/-- Whoever fails is not inside a wait. -/
theorem awaited_of_faulty (hf : st.faulty t c = true) : st.awaited t c = none := by
  unfold Pipeline.faulty at hf
  unfold Pipeline.awaited
  cases hm : t.runMode (t.stage c) with
  | sequential =>
    simp only [hm] at hf ⊢
    cases hpc : (st.sequential c).pc with
    | waiting =>
      rw [hpc] at hf
      cases hf
    | _ => rfl
  | workPool =>
    simp only [hm] at hf ⊢
    cases hpc : (st.workers c).pc with
    | waiting =>
      rw [hpc] at hf
      cases hf
    | _ => rfl

/-- **Whoever fails poisons.** No step sets consumer `c` back, and its own steps bring the poison closer. -/
theorem faulty_step (h : PipeInv b t st) (hc : c < t.count) (hf : st.faulty t c = true) (ha : a.orderly t st = true)
    (hs : st.step b t handlers a = some st') : st'.feed.world.poisoned = true ∨ st'.faulty t c = true ∧
      toLex (st'.endRank t c) ≤ toLex (st.endRank t c) ∧
        (a.leaves st c = true → toLex (st'.endRank t c) < toLex (st.endRank t c)) := by
  by_cases hown : a.party = some c
  · have hnone := awaited_of_faulty hf
    cases pipelineRule_of_step hs with
    | wait haw =>
      cases hown
      rw [hnone] at haw
      cases haw
    | barrier hd hst =>
      cases hown
      obtain ⟨s, haw⟩ := h.awaited_of_barrier hc (barrierStep_ne_idle hst)
      rw [hnone] at haw
      cases haw
    | @consumer _ i torn _ hstep =>
      cases hown
      have hpanic : i = .panic → st.reporting t c = false := by
        rintro rfl
        simpa [PipelineAction.orderly] using ha
      obtain ⟨-, hidle, ⟨hm, -, hst⟩ | ⟨hm, -, hst⟩⟩ := consumerStep_frame hstep
      · simp only [Pipeline.faulty, hm] at hf
        simp only [Pipeline.reporting, hm] at hpanic
        obtain ⟨hflag, hp | hf'⟩ := faulty_seqStep hst hf
        · exact .inl (poisoned_consumer hstep (by simpa only [hm] using hp))
        · refine .inr ⟨by simpa only [Pipeline.faulty, hm] using hf', ?_⟩
          simp only [Pipeline.endRank, hm, hidle]
          have hlt : toLex ((st'.sequential c).pc.endRank .idle) < toLex ((st.sequential c).pc.endRank (st.barriers c)) :=
            seqEnd_step hst hflag hpanic ((h.consumers.each c hc).sequential hm).place
          exact ⟨le_of_lt hlt, fun _ => hlt⟩
      · simp only [Pipeline.faulty, hm] at hf
        simp only [Pipeline.reporting, hm] at hpanic
        obtain ⟨hflag, hp | hf'⟩ := faulty_workStep hst hf
        · exact .inl (poisoned_consumer hstep (by simpa only [hm] using hp))
        · refine .inr ⟨by simpa only [Pipeline.faulty, hm] using hf', ?_⟩
          simp only [Pipeline.endRank, hm, hidle]
          have hlt : toLex ((st'.workers c).pc.endRank .idle) < toLex ((st.workers c).pc.endRank (st.barriers c)) :=
            workEnd_step hst hflag hpanic
          exact ⟨le_of_lt hlt, fun _ => hlt⟩
    | producer | restart | raiseShutdown | setRunning | setAlert => cases hown
  · refine .inr ⟨?_, endRank_other h ha hs hown⟩
    have hsame := (other_step h ha hs hown).1
    simpa only [Pipeline.faulty, hsame.sequential, hsame.workers] using hf

/-! ### Producers that panic -/

/-- Whoever unwinds has returned from its claim. -/
def Feed.Unwound (f : Feed E) : Prop := ∀ p, (f.phases p).unwinding = true → ∃ r, f.world.result p = some r

section Feed

variable {f f' : Feed E} {a : FeedAction E}

/-- What is left of the unwinding. -/
def ProducerPhase.unwindRank : ProducerPhase → Nat
  | .panicked _ => 1
  | _ => 0

/-- The driver of a single-producer sequencer has returned anyway. -/
theorem unwound_single {w : SingleWorld} (hw : f.world = .single w) (hI : FeedBooks b f) : f.Unwound := by
  intro p hu
  have hok := hI.phases p
  rw [hw] at hok ⊢
  cases hph : f.phases p with
  | panicked low | poisoning =>
    rw [hph] at hok
    obtain ⟨hd, r, hr⟩ := hok
    exact ⟨r, by simp only [SequencerWorld.result, hr, if_pos hd]⟩
  | idle | claiming | writing | publishing =>
    rw [hph] at hu
    cases hu

/-- A producer that has returned takes no step inside the sequencer. -/
theorem result_not_step {w w' : SequencerWorld} {r : ClaimResult} (hr : w.result p = some r) :
    w.step b (.step p) ≠ some w' := by
  intro hs
  cases SequencerWorld.rule_of_step hs with
  | single h =>
    cases h with | step hst =>
    simp only [SequencerWorld.result] at hr
    split at hr
    · rename_i hpc
      rw [hpc] at hst
      cases hst
    · cases hr
  | multi h =>
    cases h with | step hst =>
    simp only [SequencerWorld.result] at hr
    split at hr
    · rename_i hpc
      rw [hpc] at hst
      cases hst
    · cases hr

/-- Nor does it start a call while it unwinds. -/
theorem Feed.Unwound.not_mayCall (h : f.Unwound) (hu : (f.phases p).unwinding = true) : f.mayCall p = false := by
  have hne : f.phases p ≠ .idle := by
    intro he
    rw [he] at hu
    cases hu
  obtain ⟨r, hr⟩ := h p hu
  cases hw : f.world with
  | single w =>
    have hd : w.driver = p := by
      rw [hw] at hr
      simp only [SequencerWorld.result] at hr
      split at hr
      · exact (Option.ite_none_right_eq_some.mp hr).1
      · cases hr
    simpa only [Feed.mayCall, hw, hd, beq_eq_false_iff_ne] using hne
  | multi w => simpa only [Feed.mayCall, hw, beq_eq_false_iff_ne] using hne

/-- **Step lemma.** -/
theorem unwound_step (hI : FeedBooks b f) (h : f.Unwound) (hs : f.step b a = some f') : f'.Unwound := by
  cases hw : f.world with
  | single w =>
    obtain ⟨w', hw'⟩ : ∃ w', f'.world = .single w' := by
      have hkind := Feed.isMulti_step hs
      rw [hw] at hkind
      cases hw' : f'.world with
      | single w' => exact ⟨w', rfl⟩
      | multi w' =>
        rw [hw'] at hkind
        cases hkind
    exact unwound_single hw' (feedBooks_step hI hs)
  | multi w =>
    intro p hu
    by_cases hp : a.producer = some p
    · have hgoto : ∀ {g : Feed E} {phase}, ((g.goto p phase).phases p).unwinding = phase.unwinding := fun {_ _} => by
        simp only [Feed.goto, Function.update_self]
      cases feedRule_of_step hs with
      | step hst =>
        cases hp
        obtain ⟨r, hr⟩ := h p hu
        exact absurd hst (result_not_step hr)
      | @panic q low high next hph =>
        cases hp
        have hok := hI.phases p
        rw [hw, hph] at hok
        obtain ⟨⟨r, hr⟩, -⟩ := hok
        exact ⟨r, by simp only [Feed.goto, hw, SequencerWorld.result, hr]⟩
      | record hph =>
        cases hp
        exact h p (by rw [hph]; rfl)
      | call | granted | refused | write | publish | publishRange | published | poison =>
        cases hp
        rw [hgoto] at hu
        cases hu
      | close | reopen => cases hp
    · rw [feedStep_phases_other hs hp] at hu
      obtain ⟨r, hr⟩ := h p hu
      obtain ⟨w', hw', hpc⟩ := multi_other hw hs hp
      rw [hw] at hr
      exact ⟨r, by simpa only [hw', SequencerWorld.result, hpc] using hr⟩

/-- A step of a producer that unwinds poisons, or brings the poison closer. -/
theorem unwinding_lower (h : f.Unwound) (hu : (f.phases p).unwinding = true) (hs : f.step b a = some f')
    (hp : a.producer = some p) :
    f'.world.poisoned = true ∨ (f'.phases p).unwinding = true ∧ (f'.phases p).unwindRank < (f.phases p).unwindRank := by
  obtain ⟨r, hr⟩ := h p hu
  cases feedRule_of_step hs with
  | step hst =>
    cases hp
    exact absurd hst (result_not_step hr)
  | record hph =>
    cases hp
    refine .inr ?_
    simp [Feed.goto, hph, ProducerPhase.unwinding, ProducerPhase.unwindRank]
  | @poison _ w _ hst =>
    refine .inl ?_
    show w.poisoned = true
    rw [SequencerWorld.poisoned_step hst]
    simp
  | call hmay =>
    cases hp
    rw [h.not_mayCall hu] at hmay
    cases hmay
  | granted hph | refused hph | write hph | publish hph | publishRange hph | published hph | panic hph =>
    cases hp
    rw [hph] at hu
    cases hu
  | close | reopen => cases hp

end Feed

/-- **Whoever unwinds poisons.** -/
theorem unwinds_step (h : st.feed.Unwound) (hu : (st.feed.phases p).unwinding = true)
    (hs : st.step b t handlers a = some st') : st'.feed.world.poisoned = true ∨ (st'.feed.phases p).unwinding = true ∧
      (st'.feed.phases p).unwindRank ≤ (st.feed.phases p).unwindRank ∧
        (OwnStep p a → (st'.feed.phases p).unwindRank < (st.feed.phases p).unwindRank) := by
  cases pipelineRule_of_step hs with
  | @producer a feed hst =>
    by_cases hp : a.producer = some p
    · exact (unwinding_lower h hu hst hp).imp id fun hq => ⟨hq.1, le_of_lt hq.2, fun _ => hq.2⟩
    · have hph : feed.phases p = st.feed.phases p := feedStep_phases_other hst hp
      exact .inr ⟨by simpa only [hph] using hu, le_of_eq (by rw [hph]), fun hown => absurd hown (not_ownStep hp)⟩
  | consumer hstep =>
    rw [(consumerStep_alerted hstep).2]
    exact .inr ⟨hu, le_rfl, by simp⟩
  | wait | barrier | restart | raiseShutdown | setRunning | setAlert => exact .inr ⟨hu, le_rfl, by simp⟩

/-! ### Nobody fails -/

/-- Every consumer is in its loop, and nobody is about to poison. -/
structure Pipeline.Sound (t : Wiring) (st : Pipeline E) : Prop where
  consumers : ∀ c < t.count, st.faulty t c = false ∧ st.left t c = false
  unpoisoned : st.feed.Unpoisoned

/-- Where nobody fails every step is one of a failure-free run. -/
theorem live_of_orderly (hx : ∀ c, t.exceptionHandler c = false) (ha : a.orderly t st = true)
    (hs : st.step b t handlers a = some st') (hsound : st'.Sound t) : a.live = true ∨ a = .raiseShutdown := by
  cases pipelineRule_of_step hs with
  | @producer a feed hst =>
    refine .inl ?_
    have hun := hsound.unpoisoned
    have hfails : a.fails = false := by
      cases feedRule_of_step hst with
      | @panic q | @record q =>
        have := hun.unwinding q
        simp [Feed.goto, ProducerPhase.unwinding] at this
      | @poison q w _ hpoison =>
        have hw : w.poisoned = false := hun.poisoned
        rw [SequencerWorld.poisoned_step hpoison] at hw
        simp at hw
      | _ => rfl
    simp [PipelineAction.live, hfails]
  | wait => exact .inl ha
  | barrier => exact .inl rfl
  | @consumer c i torn _ hstep =>
    refine .inl ?_
    obtain ⟨hc, -⟩ := consumerStep_cases hstep
    obtain ⟨hf, hl⟩ := hsound.consumers c hc
    obtain ⟨-, -, ⟨hm, -, hst⟩ | ⟨hm, -, hst⟩⟩ := consumerStep_frame hstep
    · simp only [Pipeline.faulty, Pipeline.left, hm] at hf hl
      have hin : (st'.sequential c).pc.inLoop = true := (SeqPc.inLoop_or _).resolve_right (by simp [hf, hl])
      cases hi : i.fails with
      | false => simp [PipelineAction.live, PipelineAction.calm, hi]
      | true =>
        rw [inLoop_of_fails hst (hx c) hi] at hin
        cases hin
    · simp only [Pipeline.faulty, Pipeline.left, hm] at hf hl
      have hin : (st'.workers c).pc.stopped = false := (WorkPc.stopped_or _).resolve_right (by simp [hf, hl])
      cases hi : i.fails with
      | false => simp [PipelineAction.live, PipelineAction.calm, hi]
      | true =>
        rw [stopped_of_fails hst hi] at hin
        cases hin
  | raiseShutdown => exact .inr rfl
  | restart | setRunning | setAlert => cases ha

/-! ### While the shutdown flag is down -/

/-- What holds of a Builder pipeline while the shutdown flag is down. -/
structure RunInv (b : BufferSize) (t : Wiring) (st : Pipeline E) : Prop where
  pipe : PipeInv b t st
  alerted : ∀ c, st.alerted c = false
  patient : ∀ c, (st.barriers c).Patient
  unwound : st.feed.Unwound
  left : ∀ c < t.count, st.left t c = true → st.feed.world.poisoned = true
  supply : st.Sound t → SupplyInv b t st

/-- Failures last until they poison. -/
theorem RunInv.sound_of_step (h : RunInv b t st) (ha : a.orderly t st = true) (hs : st.step b t handlers a = some st')
    (hsound : st'.Sound t) : st.Sound t := by
  have hunpoisoned := hsound.unpoisoned.poisoned
  refine ⟨fun c hc => ⟨?_, ?_⟩, ?_, fun p => ?_⟩
  · by_contra hf
    rcases faulty_step h.pipe hc (by simpa using hf) ha hs with hp | ⟨hf', -⟩
    · simp [hunpoisoned] at hp
    · simp [(hsound.consumers c hc).1] at hf'
  · by_contra hl
    have := step_terminal hs (h.left c hc (by simpa using hl))
    simp [hunpoisoned] at this
  · by_contra hp
    have := step_terminal hs (by simpa using hp)
    simp [hunpoisoned] at this
  · by_contra hu
    rcases unwinds_step h.unwound (by simpa using hu) hs with hp | ⟨hu', -⟩
    · simp [hunpoisoned] at hp
    · simp [hsound.unpoisoned.unwinding p] at hu'

/-- **Step lemma.** -/
theorem runInv_step (hwf : t.Wf) (ht : t.stop = .external) (hx : ∀ c, t.exceptionHandler c = false) (h : RunInv b t st)
    (hdown : st.shutdown = false) (ha : a.orderly t st = true) (hne : a ≠ .raiseShutdown)
    (hs : st.step b t handlers a = some st') : RunInv b t st' := by
  have hpipe := pipeInv_step hwf h.pipe hs
  have hsupply : st'.Sound t → SupplyInv b t st' := fun hsound =>
    supplyInv_step hwf ht (h.supply (h.sound_of_step ha hs hsound)) ((live_of_orderly hx ha hs hsound).resolve_right hne) hs
  have hpois := step_terminal hs
  have hgo : ∀ c, st.shouldContinue t c = true := fun c => by simp [Pipeline.shouldContinue, ht, hdown]
  cases pipelineRule_of_step hs with
  | producer hst =>
    exact ⟨hpipe, h.alerted, h.patient, unwound_step h.pipe.feed.books h.unwound hst, fun c hc hl => hpois (h.left c hc hl),
      hsupply⟩
  | @wait d call s =>
    refine ⟨hpipe, h.alerted, fun c => ?_, h.unwound, h.left, hsupply⟩
    by_cases hc : c = d
    · subst hc
      obtain rfl : call = .waitForWithShutdown := by simpa [PipelineAction.orderly] using ha
      simp only [Function.update_self, ht]
      exact patient_start
    · simp only [Function.update_of_ne hc]
      exact h.patient c
  | @barrier d i pc hd hst =>
    refine ⟨hpipe, h.alerted, fun c => ?_, h.unwound, h.left, hsupply⟩
    by_cases hc : c = d
    · subst hc
      rw [h.alerted c, hgo c] at hst
      simp only [Function.update_self]
      rcases patient_step (h.pipe.reads hwf hd) (h.pipe.consumers.each c hd).barrier (h.patient c) hst
        with ⟨-, rfl⟩ | ⟨-, hcloser⟩
      · exact h.patient c
      · exact hcloser.patient
    · simp only [Function.update_of_ne hc]
      exact h.patient c
  | @consumer d i torn _ hstep =>
    obtain ⟨halerted, hphases⟩ := consumerStep_alerted hstep
    obtain ⟨v, hworld⟩ := consumerStep_world hstep
    obtain ⟨hothers, hidle, hloop⟩ := consumerStep_frame hstep
    refine ⟨hpipe, fun c => by rw [halerted]; exact h.alerted c, fun c => ?_, fun p hu => ?_,
      fun c hc hl => ?_, hsupply⟩
    · by_cases hcd : c = d
      · rw [hcd, hidle]
        trivial
      · rw [(hothers c hcd).barriers]
        exact h.patient c
    · rw [hphases] at hu
      obtain ⟨r, hr⟩ := h.unwound p hu
      refine ⟨r, ?_⟩
      rcases hworld with hw | hw <;> rw [hw, ← hr] <;> cases st.feed.world <;> rfl
    · by_cases hcd : c = d
      · subst hcd
        -- no flag and no barrier ends the loop
        have hin := (consumerStep_cases hstep).2.1
        have hflag : i ≠ .flag false := by
          rintro rfl
          simp [Pipeline.inputOk, hgo c] at hin
        have hans : ∀ e, i ≠ .answer (.error e) := by
          rintro e rfl
          have hp := h.patient c
          rw [inputOk_answer hin rfl] at hp
          exact hp
        rcases hloop with ⟨hm, -, hst⟩ | ⟨hm, -, hst⟩ <;> simp only [Pipeline.left, hm] at hl
        · rcases left_seqStep hst hflag hans hl with hp | hold
          · exact poisoned_consumer hstep (by simpa only [hm] using hp)
          · exact hpois (h.left c hc (by simpa only [Pipeline.left, hm] using hold))
        · rcases left_workStep hst hflag hans hl with hp | hold
          · exact poisoned_consumer hstep (by simpa only [hm] using hp)
          · exact hpois (h.left c hc (by simpa only [Pipeline.left, hm] using hold))
      · refine hpois (h.left c hc ?_)
        simpa only [Pipeline.left, (hothers c hcd).sequential, (hothers c hcd).workers] using hl
  | raiseShutdown => exact absurd rfl hne
  | restart | setRunning | setAlert => cases ha

end BadBatch
