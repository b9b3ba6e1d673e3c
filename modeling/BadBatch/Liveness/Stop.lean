import BadBatch.Builder.Shutdown
import BadBatch.Liveness.Consumers

/-!
# A stopped consumer leaves

Once the shutdown flag is up, no loop starts another wait: it finishes its batch, or the failure it is in, and ends. A barrier
call ends at the first look at the flag, so all that is asked of a waiting consumer is to look. Handlers may fail or panic in
whatever way; only the code that records a failure and poisons does not panic once more.

* `Pipeline.endRank`: what is left of a thread;
* `leave_step`: every step of a consumer that does more than poll lowers it.
-/

namespace BadBatch

open MultiProducerSequencer

variable {E : Type} {b : BufferSize} {t : Wiring} {handlers : Nat → E → Int → Bool → E} {st st' : Pipeline E} {c d : Nat}
  {s : Int} {a : PipelineAction E}

/-! ## Barrier calls -/

/-- How far a barrier call is from its end: polls do not count. -/
def BarrierPc.endRank : BarrierPc → Nat × Nat
  | .returned _ => (0, 0)
  | .exitAlert _ | .timedOut => (1, 0)
  | .scan _ _ next available => (2, (available + 1 - next).toNat)
  | .recheck _ _ _ => (3, 0)
  | .poll _ _ _ _ | .waiting _ _ => (4, 0)
  | .checkAlert _ _ => (5, 0)
  | .checkStop _ _ => (6, 0)
  | .idle => (7, 0)

/-- Inside the wait strategy. -/
def BarrierPc.polling : BarrierPc → Bool
  | .poll _ _ _ _ | .waiting _ _ => true
  | _ => false

section Barrier

variable {w : SequencerWorld} {deps : List Nat} {alerted : Bool} {sequence : Int} {pc pc' : BarrierPc} {i : BarrierInput}

theorem endRank_resolved (call : BarrierCall) (r : Int) : (BarrierPc.resolved call r).endRank.1 ≤ 1 := by
  cases call <;> simp [BarrierPc.resolved, BarrierPc.endRank]

theorem endRank_resolve (call : BarrierCall) (available : Int) :
    (BarrierPc.resolveHighestPublished w call sequence available).endRank.1 ≤ 2 := by
  have hle := endRank_resolved call available
  cases w with
  | single w =>
    simp only [BarrierPc.resolveHighestPublished]
    omega
  | multi w =>
    simp only [BarrierPc.resolveHighestPublished]
    split
    · omega
    · exact le_rfl

theorem endRank_polled (call : BarrierCall) (available : Int) :
    toLex (BarrierPc.polled w call sequence available).endRank ≤ toLex (4, 0) := by
  cases call with
  | tryGetAvailableSequence =>
    have hle := @endRank_resolve w sequence .tryGetAvailableSequence available
    exact le_of_lt (Prod.Lex.toLex_lt_toLex.mpr (.inl (by simp only [BarrierPc.polled]; omega)))
  | waitFor | waitForWithTimeout | waitForWithShutdown =>
    simp only [BarrierPc.polled]
    split
    · exact le_of_lt (Prod.Lex.left _ _ (by decide))
    · exact le_rfl

/-- **Step lemma.** With the stop flag up a step of a call brings it closer to its end; only a poll may leave it where it is. -/
theorem endRank_step (hr : Reads b w deps sequence) (hok : BarrierOk w deps sequence pc)
    (hs : barrierStep b w deps alerted true pc i = some pc') :
    toLex pc'.endRank ≤ toLex pc.endRank ∧
      (i = .loadShutdown ∨ pc.polling = false → toLex pc'.endRank < toLex pc.endRank) := by
  have hlower : ∀ {x y : Nat × Nat}, x.1 < y.1 → toLex x ≤ toLex y ∧ (i = .loadShutdown ∨ pc.polling = false →
      toLex x < toLex y) :=
    fun h => ⟨le_of_lt (Prod.Lex.toLex_lt_toLex.mpr (.inl h)), fun _ => Prod.Lex.toLex_lt_toLex.mpr (.inl h)⟩
  cases pc with
  | idle | returned r => cases i <;> simp [barrierStep] at hs
  | checkStop call s =>
    cases i <;> simp only [barrierStep, if_true, Option.some.injEq, reduceCtorEq] at hs
    subst hs
    exact hlower (show 0 < 6 by omega)
  | checkAlert call s =>
    cases i <;> simp only [barrierStep, Option.some.injEq, reduceCtorEq] at hs
    subst hs
    refine hlower ?_
    split
    · exact show 0 < 5 by omega
    · exact show 4 < 5 by omega
  | timedOut | exitAlert r =>
    cases i <;> simp only [barrierStep, Option.some.injEq, reduceCtorEq] at hs
    subst hs
    exact hlower (show 0 < 1 by omega)
  | waiting call s =>
    cases i with
    | next =>
      refine ⟨?_, fun h => by rcases h with h | h <;> cases h⟩
      cases deps <;> simp only [barrierStep, Option.some.injEq] at hs <;> subst hs
      · exact endRank_polled call _
      · exact le_rfl
    | loadAlert =>
      refine ⟨?_, fun h => by rcases h with h | h <;> cases h⟩
      simp only [barrierStep, Option.ite_none_left_eq_some, Option.some.injEq] at hs
      obtain ⟨-, rfl⟩ := hs
      split
      · exact le_of_lt (Prod.Lex.left _ _ (by decide))
      · exact le_rfl
    | loadShutdown =>
      simp only [barrierStep, if_true, Option.ite_none_right_eq_some, Option.some.injEq] at hs
      obtain ⟨-, rfl⟩ := hs
      exact hlower (show 0 < 4 by omega)
    | timeout =>
      simp only [barrierStep, Option.ite_none_right_eq_some, Option.some.injEq] at hs
      obtain ⟨-, rfl⟩ := hs
      exact hlower (show 1 < 4 by omega)
  | poll call s rest minimum =>
    refine ⟨?_, fun h => ?_⟩
    · cases i <;> cases rest <;> simp only [barrierStep, Option.some.injEq, reduceCtorEq] at hs <;> subst hs
      · exact endRank_polled call minimum
      · exact le_rfl
    · rcases h with rfl | h
      · simp [barrierStep] at hs
      · cases h
  | recheck call s available =>
    cases i <;> simp only [barrierStep, Option.some.injEq, reduceCtorEq] at hs
    subst hs
    refine hlower ?_
    have hle : (BarrierPc.resolveHighestPublished w call s available).endRank.1 ≤ 2 := endRank_resolve call available
    split
    · exact show 0 < 3 by omega
    · exact show _ < 3 by omega
  | scan call s next available =>
    obtain ⟨rfl, hsa, ho, hna, -⟩ := hok
    cases i <;> simp only [barrierStep, reduceCtorEq] at hs
    cases w with
    | single w => cases hs
    | multi w =>
      have hle := endRank_resolved call
      simp only at hs
      split at hs
      · rename_i hnext
        have hspec := getHighestPublishedSequenceStep_spec (hr available hsa ho).1 hnext
        split at hs <;> rename_i r' he <;> rw [he] at hspec <;> simp only [Option.some.injEq] at hs <;> subst hs
        · obtain ⟨h1, h2, -⟩ := hspec
          have hlt : toLex (BarrierPc.scan call s r' available).endRank < toLex
            (BarrierPc.scan call s next available).endRank := by
            simp only [BarrierPc.endRank]
            exact Prod.Lex.right _ (by omega)
          exact ⟨le_of_lt hlt, fun _ => hlt⟩
        · exact hlower (show _ < 2 by have := hle r'; omega)
      · simp only [Option.some.injEq] at hs
        subst hs
        exact hlower (show _ < 2 by have := hle available; omega)

end Barrier

/-! ## Loops -/

/-- How far a sequential consumer is from the end of its thread. -/
def SeqPc.endRank (barrier : BarrierPc) : SeqPc → Nat × Nat
  | .done => (0, 0)
  | .recordShutdown _ | .poison _ true => (1, 0)
  | .record _ true => (2, 0)
  | .stopping => (3, 0)
  | .poison _ false => (4, 0)
  | .record _ false => (5, 0)
  | .freeze _ => (6, 0)
  | .loop _ => (7, 0)
  | .waitErr _ | .store _ => (8, 0)
  | .event next available => (9, 2 * (available + 1 - next).toNat)
  | .inEvent next available => (9, 2 * (available + 1 - next).toNat - 1)
  | .batchStart _ _ => (10, 0)
  | .waiting _ => (11 + barrier.endRank.1, barrier.endRank.2)
  | .enter => (19, 0)
  | .start => (20, 0)

/-- How far a worker is from the end of its thread. -/
def WorkPc.endRank (barrier : BarrierPc) : WorkPc → Nat × Nat
  | .done _ => (0, 0)
  | .recordShutdown _ _ | .poison _ _ true => (1, 0)
  | .record _ _ true => (2, 0)
  | .stopping _ => (3, 0)
  | .poison _ _ false => (4, 0)
  | .record _ _ false => (5, 0)
  | .outer | .inner | .waitErr _ => (6, 0)
  | .store _ => (7, 0)
  | .inEvent _ => (8, 0)
  | .event _ => (9, 0)
  | .batchStart _ => (10, 0)
  | .guard _ => (11, 0)
  | .waiting _ => (12 + barrier.endRank.1, barrier.endRank.2)
  | .cas _ => (20, 0)
  | .advertise _ => (21, 0)
  | .load => (22, 0)
  | .enter => (23, 0)
  | .start => (24, 0)

/-- The thread records its failure or poisons. -/
def SeqPc.reporting : SeqPc → Bool
  | .record _ _ | .poison _ _ | .recordShutdown _ => true
  | _ => false

def WorkPc.reporting : WorkPc → Bool
  | .record _ _ _ | .poison _ _ _ | .recordShutdown _ _ => true
  | _ => false

section Loops

variable {cfg : EngineConfig} {work work' sequence sequence' : Int} {i : EngineInput} {barrier : BarrierPc}

/-- Whoever may panic is further from its end than one that has. -/
theorem SeqPc.two_lt_endRank {pc : SeqPc} (hf : pc.reporting = false) (hd : pc ≠ .done) : 2 < (pc.endRank barrier).1 := by
  cases pc with
  | done => exact absurd rfl hd
  | record | poison | recordShutdown => cases hf
  | waiting => exact show 2 < 11 + barrier.endRank.1 by omega
  | _ => simp [SeqPc.endRank]

theorem WorkPc.two_lt_endRank {pc : WorkPc} (hf : pc.reporting = false) (hd : ∀ c, pc ≠ .done c) :
    2 < (pc.endRank barrier).1 := by
  cases pc with
  | done c => exact absurd rfl (hd c)
  | record | poison | recordShutdown => cases hf
  | waiting => exact show 2 < 12 + barrier.endRank.1 by omega
  | _ => simp [WorkPc.endRank]

/-- A step of a sequential loop that has been stopped. -/
theorem seqEnd_step {l l' : SeqLoop} (h : seqStep cfg sequence l i = some (sequence', l')) (hstop : i ≠ .flag true)
    (hpanic : i = .panic → l.pc.reporting = false) (hp : SeqPlace sequence l) :
    toLex (l'.pc.endRank .idle) < toLex (l.pc.endRank barrier) := by
  obtain ⟨pc, calls, ret, ends, failed⟩ := l
  simp only [SeqPlace] at hp
  cases seqRule_of_seqStep h with
  | panic hd => exact Prod.Lex.toLex_lt_toLex.mpr (.inl (SeqPc.two_lt_endRank (hpanic rfl) hd))
  | go | retry => exact absurd rfl hstop
  | early | releasedReadonly | released | ended | waitErr =>
    refine Prod.Lex.toLex_lt_toLex.mpr (.inl ?_)
    simp only [SeqPc.endRank]
    omega
  | call | handled | skip =>
    simp only [SeqPc.endRank]
    exact Prod.Lex.right _ (by omega)
  | @record f last => cases last <;> exact Prod.Lex.left _ _ (by decide)
  | startReadonly | started | startFailed | enter | stop | giveUp | batchStart | batchStartFailed | batchEnd | fail | store
  | freeze | poison | poisonLast | doneReadonly | done | shutdownFailed | recordShutdown =>
    exact Prod.Lex.left _ _ (by decide)

/-- A step of a worker that has been stopped. -/
theorem workEnd_step {l l' : WorkLoop} (h : workStep cfg work sequence l i = some (work', sequence', l'))
    (hstop : i ≠ .flag true) (hpanic : i = .panic → l.pc.reporting = false) :
    toLex (l'.pc.endRank .idle) < toLex (l.pc.endRank barrier) := by
  obtain ⟨pc, ca, la, calls, ret⟩ := l
  cases workRule_of_workStep h with
  | panic hd => exact Prod.Lex.toLex_lt_toLex.mpr (.inl (WorkPc.two_lt_endRank (hpanic rfl) hd))
  | outer | inner | wait | retry => exact absurd rfl hstop
  | released | ended | waitErr =>
    refine Prod.Lex.toLex_lt_toLex.mpr (.inl ?_)
    simp only [WorkPc.endRank]
    omega
  | @record c f last => cases last <;> exact Prod.Lex.left _ _ (by decide)
  | started | startFailed | enter | stopOuter | stopInner | load | unchanged | advertise | claim | lost | cached | stopGuard
  | giveUp | batchStart | batchStartFailed | call | handled | fail | store | poison | poisonLast | done | shutdownFailed
  | recordShutdown => exact Prod.Lex.left _ _ (by decide)

end Loops

/-! ## The pipeline -/

/-- What is left of the thread of consumer `c`. -/
def Pipeline.endRank (t : Wiring) (st : Pipeline E) (c : Nat) : Nat × Nat :=
  match t.runMode (t.stage c) with
  | .sequential => (st.sequential c).pc.endRank (st.barriers c)
  | .workPool => (st.workers c).pc.endRank (st.barriers c)

/-- Consumer `c` records its failure or poisons. -/
def Pipeline.reporting (t : Wiring) (st : Pipeline E) (c : Nat) : Bool :=
  match t.runMode (t.stage c) with
  | .sequential => (st.sequential c).pc.reporting
  | .workPool => (st.workers c).pc.reporting

/-- The steps of a Builder pipeline: threads run once, wait by `wait_for_with_shutdown` and are not alerted, the code that
records a failure and poisons does not panic, and nobody reopens the claim path. -/
def PipelineAction.orderly (t : Wiring) (st : Pipeline E) : PipelineAction E → Bool
  | wait _ call => call == .waitForWithShutdown
  | consumer c .panic _ => !st.reporting t c
  | producer .reopen => false
  | restart _ | setRunning _ _ | setAlert _ _ => false
  | _ => true

/-- A step of consumer `c` that does more than poll: inside a wait, a look at the shutdown flag. -/
def PipelineAction.leaves (st : Pipeline E) (c : Nat) : PipelineAction E → Bool
  | wait d _ => d == c
  | barrier d i => d == c && (i == .loadShutdown || !(st.barriers c).polling)
  | consumer d _ _ => d == c
  | _ => false

/-- The consumer that takes the step. -/
def PipelineAction.party : PipelineAction E → Option Nat
  | wait c _ | barrier c _ | consumer c _ _ => some c
  | _ => none

section Ranks

variable {p q : BarrierPc}

/-- The barrier call is part of a wait, and of nothing else. -/
theorem SeqPc.endRank_le (pc : SeqPc) (h : toLex p.endRank ≤ toLex q.endRank) :
    toLex (pc.endRank p) ≤ toLex (pc.endRank q) := by
  cases pc with
  | waiting => exact toLex_add_le h
  | record _ last | poison _ last => cases last <;> exact le_rfl
  | _ => exact le_rfl

theorem WorkPc.endRank_le (pc : WorkPc) (h : toLex p.endRank ≤ toLex q.endRank) :
    toLex (pc.endRank p) ≤ toLex (pc.endRank q) := by
  cases pc with
  | waiting => exact toLex_add_le h
  | record _ _ last | poison _ _ last => cases last <;> exact le_rfl
  | _ => exact le_rfl

end Ranks

/-- A step of the barrier call that `c` is inside of. -/
theorem leave_barrier {pc : BarrierPc} {ok : Prop} (ha : ∃ s, st.awaited t c = some s)
    (hle : toLex pc.endRank ≤ toLex (st.barriers c).endRank) (hlt : ok → toLex pc.endRank < toLex (st.barriers c).endRank) :
    toLex (({ st with barriers := Function.update st.barriers c pc } : Pipeline E).endRank t c) ≤ toLex (st.endRank t c) ∧
      (ok → toLex (({ st with barriers := Function.update st.barriers c pc } : Pipeline E).endRank t c) <
        toLex (st.endRank t c)) := by
  obtain ⟨s, ha⟩ := ha
  unfold Pipeline.awaited at ha
  unfold Pipeline.endRank
  cases hm : t.runMode (t.stage c) with
  | sequential =>
    simp only [hm, Function.update_self] at ha ⊢
    refine ⟨SeqPc.endRank_le _ hle, fun hok => ?_⟩
    cases hpc : (st.sequential c).pc with
    | waiting next => exact toLex_add_lt (hlt hok)
    | _ => simp [hpc] at ha
  | workPool =>
    simp only [hm, Function.update_self] at ha ⊢
    refine ⟨WorkPc.endRank_le _ hle, fun hok => ?_⟩
    cases hpc : (st.workers c).pc with
    | waiting claimed => exact toLex_add_lt (hlt hok)
    | _ => simp [hpc] at ha

/-- A step of the loop of consumer `c`. -/
theorem leave_consumer {i : EngineInput} {torn : Option E} (ht : t.stop = .external) (h : PipeInv b t st) (hc : c < t.count)
    (hstop : st.shutdown = true) (ha : (PipelineAction.consumer c i torn).orderly t st = true)
    (hs : st.consumerStep b t handlers c i torn = some st') : toLex (st'.endRank t c) < toLex (st.endRank t c) := by
  have hin := (consumerStep_cases hs).2.1
  have hflag : i ≠ .flag true := by
    rintro rfl
    simp [Pipeline.inputOk, Pipeline.shouldContinue, ht, hstop] at hin
  have hpanic : i = .panic → st.reporting t c = false := by
    rintro rfl
    simpa [PipelineAction.orderly] using ha
  obtain ⟨-, hidle, ⟨hm, -, hst⟩ | ⟨hm, -, hst⟩⟩ := consumerStep_frame hs
  · have hplace := ((h.consumers.each c hc).sequential hm).place
    simp only [Pipeline.reporting, hm] at hpanic
    simp only [Pipeline.endRank, hm, hidle]
    exact seqEnd_step hst hflag hpanic hplace
  · simp only [Pipeline.reporting, hm] at hpanic
    simp only [Pipeline.endRank, hm, hidle]
    exact workEnd_step hst hflag hpanic

/-- A step that is not one of consumer `c` leaves it alone. -/
theorem other_step (h : PipeInv b t st) (ha : a.orderly t st = true) (hs : st.step b t handlers a = some st')
    (hother : a.party ≠ some c) : Same st st' c ∧ a.leaves st c = false := by
  cases pipelineRule_of_step hs with
  | producer hst => exact ⟨⟨congrFun (h.feed.books.step_world hst).1 c, rfl, rfl, rfl⟩, rfl⟩
  | @wait d call s =>
    have hcd : d ≠ c := fun he => hother (congrArg some he)
    exact ⟨⟨rfl, Function.update_of_ne hcd.symm _ _, rfl, rfl⟩, by simp [PipelineAction.leaves, hcd]⟩
  | @barrier d i pc =>
    have hcd : d ≠ c := fun he => hother (congrArg some he)
    exact ⟨⟨rfl, Function.update_of_ne hcd.symm _ _, rfl, rfl⟩, by simp [PipelineAction.leaves, hcd]⟩
  | @consumer d i torn _ hstep =>
    have hcd : d ≠ c := fun he => hother (congrArg some he)
    exact ⟨(consumerStep_frame hstep).1 c hcd.symm, by simp [PipelineAction.leaves, hcd]⟩
  | raiseShutdown => exact ⟨⟨rfl, rfl, rfl, rfl⟩, rfl⟩
  | restart | setRunning | setAlert => cases ha

/-- Nor does it change what is left of its thread. -/
theorem endRank_other (h : PipeInv b t st) (ha : a.orderly t st = true) (hs : st.step b t handlers a = some st')
    (hother : a.party ≠ some c) : toLex (st'.endRank t c) ≤ toLex (st.endRank t c) ∧
      (a.leaves st c = true → toLex (st'.endRank t c) < toLex (st.endRank t c)) := by
  obtain ⟨hsame, hno⟩ := other_step h ha hs hother
  refine ⟨le_of_eq ?_, fun hl => absurd (hno.symm.trans hl) Bool.false_ne_true⟩
  unfold Pipeline.endRank
  rw [hsame.sequential, hsame.workers, hsame.barriers]

/-- **Step lemma.** With the shutdown flag up no step sets consumer `c` back, and its own steps bring it closer to its end. -/
theorem leave_step (hwf : t.Wf) (ht : t.stop = .external) (h : PipeInv b t st) (hc : c < t.count)
    (hstop : st.shutdown = true) (ha : a.orderly t st = true) (hs : st.step b t handlers a = some st') :
    toLex (st'.endRank t c) ≤ toLex (st.endRank t c) ∧
      (a.leaves st c = true → toLex (st'.endRank t c) < toLex (st.endRank t c)) := by
  by_cases hown : a.party = some c
  · cases pipelineRule_of_step hs with
    | @wait _ call s haw hd hidle =>
      cases hown
      have hlt : toLex (barrierStart call (t.stop == .running) s).endRank < toLex (st.barriers c).endRank := by
        rw [hidle]
        unfold barrierStart
        split <;> exact Prod.Lex.left _ _ (by decide)
      exact leave_barrier ⟨s, haw⟩ (le_of_lt hlt) fun _ => hlt
    | barrier hd hst =>
      cases hown
      rw [show (!st.shouldContinue t c) = true by simp [Pipeline.shouldContinue, ht, hstop]] at hst
      obtain ⟨hle, hlt⟩ := endRank_step (h.reads hwf hc) (h.consumers.each c hc).barrier hst
      refine leave_barrier (h.awaited_of_barrier hc (barrierStep_ne_idle hst)) hle fun hl => hlt ?_
      simpa [PipelineAction.leaves] using hl
    | consumer hstep =>
      cases hown
      have hlt := leave_consumer ht h hc hstop ha hstep
      exact ⟨le_of_lt hlt, fun _ => hlt⟩
    | producer | restart | raiseShutdown | setRunning | setAlert => cases hown
  · exact endRank_other h ha hs hown

end BadBatch
