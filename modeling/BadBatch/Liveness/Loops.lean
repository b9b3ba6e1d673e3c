import BadBatch.Pipeline.Progress
import BadBatch.Liveness.Barrier

/-!
# A loop gets past what its barrier offers

Once the sequence after its own is available, every step brings a loop closer to storing a larger value, and a worker may
claim instead. A worker without a claim gets there through the work cursor: what it has loaded is fresh, or some other worker
has moved the cursor meanwhile, and then the next load shows a value to advertise.

* `seqRank_step`, `workRank_step`: what every step of a loop lowers;
* `workRank_mono`: a worker behind the work cursor does not notice that it moves on.
-/

namespace BadBatch

variable {cfg : EngineConfig} {work work' sequence sequence' : Int} {l : SeqLoop} {i : EngineInput} {barrier : BarrierPc}

/-- How far a sequential loop is from its next store. -/
def SeqPc.rank (sequence : Int) (barrier : BarrierPc) : SeqPc → Nat × Nat
  | .store _ => (0, 0)
  | .event next available => (1, 2 * (available + 1 - next).toNat)
  | .inEvent next available => (1, 2 * (available + 1 - next).toNat - 1)
  | .batchStart _ _ => (2, 0)
  | .waiting _ => (3 + (barrier.rank (sequence + 1)).1, (barrier.rank (sequence + 1)).2)
  | .loop _ => (12, 0)
  | .waitErr _ => (13, 0)
  | .enter => (14, 0)
  | .start => (15, 0)
  | _ => (16, 0)

/-- A loop that gets an answer gets a value. -/
def Answered (barrier : BarrierPc) (i : EngineInput) : Prop := ∀ r, i = .answer r → ∃ v, r = .ok v ∧ barrier = .returned (.ok v)

/-- A step of a sequential loop stores a larger value or brings it closer to that. -/
theorem seqRank_step {l' : SeqLoop} (h : seqStep cfg sequence l i = some (sequence', l')) (hi : i.calm = true)
    (hl : l.pc.inLoop = true) (hp : SeqPlace sequence l) (hb : Answered barrier i) :
    sequence < sequence' ∨
      sequence' = sequence ∧ toLex (l'.pc.rank sequence .idle) < toLex (l.pc.rank sequence barrier) := by
  obtain ⟨pc, calls, ret, ends, failed⟩ := l
  simp only [SeqPlace] at hp
  cases seqRule_of_seqStep h with
  | panic | stop | giveUp | startFailed | batchStartFailed | skip | fail | shutdownFailed => cases hi
  | ended | waitErr =>
    obtain ⟨v, hv, -⟩ := hb _ rfl
    cases hv
  | freeze | record | poison | poisonLast | doneReadonly | done | recordShutdown => cases hl
  | store => exact .inl hp
  | @early next available hlt =>
    -- an answer below the request was wasted
    obtain ⟨v, hv, rfl⟩ := hb _ rfl
    cases hv
    refine .inr ⟨rfl, ?_⟩
    simp only [SeqPc.rank, BarrierPc.rank, if_neg (show ¬sequence + 1 ≤ available by omega)]
    exact Prod.Lex.left _ _ (by decide)
  | @releasedReadonly next available _ hle | @released next available _ hle =>
    obtain ⟨v, hv, rfl⟩ := hb _ rfl
    cases hv
    refine .inr ⟨rfl, ?_⟩
    simp only [SeqPc.rank, BarrierPc.rank, if_pos (show sequence + 1 ≤ available by omega)]
    exact Prod.Lex.left _ _ (by decide)
  | call hle =>
    refine .inr ⟨rfl, ?_⟩
    simp only [SeqPc.rank]
    exact Prod.Lex.right _ (by omega)
  | handled =>
    refine .inr ⟨rfl, ?_⟩
    simp only [SeqPc.rank]
    exact Prod.Lex.right _ (by omega)
  | go =>
    refine .inr ⟨rfl, ?_⟩
    simp only [SeqPc.rank, BarrierPc.rank]
    exact Prod.Lex.left _ _ (by decide)
  | startReadonly | started | enter | retry | batchStart | batchEnd =>
    exact .inr ⟨rfl, Prod.Lex.left _ _ (by decide)⟩

/-! ## Workers -/

/-- How far a worker is from its next claim or store. -/
def WorkLoop.rank (work sequence : Int) (barrier : BarrierPc) (l : WorkLoop) : Nat × Nat :=
  match l.pc with
  | .cas current => (if current = work then 0 else 5, 0)
  | .advertise current => (if sequence < current ∨ current = work then 1 else 6, 0)
  | .load => (2, 0)
  | .inner => (3, 0)
  | .outer => (4, 0)
  | .store _ => (0, 0)
  | .inEvent _ => (1, 0)
  | .event _ => (2, 0)
  | .batchStart _ => (3, 0)
  | .guard claimed => (if claimed ≤ l.cachedAvailable then 4 else 16, 0)
  | .waiting _ => (5 + (barrier.rank (sequence + 1)).1, (barrier.rank (sequence + 1)).2)
  | .waitErr _ => (17, 0)
  | .enter => (18, 0)
  | .start => (19, 0)
  | _ => (20, 0)

variable {w : WorkLoop}

/-- A step of a worker claims, stores a larger value, or brings it closer to that. -/
theorem workRank_step {w' : WorkLoop} (h : workStep cfg work sequence w i = some (work', sequence', w')) (hi : i.calm = true)
    (hl : w.pc.stopped = false) (ok : WorkerOk work sequence w) (hb : Answered barrier i) :
    sequence < sequence' ∨ sequence = work ∧ work < work' ∨ work' = work ∧ sequence' = sequence ∧
      toLex (w'.rank work sequence .idle) < toLex (w.rank work sequence barrier) := by
  have hplace := ok.place
  have hclaimed := ok.claimed
  obtain ⟨pc, ca, la, calls, ret⟩ := w
  simp only [WorkPcOk] at hplace
  cases workRule_of_workStep h with
  | panic | stopOuter | stopInner | stopGuard | giveUp | startFailed | batchStartFailed | fail | shutdownFailed => cases hi
  | ended | waitErr =>
    obtain ⟨v, hv, -⟩ := hb _ rfl
    cases hv
  | record | poison | poisonLast | done | recordShutdown => cases hl
  | store => exact .inl (by omega)
  | claim => exact .inr (.inl ⟨hplace.2, by omega⟩)
  | advertise hne =>
    obtain ⟨he, hle, -⟩ := hplace
    exact .inl (lt_of_le_of_ne hle fun hs => hne (by rw [← hs]; exact he.symm))
  | @unchanged current he =>
    obtain ⟨hla, hle, -⟩ := hplace
    have hcs : current = sequence := he.trans hla
    refine .inr (.inr ⟨rfl, rfl, ?_⟩)
    simp only [WorkLoop.rank]
    by_cases hw : current = work
    · rw [if_pos hw, if_pos (.inr hw)]
      exact Prod.Lex.left _ _ (by decide)
    · rw [if_neg hw, if_neg (by omega)]
      exact Prod.Lex.left _ _ (by decide)
  | lost hne =>
    refine .inr (.inr ⟨rfl, rfl, ?_⟩)
    simp only [WorkLoop.rank, if_neg (Ne.symm hne)]
    exact Prod.Lex.left _ _ (by decide)
  | load =>
    refine .inr (.inr ⟨rfl, rfl, ?_⟩)
    simp only [WorkLoop.rank, or_true, if_true]
    exact Prod.Lex.left _ _ (by decide)
  | cached hle =>
    refine .inr (.inr ⟨rfl, rfl, ?_⟩)
    simp only [WorkLoop.rank, if_pos hle]
    exact Prod.Lex.left _ _ (by decide)
  | wait hlt =>
    refine .inr (.inr ⟨rfl, rfl, ?_⟩)
    simp only [WorkLoop.rank, if_neg (not_le.mpr hlt), BarrierPc.rank]
    exact Prod.Lex.left _ _ (by decide)
  | @released claimed available =>
    obtain ⟨v, hv, rfl⟩ := hb _ rfl
    cases hv
    obtain ⟨-, hseq, -⟩ := hclaimed claimed rfl
    refine .inr (.inr ⟨rfl, rfl, ?_⟩)
    simp only [WorkLoop.rank, BarrierPc.rank]
    by_cases hle : claimed ≤ available
    · rw [if_pos hle, if_pos (by omega)]
      exact Prod.Lex.left _ _ (by decide)
    · rw [if_neg hle, if_neg (by omega)]
      exact Prod.Lex.left _ _ (by decide)
  | retry =>
    refine .inr (.inr ⟨rfl, rfl, ?_⟩)
    simp only [WorkLoop.rank]
    split <;> exact Prod.Lex.left _ _ (by decide)
  | started | enter | outer | inner | batchStart | call | handled =>
    exact .inr (.inr ⟨rfl, rfl, Prod.Lex.left _ _ (by decide)⟩)

/-- To a worker behind the work cursor it is the same where the cursor is. -/
theorem workRank_mono (ok : WorkerOk work sequence w) (hlt : sequence < work) (hle : work ≤ work') :
    w.rank work' sequence barrier = w.rank work sequence barrier := by
  have hplace := ok.place
  obtain ⟨pc, ca, la, calls, ret⟩ := w
  simp only [WorkPcOk] at hplace
  cases pc with
  | cas current =>
    obtain ⟨-, rfl⟩ := hplace
    simp only [WorkLoop.rank, if_neg (show ¬sequence = work' by omega), if_neg (show ¬sequence = work by omega)]
  | advertise current =>
    obtain ⟨-, hcur, hhi⟩ := hplace
    have hfresh : (sequence < current ∨ current = work') ↔ (sequence < current ∨ current = work) :=
      ⟨fun h => .inl (by omega), fun h => .inl (by omega)⟩
    simp only [WorkLoop.rank, hfresh]
  | _ => rfl

end BadBatch
