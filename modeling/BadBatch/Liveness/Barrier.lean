import BadBatch.SequenceBarrier
import Mathlib.Data.Prod.Lex

/-!
# A barrier returns what is available

The Builder's loops wait by `wait_for_with_shutdown`, which has no deadline: nothing but an alert or a shutdown ends it before
the sequence is there. A poll that started too early finds less and is made again, so from the moment the sequence is
available at most one poll is wasted. `BarrierPc.rank` counts what is left, and every step but the loads of the two flags
lowers it (`patient_step`).
-/

namespace BadBatch

open MultiProducerSequencer

/-- Where a call of `wait_for_with_shutdown` stands that no flag has ended. -/
def BarrierPc.Patient : BarrierPc → Prop
  | .idle => True
  | .checkStop c _ | .checkAlert c _ | .waiting c _ | .poll c _ _ _ => c = .waitForWithShutdown
  | .recheck c sequence available => c = .waitForWithShutdown ∧ sequence ≤ available
  | .scan c sequence next _ => c = .waitForWithShutdown ∧ sequence ≤ next
  | .returned (.ok _) => True
  | .timedOut | .exitAlert _ | .returned (.error _) => False

/-- How far a call is from returning `sequence`, once that is available: the phase, and the loads left in it. A poll that
has seen less, and an answer below `sequence`, are wasted. -/
def BarrierPc.rank (sequence : Int) : BarrierPc → Nat × Nat
  | .returned (.ok r) => if sequence ≤ r then (0, 0) else (12, 0)
  | .scan _ _ next available => (1, (available + 1 - next).toNat)
  | .recheck _ _ _ => (2, 0)
  | .poll _ _ rest minimum => (if sequence ≤ minimum then 3 else 5, rest.length)
  | .waiting _ _ => (4, 0)
  | .checkAlert _ _ => (6, 0)
  | .checkStop _ _ => (7, 0)
  | .idle => (8, 0)
  | .timedOut | .exitAlert _ | .returned (.error _) => (13, 0)

/-! ## Ranks -/

theorem toLex_add_le {n : Nat} {x y : Nat × Nat} (h : toLex x ≤ toLex y) : toLex (n + x.1, x.2) ≤ toLex (n + y.1, y.2) := by
  rw [Prod.Lex.toLex_le_toLex] at h ⊢
  exact h.imp (fun h => Nat.add_lt_add_left h n) fun h => ⟨congrArg (n + ·) h.1, h.2⟩

theorem toLex_add_lt {n : Nat} {x y : Nat × Nat} (h : toLex x < toLex y) : toLex (n + x.1, x.2) < toLex (n + y.1, y.2) := by
  rw [Prod.Lex.toLex_lt_toLex] at h ⊢
  exact h.imp (fun h => Nat.add_lt_add_left h n) fun h => ⟨congrArg (n + ·) h.1, h.2⟩

/-! ## Calls -/

variable {b : BufferSize} {w : SequencerWorld} {deps : List Nat} {sequence s : Int} {pc pc' : BarrierPc} {i : BarrierInput}

/-- The flags of a multi-producer sequencer show `s`. -/
def SequencerWorld.Flagged (b : BufferSize) (w : SequencerWorld) (s : Int) : Prop :=
  match w with
  | .single _ => True
  | .multi w => w.sequencer.isAvailableInternal b s = true

theorem patient_start : (barrierStart .waitForWithShutdown false sequence).Patient := rfl

/-- What a step does to a call that is not ended: the load of a flag leaves it where it is, any other step brings it closer
to returning an available sequence. -/
structure Closer (b : BufferSize) (w : SequencerWorld) (deps : List Nat) (sequence : Int) (pc pc' : BarrierPc) : Prop where
  patient : pc'.Patient
  lower : Offered w deps sequence → w.Flagged b sequence → toLex (pc'.rank sequence) < toLex (pc.rank sequence)

/-- A poll shows at least an offered sequence, whichever dependent it looks at next. -/
theorem rank_poll {minimum : Int} {i : Nat} {rest : List Nat} {c : BarrierCall}
    (hi : Offered w deps sequence → sequence ≤ w.sequences i)
    (ho : Offered w deps sequence) :
    toLex ((BarrierPc.poll c s rest (lower minimum (w.sequences i))).rank sequence) <
      toLex ((BarrierPc.poll c s (i :: rest) minimum).rank sequence) := by
  have hle := hi ho
  have hphase : (sequence ≤ lower minimum (w.sequences i)) = (sequence ≤ minimum) := by
    unfold lower
    split <;> exact propext ⟨fun _ => by omega, fun _ => by omega⟩
  simp only [BarrierPc.rank, hphase, List.length_cons]
  exact Prod.Lex.right _ (by omega)

/-- The result of a poll: the call goes on, or polls again. -/
theorem closer_polled {available : Int} (hpc : BarrierPc.rank sequence pc = (if sequence ≤ available then 3 else 5, 0) ∨
    BarrierPc.rank sequence pc = (4, 0) ∧ (Offered w deps sequence → sequence ≤ available)) :
    Closer b w deps sequence pc (.polled w .waitForWithShutdown sequence available) := by
  simp only [BarrierPc.polled]
  split
  · rename_i hle
    refine ⟨⟨rfl, hle⟩, fun _ _ => ?_⟩
    rcases hpc with hpc | ⟨hpc, -⟩ <;> rw [hpc]
    · rw [if_pos hle]
      exact Prod.Lex.left _ _ (by decide)
    · exact Prod.Lex.left _ _ (by decide)
  · rename_i hlt
    refine ⟨rfl, fun ho _ => ?_⟩
    rcases hpc with hpc | ⟨-, hle⟩
    · rw [hpc, if_neg hlt]
      exact Prod.Lex.left _ _ (by decide)
    · exact absurd (hle ho) hlt

/-- **Step lemma.** -/
theorem patient_step (hr : Reads b w deps sequence) (hok : BarrierOk w deps sequence pc) (hp : pc.Patient)
    (hs : barrierStep b w deps false false pc i = some pc') :
    i ≠ .next ∧ pc' = pc ∨ i = .next ∧ Closer b w deps sequence pc pc' := by
  cases pc with
  | idle | returned r => cases i <;> simp [barrierStep] at hs
  | timedOut | exitAlert r => exact hp.elim
  | checkStop c s =>
    cases i <;> simp only [barrierStep, Option.some.injEq, reduceCtorEq] at hs
    subst hs
    exact .inr ⟨rfl, hp, fun _ _ => Prod.Lex.left _ _ (by decide)⟩
  | checkAlert c s =>
    cases i <;> simp only [barrierStep, Option.some.injEq, reduceCtorEq] at hs
    subst hs
    exact .inr ⟨rfl, hp, fun _ _ => Prod.Lex.left _ _ (by decide)⟩
  | waiting c s =>
    obtain rfl : c = .waitForWithShutdown := hp
    obtain rfl : s = sequence := hok
    cases i with
    | next =>
      refine .inr ⟨rfl, ?_⟩
      cases deps with
      | nil =>
        simp only [barrierStep, Option.some.injEq] at hs
        subst hs
        exact closer_polled (.inr ⟨rfl, fun ho => by simpa [Offered] using ho⟩)
      | cons j rest =>
        simp only [barrierStep, Option.some.injEq] at hs
        subst hs
        refine ⟨rfl, fun ho _ => ?_⟩
        have hle : s ≤ w.sequences j := ho j (by simp)
        simp only [BarrierPc.rank, if_pos hle]
        exact Prod.Lex.left _ _ (by decide)
    | loadAlert | loadShutdown =>
      simp only [barrierStep, reduceCtorEq, if_true, if_false, Bool.false_eq_true, Option.some.injEq] at hs
      exact .inl ⟨by decide, hs.symm⟩
    | timeout => simp [barrierStep] at hs
  | poll c s rest minimum =>
    obtain rfl : c = .waitForWithShutdown := hp
    obtain ⟨rfl, scanned, hne, he, hb⟩ := hok
    cases rest with
    | nil =>
      cases i <;> simp only [barrierStep, Option.some.injEq, reduceCtorEq] at hs
      subst hs
      exact .inr ⟨rfl, closer_polled (.inl rfl)⟩
    | cons j rest =>
      cases i <;> simp only [barrierStep, Option.some.injEq, reduceCtorEq] at hs
      subst hs
      refine .inr ⟨rfl, rfl, fun ho _ => rank_poll (fun ho => ?_) ho⟩
      have hj : j ∈ deps := by simp [← he]
      rw [Offered, if_neg (List.ne_nil_of_mem hj)] at ho
      exact ho j hj
  | recheck c s available =>
    obtain ⟨rfl, hle⟩ := hp
    obtain ⟨rfl, -⟩ := hok
    cases i <;> simp only [barrierStep, Bool.false_eq_true, if_false, Option.some.injEq, reduceCtorEq] at hs
    subst hs
    refine .inr ⟨rfl, ?_⟩
    cases w with
    | single w =>
      refine ⟨trivial, fun _ _ => ?_⟩
      simp only [BarrierPc.resolveHighestPublished, BarrierPc.resolved, BarrierPc.rank, if_pos hle]
      exact Prod.Lex.left _ _ (by decide)
    | multi w =>
      simp only [BarrierPc.resolveHighestPublished, if_neg (not_lt.mpr hle)]
      exact ⟨⟨rfl, le_rfl⟩, fun _ _ => Prod.Lex.left _ _ (by decide)⟩
  | scan c s next available =>
    obtain ⟨rfl, hsn⟩ := hp
    obtain ⟨rfl, hsa, ho, hna, -⟩ := hok
    cases i <;> simp only [barrierStep, reduceCtorEq] at hs
    cases w with
    | single w => cases hs
    | multi w =>
      refine .inr ⟨rfl, ?_⟩
      simp only at hs
      split at hs
      · rename_i hnext
        have hspec := getHighestPublishedSequenceStep_spec (hr available hsa ho).1 hnext
        split at hs <;> rename_i r' he <;> rw [he] at hspec <;> simp only [Option.some.injEq] at hs <;> subst hs
        · obtain ⟨h1, h2, -⟩ := hspec
          refine ⟨⟨rfl, by omega⟩, fun _ _ => ?_⟩
          simp only [BarrierPc.rank]
          exact Prod.Lex.right _ (by omega)
        · -- the scan stops no earlier than at the flag of `s`
          obtain ⟨h1, -, -, hstop⟩ := hspec
          refine ⟨trivial, fun _ hflag => ?_⟩
          have hle : s ≤ r' := by
            by_contra hlt
            rw [show r' + 1 = s by omega, show w.sequencer.isAvailableInternal b s = true from hflag] at hstop
            cases hstop
          simp only [BarrierPc.resolved, BarrierPc.rank, if_pos hle]
          exact Prod.Lex.left _ _ (by decide)
      · simp only [Option.some.injEq] at hs
        subst hs
        refine ⟨trivial, fun _ _ => ?_⟩
        simp only [BarrierPc.resolved, BarrierPc.rank, if_pos hsa]
        exact Prod.Lex.left _ _ (by decide)

end BadBatch
