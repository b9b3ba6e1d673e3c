import BadBatch.Sequencer.World

/-!
# The sequence barrier

A consumer asks its barrier for the highest sequence it may process. Each call is a machine of single loads: the stop and
alert flags, the cursor or one dependent sequence after the other, then, behind a multi-producer sequencer, one word or
slot of the availability flags after the other. What the wait strategies of the program share is that they poll until the
polled value reaches the request or a flag ends the wait; which load comes next between two polls is up to the strategy,
and here an input of the step (`BarrierInput`).

* `BarrierOk`, `barrierOk_step`: a returned value exposes published sequences only, and stays within what the
  dependents had passed. That a set flag is a publication is assumed here (`Reads`) and proved for whole pipelines.
-/

namespace BadBatch

open MultiProducerSequencer

/-- The entry points of `ProcessingSequenceBarrier`. -/
inductive BarrierCall
  | waitFor
  | waitForWithTimeout
  | waitForWithShutdown
  | tryGetAvailableSequence
  deriving DecidableEq, Repr

/-- Where a call stands. -/
inductive BarrierPc
  | idle
  /-- The stop flag, before anything else. -/
  | checkStop (c : BarrierCall) (sequence : Int)
  /-- `check_alert` -/
  | checkAlert (c : BarrierCall) (sequence : Int)
  /-- Inside the wait strategy, between two loads. -/
  | waiting (c : BarrierCall) (sequence : Int)
  /-- Inside `get_minimum_sequence`. -/
  | poll (c : BarrierCall) (sequence : Int) (rest : List Nat) (minimum : Int)
  /-- The strategy timed out. -/
  | timedOut
  /-- `check_alert` after the wait -/
  | recheck (c : BarrierCall) (sequence available : Int)
  /-- Inside `get_highest_published_sequence`. -/
  | scan (c : BarrierCall) (sequence next available : Int)
  /-- `check_alert` at the end of `try_get_available_sequence` -/
  | exitAlert (r : Int)
  | returned (r : Except DisruptorError Int)
  deriving DecidableEq, Repr

/-- What the wait strategy does next. -/
inductive BarrierInput
  | next
  | loadAlert
  | loadShutdown
  | timeout
  deriving DecidableEq, Repr

/-- The first step of a call. `guarded` when it is made through `StopFlag::Running`. -/
def barrierStart (c : BarrierCall) (guarded : Bool) (sequence : Int) : BarrierPc :=
  if guarded ∨ c = .waitForWithShutdown then .checkStop c sequence else .checkAlert c sequence

/-- The end of a call that resolved to `r`. -/
def BarrierPc.resolved (c : BarrierCall) (r : Int) : BarrierPc :=
  match c with
  | .tryGetAvailableSequence => .exitAlert r
  | _ => .returned (.ok r)

/-- `resolve_highest_published`: only behind a multi-producer sequencer the flags are scanned. -/
def BarrierPc.resolveHighestPublished (w : SequencerWorld) (c : BarrierCall) (sequence available : Int) : BarrierPc :=
  match w with
  | .single _ => resolved c available
  | .multi _ => if available < sequence then resolved c available else .scan c sequence sequence available

/-- A poll has shown `available`. -/
def BarrierPc.polled (w : SequencerWorld) (c : BarrierCall) (sequence available : Int) : BarrierPc :=
  match c with
  | .tryGetAvailableSequence => resolveHighestPublished w c sequence available
  | _ => if sequence ≤ available then .recheck c sequence available else .waiting c sequence

/-- One step of a barrier call. -/
def barrierStep (b : BufferSize) (w : SequencerWorld) (deps : List Nat) (alerted stopped : Bool) :
    BarrierPc → BarrierInput → Option BarrierPc
  | .checkStop c sequence, .next =>
    some (if stopped then .returned (.error .alert) else .checkAlert c sequence)
  | .checkAlert c sequence, .next =>
    some (if alerted then .returned (.error .alert) else .waiting c sequence)
  | .waiting c sequence, .next =>
    match deps with
    | [] => some (.polled w c sequence w.cursor)
    | i :: rest => some (.poll c sequence rest (w.sequences i))
  | .waiting c sequence, .loadAlert =>
    if c = .tryGetAvailableSequence then none
    else some (if alerted then .returned (.error .alert) else .waiting c sequence)
  | .waiting c sequence, .loadShutdown =>
    if c = .waitForWithShutdown then some (if stopped then .returned (.error .alert) else .waiting c sequence) else none
  | .waiting c _, .timeout => if c = .waitForWithTimeout then some .timedOut else none
  | .poll c sequence (i :: rest) minimum, .next => some (.poll c sequence rest (lower minimum (w.sequences i)))
  | .poll c sequence [] minimum, .next => some (.polled w c sequence minimum)
  | .timedOut, .next => some (.returned (.error (if alerted then .alert else .timeout)))
  | .recheck c sequence available, .next =>
    some (if alerted then .returned (.error .alert) else .resolveHighestPublished w c sequence available)
  | .scan c sequence next available, .next =>
    match w with
    | .single _ => none
    | .multi w =>
      if next ≤ available then
        match w.sequencer.getHighestPublishedSequenceStep b next available with
        | .inl next' => some (.scan c sequence next' available)
        | .inr r => some (.resolved c r)
      else some (.resolved c available)
  | .exitAlert r, .next => some (.returned (if alerted then .error .alert else .ok r))
  | _, _ => none

/-! ## What a call exposes -/

variable {b : BufferSize} {w w' : SequencerWorld} {deps : List Nat} {alerted stopped : Bool} {sequence s t r : Int}
  {pc pc' : BarrierPc} {i : BarrierInput}

/-- What a poll can have shown: the cursor for a barrier without dependents, else a value all dependents have reached. -/
def Offered (w : SequencerWorld) (deps : List Nat) (available : Int) : Prop :=
  if deps = [] then available ≤ w.cursor else Below w.sequences deps available

/-- The answer `r` to a request for `sequence` exposes published sequences only. -/
def Exposes (w : SequencerWorld) (deps : List Nat) (sequence r : Int) : Prop :=
  sequence ≤ r → Offered w deps r ∧ ∀ t, sequence ≤ t → t ≤ r → w.ledger.published t = true

/-- What is known at each place of a call for `sequence`. -/
def BarrierOk (w : SequencerWorld) (deps : List Nat) (sequence : Int) : BarrierPc → Prop
  | .checkStop _ s | .checkAlert _ s | .waiting _ s => s = sequence
  | .poll _ s rest minimum =>
    s = sequence ∧ ∃ scanned, scanned ≠ [] ∧ scanned ++ rest = deps ∧ Below w.sequences scanned minimum
  | .recheck _ s available => s = sequence ∧ Offered w deps available
  | .scan _ s next available =>
    s = sequence ∧ s ≤ available ∧ Offered w deps available ∧ next ≤ available + 1 ∧
      ∀ t, sequence ≤ t → t < next → w.ledger.published t = true
  | .exitAlert r => Exposes w deps sequence r
  | .returned (.ok r) => Exposes w deps sequence r
  | _ => True

/-- What a reader of the flags may conclude about an offered sequence from `sequence` on: behind a multi-producer
sequencer a set flag is a publication, behind a single-producer one every offered sequence is published. -/
def Reads (b : BufferSize) (w : SequencerWorld) (deps : List Nat) (sequence : Int) : Prop :=
  ∀ t, sequence ≤ t → Offered w deps t →
    match w with
    | .single w => w.ledger.published t = true
    | .multi w => Laid b w.sequencer ∧ (w.sequencer.isAvailableInternal b t = true → w.ledger.published t = true)

theorem Offered.le (h : Offered w deps s) (ht : t ≤ s) : Offered w deps t := by
  unfold Offered at h ⊢
  split
  · rename_i hd
    rw [if_pos hd] at h
    exact le_trans ht h
  · rename_i hd
    rw [if_neg hd] at h
    exact h.le ht

theorem Offered.mono (h : Offered w deps s) (hc : w.cursor ≤ w'.cursor)
    (hs : ∀ i ∈ deps, w.sequences i ≤ w'.sequences i) : Offered w' deps s := by
  unfold Offered at h ⊢
  split
  · rename_i hd
    rw [if_pos hd] at h
    exact le_trans h hc
  · rename_i hd
    rw [if_neg hd] at h
    exact fun i hi => le_trans (h i hi) (hs i hi)

theorem Exposes.mono (h : Exposes w deps sequence r) (hc : w.cursor ≤ w'.cursor)
    (hs : ∀ i ∈ deps, w.sequences i ≤ w'.sequences i)
    (hp : ∀ t, w.ledger.published t = true → w'.ledger.published t = true) : Exposes w' deps sequence r :=
  fun hr => ⟨(h hr).1.mono hc hs, fun t h1 h2 => hp t ((h hr).2 t h1 h2)⟩

/-- What a call knows stays true while cursor, sequences and publications grow. -/
theorem BarrierOk.mono (h : BarrierOk w deps sequence pc) (hc : w.cursor ≤ w'.cursor)
    (hs : ∀ i ∈ deps, w.sequences i ≤ w'.sequences i)
    (hp : ∀ t, w.ledger.published t = true → w'.ledger.published t = true) : BarrierOk w' deps sequence pc := by
  cases pc with
  | poll c s rest minimum =>
    obtain ⟨hs', scanned, hne, he, hb⟩ := h
    refine ⟨hs', scanned, hne, he, fun i hi => le_trans (hb i hi) (hs i ?_)⟩
    rw [← he]; exact List.mem_append_left _ hi
  | recheck c s available => exact ⟨h.1, h.2.mono hc hs⟩
  | scan c s next available => exact ⟨h.1, h.2.1, h.2.2.1.mono hc hs, h.2.2.2.1, fun t h1 h2 => hp t (h.2.2.2.2 t h1 h2)⟩
  | exitAlert r => exact Exposes.mono h hc hs hp
  | returned r =>
    cases r with
    | ok r => exact Exposes.mono h hc hs hp
    | error e => exact h
  | _ => exact h

theorem barrierOk_start (c : BarrierCall) (guarded : Bool) : BarrierOk w deps sequence (barrierStart c guarded sequence) := by
  unfold barrierStart
  split <;> rfl

/-! ## Steps -/

theorem barrierOk_resolved {c : BarrierCall} (h : Exposes w deps sequence r) :
    BarrierOk w deps sequence (.resolved c r) := by
  cases c <;> exact h

/-- Resolving an offered value exposes published sequences only, or starts the scan. -/
theorem barrierOk_resolve {c : BarrierCall} (hr : Reads b w deps sequence) (ho : Offered w deps r) :
    BarrierOk w deps sequence (.resolveHighestPublished w c sequence r) := by
  cases w with
  | single w =>
    exact barrierOk_resolved fun _ => ⟨ho, fun t h1 h2 => hr t h1 (ho.le h2)⟩
  | multi w =>
    simp only [BarrierPc.resolveHighestPublished]
    split
    · exact barrierOk_resolved fun h => by omega
    · exact ⟨rfl, by omega, ho, by omega, fun t h1 h2 => by omega⟩

theorem barrierOk_polled {c : BarrierCall} (hr : Reads b w deps sequence) (ho : Offered w deps r) :
    BarrierOk w deps sequence (.polled w c sequence r) := by
  cases c with
  | tryGetAvailableSequence => exact barrierOk_resolve hr ho
  | waitFor | waitForWithTimeout | waitForWithShutdown =>
    simp only [BarrierPc.polled]
    split
    · exact ⟨rfl, ho⟩
    · rfl

/-- **Step lemma of a barrier call.** -/
theorem barrierOk_step (hr : Reads b w deps sequence) (h : BarrierOk w deps sequence pc)
    (hs : barrierStep b w deps alerted stopped pc i = some pc') : BarrierOk w deps sequence pc' := by
  cases pc with
  | idle => cases i <;> simp [barrierStep] at hs
  | returned r => cases i <;> simp [barrierStep] at hs
  | checkStop c s =>
    cases i <;> simp only [barrierStep, reduceCtorEq, Option.some.injEq] at hs
    subst hs
    split
    · trivial
    · exact h
  | checkAlert c s =>
    cases i <;> simp only [barrierStep, reduceCtorEq, Option.some.injEq] at hs
    subst hs
    split
    · trivial
    · exact h
  | waiting c s =>
    have hseq : s = sequence := h
    subst hseq
    cases i with
    | next =>
      cases deps with
      | nil =>
        simp only [barrierStep, Option.some.injEq] at hs
        subst hs
        exact barrierOk_polled hr (by simp [Offered])
      | cons j rest =>
        simp only [barrierStep, Option.some.injEq] at hs
        subst hs
        exact ⟨rfl, [j], by simp, rfl, by simp⟩
    | loadAlert =>
      simp only [barrierStep, Option.ite_none_left_eq_some, Option.some.injEq] at hs
      obtain ⟨-, rfl⟩ := hs
      split
      · trivial
      · rfl
    | loadShutdown =>
      simp only [barrierStep, Option.ite_none_right_eq_some, Option.some.injEq] at hs
      obtain ⟨-, rfl⟩ := hs
      split
      · trivial
      · rfl
    | timeout =>
      simp only [barrierStep, Option.ite_none_right_eq_some, Option.some.injEq] at hs
      obtain ⟨-, rfl⟩ := hs
      trivial
  | poll c s rest minimum =>
    obtain ⟨rfl, scanned, hne, he, hb⟩ := h
    cases rest with
    | nil =>
      cases i <;> simp only [barrierStep, reduceCtorEq, Option.some.injEq] at hs
      subst hs
      rw [List.append_nil] at he
      subst he
      refine barrierOk_polled hr ?_
      unfold Offered
      rw [if_neg hne]
      exact hb
    | cons j rest =>
      cases i <;> simp only [barrierStep, reduceCtorEq, Option.some.injEq] at hs
      subst hs
      exact ⟨rfl, scanned ++ [j], by simp, by rw [← he]; simp, hb.scan⟩
  | timedOut =>
    cases i <;> simp only [barrierStep, reduceCtorEq, Option.some.injEq] at hs
    subst hs
    trivial
  | recheck c s available =>
    obtain ⟨rfl, ho⟩ := h
    cases i <;> simp only [barrierStep, reduceCtorEq, Option.some.injEq] at hs
    subst hs
    split
    · trivial
    · exact barrierOk_resolve hr ho
  | scan c s next available =>
    obtain ⟨rfl, hsn, ho, hle, hpub⟩ := h
    cases i <;> simp only [barrierStep, reduceCtorEq] at hs
    cases w with
    | single w => simp at hs
    | multi w =>
      simp only at hs
      split at hs
      · rename_i hnext
        -- what the load shows as available is published
        have hread : ∀ t, s ≤ t → t ≤ available → w.sequencer.isAvailableInternal b t = true →
            w.ledger.published t = true := fun t h1 h2 => (hr t h1 (ho.le h2)).2
        have hspec := getHighestPublishedSequenceStep_spec (hr available hsn ho).1 hnext
        split at hs <;> rename_i r' he <;> rw [he] at hspec <;> simp only [Option.some.injEq] at hs <;> subst hs
        · obtain ⟨h1, h2, h3⟩ := hspec
          refine ⟨rfl, hsn, ho, h2, fun t ht1 ht2 => ?_⟩
          by_cases htn : t < next
          · exact hpub t ht1 htn
          · exact hread t ht1 (by omega) (h3 t (by omega) ht2)
        · obtain ⟨h1, h2, h3, -⟩ := hspec
          refine barrierOk_resolved fun hsr => ⟨ho.le (by omega), fun t ht1 ht2 => ?_⟩
          by_cases htn : t < next
          · exact hpub t ht1 htn
          · exact hread t ht1 (by omega) (h3 t (by omega) ht2)
      · simp only [Option.some.injEq] at hs
        subst hs
        exact barrierOk_resolved fun _ => ⟨ho, fun t h1 h2 => hpub t h1 (by omega)⟩
  | exitAlert r =>
    cases i <;> simp only [barrierStep, reduceCtorEq, Option.some.injEq] at hs
    subst hs
    split
    · trivial
    · exact h

end BadBatch
