import BadBatch.ConsumerEngine.Loops
import BadBatch.Lib.StepSys
import Mathlib.Data.List.Range

/-!
# The trace of a sequential loop

A sequential consumer calls `on_event` for `0, 1, 2, …`, whatever the barrier answers: batches have any length, an answer
below the request is ignored, errors are retried. It stores its `Sequence` once per batch, or once more when a handler
fails.

* `seqStep_cases`: everything one step can do;
* `SeqPlace`: where the loop's local `next_sequence` stands relative to its `Sequence`;
* `SeqTrace`, `seqTrace_step`: the calls so far, and what the `Sequence` covers;
* `SeqRest`: a loop that has not failed can be entered again.
-/

namespace BadBatch

variable {cfg : EngineConfig} {sequence sequence' s : Int} {l l' : SeqLoop} {i : EngineInput}

/-- What the loop knows at each place. -/
def SeqPlace (sequence : Int) (l : SeqLoop) : Prop :=
  match l.pc with
  | .loop next | .waiting next | .waitErr next => next = sequence + 1
  | .batchStart next available => next = sequence + 1 ∧ next ≤ available
  | .event next available => sequence < next ∧ next ≤ available + 1 ∧ sequence < available
  | .inEvent next available => sequence < next ∧ next ≤ available
  | .store available => sequence < available
  | .freeze next => sequence < next
  | _ => True

/-- The end of the range that the barrier released and the loop has not stored yet. -/
def SeqPc.released : SeqPc → Option Int
  | batchStart _ available => some available
  | event _ available => some available
  | inEvent _ available => some available
  | store available => some available
  | freeze next => some next
  | _ => none

/-- How many calls were made and returned at each place. Inside the loop nothing has failed. -/
def SeqCount (sequence : Int) (l : SeqLoop) : Prop :=
  match l.pc with
  | .start | .enter | .loop _ | .waiting _ | .waitErr _ =>
    (l.calls.length : Int) = sequence + 1 ∧ l.returned.length = l.calls.length ∧ l.failedAt = none
  | .batchStart next available =>
    (l.calls.length : Int) = next ∧ l.returned.length = l.calls.length ∧ available ∈ l.batchEnds ∧ l.failedAt = none
  | .event next available =>
    (l.calls.length : Int) = next ∧ l.returned.length = l.calls.length ∧ available ∈ l.batchEnds ∧ l.failedAt = none
  | .inEvent next available =>
    (l.calls.length : Int) = next + 1 ∧ (l.returned.length : Int) = next ∧ available ∈ l.batchEnds ∧ l.failedAt = none
  | .store available =>
    (l.calls.length : Int) = available + 1 ∧ l.returned.length = l.calls.length ∧ available ∈ l.batchEnds ∧ l.failedAt = none
  | .freeze next => (l.returned.length : Int) = next ∧ l.failedAt = some next
  | _ => True

/-- A step that neither calls, returns, releases nor stores. -/
def SeqQuiet (sequence : Int) (l : SeqLoop) (sequence' : Int) (l' : SeqLoop) : Prop :=
  sequence' = sequence ∧ l'.calls = l.calls ∧ l'.returned = l.returned ∧ l'.batchEnds = l.batchEnds ∧
    l'.failedAt = l.failedAt ∧ (l'.pc.released = l.pc.released ∨ l'.pc.released = none) ∧
    (SeqPlace sequence l → SeqPlace sequence l') ∧ (SeqPlace sequence l → SeqCount sequence l → SeqCount sequence l')

/-- Everything one step of a sequential loop can do. -/
theorem seqStep_cases (h : seqStep cfg sequence l i = some (sequence', l')) :
    SeqQuiet sequence l sequence' l' ∨
    (∃ next available, l.pc = .waiting next ∧ i = .answer (.ok available) ∧ next ≤ available ∧ sequence' = sequence ∧
      (l' = { l with pc := .event next available, batchEnds := available :: l.batchEnds } ∨
        l' = { l with pc := .batchStart next available, batchEnds := available :: l.batchEnds })) ∨
    (∃ next available, l.pc = .event next available ∧ next ≤ available ∧ sequence' = sequence ∧
      l' = { l with pc := .inEvent next available, calls := l.calls ++ [next] }) ∨
    (∃ next available, l.pc = .inEvent next available ∧ i = .handler .ok ∧ sequence' = sequence ∧
      l' = { l with pc := .event (next + 1) available, returned := l.returned ++ [next] }) ∨
    (∃ next available, l.pc = .inEvent next available ∧ cfg.hasExceptionHandler = true ∧ sequence' = sequence ∧
      i = .handler (.err .continue) ∧ l' = { l with pc := .event (next + 1) available }) ∨
    (∃ next available d, l.pc = .inEvent next available ∧ i = .handler (.err d) ∧ sequence' = sequence ∧
      l' = { l with pc := .freeze next, failedAt := some next }) ∨
    (∃ available, l.pc = .store available ∧ sequence' = available ∧ l' = { l with pc := .loop (available + 1) }) ∨
    (∃ next f, l.pc = .freeze next ∧ sequence' = next - 1 ∧ l' = { l with pc := .record f false }) := by
  obtain ⟨pc, calls, ret, ends, failed⟩ := l
  cases seqRule_of_seqStep h with
  | go | early | retry | waitErr => exact .inl ⟨rfl, rfl, rfl, rfl, rfl, .inr rfl, fun hp => hp, fun _ hc => hc⟩
  | startReadonly | started => exact .inl ⟨rfl, rfl, rfl, rfl, rfl, .inr rfl, fun _ => trivial, fun _ hc => hc⟩
  | enter => exact .inl ⟨rfl, rfl, rfl, rfl, rfl, .inr rfl, fun _ => rfl, fun _ hc => hc⟩
  | batchStart =>
    refine .inl ⟨rfl, rfl, rfl, rfl, rfl, .inl rfl, fun hp => ?_, fun _ hc => hc⟩
    simp only [SeqPlace] at hp ⊢
    omega
  | batchEnd hlt =>
    refine .inl ⟨rfl, rfl, rfl, rfl, rfl, .inl rfl, fun hp => hp.2.2, fun hp hcnt => ?_⟩
    simp only [SeqPlace, SeqCount] at hp hcnt ⊢
    exact ⟨by omega, hcnt.2⟩
  | releasedReadonly _ hle => exact .inr (.inl ⟨_, _, rfl, rfl, hle, rfl, .inl rfl⟩)
  | released _ hle => exact .inr (.inl ⟨_, _, rfl, rfl, hle, rfl, .inr rfl⟩)
  | call hle => exact .inr (.inr (.inl ⟨_, _, rfl, hle, rfl, rfl⟩))
  | handled => exact .inr (.inr (.inr (.inl ⟨_, _, rfl, rfl, rfl, rfl⟩)))
  | skip he => exact .inr (.inr (.inr (.inr (.inl ⟨_, _, rfl, he, rfl, rfl, rfl⟩))))
  | fail => exact .inr (.inr (.inr (.inr (.inr (.inl ⟨_, _, _, rfl, rfl, rfl, rfl⟩)))))
  | store => exact .inr (.inr (.inr (.inr (.inr (.inr (.inl ⟨_, rfl, rfl, rfl⟩))))))
  | freeze => exact .inr (.inr (.inr (.inr (.inr (.inr (.inr ⟨_, _, rfl, rfl, rfl⟩))))))
  | _ => exact .inl ⟨rfl, rfl, rfl, rfl, rfl, .inr rfl, fun _ => trivial, fun _ _ => trivial⟩

/-- The loop's place, and its `Sequence` never decreases. -/
theorem seqPlace_step (h : seqStep cfg sequence l i = some (sequence', l')) (hp : SeqPlace sequence l) :
    SeqPlace sequence' l' ∧ sequence ≤ sequence' := by
  rcases seqStep_cases h with ⟨rfl, -, -, -, -, -, hq, -⟩ | ⟨next, available, hpc, -, hle, rfl, rfl | rfl⟩ |
    ⟨next, available, hpc, hle, rfl, rfl⟩ | ⟨next, available, hpc, -, rfl, rfl⟩ |
    ⟨next, available, hpc, -, rfl, -, rfl⟩ | ⟨next, available, d, hpc, -, rfl, rfl⟩ | ⟨available, hpc, rfl, rfl⟩ |
    ⟨next, f, hpc, rfl, rfl⟩
  · exact ⟨hq hp, le_rfl⟩
  all_goals
    simp only [SeqPlace, hpc] at hp
    refine ⟨?_, by omega⟩
    simp only [SeqPlace]
    try omega

/-! ## The trace -/

/-- `[0, 1, …, n - 1]` -/
def upTo (n : Nat) : List Int := (List.range n).map fun k : Nat => (k : Int)

theorem upTo_succ (n : Nat) : upTo (n + 1) = upTo n ++ [(n : Int)] := by simp [upTo, List.range_succ]

theorem mem_upTo {n : Nat} : s ∈ upTo n ↔ 0 ≤ s ∧ s < (n : Int) := by
  simp only [upTo, List.mem_map, List.mem_range]
  constructor
  · rintro ⟨k, hk, rfl⟩
    omega
  · rintro ⟨h0, h1⟩
    exact ⟨s.toNat, by omega, by omega⟩

/-- The trace law of a sequential loop that no exception handler lets continue after an error. -/
structure SeqTrace (sequence : Int) (l : SeqLoop) : Prop where
  low : -1 ≤ sequence
  place : SeqPlace sequence l
  count : SeqCount sequence l
  /-- `on_event` was called for `0, 1, 2, …`. -/
  calls : l.calls = upTo l.calls.length
  returned : l.returned = upTo l.returned.length
  /-- The `Sequence` covers only events whose handler returned `Ok`. -/
  covered : sequence < l.returned.length
  value : sequence = initialCursorValue ∨ sequence ∈ l.batchEnds ∨ ∃ f, l.failedAt = some f ∧ sequence = f - 1

theorem seqTrace_init : SeqTrace initialCursorValue .init where
  low := le_rfl
  place := trivial
  count := ⟨rfl, rfl, rfl⟩
  calls := rfl
  returned := rfl
  covered := by decide
  value := .inl rfl

/-- **Step lemma of the trace law.** -/
theorem seqTrace_step (hcfg : cfg.hasExceptionHandler = true → i ≠ .handler (.err .continue))
    (h : seqStep cfg sequence l i = some (sequence', l')) (ht : SeqTrace sequence l) : SeqTrace sequence' l' := by
  obtain ⟨hplace, hle⟩ := seqPlace_step h ht.place
  obtain ⟨hlow, hp, hc, hcalls, hret, hcov, hval⟩ := ht
  have hlow' : -1 ≤ sequence' := by omega
  rcases seqStep_cases h with ⟨rfl, h1, h2, h3, h4, -, -, hq⟩ | ⟨next, available, hpc, -, hav, rfl, rfl | rfl⟩ |
    ⟨next, available, hpc, hav, rfl, rfl⟩ | ⟨next, available, hpc, -, rfl, rfl⟩ |
    ⟨next, available, hpc, hex, -, hi, -⟩ | ⟨next, available, d, hpc, -, rfl, rfl⟩ | ⟨available, hpc, rfl, rfl⟩ |
    ⟨next, f, hpc, rfl, rfl⟩
  · exact ⟨hlow, hplace, hq hp hc, by rw [h1]; exact hcalls, by rw [h2]; exact hret, by rw [h2]; exact hcov,
      by rw [h3, h4]; exact hval⟩
  · have hval' : sequence' = initialCursorValue ∨ sequence' ∈ available :: l.batchEnds ∨
        ∃ f, l.failedAt = some f ∧ sequence' = f - 1 := hval.imp id (Or.imp (List.mem_cons_of_mem _) id)
    simp only [SeqCount, SeqPlace, hpc] at hc hp
    exact ⟨hlow, hplace, ⟨by rw [hp]; exact hc.1, hc.2.1, by simp, hc.2.2⟩, hcalls, hret, hcov, hval'⟩
  · have hval' : sequence' = initialCursorValue ∨ sequence' ∈ available :: l.batchEnds ∨
        ∃ f, l.failedAt = some f ∧ sequence' = f - 1 := hval.imp id (Or.imp (List.mem_cons_of_mem _) id)
    simp only [SeqCount, SeqPlace, hpc] at hc hp
    exact ⟨hlow, hplace, ⟨by rw [hp]; exact hc.1, hc.2.1, by simp, hc.2.2⟩, hcalls, hret, hcov, hval'⟩
  · -- a call
    simp only [SeqCount, hpc] at hc
    refine ⟨hlow, hplace, ⟨?_, ?_, hc.2.2⟩, ?_, hret, hcov, hval⟩
    · simp only [List.length_append, List.length_singleton]
      omega
    · rw [hc.2.1]; exact hc.1
    · rw [List.length_append, List.length_singleton, upTo_succ, hc.1, ← hcalls]
  · -- a return
    simp only [SeqCount, hpc] at hc
    refine ⟨hlow, hplace, ⟨hc.1, ?_, hc.2.2⟩, hcalls, ?_, ?_, hval⟩
    · simp only [List.length_append, List.length_singleton]
      omega
    · rw [List.length_append, List.length_singleton, upTo_succ, hc.2.1, ← hret]
    · simp only [List.length_append, List.length_singleton]
      omega
  · exact absurd hi (hcfg hex)
  · simp only [SeqCount, hpc] at hc
    refine ⟨hlow, hplace, ⟨hc.2.1, rfl⟩, hcalls, hret, hcov, hval.imp id (Or.imp id ?_)⟩
    rintro ⟨f, hf, -⟩
    rw [hc.2.2.2] at hf; cases hf
  · -- the store at the end of a batch
    simp only [SeqCount, hpc] at hc
    exact ⟨hlow', hplace, ⟨hc.1, hc.2.1, hc.2.2.2⟩, hcalls, hret, by simp only; omega, .inr (.inl hc.2.2.1)⟩
  · -- the store before the failing event
    simp only [SeqCount, hpc] at hc
    exact ⟨hlow', hplace, trivial, hcalls, hret, by simp only; omega, .inr (.inr ⟨next, hc.2, rfl⟩)⟩

/-! ## Without failures -/

/-- A handler fails, or a thread panics. -/
def EngineInput.fails : EngineInput → Bool
  | panic => true
  | handler (.err _) => true
  | _ => false

/-- A loop that has not failed leaves with everything handled that it was called for, so that it can be entered again. -/
def SeqRest (sequence : Int) (l : SeqLoop) : Prop :=
  match l.pc with
  | .stopping | .done => (l.calls.length : Int) = sequence + 1 ∧ l.returned.length = l.calls.length ∧ l.failedAt = none
  | .freeze _ | .record _ _ | .poison _ _ | .recordShutdown _ => False
  | _ => True

theorem seqRest_step (hi : i.fails = false) (h : seqStep cfg sequence l i = some (sequence', l'))
    (ht : SeqTrace sequence l) (hr : SeqRest sequence l) : SeqRest sequence' l' := by
  have hcount := ht.count
  obtain ⟨pc, calls, ret, ends, failed⟩ := l
  cases seqRule_of_seqStep h with
  | panic | startFailed | batchStartFailed | skip | fail | shutdownFailed => cases hi
  | freeze | record | poison | poisonLast | recordShutdown => exact hr.elim
  | stop | giveUp | ended => exact hcount
  | startReadonly | started | doneReadonly | done => exact hr
  | _ => trivial

/-- The loop is entered again. -/
theorem seqTrace_restart (ht : SeqTrace sequence l) (hr : SeqRest sequence l) (hpc : l.pc = .done) :
    SeqTrace sequence { l with pc := .start } := by
  simp only [SeqRest, hpc] at hr
  exact ⟨ht.low, trivial, hr, ht.calls, ht.returned, ht.covered, ht.value⟩

end BadBatch
