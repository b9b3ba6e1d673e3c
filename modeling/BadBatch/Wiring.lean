import BadBatch.Sequence

/-!
# Wiring

What the assembly of a disruptor decides: the consumers with their stages, the sequences every consumer waits for, and the
sequences that gate the producers. The Builder and the DSL both produce a `Wiring`; `Wiring.Wf` is what the correctness of
a pipeline needs of it.
-/

namespace BadBatch

/-- `ConsumerAccess` -/
inductive ConsumerAccess
  | mutable
  | readonly
  deriving DecidableEq, Repr

/-- `RunMode`; the work cursor of a pool belongs to its stage. -/
inductive RunMode
  | sequential
  | workPool
  deriving DecidableEq, Repr

/-- `StopFlag`: the shared shutdown flag of the Builder, or the `running` flag of one processor. -/
inductive StopFlag
  | external
  | running
  deriving DecidableEq, Repr

/-- Consumers `0, …, count - 1` with their stages, dependencies and gating. -/
structure Wiring where
  count : Nat
  stageCount : Nat
  stage : Nat → Nat
  /-- The stages that wait for the cursor. -/
  root : Nat → Bool
  access : Nat → ConsumerAccess
  runMode : Nat → RunMode
  dependentSequences : Nat → List Nat
  gatingSequences : List Nat
  exceptionHandler : Nat → Bool
  stop : StopFlag

/-! ## Well-formed wiring -/

/-- Stages are filled, every consumer waits for the whole stage before its own unless it waits for the cursor, a stage that
nobody waits for gates the producers, only read-only consumers share a stage outside a pool, and pools are mutable. -/
structure Wiring.Wf (t : Wiring) : Prop where
  stage_lt : ∀ c < t.count, t.stage c < t.stageCount
  filled : ∀ k < t.stageCount, ∃ c < t.count, t.stage c = k
  dependents : ∀ c < t.count, ∀ d,
    d ∈ t.dependentSequences c ↔ d < t.count ∧ t.root (t.stage c) = false ∧ t.stage d + 1 = t.stage c
  gating : ∀ c ∈ t.gatingSequences, c < t.count
  terminal : ∀ c < t.count, t.stage c + 1 = t.stageCount ∨ t.root (t.stage c + 1) = true → c ∈ t.gatingSequences
  started : 0 < t.stageCount
  readonly : ∀ c < t.count, ∀ d < t.count, c ≠ d → t.stage c = t.stage d → t.runMode (t.stage c) = .sequential →
    t.access c = .readonly
  pool : ∀ c < t.count, t.runMode (t.stage c) = .workPool → t.access c = .mutable

/-- The consumers of a stage. -/
def Wiring.members (t : Wiring) (k : Nat) : List Nat := (List.range t.count).filter fun c => t.stage c = k

theorem Wiring.mem_members {t : Wiring} {k c : Nat} : c ∈ t.members k ↔ c < t.count ∧ t.stage c = k := by
  simp [Wiring.members]

theorem Wiring.Wf.gating_ne_nil {t : Wiring} (h : t.Wf) : t.gatingSequences ≠ [] := by
  obtain ⟨c, hc, hk⟩ := h.filled (t.stageCount - 1) (by have := h.started; omega)
  exact List.ne_nil_of_mem (h.terminal c hc (.inl (by have := h.started; omega)))

end BadBatch
