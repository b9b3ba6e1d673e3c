import BadBatch.Wiring

/-!
# Assembly of a pipeline

The calls of the fluent builder, and what `create_disruptor_core` makes of them: which sequences every consumer waits for,
which run mode every stage has, and which sequences gate the producers. A stage waits for all consumers of the stage
before it; producers are gated on the last stage only.

* `createDisruptorCore`: the wiring of the registered consumers;
* `wf_createDisruptorCore`: whatever the builder accepts is well-formed.
-/

namespace BadBatch

/-- `ConsumerInfo`, as far as the assembly reads it -/
structure ConsumerInfo where
  stageIndex : Nat
  access : ConsumerAccess
  deriving DecidableEq, Repr

/-! ## The fluent builder -/

/-- The registered consumers and the stage that is being filled. -/
structure BuilderState where
  consumers : List ConsumerInfo
  currentStageIndex : Nat
  deriving DecidableEq, Repr

/-- A registration: on the current stage (`also_partition_with`, `fan_out_events_with`), or after `and_then`. -/
inductive BuilderCall
  | also (access : ConsumerAccess)
  | andThen (access : ConsumerAccess)
  deriving DecidableEq, Repr

/-- `assert_access_compatible` -/
def assertAccessCompatible (consumers : List ConsumerInfo) (stageIndex : Nat) (access : ConsumerAccess) : Bool :=
  consumers.all fun c => !(decide (c.stageIndex = stageIndex) && decide (c.access ≠ access))

/-- `push`; `none` is the panic of the assertion. -/
def BuilderState.push (s : BuilderState) (access : ConsumerAccess) : Option BuilderState :=
  if assertAccessCompatible s.consumers s.currentStageIndex access then
    some { s with consumers := s.consumers ++ [⟨s.currentStageIndex, access⟩] }
  else none

/-- `advance_stage` -/
def BuilderState.advanceStage (s : BuilderState) : BuilderState := { s with currentStageIndex := s.currentStageIndex + 1 }

def BuilderState.call (s : BuilderState) : BuilderCall → Option BuilderState
  | .also access => s.push access
  | .andThen access => s.advanceStage.push access

/-- The consumers after a first `handle_events_with` or `fan_out_events_with` and the calls that follow. -/
def builderConsumers (first : ConsumerAccess) (calls : List BuilderCall) : Option (List ConsumerInfo) :=
  ((BuilderState.push ⟨[], 0⟩ first).bind fun s => calls.foldlM BuilderState.call s).map BuilderState.consumers

/-! ## The core -/

section Core

variable (consumers : List ConsumerInfo)

def stageOf (c : Nat) : Nat := (consumers[c]?.map ConsumerInfo.stageIndex).getD 0

def accessOf (c : Nat) : ConsumerAccess := (consumers[c]?.map ConsumerInfo.access).getD .mutable

/-- `stage_count` -/
def stageCountOf : Nat := (consumers.map fun c => c.stageIndex + 1).foldl max 0

/-- `stage_sequences[stage]` when the first `started` consumers are started. -/
def stageSequences (started stage : Nat) : List Nat := (List.range started).filter fun c => stageOf consumers c = stage

/-- `stage_run_modes`: a stage of several mutable consumers is a pool. -/
def stageRunMode (stage : Nat) : RunMode :=
  let members := stageSequences consumers consumers.length stage
  let access := (members.map (accessOf consumers)).getLastD .mutable
  if members.length > 1 ∧ access = .mutable then .workPool else .sequential

/-- `create_disruptor_core` -/
def createDisruptorCore : Wiring where
  count := consumers.length
  stageCount := stageCountOf consumers
  stage := stageOf consumers
  root := fun k => k == 0
  access := accessOf consumers
  runMode := stageRunMode consumers
  dependentSequences := fun c =>
    if stageOf consumers c = 0 then [] else stageSequences consumers c (stageOf consumers c - 1)
  gatingSequences := stageSequences consumers consumers.length (stageCountOf consumers - 1)
  exceptionHandler := fun _ => false
  stop := .external

end Core

/-! ## What the builder accepts -/

/-- What holds after every call of the builder. -/
structure BuilderOk (s : BuilderState) : Prop where
  le : ∀ c ∈ s.consumers, c.stageIndex ≤ s.currentStageIndex
  filled : ∀ k ≤ s.currentStageIndex, ∃ c ∈ s.consumers, c.stageIndex = k
  ordered : s.consumers.Pairwise fun c d => c.stageIndex ≤ d.stageIndex
  compatible : ∀ c ∈ s.consumers, ∀ d ∈ s.consumers, c.stageIndex = d.stageIndex → c.access = d.access

variable {s s' : BuilderState} {access : ConsumerAccess}

/-- A registration on a stage that is current, or the next one after a filled stage. -/
theorem builderOk_push (hle : ∀ c ∈ s.consumers, c.stageIndex ≤ s.currentStageIndex)
    (hfilled : ∀ k < s.currentStageIndex, ∃ c ∈ s.consumers, c.stageIndex = k)
    (hord : s.consumers.Pairwise fun c d => c.stageIndex ≤ d.stageIndex)
    (hcomp : ∀ c ∈ s.consumers, ∀ d ∈ s.consumers, c.stageIndex = d.stageIndex → c.access = d.access)
    (hs : s.push access = some s') : BuilderOk s' ∧ s'.currentStageIndex = s.currentStageIndex := by
  simp only [BuilderState.push, Option.ite_none_right_eq_some, Option.some.injEq] at hs
  obtain ⟨hassert, rfl⟩ := hs
  -- the assertion: the stage so far has the access kind of the new consumer
  have hnew : ∀ c ∈ s.consumers, c.stageIndex = s.currentStageIndex → c.access = access := by
    intro c hc hstage
    have := List.all_eq_true.mp hassert c hc
    simpa [hstage] using this
  refine ⟨⟨fun c hc => ?_, fun k hk => ?_, ?_, fun c hc d hd hcd => ?_⟩, rfl⟩
  · rcases List.mem_append.mp hc with hc | hc
    · exact hle c hc
    · rw [List.mem_singleton.mp hc]
  · by_cases hk' : k < s.currentStageIndex
    · obtain ⟨c, hc, hck⟩ := hfilled k hk'
      exact ⟨c, List.mem_append_left _ hc, hck⟩
    · exact ⟨⟨s.currentStageIndex, access⟩, by simp, by simp only at hk ⊢; omega⟩
  · refine List.pairwise_append.mpr ⟨hord, List.pairwise_singleton _ _, fun c hc d hd => ?_⟩
    rw [List.mem_singleton.mp hd]
    exact hle c hc
  · rcases List.mem_append.mp hc with hc | hc <;> rcases List.mem_append.mp hd with hd | hd
    · exact hcomp c hc d hd hcd
    · rw [List.mem_singleton.mp hd] at hcd ⊢
      exact hnew c hc hcd
    · rw [List.mem_singleton.mp hc] at hcd ⊢
      exact (hnew d hd hcd.symm).symm
    · rw [List.mem_singleton.mp hc, List.mem_singleton.mp hd]

theorem builderOk_call {call : BuilderCall} (h : BuilderOk s) (hs : s.call call = some s') : BuilderOk s' := by
  cases call with
  | also access => exact (builderOk_push h.le (fun k hk => h.filled k (le_of_lt hk)) h.ordered h.compatible hs).1
  | andThen access =>
    refine (builderOk_push (s := s.advanceStage) (fun c hc => ?_) (fun k hk => ?_) h.ordered h.compatible hs).1
    · have := h.le c hc
      simp only [BuilderState.advanceStage]
      omega
    · exact h.filled k (by simp only [BuilderState.advanceStage] at hk; omega)

theorem builderOk_calls {calls : List BuilderCall} (h : BuilderOk s) (hs : calls.foldlM BuilderState.call s = some s') :
    BuilderOk s' := by
  induction calls generalizing s with
  | nil =>
    simp only [List.foldlM_nil, Option.pure_def, Option.some.injEq] at hs
    exact hs ▸ h
  | cons call calls ih =>
    simp only [List.foldlM_cons, Option.bind_eq_bind, Option.bind_eq_some_iff] at hs
    obtain ⟨s₁, h₁, hs⟩ := hs
    exact ih (builderOk_call h h₁) hs

/-- Whatever the builder accepts was reached by accepted calls. -/
theorem builderOk_of_builderConsumers {first : ConsumerAccess} {calls : List BuilderCall} {consumers : List ConsumerInfo}
    (h : builderConsumers first calls = some consumers) : ∃ s, BuilderOk s ∧ s.consumers = consumers := by
  simp only [builderConsumers, Option.map_eq_some_iff, Option.bind_eq_some_iff] at h
  obtain ⟨s, ⟨s₀, h₀, hs⟩, rfl⟩ := h
  have hok := (builderOk_push (s := ⟨[], 0⟩) (by simp) (by simp) (by simp) (by simp) h₀).1
  exact ⟨s, builderOk_calls hok hs, rfl⟩

section Wf

variable {consumers : List ConsumerInfo}

theorem stageOf_eq {c : Nat} (hc : c < consumers.length) : stageOf consumers c = (consumers.get ⟨c, hc⟩).stageIndex := by
  simp [stageOf, hc]

theorem accessOf_eq {c : Nat} (hc : c < consumers.length) : accessOf consumers c = (consumers.get ⟨c, hc⟩).access := by
  simp [accessOf, hc]

theorem mem_stageSequences {started stage c : Nat} :
    c ∈ stageSequences consumers started stage ↔ c < started ∧ stageOf consumers c = stage := by
  simp [stageSequences]

theorem foldl_max_eq {xs : List Nat} {m n : Nat} (hle : ∀ x ∈ xs, x ≤ n) (hm : m ≤ n) (hmem : n ∈ xs ∨ n = m) :
    xs.foldl max m = n := by
  induction xs generalizing m with
  | nil =>
    rcases hmem with h | h
    · cases h
    · exact h.symm
  | cons x xs ih =>
    have hx := hle x (by simp)
    refine ih (fun y hy => hle y (by simp [hy])) (by omega) ?_
    rcases hmem with h | h
    · rcases List.mem_cons.mp h with rfl | h
      · exact .inr (by omega)
      · exact .inl h
    · exact .inr (by omega)

theorem stageCountOf_eq (h : BuilderOk s) : stageCountOf s.consumers = s.currentStageIndex + 1 := by
  refine foldl_max_eq (fun x hx => ?_) (by omega) (.inl ?_)
  · obtain ⟨c, hc, rfl⟩ := List.mem_map.mp hx
    have := h.le c hc
    omega
  · obtain ⟨c, hc, hk⟩ := h.filled s.currentStageIndex le_rfl
    exact List.mem_map.mpr ⟨c, hc, by rw [hk]⟩

theorem one_lt_length_of_ne {α : Type} {xs : List α} {a b : α} (ha : a ∈ xs) (hb : b ∈ xs) (hab : a ≠ b) :
    xs.length > 1 := by
  cases xs with
  | nil => cases ha
  | cons x xs =>
    cases xs with
    | nil =>
      rw [List.mem_singleton.mp ha, List.mem_singleton.mp hb] at hab
      exact absurd rfl hab
    | cons y ys => simp

/-- `stage_run_modes` reads the access kind of a stage off its last consumer; all consumers of the stage share it. -/
theorem stageRunMode_eq (h : BuilderOk s) {c : Nat} (hc : c < s.consumers.length) :
    stageRunMode s.consumers (stageOf s.consumers c) =
      if (stageSequences s.consumers s.consumers.length (stageOf s.consumers c)).length > 1 ∧
        accessOf s.consumers c = .mutable then .workPool else .sequential := by
  have hmem : c ∈ stageSequences s.consumers s.consumers.length (stageOf s.consumers c) :=
    mem_stageSequences.mpr ⟨hc, rfl⟩
  have hsame : ∀ a ∈ (stageSequences s.consumers s.consumers.length (stageOf s.consumers c)).map (accessOf s.consumers),
      a = accessOf s.consumers c := by
    intro a ha
    obtain ⟨i, hi, rfl⟩ := List.mem_map.mp ha
    obtain ⟨hi, hstage⟩ := mem_stageSequences.mp hi
    rw [stageOf_eq hi, stageOf_eq hc] at hstage
    rw [accessOf_eq hi, accessOf_eq hc]
    exact h.compatible _ (List.get_mem _ _) _ (List.get_mem _ _) hstage
  have hlast : ((stageSequences s.consumers s.consumers.length (stageOf s.consumers c)).map
      (accessOf s.consumers)).getLastD .mutable = accessOf s.consumers c := by
    rw [List.getLastD_eq_getLast?, List.getLast?_eq_some_getLast (List.ne_nil_of_mem (List.mem_map_of_mem hmem))]
    exact hsame _ (List.getLast_mem _)
  simp only [stageRunMode, hlast]

/-- **Assembly.** Whatever the builder accepts is wired well. -/
theorem wf_createDisruptorCore {first : ConsumerAccess} {calls : List BuilderCall}
    (h : builderConsumers first calls = some consumers) : (createDisruptorCore consumers).Wf := by
  obtain ⟨s, hok, rfl⟩ := builderOk_of_builderConsumers h
  have hcount := stageCountOf_eq hok
  have hget : ∀ {k}, (∃ c ∈ s.consumers, c.stageIndex = k) →
      ∃ c < s.consumers.length, stageOf s.consumers c = k := by
    rintro k ⟨c, hc, hk⟩
    obtain ⟨i, hi⟩ := List.get_of_mem hc
    exact ⟨i, i.2, by rw [stageOf_eq i.2, hi, hk]⟩
  refine ⟨fun c hc => ?_, fun k hk => ?_, fun c hc d => ?_, fun c hc => (mem_stageSequences.mp hc).1, fun c hc hk => ?_,
    ?_, fun c hc d hd hne hcd hmode => ?_, fun c hc hmode => ?_⟩
  · simp only [createDisruptorCore] at hc ⊢
    rw [hcount, stageOf_eq hc]
    exact Nat.lt_succ_of_le (hok.le _ (List.get_mem _ _))
  · simp only [createDisruptorCore] at hk ⊢
    rw [hcount] at hk
    exact hget (hok.filled k (by omega))
  · simp only [createDisruptorCore] at hc ⊢
    by_cases h0 : stageOf s.consumers c = 0
    · rw [if_pos h0, h0]
      simp
    · rw [if_neg h0, mem_stageSequences]
      constructor
      · rintro ⟨h1, h2⟩
        exact ⟨by omega, by simpa using h0, by omega⟩
      · rintro ⟨h1, -, h2⟩
        refine ⟨?_, by omega⟩
        -- stages do not decrease along the list
        by_contra hge
        rcases Nat.lt_or_eq_of_le (Nat.le_of_not_lt hge) with hlt | heq
        · have := List.pairwise_iff_getElem.mp hok.ordered c d hc h1 hlt
          rw [stageOf_eq hc, stageOf_eq h1] at h2
          simp only [List.get_eq_getElem] at h2
          omega
        · subst heq; omega
  · simp only [createDisruptorCore] at hc hk ⊢
    refine mem_stageSequences.mpr ⟨hc, ?_⟩
    rcases hk with hk | hk
    · omega
    · simp at hk
  · simp only [createDisruptorCore]
    omega
  · simp only [createDisruptorCore] at hc hd hcd hmode ⊢
    have hmem : ∀ {i}, i < s.consumers.length → stageOf s.consumers i = stageOf s.consumers c →
        i ∈ stageSequences s.consumers s.consumers.length (stageOf s.consumers c) :=
      fun hi he => mem_stageSequences.mpr ⟨hi, he⟩
    have hlen := one_lt_length_of_ne (hmem hc rfl) (hmem hd hcd.symm) hne
    rw [stageRunMode_eq hok hc] at hmode
    cases hacc : accessOf s.consumers c with
    | readonly => rfl
    | mutable =>
      rw [if_pos ⟨hlen, hacc⟩] at hmode
      cases hmode
  · simp only [createDisruptorCore] at hc hmode ⊢
    rw [stageRunMode_eq hok hc] at hmode
    split at hmode
    · rename_i hpool
      exact hpool.2
    · cases hmode

end Wf

end BadBatch
