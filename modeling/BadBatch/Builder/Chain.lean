import BadBatch.Builder.Core
import BadBatch.RingBuffer
import BadBatch.Sequencer.GatingSet

/-!
# Builder chains and the assembly loop

The fluent builder with its type states, and `create_disruptor_core` as the loop that it is: it starts the consumers in the
order of their registration, and collects the sequences that later stages depend on while it does so. Every `assert` and
`expect` on the way is a `CoreFault`. `Arc`s are numbered in the order of their allocation, so that sharing can be seen.

* `chain_builderConsumers`: a chain that type-checks registers what `builderConsumers` says;
* `stageRunModes_eq`, `startConsumers_eq`: the loops, in closed form; no fault is reached;
* `builder_assembly`: barriers, gating set and pools of every chain.
-/

namespace BadBatch

/-! ## Type-state chains -/

/-- The builder types: `…Builder<NoConsumers>`, `…Builder<HasConsumers>` and `DependentBuilder<…>`. -/
inductive BuilderType
  | noConsumers
  | hasConsumers
  | dependent
  deriving DecidableEq, Repr

/-- A method call on a builder. -/
inductive FluentCall
  | handleEventsWith
  | handleEventsWithHandler
  | fanOutEventsWith
  | alsoPartitionWith
  | alsoPartitionWithHandler
  | andThen
  | withSlotPadding (slotPadding : SlotPadding)
  | withCacheLinePadding (enabled : Bool)
  deriving DecidableEq, Repr

/-- The type of the result, where the method exists. -/
def BuilderType.next : BuilderType → FluentCall → Option BuilderType
  | .hasConsumers, .handleEventsWith => none
  | .hasConsumers, .handleEventsWithHandler => none
  | .hasConsumers, .andThen => some .dependent
  | .hasConsumers, .alsoPartitionWith => some .hasConsumers
  | .hasConsumers, .alsoPartitionWithHandler => some .hasConsumers
  | _, .handleEventsWith => some .hasConsumers
  | _, .handleEventsWithHandler => some .hasConsumers
  | _, .fanOutEventsWith => some .hasConsumers
  | t, .withSlotPadding _ => some t
  | t, .withCacheLinePadding _ => some t
  | _, _ => none

/-- `SharedBuilderState`, as far as the assembly reads it. -/
structure SharedBuilderState where
  size : Nat
  slotPadding : SlotPadding
  stages : BuilderState
  deriving DecidableEq, Repr

namespace SharedBuilderState

/-- `SharedBuilderState::new` -/
def new (size : Nat) : SharedBuilderState := { size := size, slotPadding := .none, stages := ⟨[], 0⟩ }

/-- `push` -/
def push (s : SharedBuilderState) (access : ConsumerAccess) : Option SharedBuilderState :=
  (s.stages.push access).map fun stages => { s with stages := stages }

/-- `add_mut_closure` -/
def addMutClosure (s : SharedBuilderState) : Option SharedBuilderState := s.push .mutable

/-- `add_mut_handler` -/
def addMutHandler (s : SharedBuilderState) : Option SharedBuilderState := s.push .mutable

/-- `add_fanout` -/
def addFanout (s : SharedBuilderState) : Option SharedBuilderState := s.push .readonly

/-- One method call; `none` is the panic of `assert_access_compatible`. -/
def call (s : SharedBuilderState) : FluentCall → Option SharedBuilderState
  | .handleEventsWith => s.addMutClosure
  | .handleEventsWithHandler => s.addMutHandler
  | .fanOutEventsWith => s.addFanout
  | .alsoPartitionWith => s.addMutClosure
  | .alsoPartitionWithHandler => s.addMutHandler
  | .andThen => some { s with stages := s.stages.advanceStage }
  | .withSlotPadding slotPadding => some { s with slotPadding := slotPadding }
  | .withCacheLinePadding enabled => some { s with slotPadding := if enabled then .cacheLine128 else .none }

end SharedBuilderState

/-- The chain type-checks up to a builder that has `build`. -/
def Buildable (calls : List FluentCall) : Prop := calls.foldlM BuilderType.next .noConsumers = some .hasConsumers

/-! ## The core -/

/-- The `assert`s and `expect`s of the assembly. -/
inductive CoreFault
  /-- `expect("Failed to create ring buffer")` -/
  | createRingBuffer
  /-- `assert!(is_power_of_two(buffer_size), "Buffer size must be a power of 2")` -/
  | bufferSizePowerOfTwo
  /-- `expect("buffer size must fit into i64")` -/
  | bufferSizeFits
  /-- an index of `stage_run_modes` or of `stage_modes[stage_index]` -/
  | index
  /-- `expect("consumer stages must be contiguous")` -/
  | stagesContiguous
  /-- `assert!(!previous.is_empty(), "dependent consumer stage must have upstream consumers")` -/
  | upstreamConsumers
  /-- `assert!(stage_index < stage_modes.len(), "missing RunMode for stage {stage_index} (stage_count={})")` -/
  | missingRunMode (stageIndex stageCount : Nat)
  /-- `expect("consumer stage must exist")` -/
  | stageExists
  /-- `assert!(matches!(config.run_mode, RunMode::Sequential), "readonly fan-out must use RunMode::Sequential …")` -/
  | readonlyWorkPool
  deriving DecidableEq, Repr

/-- `RunMode` with the work cursor that the consumers of the stage share. -/
inductive StageRunMode
  | sequential
  | workPool (workSequence : Nat)
  deriving DecidableEq, Repr

/-- A consumer that was started. -/
structure StartedConsumer where
  stageIndex : Nat
  access : ConsumerAccess
  sequence : Nat
  dependentSequences : List Nat
  runMode : StageRunMode
  deriving DecidableEq, Repr

/-- `SequencerEnum` of a core: its kind and its gating set. -/
structure CoreSequencer where
  isMultiProducer : Bool
  gatingSequences : List Nat
  deriving DecidableEq, Repr

/-- `DisruptorCore` with the consumers it has started -/
structure StartedCore (α : Type) where
  ringBuffer : RingBuffer α
  sequencer : CoreSequencer
  consumers : List StartedConsumer
  gatingSequences : List Nat

/-- The counting loop of `stage_run_modes`. -/
def stageWidths : List ConsumerInfo → List Nat → List ConsumerAccess → Except CoreFault (List Nat × List ConsumerAccess)
  | [], widths, access => .ok (widths, access)
  | c :: consumers, widths, access =>
    if c.stageIndex < widths.length ∧ c.stageIndex < access.length then
      stageWidths consumers (widths.set c.stageIndex (widths.getD c.stageIndex 0 + 1)) (access.set c.stageIndex c.access)
    else .error .index

/-- The `map` of `stage_run_modes`: every pool allocates its own work cursor. `next` counts the allocations. -/
def runModesOf : List (Nat × ConsumerAccess) → Nat → List StageRunMode × Nat
  | [], next => ([], next)
  | (width, access) :: stages, next =>
    if width > 1 ∧ access = .mutable then
      (.workPool next :: (runModesOf stages (next + 1)).1, (runModesOf stages (next + 1)).2)
    else (.sequential :: (runModesOf stages next).1, (runModesOf stages next).2)

/-- `stage_run_modes` -/
def stageRunModes (consumers : List ConsumerInfo) (stageCount next : Nat) : Except CoreFault (List StageRunMode × Nat) :=
  if stageCount = 0 then .ok ([], next)
  else do
    let (widths, access) ← stageWidths consumers (List.replicate stageCount 0) (List.replicate stageCount .mutable)
    return runModesOf (widths.zip access) next

/-- The starter of a `ConsumerInfo`: `start_mutable_consumer` or `start_readonly_consumer`. It allocates the consumer's
sequence. -/
def starter (access : ConsumerAccess) (runMode : StageRunMode) (next : Nat) : Except CoreFault Nat :=
  match access, runMode with
  | .readonly, .workPool _ => .error .readonlyWorkPool
  | _, _ => .ok next

/-- The body of the loop of `create_disruptor_core` before the barrier is built. -/
def dependentSequencesOf (stageSequences : List (List Nat)) (stageIndex : Nat) : Except CoreFault (List Nat) :=
  if stageIndex = 0 then .ok []
  else match stageSequences[stageIndex - 1]? with
    | none => .error .stagesContiguous
    | some previous => if previous.isEmpty then .error .upstreamConsumers else .ok previous

/-- The run mode of a stage, behind its assertion. -/
def stageMode (stageModes : List StageRunMode) (stageIndex : Nat) : Except CoreFault StageRunMode :=
  if stageIndex < stageModes.length then
    match stageModes[stageIndex]? with
    | some runMode => .ok runMode
    | none => .error .index
  else .error (.missingRunMode stageIndex stageModes.length)

/-- One round of the loop of `create_disruptor_core`. -/
def startConsumer (stageModes : List StageRunMode) (info : ConsumerInfo) (stageSequences : List (List Nat)) (next : Nat) :
    Except CoreFault (StartedConsumer × List (List Nat)) := do
  let dependentSequences ← dependentSequencesOf stageSequences info.stageIndex
  let runMode ← stageMode stageModes info.stageIndex
  let sequence ← starter info.access runMode next
  match stageSequences[info.stageIndex]? with
  | none => .error .stageExists
  | some members =>
    return ({ stageIndex := info.stageIndex, access := info.access, sequence := sequence,
              dependentSequences := dependentSequences, runMode := runMode },
      stageSequences.set info.stageIndex (members ++ [sequence]))

/-- The loop of `create_disruptor_core`: the started consumers and `stage_sequences`. -/
def startConsumers (stageModes : List StageRunMode) : List ConsumerInfo → List StartedConsumer → List (List Nat) → Nat →
    Except CoreFault (List StartedConsumer × List (List Nat))
  | [], started, stageSequences, _ => .ok (started, stageSequences)
  | info :: consumers, started, stageSequences, next => do
    let (consumer, stageSequences) ← startConsumer stageModes info stageSequences next
    startConsumers stageModes consumers (started ++ [consumer]) stageSequences (next + 1)

/-- `MultiProducerSequencer::new` or `SingleProducerSequencer::new_unique`, as far as they fail. -/
def newSequencer (isMultiProducer : Bool) (size : Nat) : Except CoreFault CoreSequencer :=
  if isMultiProducer ∧ ¬size.isPowerOfTwo then .error .bufferSizePowerOfTwo
  else if (size : Int) ≤ i64Max then .ok { isMultiProducer := isMultiProducer, gatingSequences := [] }
  else .error .bufferSizeFits

/-- `create_disruptor_core`; `newInstance` is the event factory. -/
def assembleCore {α : Type} (size : Nat) (newInstance : Nat → α) (consumers : List ConsumerInfo) (isMultiProducer : Bool)
    (slotPadding : SlotPadding) : Except CoreFault (StartedCore α) :=
  match RingBuffer.newWithPadding size newInstance slotPadding with
  | .error _ => .error .createRingBuffer
  | .ok ringBuffer => do
    let sequencer ← newSequencer isMultiProducer size
    let stageCount := stageCountOf consumers
    let (stageModes, next) ← stageRunModes consumers stageCount 0
    let (started, stageSequences) ← startConsumers stageModes consumers [] (List.replicate stageCount []) next
    let gatingSequences := stageSequences.getLastD []
    let sequencer := if gatingSequences.isEmpty then sequencer
      else { sequencer with gatingSequences := addGatingSequencesRcu sequencer.gatingSequences gatingSequences }
    return { ringBuffer := ringBuffer, sequencer := sequencer, consumers := started, gatingSequences := gatingSequences }

/-- `build` of the single-producer and of the multi-producer builder -/
def SharedBuilderState.build {α : Type} (s : SharedBuilderState) (isMultiProducer : Bool) (newInstance : Nat → α) :
    Except CoreFault (StartedCore α) :=
  assembleCore s.size newInstance s.stages.consumers isMultiProducer s.slotPadding

/-! ## Chains -/

/-- A state of the registration that accepted calls lead to. -/
def Accepted (s : BuilderState) : Prop :=
  ∃ (first : ConsumerAccess) (calls : List BuilderCall),
    ((BuilderState.push ⟨[], 0⟩ first).bind fun s => calls.foldlM BuilderState.call s) = some s

theorem Accepted.first {access : ConsumerAccess} {s : BuilderState} (h : BuilderState.push ⟨[], 0⟩ access = some s) :
    Accepted s := ⟨access, [], by simp [h]⟩

theorem Accepted.call {s s' : BuilderState} {c : BuilderCall} (h : Accepted s) (hs : s.call c = some s') : Accepted s' := by
  obtain ⟨first, calls, h⟩ := h
  refine ⟨first, calls ++ [c], ?_⟩
  simp only [Option.bind_eq_some_iff] at h ⊢
  obtain ⟨s₀, h₀, h⟩ := h
  exact ⟨s₀, h₀, by simp [List.foldlM_append, h, hs]⟩

theorem Accepted.builderOk {s : BuilderState} (h : Accepted s) : BuilderOk s := by
  obtain ⟨first, calls, h⟩ := h
  obtain ⟨s₀, h₀, hs⟩ := Option.bind_eq_some_iff.mp h
  exact builderOk_calls (builderOk_push (s := ⟨[], 0⟩) (by simp) (by simp) (by simp) (by simp) h₀).1 hs

/-- What a builder of each type has registered. -/
def Registered : BuilderType → BuilderState → Prop
  | .noConsumers, s => s = ⟨[], 0⟩
  | .hasConsumers, s => Accepted s
  | .dependent, s => ∃ s₀, Accepted s₀ ∧ s = s₀.advanceStage

/-- A registration that opens a stage, or goes on with one. -/
theorem registered_push {t : BuilderType} {s s' : BuilderState} {access : ConsumerAccess} (h : Registered t s)
    (hs : s.push access = some s') : Accepted s' := by
  cases t with
  | noConsumers => exact Accepted.first (h ▸ hs)
  | hasConsumers => exact h.call (c := .also access) hs
  | dependent =>
    obtain ⟨s₀, h₀, rfl⟩ := h
    exact h₀.call (c := .andThen access) hs

theorem SharedBuilderState.push_eq_some {s s' : SharedBuilderState} {access : ConsumerAccess} :
    s.push access = some s' ↔ s.stages.push access = some s'.stages ∧ s' = { s with stages := s'.stages } := by
  unfold SharedBuilderState.push
  rw [Option.map_eq_some_iff]
  constructor
  · rintro ⟨stages, h, rfl⟩
    exact ⟨h, rfl⟩
  · rintro ⟨h, he⟩
    exact ⟨s'.stages, h, he.symm⟩

/-- One method call keeps the size and what is registered. -/
theorem registered_call {t t' : BuilderType} {s s' : SharedBuilderState} {c : FluentCall} (h : Registered t s.stages)
    (ht : t.next c = some t') (hs : s.call c = some s') : Registered t' s'.stages ∧ s'.size = s.size := by
  -- the registering calls lead to a builder with consumers
  have hpush : ∀ {access : ConsumerAccess}, t' = .hasConsumers → s.push access = some s' →
      Registered t' s'.stages ∧ s'.size = s.size := by
    rintro access rfl hs
    obtain ⟨hs, he⟩ := SharedBuilderState.push_eq_some.mp hs
    exact ⟨registered_push h hs, by rw [he]⟩
  cases c with
  | handleEventsWith => exact @hpush .mutable (by cases t <;> cases ht; all_goals rfl) hs
  | handleEventsWithHandler => exact @hpush .mutable (by cases t <;> cases ht; all_goals rfl) hs
  | fanOutEventsWith => exact @hpush .readonly (by cases t <;> cases ht; all_goals rfl) hs
  | alsoPartitionWith => exact @hpush .mutable (by cases t <;> cases ht; all_goals rfl) hs
  | alsoPartitionWithHandler => exact @hpush .mutable (by cases t <;> cases ht; all_goals rfl) hs
  | andThen =>
    cases hs
    cases t <;> cases ht
    exact ⟨⟨s.stages, h, rfl⟩, rfl⟩
  | withSlotPadding p =>
    cases hs
    have : t' = t := by cases t <;> cases ht <;> rfl
    exact ⟨this ▸ h, rfl⟩
  | withCacheLinePadding enabled =>
    cases hs
    have : t' = t := by cases t <;> cases ht <;> rfl
    exact ⟨this ▸ h, rfl⟩

theorem registered_calls : ∀ {calls : List FluentCall} {t t' : BuilderType} {s s' : SharedBuilderState},
    Registered t s.stages → calls.foldlM BuilderType.next t = some t' → calls.foldlM SharedBuilderState.call s = some s' →
    Registered t' s'.stages ∧ s'.size = s.size
  | [], t, t', s, s', h, ht, hs => by
    cases ht
    cases hs
    exact ⟨h, rfl⟩
  | c :: calls, t, t', s, s', h, ht, hs => by
    simp only [List.foldlM_cons, Option.bind_eq_bind, Option.bind_eq_some_iff] at ht hs
    obtain ⟨t₁, ht₁, ht⟩ := ht
    obtain ⟨s₁, hs₁, hs⟩ := hs
    obtain ⟨h₁, hsize₁⟩ := registered_call h ht₁ hs₁
    obtain ⟨h', hsize⟩ := registered_calls h₁ ht hs
    exact ⟨h', hsize.trans hsize₁⟩

/-- **A chain that type-checks registers what accepted calls register.** -/
theorem chain_accepted {calls : List FluentCall} {size : Nat} {s : SharedBuilderState} (hb : Buildable calls)
    (hs : calls.foldlM SharedBuilderState.call (.new size) = some s) : Accepted s.stages ∧ s.size = size :=
  registered_calls (t := .noConsumers) (s := .new size) rfl hb hs

/-! ## Run modes -/

section Modes

variable (consumers : List ConsumerInfo)

/-- `widths` after the first `i` consumers. -/
def widthsAt (stageCount i : Nat) : List Nat :=
  (List.range stageCount).map fun k => (stageSequences consumers i k).length

/-- `access` after the first `i` consumers. -/
def accessAt (stageCount i : Nat) : List ConsumerAccess :=
  (List.range stageCount).map fun k => ((stageSequences consumers i k).map (accessOf consumers)).getLastD .mutable

variable {consumers} {stageCount i k : Nat}

/-- One more consumer: its stage gets it, the others stay. -/
theorem stageSequences_succ :
    stageSequences consumers (i + 1) k = stageSequences consumers i k ++ if stageOf consumers i = k then [i] else [] := by
  unfold stageSequences
  rw [List.range_succ, List.filter_append]
  by_cases h : stageOf consumers i = k
  · simp [h]
  · simp [h]

/-- A list over the stages is changed at one stage. -/
theorem map_range_set {β : Type} {f g : Nat → β} {n k : Nat} (h : ∀ j, j ≠ k → g j = f j) :
    ((List.range n).map f).set k (g k) = (List.range n).map g := by
  apply List.ext_getElem
  · simp
  · intro j h1 h2
    by_cases hj : k = j
    · subst hj; simp
    · rw [List.getElem_set_ne hj]
      simp [h j (Ne.symm hj)]

theorem stageSequences_succ_of_ne (h : k ≠ stageOf consumers i) :
    stageSequences consumers (i + 1) k = stageSequences consumers i k := by
  rw [stageSequences_succ, if_neg (Ne.symm h), List.append_nil]

theorem stageSequences_succ_self :
    stageSequences consumers (i + 1) (stageOf consumers i) = stageSequences consumers i (stageOf consumers i) ++ [i] := by
  rw [stageSequences_succ, if_pos rfl]

theorem stageOf_drop {info : ConsumerInfo} {rest : List ConsumerInfo} (h : consumers.drop i = info :: rest) :
    i < consumers.length ∧ stageOf consumers i = info.stageIndex ∧ accessOf consumers i = info.access ∧
      consumers.drop (i + 1) = rest := by
  have hget : consumers[i]? = some info := by
    rw [← List.head?_drop, h]
    rfl
  refine ⟨(List.getElem?_eq_some_iff.mp hget).1, by simp [stageOf, hget], by simp [accessOf, hget], ?_⟩
  rw [← List.tail_drop, h]
  rfl

/-- The counting loop, from any consumer on. -/
theorem stageWidths_eq (hlt : ∀ i < consumers.length, stageOf consumers i < stageCount) :
    ∀ {rest : List ConsumerInfo} {i : Nat}, consumers.drop i = rest →
      stageWidths rest (widthsAt consumers stageCount i) (accessAt consumers stageCount i) =
        .ok (widthsAt consumers stageCount (i + rest.length), accessAt consumers stageCount (i + rest.length))
  | [], i, _ => rfl
  | info :: rest, i, h => by
    obtain ⟨hi, hstage, haccess, hrest⟩ := stageOf_drop h
    have hk := hlt i hi
    have hw : (widthsAt consumers stageCount i).set (stageOf consumers i)
        ((widthsAt consumers stageCount i).getD (stageOf consumers i) 0 + 1) = widthsAt consumers stageCount (i + 1) := by
      have hset := map_range_set (n := stageCount) (k := stageOf consumers i)
        (f := fun k => (stageSequences consumers i k).length) (g := fun k => (stageSequences consumers (i + 1) k).length)
        (fun j hj => by simp only [stageSequences_succ_of_ne hj])
      rw [stageSequences_succ_self, List.length_append] at hset
      unfold widthsAt
      rw [← hset]
      simp [hk]
    have ha : (accessAt consumers stageCount i).set (stageOf consumers i) info.access =
        accessAt consumers stageCount (i + 1) := by
      have hset := map_range_set (n := stageCount) (k := stageOf consumers i)
        (f := fun k => ((stageSequences consumers i k).map (accessOf consumers)).getLastD .mutable)
        (g := fun k => ((stageSequences consumers (i + 1) k).map (accessOf consumers)).getLastD .mutable)
        (fun j hj => by simp only [stageSequences_succ_of_ne hj])
      unfold accessAt
      rw [← hset, stageSequences_succ_self, ← haccess]
      simp
    have hbounds : stageOf consumers i < (widthsAt consumers stageCount i).length ∧
        stageOf consumers i < (accessAt consumers stageCount i).length := by simp [widthsAt, accessAt, hk]
    have hlen : i + (info :: rest).length = i + 1 + rest.length := by simp only [List.length_cons]; omega
    rw [stageWidths, ← hstage, if_pos hbounds, hw, ha, stageWidths_eq hlt hrest, hlen]

/-- The `map` of `stage_run_modes`: pools and only pools get a work cursor, each its own. -/
theorem runModesOf_spec : ∀ (stages : List (Nat × ConsumerAccess)) (next : Nat),
    (runModesOf stages next).1.length = stages.length ∧
    (∀ w, .workPool w ∈ (runModesOf stages next).1 → next ≤ w) ∧
    (∀ (k : Nat) (stage : Nat × ConsumerAccess), stages[k]? = some stage →
      if stage.1 > 1 ∧ stage.2 = .mutable then ∃ w, (runModesOf stages next).1[k]? = some (.workPool w)
      else (runModesOf stages next).1[k]? = some .sequential) ∧
    (∀ (j k w : Nat), (runModesOf stages next).1[j]? = some (.workPool w) →
      (runModesOf stages next).1[k]? = some (.workPool w) → j = k)
  | [], next => by simp [runModesOf]
  | (width, access) :: stages, next => by
    by_cases hpool : width > 1 ∧ access = .mutable
    · obtain ⟨hlen, hge, hmode, hown⟩ := runModesOf_spec stages (next + 1)
      have he : (runModesOf ((width, access) :: stages) next).1 = .workPool next :: (runModesOf stages (next + 1)).1 := by
        rw [runModesOf, if_pos hpool]
      -- the later cursors are allocated after this one
      have hlater : ∀ {k : Nat}, (runModesOf stages (next + 1)).1[k]? ≠ some (.workPool next) := by
        intro k hk
        have := hge next (List.mem_of_getElem? hk)
        omega
      rw [he]
      refine ⟨by simp [hlen], fun w hw => ?_, fun k stage hk => ?_, fun j k w hj hk => ?_⟩
      · rcases List.mem_cons.mp hw with hw | hw
        · cases hw; exact le_rfl
        · have := hge w hw; omega
      · cases k with
        | zero =>
          cases hk
          rw [if_pos hpool]
          exact ⟨next, rfl⟩
        | succ k => exact hmode k stage hk
      · cases j with
        | zero =>
          cases hj
          cases k with
          | zero => rfl
          | succ k => exact absurd hk hlater
        | succ j =>
          cases k with
          | zero => cases hk; exact absurd hj hlater
          | succ k => rw [hown j k w hj hk]
    · obtain ⟨hlen, hge, hmode, hown⟩ := runModesOf_spec stages next
      have he : (runModesOf ((width, access) :: stages) next).1 = .sequential :: (runModesOf stages next).1 := by
        rw [runModesOf, if_neg hpool]
      rw [he]
      refine ⟨by simp [hlen], fun w hw => ?_, fun k stage hk => ?_, fun j k w hj hk => ?_⟩
      · rcases List.mem_cons.mp hw with hw | hw
        · cases hw
        · exact hge w hw
      · cases k with
        | zero =>
          cases hk
          rw [if_neg hpool]
          rfl
        | succ k => exact hmode k stage hk
      · cases j with
        | zero => cases hj
        | succ j =>
          cases k with
          | zero => cases hk
          | succ k => rw [hown j k w hj hk]

end Modes

/-! ## The loop -/

section Loop

variable (consumers : List ConsumerInfo) (modes : List StageRunMode) (next : Nat)

/-- Consumer `i` as the loop starts it: it depends on what `createDisruptorCore` says, in the numbering of the
allocations. -/
def startedOf (i : Nat) : StartedConsumer where
  stageIndex := stageOf consumers i
  access := accessOf consumers i
  sequence := next + i
  dependentSequences := ((createDisruptorCore consumers).dependentSequences i).map (next + ·)
  runMode := modes.getD (stageOf consumers i) .sequential

/-- `stage_sequences` after the first `i` consumers. -/
def sequencesAt (stageCount i : Nat) : List (List Nat) :=
  (List.range stageCount).map fun k => (stageSequences consumers i k).map (next + ·)

variable {consumers modes next} {stageCount i : Nat} {info : ConsumerInfo}

theorem sequencesAt_getElem {k : Nat} (hk : k < stageCount) :
    (sequencesAt consumers next stageCount i)[k]? = some ((stageSequences consumers i k).map (next + ·)) := by
  simp [sequencesAt, hk]

/-- A stage that is not the first has its upstream consumers when it is reached. -/
theorem upstream_ne_nil {s : BuilderState} (hok : BuilderOk s) {i : Nat} (hi : i < s.consumers.length)
    (h0 : stageOf s.consumers i ≠ 0) : stageSequences s.consumers i (stageOf s.consumers i - 1) ≠ [] := by
  have hle := hok.le _ (List.get_mem s.consumers ⟨i, hi⟩)
  rw [← stageOf_eq hi] at hle
  obtain ⟨c, hc, hk⟩ := hok.filled (stageOf s.consumers i - 1) (by omega)
  obtain ⟨j, hj⟩ := List.get_of_mem hc
  have hstage : stageOf s.consumers j = stageOf s.consumers i - 1 := by rw [stageOf_eq j.2, hj, hk]
  -- stages do not decrease along the list
  have hji : (j : Nat) < i := by
    by_contra hge
    rcases Nat.lt_or_eq_of_le (Nat.le_of_not_lt hge) with hlt | heq
    · have := List.pairwise_iff_getElem.mp hok.ordered i j hi j.2 hlt
      rw [stageOf_eq j.2, stageOf_eq hi] at hstage
      rw [stageOf_eq hi] at h0
      simp only [List.get_eq_getElem] at hstage h0
      omega
    · rw [← heq] at hstage
      omega
  exact List.ne_nil_of_mem (mem_stageSequences.mpr ⟨hji, hstage⟩)

/-- **One round of the loop**: no assertion fires. -/
theorem startConsumer_eq {s : BuilderState} (hok : BuilderOk s) (hlen : modes.length = stageCount)
    (hlt : ∀ i < s.consumers.length, stageOf s.consumers i < stageCount)
    (hmode : ∀ i < s.consumers.length, accessOf s.consumers i = .readonly →
      modes[stageOf s.consumers i]? = some .sequential)
    {rest : List ConsumerInfo} (h : s.consumers.drop i = info :: rest) :
    startConsumer modes info (sequencesAt s.consumers next stageCount i) (next + i) =
      .ok (startedOf s.consumers modes next i, sequencesAt s.consumers next stageCount (i + 1)) := by
  obtain ⟨hi, hstage, haccess, -⟩ := stageOf_drop h
  have hk := hlt i hi
  have hdep : dependentSequencesOf (sequencesAt s.consumers next stageCount i) (stageOf s.consumers i) =
      .ok (((createDisruptorCore s.consumers).dependentSequences i).map (next + ·)) := by
    unfold dependentSequencesOf createDisruptorCore
    by_cases h0 : stageOf s.consumers i = 0
    · simp [h0]
    · rw [if_neg h0, sequencesAt_getElem (by omega)]
      simp [h0, upstream_ne_nil hok hi h0]
  obtain ⟨mode, hm⟩ : ∃ mode, modes[stageOf s.consumers i]? = some mode := ⟨_, List.getElem?_eq_getElem (by omega)⟩
  have hmode' : stageMode modes (stageOf s.consumers i) = .ok mode := by
    unfold stageMode
    rw [if_pos (by omega), hm]
  have hstart : starter (accessOf s.consumers i) mode (next + i) = .ok (next + i) := by
    cases hacc : accessOf s.consumers i with
    | mutable => rfl
    | readonly =>
      have := hmode i hi hacc
      rw [hm, Option.some.injEq] at this
      subst this
      rfl
  have hset : (sequencesAt s.consumers next stageCount i).set (stageOf s.consumers i)
      ((stageSequences s.consumers i (stageOf s.consumers i)).map (next + ·) ++ [next + i]) =
        sequencesAt s.consumers next stageCount (i + 1) := by
    have hset := map_range_set (n := stageCount) (k := stageOf s.consumers i)
      (f := fun k => (stageSequences s.consumers i k).map (next + ·))
      (g := fun k => (stageSequences s.consumers (i + 1) k).map (next + ·))
      (fun j hj => by simp only [stageSequences_succ_of_ne hj])
    unfold sequencesAt
    rw [← hset, stageSequences_succ_self, List.map_append, List.map_singleton]
  have hgetD : modes.getD (stageOf s.consumers i) .sequential = mode := by simp [hm]
  unfold startConsumer
  rw [← hstage, ← haccess, hdep, hmode']
  simp only [bind, Except.bind, hstart, sequencesAt_getElem hk, hset]
  unfold startedOf
  rw [hgetD]
  rfl

/-- The loop, from any consumer on. -/
theorem startConsumers_eq {s : BuilderState} (hok : BuilderOk s) (hlen : modes.length = stageCount)
    (hlt : ∀ i < s.consumers.length, stageOf s.consumers i < stageCount)
    (hmode : ∀ i < s.consumers.length, accessOf s.consumers i = .readonly →
      modes[stageOf s.consumers i]? = some .sequential) :
    ∀ {rest : List ConsumerInfo} {i : Nat}, s.consumers.drop i = rest →
      startConsumers modes rest ((List.range i).map (startedOf s.consumers modes next))
          (sequencesAt s.consumers next stageCount i) (next + i) =
        .ok ((List.range (i + rest.length)).map (startedOf s.consumers modes next),
          sequencesAt s.consumers next stageCount (i + rest.length))
  | [], i, _ => rfl
  | info :: rest, i, h => by
    have ih := startConsumers_eq hok hlen hlt hmode (stageOf_drop h).2.2.2
    have hone : i + (info :: rest).length = i + 1 + rest.length := by simp only [List.length_cons]; omega
    rw [List.range_succ, List.map_append, List.map_singleton] at ih
    rw [startConsumers, startConsumer_eq hok hlen hlt hmode h, hone, ← ih]
    rfl

end Loop

/-! ## The assembled core -/

/-- The consumers of stage `k`. -/
def StartedCore.stage {α : Type} (core : StartedCore α) (k : Nat) : List StartedConsumer :=
  core.consumers.filter fun c => c.stageIndex = k

/-- What `create_disruptor_core` makes of consumers that the builder accepts. -/
structure CoreAssembled {α : Type} (s : BuilderState) (core : StartedCore α)
    (modes : List StageRunMode) (next : Nat) : Prop where
  consumers : core.consumers = (List.range s.consumers.length).map (startedOf s.consumers modes next)
  gating : core.gatingSequences = (stageSequences s.consumers s.consumers.length s.currentStageIndex).map (next + ·)
  registered : core.sequencer.gatingSequences = addGatingSequencesRcu [] core.gatingSequences
  pool : ∀ i < s.consumers.length, if stageRunMode s.consumers (stageOf s.consumers i) = .workPool
    then ∃ w, modes[stageOf s.consumers i]? = some (.workPool w) else modes[stageOf s.consumers i]? = some .sequential
  own : ∀ j k w : Nat, modes[j]? = some (.workPool w) → modes[k]? = some (.workPool w) → j = k

theorem stageRunModes_eq {s : BuilderState} (hok : BuilderOk s) (next : Nat) :
    ∃ modes next', stageRunModes s.consumers (s.currentStageIndex + 1) next = .ok (modes, next') ∧
      modes.length = s.currentStageIndex + 1 ∧
      (∀ i < s.consumers.length, if stageRunMode s.consumers (stageOf s.consumers i) = .workPool
        then ∃ w, modes[stageOf s.consumers i]? = some (.workPool w)
        else modes[stageOf s.consumers i]? = some .sequential) ∧
      ∀ j k w : Nat, modes[j]? = some (.workPool w) → modes[k]? = some (.workPool w) → j = k := by
  have hlt : ∀ i < s.consumers.length, stageOf s.consumers i < s.currentStageIndex + 1 := by
    intro i hi
    rw [stageOf_eq hi]
    exact Nat.lt_succ_of_le (hok.le _ (List.get_mem _ _))
  have hwidths := stageWidths_eq hlt (i := 0) (List.drop_zero)
  have h0 : widthsAt s.consumers (s.currentStageIndex + 1) 0 = List.replicate (s.currentStageIndex + 1) 0 ∧
      accessAt s.consumers (s.currentStageIndex + 1) 0 = List.replicate (s.currentStageIndex + 1) .mutable := by
    simp [widthsAt, accessAt, stageSequences, List.map_const']
  rw [h0.1, h0.2, Nat.zero_add] at hwidths
  obtain ⟨hlen, -, hmode, hown⟩ := runModesOf_spec ((widthsAt s.consumers (s.currentStageIndex + 1) s.consumers.length).zip
    (accessAt s.consumers (s.currentStageIndex + 1) s.consumers.length)) next
  refine ⟨_, _, by rw [stageRunModes, if_neg (by omega), hwidths]; rfl, by simpa [widthsAt, accessAt] using hlen,
    fun i hi => ?_, hown⟩
  have hk := hlt i hi
  have := hmode (stageOf s.consumers i) ((stageSequences s.consumers s.consumers.length (stageOf s.consumers i)).length,
    ((stageSequences s.consumers s.consumers.length (stageOf s.consumers i)).map (accessOf s.consumers)).getLastD .mutable)
    (by simp [widthsAt, accessAt, hk])
  unfold stageRunMode
  split at this
  · rename_i hp
    rw [if_pos hp, if_pos rfl]
    exact this
  · rename_i hp
    rw [if_neg hp, if_neg (by decide)]
    exact this

theorem lastStage_ne_nil {s : BuilderState} (hok : BuilderOk s) :
    stageSequences s.consumers s.consumers.length s.currentStageIndex ≠ [] := by
  obtain ⟨c, hc, hk⟩ := hok.filled s.currentStageIndex le_rfl
  obtain ⟨j, hj⟩ := List.get_of_mem hc
  exact List.ne_nil_of_mem (mem_stageSequences.mpr ⟨j.2, by rw [stageOf_eq j.2, hj, hk]⟩)

/-- **The assembly loop reaches its end**, and its result refines `createDisruptorCore`. -/
theorem assembleCore_eq {α : Type} {s : BuilderState} (hok : BuilderOk s) (b : BufferSize) (newInstance : Nat → α)
    (isMultiProducer : Bool) (slotPadding : SlotPadding) :
    ∃ core modes next, assembleCore b.size newInstance s.consumers isMultiProducer slotPadding = .ok core ∧
      CoreAssembled s core modes next := by
  obtain ⟨ringBuffer, hring⟩ : ∃ r, RingBuffer.newWithPadding b.size newInstance slotPadding = .ok r :=
    RingBuffer.newWithPadding_isOk.mpr ⟨b, rfl⟩
  have hseq : newSequencer isMultiProducer b.size = .ok { isMultiProducer := isMultiProducer, gatingSequences := [] } := by
    have hp : b.size.isPowerOfTwo := ⟨b.shift, rfl⟩
    have hf : ((b.size : Nat) : Int) ≤ i64Max := b.sizeI64_le
    unfold newSequencer
    rw [if_neg (fun h => h.2 hp), if_pos hf]
  obtain ⟨modes, next, hmodes, hlen, hpool, hown⟩ := stageRunModes_eq hok 0
  have hcount := stageCountOf_eq hok
  have hlt : ∀ i < s.consumers.length, stageOf s.consumers i < s.currentStageIndex + 1 := by
    intro i hi
    rw [stageOf_eq hi]
    exact Nat.lt_succ_of_le (hok.le _ (List.get_mem _ _))
  -- a stage of read-only consumers is not a pool
  have hreadonly : ∀ i < s.consumers.length, accessOf s.consumers i = .readonly →
      modes[stageOf s.consumers i]? = some .sequential := by
    intro i hi hacc
    have := hpool i hi
    rwa [if_neg] at this
    rw [stageRunMode_eq hok hi, hacc]
    simp
  have hloop : startConsumers modes s.consumers ((List.range 0).map (startedOf s.consumers modes next))
      (sequencesAt s.consumers next (s.currentStageIndex + 1) 0) (next + 0) = _ :=
    startConsumers_eq hok hlen hlt hreadonly List.drop_zero
  have h0 : sequencesAt s.consumers next (s.currentStageIndex + 1) 0 = List.replicate (s.currentStageIndex + 1) [] := by
    simp [sequencesAt, stageSequences, List.map_const']
  have hlast : (sequencesAt s.consumers next (s.currentStageIndex + 1) s.consumers.length).getLastD [] =
      (stageSequences s.consumers s.consumers.length s.currentStageIndex).map (next + ·) := by
    simp [sequencesAt, List.range_succ]
  rw [h0, Nat.zero_add, List.range_zero, List.map_nil, Nat.add_zero next] at hloop
  refine ⟨⟨ringBuffer, ⟨isMultiProducer, addGatingSequencesRcu [] _⟩, _, _⟩, modes, next, ?_, ⟨rfl, rfl, rfl, hpool, hown⟩⟩
  unfold assembleCore
  rw [hring]
  simp only [hseq, hcount, hmodes, hloop, hlast, bind, Except.bind]
  rw [if_neg (by simpa using lastStage_ne_nil hok)]
  rfl

section CoreAssembled

variable {α : Type} {s : BuilderState} {core : StartedCore α} {modes : List StageRunMode} {next : Nat}

/-- The consumers of a stage, in the order of their start. -/
theorem CoreAssembled.stage_eq (h : CoreAssembled s core modes next) (k : Nat) :
    core.stage k = (stageSequences s.consumers s.consumers.length k).map (startedOf s.consumers modes next) := by
  unfold StartedCore.stage stageSequences
  rw [h.consumers, List.filter_map]
  rfl

theorem CoreAssembled.stage_sequences (h : CoreAssembled s core modes next) (k : Nat) :
    (core.stage k).map StartedConsumer.sequence = (stageSequences s.consumers s.consumers.length k).map (next + ·) := by
  rw [h.stage_eq, List.map_map]
  rfl

theorem CoreAssembled.mem_consumers (h : CoreAssembled s core modes next) {c : StartedConsumer} :
    c ∈ core.consumers ↔ ∃ i < s.consumers.length, startedOf s.consumers modes next i = c := by
  rw [h.consumers]
  simp

/-- Earlier consumers are all there are of an earlier stage. -/
theorem stageSequences_prefix (hok : BuilderOk s) {i k : Nat} (hi : i < s.consumers.length) (hk : k < stageOf s.consumers i) :
    stageSequences s.consumers i k = stageSequences s.consumers s.consumers.length k := by
  obtain ⟨n, hn⟩ : ∃ n, s.consumers.length = i + n := ⟨s.consumers.length - i, by omega⟩
  have hrest : ((List.range n).map (i + ·)).filter (fun c => stageOf s.consumers c = k) = [] := by
    rw [List.filter_eq_nil_iff]
    intro j hj
    obtain ⟨m, hm, rfl⟩ := List.mem_map.mp hj
    have hm := List.mem_range.mp hm
    have hlen : i + m < s.consumers.length := by omega
    rw [decide_eq_true_eq]
    rcases Nat.eq_zero_or_pos m with rfl | hpos
    · rw [Nat.add_zero]; omega
    · have := List.pairwise_iff_getElem.mp hok.ordered i (i + m) hi hlen (by omega)
      rw [stageOf_eq hi] at hk
      rw [stageOf_eq hlen]
      simp only [List.get_eq_getElem] at hk ⊢
      omega
  unfold stageSequences
  rw [hn, List.range_add, List.filter_append, hrest, List.append_nil]

/-- **Barriers**: the first stage has no dependents, a later one depends on the whole stage before it. -/
theorem CoreAssembled.dependents (h : CoreAssembled s core modes next) (hok : BuilderOk s) {c : StartedConsumer}
    (hc : c ∈ core.consumers) : c.dependentSequences =
      if c.stageIndex = 0 then [] else (core.stage (c.stageIndex - 1)).map StartedConsumer.sequence := by
  obtain ⟨i, hi, rfl⟩ := h.mem_consumers.mp hc
  show ((createDisruptorCore s.consumers).dependentSequences i).map (next + ·) =
    if stageOf s.consumers i = 0 then [] else (core.stage (stageOf s.consumers i - 1)).map StartedConsumer.sequence
  unfold createDisruptorCore
  by_cases h0 : stageOf s.consumers i = 0
  · simp [h0]
  · simp only [h0, if_false]
    rw [h.stage_sequences, stageSequences_prefix hok hi (by omega)]

/-- The mutable consumers of a stage are all of it or none. -/
theorem CoreAssembled.mutable_stage (h : CoreAssembled s core modes next)
    (hok : BuilderOk s) {i : Nat} (hi : i < s.consumers.length) :
    (core.stage (stageOf s.consumers i)).filter (fun c => c.access = .mutable) =
      if accessOf s.consumers i = .mutable then core.stage (stageOf s.consumers i) else [] := by
  have hsame : ∀ c ∈ core.stage (stageOf s.consumers i), c.access = accessOf s.consumers i := by
    intro c hc
    rw [h.stage_eq] at hc
    obtain ⟨j, hj, rfl⟩ := List.mem_map.mp hc
    obtain ⟨hj, hstage⟩ := mem_stageSequences.mp hj
    rw [stageOf_eq hj, stageOf_eq hi] at hstage
    show accessOf s.consumers j = accessOf s.consumers i
    rw [accessOf_eq hj, accessOf_eq hi]
    exact hok.compatible _ (List.get_mem _ _) _ (List.get_mem _ _) hstage
  split
  · rename_i hacc
    rw [List.filter_eq_self]
    intro c hc
    rw [decide_eq_true_eq, hsame c hc, hacc]
  · rename_i hacc
    rw [List.filter_eq_nil_iff]
    intro c hc
    rw [decide_eq_true_eq, hsame c hc]
    exact hacc

/-- The run mode of a started consumer. -/
theorem CoreAssembled.runMode (h : CoreAssembled s core modes next)
    (hok : BuilderOk s) {i : Nat} (hi : i < s.consumers.length) :
    if 2 ≤ ((core.stage (stageOf s.consumers i)).filter fun c => c.access = .mutable).length
    then ∃ w, modes[stageOf s.consumers i]? = some (.workPool w) else modes[stageOf s.consumers i]? = some .sequential := by
  have hpool := h.pool i hi
  have hlen : (core.stage (stageOf s.consumers i)).length =
      (stageSequences s.consumers s.consumers.length (stageOf s.consumers i)).length := by rw [h.stage_eq, List.length_map]
  have hiff : stageRunMode s.consumers (stageOf s.consumers i) = .workPool ↔
      2 ≤ ((core.stage (stageOf s.consumers i)).filter fun c => c.access = .mutable).length := by
    rw [stageRunMode_eq hok hi, h.mutable_stage hok hi, ← hlen]
    by_cases hacc : accessOf s.consumers i = .mutable
    · by_cases hwide : 1 < (core.stage (stageOf s.consumers i)).length
      · simp [hacc, hwide, Nat.succ_le_of_lt hwide]
      · simp [hacc, hwide, not_le.mpr (Nat.lt_succ_of_le (not_lt.mp hwide))]
    · simp [hacc]
  by_cases hwide : 2 ≤ ((core.stage (stageOf s.consumers i)).filter fun c => c.access = .mutable).length
  · rw [if_pos (hiff.mpr hwide)] at hpool
    rwa [if_pos hwide]
  · rw [if_neg (fun hp => hwide (hiff.mp hp))] at hpool
    rwa [if_neg hwide]

/-- **Pools**: two mutable consumers or more share a work cursor that no other stage has; nobody else has one. -/
theorem CoreAssembled.pools (h : CoreAssembled s core modes next) (hok : BuilderOk s) (k : Nat) (hk : core.stage k ≠ []) :
    (2 ≤ ((core.stage k).filter fun c => c.access = .mutable).length →
      ∃ w, ∀ c ∈ core.consumers, c.runMode = .workPool w ↔ c.stageIndex = k) ∧
    (¬2 ≤ ((core.stage k).filter fun c => c.access = .mutable).length → ∀ c ∈ core.stage k, c.runMode = .sequential) := by
  -- some consumer of the stage, and the run mode that the stage has
  obtain ⟨c, hc⟩ := List.exists_mem_of_ne_nil _ hk
  rw [h.stage_eq] at hc
  obtain ⟨i, hmem, -⟩ := List.mem_map.mp hc
  obtain ⟨hi, rfl⟩ := mem_stageSequences.mp hmem
  have hmode := h.runMode hok hi
  have hget : ∀ {j : Nat} {mode : StageRunMode}, modes[stageOf s.consumers j]? = some mode →
      (startedOf s.consumers modes next j).runMode = mode := by
    intro j mode hj
    simp [startedOf, hj]
  constructor
  · intro hwide
    rw [if_pos hwide] at hmode
    obtain ⟨w, hw⟩ := hmode
    refine ⟨w, fun d hd => ?_⟩
    obtain ⟨j, hj, rfl⟩ := h.mem_consumers.mp hd
    show (startedOf s.consumers modes next j).runMode = .workPool w ↔ stageOf s.consumers j = stageOf s.consumers i
    constructor
    · intro hrun
      have hmode' := h.pool j hj
      split at hmode'
      · obtain ⟨w', hw'⟩ := hmode'
        rw [hget hw'] at hrun
        cases hrun
        exact h.own _ _ _ hw' hw
      · rw [hget hmode'] at hrun
        cases hrun
    · intro hstage
      exact hget (by rw [hstage]; exact hw)
  · intro hnarrow d hd
    rw [if_neg hnarrow] at hmode
    rw [h.stage_eq] at hd
    obtain ⟨j, hj, rfl⟩ := List.mem_map.mp hd
    exact hget (by rw [(mem_stageSequences.mp hj).2]; exact hmode)

end CoreAssembled

/-- **Builder assembly is well formed for every call chain** that type-checks and passes the access checks, with a size the
ring accepts: `build` reaches its end, the consumers are the registered ones in order, a consumer of the first stage has
no dependents and a later one exactly the sequences of the stage before, the sequences of the last stage are the gating
set, and exactly the stages with at least two mutable consumers are pools, each with a work cursor of its own. -/
theorem builder_assembly {α : Type} (calls : List FluentCall) (b : BufferSize) (s : SharedBuilderState)
    (hb : Buildable calls) (hs : calls.foldlM SharedBuilderState.call (.new b.size) = some s) (isMultiProducer : Bool)
    (newInstance : Nat → α) :
    ∃ core last, s.build isMultiProducer newInstance = .ok core ∧
      core.consumers.map (fun c => (⟨c.stageIndex, c.access⟩ : ConsumerInfo)) = s.stages.consumers ∧
      (core.consumers.map StartedConsumer.sequence).Nodup ∧
      (∀ k, core.stage k ≠ [] ↔ k ≤ last) ∧
      (∀ c ∈ core.consumers, c.dependentSequences =
        if c.stageIndex = 0 then [] else (core.stage (c.stageIndex - 1)).map StartedConsumer.sequence) ∧
      core.gatingSequences = (core.stage last).map StartedConsumer.sequence ∧ core.gatingSequences ≠ [] ∧
      (∀ q, q ∈ core.sequencer.gatingSequences ↔ q ∈ core.gatingSequences) ∧
      ∀ k ≤ last,
        (2 ≤ ((core.stage k).filter fun c => c.access = .mutable).length →
          ∃ w, ∀ c ∈ core.consumers, c.runMode = .workPool w ↔ c.stageIndex = k) ∧
        (¬2 ≤ ((core.stage k).filter fun c => c.access = .mutable).length →
          ∀ c ∈ core.stage k, c.runMode = .sequential) := by
  obtain ⟨hacc, hsize⟩ := chain_accepted hb hs
  have hok := hacc.builderOk
  obtain ⟨core, modes, next, hcore, h⟩ := assembleCore_eq hok b newInstance isMultiProducer s.slotPadding
  have hfilled : ∀ k, core.stage k ≠ [] ↔ k ≤ s.stages.currentStageIndex := by
    intro k
    rw [h.stage_eq]
    constructor
    · intro hne
      obtain ⟨c, hc⟩ := List.exists_mem_of_ne_nil _ hne
      obtain ⟨i, hmem, -⟩ := List.mem_map.mp hc
      obtain ⟨hi, rfl⟩ := mem_stageSequences.mp hmem
      rw [stageOf_eq hi]
      exact hok.le _ (List.get_mem _ _)
    · intro hk
      obtain ⟨c, hc, hck⟩ := hok.filled k hk
      obtain ⟨j, hj⟩ := List.get_of_mem hc
      exact List.ne_nil_of_mem (List.mem_map_of_mem (mem_stageSequences.mpr ⟨j.2, by rw [stageOf_eq j.2, hj, hck]⟩))
  have hgating : core.gatingSequences = (core.stage s.stages.currentStageIndex).map StartedConsumer.sequence := by
    rw [h.gating, h.stage_sequences]
  refine ⟨core, s.stages.currentStageIndex, ?_, ?_, ?_, hfilled, fun c hc => h.dependents hok hc, hgating, ?_, fun q => ?_,
    fun k hk => h.pools hok k ((hfilled k).mpr hk)⟩
  · unfold SharedBuilderState.build
    rw [hsize]
    exact hcore
  · rw [h.consumers, List.map_map]
    apply List.ext_getElem
    · simp
    · intro i h1 h2
      simp [startedOf, stageOf_eq h2, accessOf_eq h2]
  · rw [h.consumers, List.map_map]
    exact List.Nodup.map (fun i j hij => by simpa [startedOf] using hij) List.nodup_range
  · rw [hgating]
    simpa using (hfilled _).mpr le_rfl
  · rw [h.registered, mem_addGatingSequencesRcu]
    simp

/-- A pool of two in front of one fan-out consumer. -/
theorem builder_assembly_pool :
    ∃ core last, SharedBuilderState.build ⟨8, .none, ⟨[⟨0, .mutable⟩, ⟨0, .mutable⟩, ⟨1, .readonly⟩], 1⟩⟩ false (fun _ => ()) =
        .ok core ∧
      core.consumers.map (fun c => (⟨c.stageIndex, c.access⟩ : ConsumerInfo)) =
        [⟨0, .mutable⟩, ⟨0, .mutable⟩, ⟨1, .readonly⟩] ∧
      (core.consumers.map StartedConsumer.sequence).Nodup ∧
      (∀ k, core.stage k ≠ [] ↔ k ≤ last) ∧
      (∀ c ∈ core.consumers, c.dependentSequences =
        if c.stageIndex = 0 then [] else (core.stage (c.stageIndex - 1)).map StartedConsumer.sequence) ∧
      core.gatingSequences = (core.stage last).map StartedConsumer.sequence ∧ core.gatingSequences ≠ [] ∧
      (∀ q, q ∈ core.sequencer.gatingSequences ↔ q ∈ core.gatingSequences) ∧
      ∀ k ≤ last,
        (2 ≤ ((core.stage k).filter fun c => c.access = .mutable).length →
          ∃ w, ∀ c ∈ core.consumers, c.runMode = .workPool w ↔ c.stageIndex = k) ∧
        (¬2 ≤ ((core.stage k).filter fun c => c.access = .mutable).length →
          ∀ c ∈ core.stage k, c.runMode = .sequential) :=
  builder_assembly [.handleEventsWith, .alsoPartitionWith, .andThen, .fanOutEventsWith] ⟨3, by decide⟩ _ rfl rfl false _

/-- The largest power of two that is a `usize` does not fit into `i64`: the ring buffer is not created. -/
theorem build_size_two_pow_63 :
    Buildable [.handleEventsWith] ∧ Nat.isPowerOfTwo (2 ^ 63) ∧ 2 ^ 63 < 2 ^ 64 ∧
      ∃ s, [FluentCall.handleEventsWith].foldlM SharedBuilderState.call (.new (2 ^ 63)) = some s ∧
        s.build false (fun _ => ()) = .error .createRingBuffer := by
  refine ⟨rfl, ⟨63, rfl⟩, by norm_num, _, rfl, ?_⟩
  have hp : Nat.isPowerOfTwo (2 ^ 63) := ⟨63, rfl⟩
  have hring : RingBuffer.newWithPadding (2 ^ 63) (fun _ => ()) .none = .error (.invalidBufferSize (2 ^ 63)) := by
    unfold RingBuffer.newWithPadding
    rw [dif_pos hp, dif_neg (by unfold i64Max; norm_num)]
  show assembleCore (2 ^ 63) (fun _ => ()) _ false .none = _
  unfold assembleCore
  rw [hring]

end BadBatch
