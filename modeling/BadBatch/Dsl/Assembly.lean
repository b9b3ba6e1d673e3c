import BadBatch.Wiring

/-!
# Assembly of a DSL disruptor

`handle_events_with` and `handle_events_with_exception_handler` turn a `Disruptor` into a `DisruptorBuilder`, `then` extends
the chain of the builder, `build` gives the `Disruptor` back. Nothing keeps the caller from registering another root on the
`Disruptor` that comes back; every root waits for the cursor only. All processors gate the producers.

* `dslProcessors`: the processors after a chain of calls that the types allow;
* `wf_dslWiring`: their wiring is well-formed, with a new chain at every root.
-/

namespace BadBatch

/-- The safe registration calls. -/
inductive DslCall
  | handleEventsWith
  | handleEventsWithExceptionHandler
  | then
  | build
  deriving DecidableEq, Repr

/-- What the caller holds. -/
inductive DslType
  | disruptor
  | disruptorBuilder
  deriving DecidableEq, Repr

/-- A registered `BatchEventProcessor`: the dependents of its barrier, and whether its exception handler is the caller's. -/
structure DslProcessor where
  dependentSequences : List Nat
  exceptionHandler : Bool
  deriving DecidableEq, Repr

structure DslState where
  type : DslType
  eventProcessors : List DslProcessor
  lastProcessorSequences : List Nat
  deriving DecidableEq, Repr

/-- `Disruptor::new` -/
def DslState.new : DslState := ⟨.disruptor, [], []⟩

namespace DslState

/-- A new processor with its barrier; its sequence gates the producers and the next `then`. -/
def push (s : DslState) (dependentSequences : List Nat) (exceptionHandler : Bool) : DslState where
  type := .disruptorBuilder
  eventProcessors := s.eventProcessors ++ [⟨dependentSequences, exceptionHandler⟩]
  lastProcessorSequences := [s.eventProcessors.length]

/-- One call; `none` when the types do not allow it. -/
def call (s : DslState) : DslCall → Option DslState
  | .handleEventsWith => if s.type = .disruptor then some (s.push [] false) else none
  | .handleEventsWithExceptionHandler => if s.type = .disruptor then some (s.push [] true) else none
  | .then => if s.type = .disruptorBuilder then some (s.push s.lastProcessorSequences false) else none
  | .build => if s.type = .disruptorBuilder then some { s with type := .disruptor } else none

end DslState

/-- The processors of the `Disruptor` that a chain of calls leaves. -/
def dslProcessors (calls : List DslCall) : Option (List DslProcessor) :=
  (calls.foldlM DslState.call .new).bind fun s => if s.type = .disruptor then some s.eventProcessors else none

/-- The number of roots that a chain registers. -/
def rootCalls (calls : List DslCall) : Nat :=
  calls.countP fun call => call = .handleEventsWith ∨ call = .handleEventsWithExceptionHandler

section Wiring

variable (processors : List DslProcessor)

def DslProcessor.isRoot (p : DslProcessor) : Bool := p.dependentSequences.isEmpty

/-- Every processor is a stage of its own. -/
def dslWiring : Wiring where
  count := processors.length
  stageCount := processors.length
  stage := fun c => c
  root := fun c => (processors[c]?.map DslProcessor.isRoot).getD false
  access := fun _ => .mutable
  runMode := fun _ => .sequential
  dependentSequences := fun c => (processors[c]?.map DslProcessor.dependentSequences).getD []
  gatingSequences := List.range processors.length
  exceptionHandler := fun c => (processors[c]?.map DslProcessor.exceptionHandler).getD false
  stop := .running

end Wiring

/-! ## What the types allow -/

/-- Every processor is a root or waits for the one registered before it, and there are as many roots as root calls. -/
structure DslOk (calls : List DslCall) (s : DslState) : Prop where
  each : ∀ c (hc : c < s.eventProcessors.length), (s.eventProcessors.get ⟨c, hc⟩).dependentSequences = [] ∨
    (0 < c ∧ (s.eventProcessors.get ⟨c, hc⟩).dependentSequences = [c - 1])
  last : s.type = .disruptorBuilder →
    0 < s.eventProcessors.length ∧ s.lastProcessorSequences = [s.eventProcessors.length - 1]
  roots : s.eventProcessors.countP DslProcessor.isRoot = rootCalls calls

variable {calls : List DslCall} {s s' : DslState} {call : DslCall} {processors : List DslProcessor}

theorem dslOk_new : DslOk [] .new where
  each c hc := by simp [DslState.new] at hc
  last h := by cases h
  roots := rfl

/-- A registration with a root barrier, or one that depends on the last processor. -/
theorem dslOk_push {deps : List Nat} {e : Bool} (h : DslOk calls s)
    (hdeps : deps = [] ∨ (0 < s.eventProcessors.length ∧ deps = [s.eventProcessors.length - 1]))
    (hcount : rootCalls (calls ++ [call]) = rootCalls calls + if deps.isEmpty then 1 else 0) :
    DslOk (calls ++ [call]) (s.push deps e) := by
  refine ⟨fun c hc => ?_, fun _ => ⟨by simp [DslState.push], by simp [DslState.push]⟩, ?_⟩
  · by_cases hlt : c < s.eventProcessors.length
    · simpa [DslState.push, List.getElem_append_left hlt] using h.each c hlt
    · obtain rfl : c = s.eventProcessors.length := by
        simp only [DslState.push, List.length_append, List.length_singleton] at hc
        omega
      simpa [DslState.push] using hdeps
  · rw [hcount, ← h.roots]
    simp [DslState.push, DslProcessor.isRoot, List.countP_singleton]

theorem dslOk_call (h : DslOk calls s) (hs : s.call call = some s') : DslOk (calls ++ [call]) s' := by
  cases call <;> simp only [DslState.call, Option.ite_none_right_eq_some, Option.some.injEq] at hs <;>
    obtain ⟨htype, rfl⟩ := hs
  case handleEventsWith | handleEventsWithExceptionHandler =>
    exact dslOk_push h (.inl rfl) (by simp [rootCalls, List.countP_append])
  case «then» =>
    obtain ⟨hpos, hlast⟩ := h.last htype
    exact dslOk_push h (.inr ⟨hpos, hlast⟩) (by simp [rootCalls, List.countP_append, hlast])
  case build =>
    exact ⟨h.each, fun hb => (by cases hb), by rw [h.roots]; simp [rootCalls, List.countP_append]⟩

theorem dslOk_calls {more : List DslCall} (h : DslOk calls s) (hs : more.foldlM DslState.call s = some s') :
    DslOk (calls ++ more) s' := by
  induction more generalizing calls s with
  | nil =>
    simp only [List.foldlM_nil, Option.pure_def, Option.some.injEq] at hs
    subst hs
    rwa [List.append_nil]
  | cons call more ih =>
    simp only [List.foldlM_cons, Option.bind_eq_bind, Option.bind_eq_some_iff] at hs
    obtain ⟨s₁, h₁, hs⟩ := hs
    have := ih (dslOk_call h h₁) hs
    rwa [List.append_assoc, List.singleton_append] at this

theorem dslOk_of_dslProcessors (h : dslProcessors calls = some processors) :
    ∃ s, DslOk calls s ∧ s.eventProcessors = processors := by
  simp only [dslProcessors, Option.bind_eq_some_iff, Option.ite_none_right_eq_some, Option.some.injEq] at h
  obtain ⟨s, hs, -, rfl⟩ := h
  exact ⟨s, dslOk_calls dslOk_new hs, rfl⟩

/-- What `dslWiring` makes of processor `c`. -/
theorem dslWiring_dependents (h : dslProcessors calls = some processors) {c : Nat} (hc : c < processors.length) :
    ((dslWiring processors).dependentSequences c = [] ∧ (dslWiring processors).root c = true) ∨
      (0 < c ∧ (dslWiring processors).dependentSequences c = [c - 1] ∧ (dslWiring processors).root c = false) := by
  obtain ⟨s, hok, rfl⟩ := dslOk_of_dslProcessors h
  have he := hok.each c hc
  simp only [List.get_eq_getElem] at he
  simp only [dslWiring, List.getElem?_eq_getElem hc, Option.map_some, Option.getD_some, DslProcessor.isRoot]
  rcases he with he | ⟨hpos, he⟩
  · exact .inl ⟨he, by rw [he]; rfl⟩
  · exact .inr ⟨hpos, he, by rw [he]; rfl⟩

/-- The first processor is a root; every other root is one more root call. -/
theorem rootCalls_eq {p : DslProcessor} (h : dslProcessors calls = some (p :: processors)) :
    rootCalls calls = processors.countP DslProcessor.isRoot + 1 := by
  obtain ⟨s, hok, he⟩ := dslOk_of_dslProcessors h
  have hfirst : p.isRoot = true := by
    have := hok.each 0 (by rw [he]; simp)
    simp only [he, List.get_eq_getElem, List.getElem_cons_zero] at this
    rcases this with hd | ⟨hd, -⟩
    · rw [DslProcessor.isRoot, hd]; rfl
    · omega
  rw [← hok.roots, he, List.countP_cons_of_pos hfirst]

/-- **Assembly.** Whatever the types allow is wired well. -/
theorem wf_dslWiring (h : dslProcessors calls = some processors) (hne : processors ≠ []) :
    (dslWiring processors).Wf where
  stage_lt _ hc := hc
  filled k hk := ⟨k, hk, rfl⟩
  dependents c hc d := by
    have hc' : c < processors.length := hc
    rcases dslWiring_dependents h hc' with ⟨hd, hr⟩ | ⟨hpos, hd, hr⟩
    · rw [hd, show (dslWiring processors).stage c = c from rfl, hr]
      simp
    · rw [hd, show (dslWiring processors).stage c = c from rfl, hr, List.mem_singleton]
      show d = c - 1 ↔ d < processors.length ∧ false = false ∧ d + 1 = c
      constructor
      · rintro rfl
        exact ⟨by omega, rfl, by omega⟩
      · rintro ⟨-, -, hdc⟩
        omega
  gating c hc := by simpa [dslWiring] using hc
  terminal c hc _ := by simpa [dslWiring] using hc
  started := List.length_pos_iff.mpr hne
  readonly c _ d _ hcd hstage := absurd hstage hcd
  pool c _ hm := by cases hm

end BadBatch
