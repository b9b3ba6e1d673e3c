import BadBatch.Dsl.Handshake
import BadBatch.Pipeline.Values

/-!
# Delivery across restart cycles

A halt may land anywhere in a batch of any processor, but a loop looks at the stop flag between batches only: it leaves with
its batch handled and stored. `start` enters the loop again behind its `Sequence`, after `halt_join` has joined every thread.
So the cycles of a processor continue one trace, and the slots wrap under it as in one long run. What the flags of the
handshake do is not needed for this: a halt that is lost keeps a loop running, a stale flag ends `start` early.

* `JoinInv`: between two cycles no thread is left, and every loop stands at its start or its end;
* `dsl_restart_delivery`: order, values and `Sequence` of every processor over any number of cycles.
-/

namespace BadBatch

open MultiProducerSequencer StepSys

variable {E : Type} {b : BufferSize} {t : Wiring} {handlers : Nat → E → Int → Bool → E} {st st' : Lifecycle E} {i : Nat}
  {processors : List DslProcessor}

/-! ## Threads and their loops -/

/-- A thread that is not inside the engine leaves the loop at its start or at its end. -/
def View.Parked (v : View) : Prop :=
  match v.pc with
  | .onStart _ | .main _ => True
  | .complete started => started = false → v.engine.pc = .done
  | _ => v.engine.pc = .start ∨ v.engine.pc = .done

theorem View.Parked.move {cycle : Nat} {v v' : View} (h : v.Parked) (hm : v.Move cycle v') :
    v'.Parked ∧ v.pc ≠ .idle ∧ v'.pc ≠ .idle := by
  cases hm with
  | refused hpc _ | claim hpc _ | reset hpc | release hpc =>
    simp only [Parked, hpc] at h
    exact ⟨h, by rw [hpc]; simp, by simp⟩
  | clearAlert hpc => exact ⟨trivial, by rw [hpc]; simp, by simp⟩
  | @onStart panicked cfg input s s' l hpc _ _ =>
    refine ⟨?_, by rw [hpc]; simp, ?_⟩
    · simp only [Parked]
      cases hl : l.pc <;> simp only [afterOnStart]
      case enter => simp
      case done => cases panicked <;> simp
    · simp only
      cases hl : l.pc <;> simp only [afterOnStart]
      case done => cases panicked <;> simp
      all_goals simp
  | @complete started hpc =>
    simp only [Parked, hpc] at h
    refine ⟨?_, by rw [hpc]; simp, ?_⟩
    · cases started
      · exact .inr (h rfl)
      · trivial
    · cases started <;> simp
  | @main panicked panics l hpc =>
    refine ⟨?_, by rw [hpc]; simp, ?_⟩
    · simp only [Parked]
      cases hl : l.pc <;> simp only [afterMain]
      case done => exact .inr trivial
    · simp only
      cases hl : l.pc <;> simp only [afterMain] <;> simp

/-! ## Handles -/

/-- The processor whose handle `start` has not pushed yet. -/
def OwnerPc.launching : OwnerPc → Option Nat
  | poll i => some i
  | pollFinished i => some i
  | exited i => some i
  | _ => none

/-- Which handles there are at each place of the owner. -/
def OwnerPc.HandlesOk (handles : List Nat) (started : Bool) : OwnerPc → Prop
  | idle | returned _ _ => started = false → handles = []
  | reopen => handles = []
  | spawn n | poll n | pollFinished n | exited n => ∀ i ∈ handles, i < n
  | checkPoisoned n _ => ∀ i ∈ handles, i ≤ n
  | _ => True

/-- Every thread has a handle, and `halt_join` leaves none. -/
structure JoinInv (st : Lifecycle E) : Prop where
  live : ∀ i, st.threads i ≠ .idle → i ∈ st.threadHandles ∨ st.owner.launching = some i
  handles : st.owner.HandlesOk st.threadHandles st.started
  parked : ∀ i, (st.view i).Parked

theorem joinInv_init (multiProducer : Bool) (factory : Nat → E) : JoinInv (.init b processors multiProducer factory) where
  live _ hi := absurd rfl hi
  handles _ := rfl
  parked _ := .inl rfl

/-- The owner moves and touches no thread. -/
theorem JoinInv.frame (h : JoinInv st) (ht : st'.threads = st.threads) (hh : st'.threadHandles = st.threadHandles)
    (hseq : st'.pipeline.sequential = st.pipeline.sequential)
    (hl : ∀ i, st.owner.launching = some i → st'.owner.launching = some i)
    (ho : st'.owner.HandlesOk st'.threadHandles st'.started) : JoinInv st' := by
  refine ⟨fun i hi => ?_, ho, fun i => ?_⟩
  · rw [ht] at hi
    rw [hh]
    exact (h.live i hi).imp id (hl i)
  · have := h.parked i
    simp only [View.Parked, Lifecycle.view, ht, hseq] at this ⊢
    exact this

theorem JoinInv.frame_idle (h : JoinInv st) (ht : st'.threads = st.threads) (hh : st'.threadHandles = st.threadHandles)
    (hseq : st'.pipeline.sequential = st.pipeline.sequential) (hl : st.owner.launching = none)
    (ho : st'.owner.HandlesOk st'.threadHandles st'.started) : JoinInv st' :=
  h.frame ht hh hseq (fun i hi => by rw [hl] at hi; cases hi) ho

theorem JoinInv.threadMove (h : JoinInv st) (hm : ThreadMove i st st') : JoinInv st' := by
  obtain ⟨hparked, hidle, -⟩ := (h.parked i).move hm.move
  refine ⟨fun j hj => ?_, ?_, fun j => ?_⟩
  · rw [hm.handles, hm.owner]
    by_cases hji : j = i
    · subst hji
      exact h.live j hidle
    · have hv := hm.other j hji
      have : st'.threads j = st.threads j := congrArg View.pc hv
      exact h.live j (by rw [← this]; exact hj)
  · rw [hm.handles, hm.owner, hm.started]
    exact h.handles
  · by_cases hji : j = i
    · subst hji
      exact hparked
    · rw [hm.other j hji]
      exact h.parked j

/-- `start` spawns a thread for a processor that has none. -/
theorem joinInv_spawn (h : JoinInv st) (ho : st.owner = .spawn i) : JoinInv (st.spawned b t handlers i) := by
  have hhandles := h.handles
  rw [ho] at hhandles
  have hlive : ∀ j, st.threads j ≠ .idle → j ∈ st.threadHandles := fun j hj =>
    (h.live j hj).resolve_right (by rw [ho]; exact nofun)
  have hidle : st.threads i = .idle := by
    by_contra hne
    have := hhandles i (hlive i hne)
    omega
  -- only the loop of `i` is entered again
  have hseq : ∀ j, ((st.pipeline.step b t handlers (.restart i)).getD st.pipeline).sequential j = st.pipeline.sequential j ∨
      (j = i ∧ (((st.pipeline.step b t handlers (.restart i)).getD st.pipeline).sequential j).pc = .start) := by
    intro j
    cases hp : st.pipeline.step b t handlers (.restart i) with
    | none => exact .inl rfl
    | some p =>
      cases pipelineRule_of_step hp
      by_cases hji : j = i
      · subst hji
        exact .inr ⟨rfl, by simp⟩
      · exact .inl (by simp [Function.update_of_ne hji])
  refine ⟨fun j hj => ?_, hhandles, fun j => ?_⟩
  · by_cases hji : j = i
    · subst hji
      exact .inr rfl
    · refine .inl (hlive j ?_)
      simpa only [Lifecycle.spawned, Function.update_of_ne hji] using hj
  · have hpark := h.parked j
    by_cases hji : j = i
    · subst hji
      simp only [View.Parked, Lifecycle.view, hidle] at hpark
      simp only [View.Parked, Lifecycle.view, Lifecycle.spawned, Function.update_self]
      rcases hseq j with he | ⟨-, he⟩
      · rw [he]
        exact hpark
      · exact .inl he
    · have he := (hseq j).resolve_right fun hx => hji hx.1
      simp only [View.Parked, Lifecycle.view, Lifecycle.spawned, Function.update_of_ne hji, he] at hpark ⊢
      exact hpark

/-- `halt_join` joins a thread. -/
theorem joinInv_join {why : HaltFor} {joinErrors : List ThreadResult} {r : ThreadResult} (h : JoinInv st)
    (ho : st.owner = .join why joinErrors) (hlast : st.threadHandles.getLast? = some i) (hi : st.threads i = .finished r) :
    JoinInv (st.joined i r why joinErrors) := by
  have hlive : ∀ j, Function.update st.threads i ThreadPc.idle j ≠ .idle → j ∈ st.threadHandles.dropLast := by
    intro j hj
    by_cases hji : j = i
    · subst hji
      simp at hj
    · rw [Function.update_of_ne hji] at hj
      have hmem := (h.live j hj).resolve_right (by rw [ho]; exact nofun)
      rw [← List.dropLast_append_getLast? i hlast] at hmem
      rcases List.mem_append.mp hmem with hmem | hmem
      · exact hmem
      · exact absurd (List.mem_singleton.mp hmem) hji
  have hpark : ∀ j, View.Parked { st.view j with pc := Function.update st.threads i ThreadPc.idle j } := by
    intro j
    have hj := h.parked j
    by_cases hji : j = i
    · subst hji
      simp only [View.Parked, Lifecycle.view, hi] at hj
      simp only [View.Parked, Function.update_self, Lifecycle.view]
      exact hj
    · rw [Function.update_of_ne hji]
      exact hj
  cases r with
  | ok => exact ⟨fun j hj => .inl (hlive j hj), trivial, hpark⟩
  | alreadyRunning | panicked => exact ⟨fun j hj => .inl (hlive j hj), trivial, hpark⟩

/-- **Step lemma of the owner.** -/
theorem joinInv_ownerStep (h : JoinInv st) (hs : st.ownerStep b t handlers = some st') : JoinInv st' := by
  obtain ⟨pc, ho, hr⟩ := ownerRule_of_ownerStep hs
  have hhandles := h.handles
  rw [ho] at hhandles
  cases hr with
  | reopen hp =>
    cases pipelineRule_of_step hp
    refine h.frame_idle rfl rfl rfl (by rw [ho]; rfl) ?_
    show ∀ j ∈ st.threadHandles, j < 0
    rw [show st.threadHandles = [] from hhandles]
    simp
  | spawn => exact joinInv_spawn h ho
  | started => exact h.frame_idle rfl rfl rfl (by rw [ho]; rfl) (by rintro ⟨⟩)
  | poll | pollFinished =>
    refine h.frame rfl rfl rfl (fun j hj => ?_) ?_
    · rw [ho] at hj
      simp only
      split <;> exact hj
    · simp only
      split <;> exact hhandles
  | exited =>
    refine ⟨fun j hj => .inl ?_, fun j hj => ?_, h.parked⟩
    · rcases h.live j hj with hmem | hl
      · exact List.mem_append_left _ hmem
      · rw [ho] at hl
        exact List.mem_append_right _ (List.mem_singleton.mpr (Option.some.inj hl).symm)
    · rcases List.mem_append.mp hj with hmem | hmem
      · exact le_of_lt (hhandles j hmem)
      · exact le_of_eq (List.mem_singleton.mp hmem)
  | up => exact h.frame_idle rfl rfl rfl (by rw [ho]; rfl) fun j hj => Nat.lt_succ_of_le (hhandles j hj)
  | closeDrain hp | close _ hp =>
    cases pipelineRule_of_step hp
    exact h.frame_idle rfl rfl rfl (by rw [ho]; rfl) trivial
  | halted hlast =>
    exact h.frame_idle rfl rfl rfl (by rw [ho]; rfl) fun _ => List.getLast?_eq_none_iff.mp hlast
  | join hlast hr => exact joinInv_join h ho hlast hr
  | _ => exact h.frame_idle rfl rfl rfl (by rw [ho]; rfl) trivial

/-- **Step lemma.** -/
theorem joinInv_step {a : LifecycleAction E} (h : JoinInv st)
    (hs : st.step b (dslWiring processors) handlers a = some st') : JoinInv st' := by
  cases a with
  | call call =>
    have hrest : st.owner.launching = none ∧ (st.started = false → st.threadHandles = []) := by
      have hhandles := h.handles
      simp only [Lifecycle.step] at hs
      split at hs <;> rename_i ho <;> simp only [Option.some.injEq, reduceCtorEq] at hs <;> rw [ho] at hhandles ⊢ <;>
        exact ⟨rfl, hhandles⟩
    have hst' : st' = st.callStep call := by
      simp only [Lifecycle.step] at hs
      split at hs <;> simp only [Option.some.injEq, reduceCtorEq] at hs <;> exact hs.symm
    subst hst'
    have hlaunch : ∀ {pc : OwnerPc} i, st.owner.launching = some i → pc.launching = some i := by
      intro pc i hi
      rw [hrest.1] at hi
      cases hi
    cases call <;> simp only [Lifecycle.callStep] <;> split <;> rename_i hstarted
    · exact h.frame rfl rfl rfl hlaunch hrest.2
    · exact h.frame rfl rfl rfl hlaunch (hrest.2 (by simpa using hstarted))
    · exact h.frame rfl rfl rfl hlaunch trivial
    · exact h.frame rfl rfl rfl hlaunch hrest.2
    · exact h.frame rfl rfl rfl hlaunch trivial
    · exact h.frame rfl rfl rfl hlaunch hrest.2
  | owner => exact joinInv_ownerStep h hs
  | expire =>
    simp only [Lifecycle.step] at hs
    split at hs <;> rename_i ho <;> simp only [Option.some.injEq, reduceCtorEq] at hs
    subst hs
    exact h.frame_idle rfl rfl rfl (by rw [ho]; rfl) trivial
  | thread i => exact h.threadMove (threadStep_move hs)
  | engine i a => exact h.threadMove (engineStep_move hs)
  | producer a =>
    obtain ⟨p, hp, rfl⟩ := act_some hs
    cases pipelineRule_of_step hp
    exact h.frame rfl rfl rfl (fun _ => id) h.handles

/-- Between two cycles every loop is at rest. -/
theorem JoinInv.atRest (h : JoinInv st) (ho : st.owner.atRest = true) (hst : st.started = false) (i : Nat) :
    (st.pipeline.sequential i).pc = .start ∨ (st.pipeline.sequential i).pc = .done := by
  have hhandles := h.handles
  have hnone : st.threadHandles = [] ∧ st.owner.launching = none := by
    cases hpc : st.owner <;> rw [hpc] at ho hhandles <;> simp only [OwnerPc.atRest, Bool.false_eq_true] at ho
    · exact ⟨hhandles hst, rfl⟩
    · exact ⟨hhandles hst, rfl⟩
  have hidle : st.threads i = .idle := by
    by_contra hne
    rcases h.live i hne with hmem | hl
    · rw [hnone.1] at hmem
      cases hmem
    · rw [hnone.2] at hl
      cases hl
  have hpark := h.parked i
  simpa only [View.Parked, Lifecycle.view, hidle] using hpark

/-! ## Runs -/

/-- No handler fails; translators may. -/
def LifecycleAction.handlersOk : LifecycleAction E → Bool
  | engine _ (.consumer i _) => !i.fails
  | _ => true

/-- What holds of a disruptor whose handlers do not fail. -/
structure CyclesInv (b : BufferSize) (t : Wiring) (handlers : Nat → E → Int → Bool → E) (st : Lifecycle E) : Prop where
  pipe : PipeInv b t st.pipeline
  loops : LoopInv t st.pipeline
  values : ValueInv b t handlers st.pipeline
  joined : JoinInv st

section Cycles

variable {calls : List DslCall} {multiProducer : Bool} {factory : Nat → E} {c : Nat}

theorem cyclesInv_init (hwf : (dslWiring processors).Wf) :
    CyclesInv b (dslWiring processors) handlers (.init b processors multiProducer factory) := by
  have hI := pipeInv_init (b := b) hwf multiProducer false factory
  have hL := loopInv_init (b := b) (t := dslWiring processors) multiProducer false factory
  have hV : ValueInv b (dslWiring processors) handlers _ := valueInv_init multiProducer false factory
  refine ⟨⟨hI.feed, hI.gating, ⟨fun d hd => ?_, hI.consumers.pool⟩⟩, ⟨hL.trace, hL.rest, hL.stored⟩, ?_, joinInv_init _ _⟩
  · have hd := hI.consumers.each d hd
    exact ⟨hd.low, hd.barrier, hd.sequential, hd.worker⟩
  · exact hV.frame (.refl _) le_rfl hV.writes (fun _ => rfl) rfl rfl rfl rfl rfl

/-- **Step lemma.** -/
theorem cyclesInv_step {a : LifecycleAction E} (hwf : (dslWiring processors).Wf)
    (hroot : ∀ k, 0 < k → (dslWiring processors).root k = false) (ha : a.handlersOk = true)
    (h : CyclesInv b (dslWiring processors) handlers st)
    (hs : st.step b (dslWiring processors) handlers a = some st') :
    CyclesInv b (dslWiring processors) handlers st' := by
  have hjoin := joinInv_step h.joined hs
  have hpipe := pipeInv_pipelineStep hwf h.pipe (pipelineStep_step hs)
  have hstep : ∀ {pa : PipelineAction E}, pa.handlersOk = true →
      st.pipeline.step b (dslWiring processors) handlers pa = some st'.pipeline →
      CyclesInv b (dslWiring processors) handlers st' := fun hpa hst =>
    ⟨hpipe, loopInv_step h.pipe h.loops hpa hst, valueInv_step hwf hroot h.pipe h.loops h.values hpa hst, hjoin⟩
  by_cases hengine : ∀ i e, a ≠ .engine i e
  · have hquiet := quietStep_step hengine hs
    generalize hp : st'.pipeline = p at hquiet
    cases hquiet with
    | same => exact ⟨hpipe, by rw [hp]; exact h.loops, by rw [hp]; exact h.values, hjoin⟩
    | step pa hpa hst =>
      have hok : pa.handlersOk = true := by
        cases pa with
        | consumer c i torn => exact absurd rfl (hpa c i torn)
        | _ => rfl
      exact hstep hok (by rw [hp]; exact hst)
    | record f =>
      have hL := h.loops
      have hV := h.values
      refine ⟨hpipe, by rw [hp]; exact ⟨hL.trace, hL.rest, hL.stored⟩, ?_, hjoin⟩
      rw [hp]
      exact hV.frame (.refl _) le_rfl (hV.writes.congr rfl rfl (fun _ _ => id) rfl rfl) (fun _ => rfl) rfl rfl rfl rfl rfl
  · push Not at hengine
    obtain ⟨i, e, rfl⟩ := hengine
    refine hstep ?_ (engineStep_pipeline hs)
    cases e with
    | consumer input torn => exact ha
    | wait call | barrier input => rfl

/-- The last sequence that a loop has handled. -/
def SeqLoop.lastHandled (l : SeqLoop) : Int := l.returned.getLast?.getD initialCursorValue

theorem lastHandled_of_count {sequence : Int} {l : SeqLoop} (ht : SeqTrace sequence l)
    (hcalls : (l.calls.length : Int) = sequence + 1) (hret : l.returned.length = l.calls.length) :
    l.lastHandled = sequence := by
  have hlow := ht.low
  rw [SeqLoop.lastHandled, ht.returned]
  cases hn : l.returned.length with
  | zero =>
    simp only [upTo, List.range_zero, List.map_nil, List.getLast?_nil, Option.getD_none, initialCursorValue]
    omega
  | succ n =>
    rw [upTo_succ, List.getLast?_append, List.getLast?_singleton, Option.some_or, Option.getD_some]
    omega

/-- **Delivery across restart cycles.** Of a chain that is registered before the first publication, in every state of every
run in which no handler fails: over all cycles, `on_event` of a processor was called for `0, 1, 2, …` without gap or
repetition, and not beyond the cursor; each call was given the value that the translator of the sequence wrote, transformed
by the earlier processors of the chain; and between two cycles the `Sequence` is the last sequence handled. -/
theorem dsl_restart_delivery (h : dslProcessors calls = some processors) (hone : rootCalls calls ≤ 1)
    (hr : LifecycleReach b processors handlers (fun _ a => a.handlersOk = true)
      (.init b processors multiProducer factory) st) (hc : c < processors.length) :
    (∃ n, (st.pipeline.sequential c).calls = upTo n) ∧
    (∀ s ∈ (st.pipeline.sequential c).calls, s ≤ st.pipeline.feed.world.cursor) ∧
    (st.pipeline.received c).map Prod.fst = (st.pipeline.sequential c).calls ∧
    (∀ s v, (s, v) ∈ st.pipeline.received c → (∀ k < c, ∃ e, st.pipeline.doneBy k s = some (k, e)) ∧
      ∃ v₀, st.pipeline.feed.written s = some v₀ ∧ v = foldStages handlers st.pipeline.doneBy s v₀ c) ∧
    (st.owner.atRest = true → st.started = false →
      st.pipeline.sequences c = (st.pipeline.sequential c).lastHandled) := by
  have hne : processors ≠ [] := List.length_pos_iff.mp (by omega)
  have hwf := wf_dslWiring h hne
  have hroot : ∀ k, 0 < k → (dslWiring processors).root k = false := fun k hk => root_of_rootCalls h hone hk
  have hI : CyclesInv b (dslWiring processors) handlers st :=
    Reach.inv (I := CyclesInv b (dslWiring processors) handlers) (cyclesInv_init hwf)
      (fun hI ha hs => cyclesInv_step hwf hroot ha hI hs) hr
  have htrace := hI.loops.trace c hc rfl
  have hcalls := hI.values.calls c hc
  refine ⟨⟨_, htrace.calls⟩, fun s hs => ?_, hcalls, fun s v hv => ?_, fun hrest hstarted => ?_⟩
  · have hs : s ∈ (st.pipeline.received c).map Prod.fst := by
      rw [hcalls]
      exact hs
    obtain ⟨⟨s, v⟩, hv, rfl⟩ := List.mem_map.mp hs
    exact hI.pipe.feed.books.world.le_cursor (hI.values.received c hc s v hv).1.1
  · obtain ⟨hrel, hval⟩ := hI.values.received c hc s v hv
    refine ⟨fun k hk => ?_, hval⟩
    have hdone := stageDone_of_released hwf hroot hI.pipe hI.loops hI.values hc hrel hk
    have hkc : k < processors.length := by omega
    exact hdone.transformed k hkc rfl (hdone.returned k hkc rfl)
  · refine (lastHandled_of_count htrace ?_ ?_).symm
    · rcases hI.joined.atRest hrest hstarted c with hpc | hpc
      · have := htrace.count
        simp only [SeqCount, hpc] at this
        exact this.1
      · have := hI.loops.rest c hc rfl
        simp only [SeqRest, hpc] at this
        exact this.1
    · rcases hI.joined.atRest hrest hstarted c with hpc | hpc
      · have := htrace.count
        simp only [SeqCount, hpc] at this
        exact this.2.1
      · have := hI.loops.rest c hc rfl
        simp only [SeqRest, hpc] at this
        exact this.2.1

end Cycles

/-- The owner starts a disruptor of one processor. -/
def startOne : List (LifecycleAction Nat) :=
  [.call .start, .owner, .owner, .thread 0, .thread 0, .thread 0, .engine 0 (.consumer (.handler .ok) none), .thread 0, .owner,
    .owner, .owner, .owner, .engine 0 (.consumer .tick none)]

/-- Sequence `s` is published, and the processor handles it. -/
def passOne (s : Int) (value : Nat) : List (LifecycleAction Nat) :=
  [.producer (.call 0 (.nextN 1)), .producer (.step 0), .producer (.step 0), .producer (.step 0), .producer (.step 0),
    .producer (.step 0), .producer (.claimed 0), .producer (.write 0 value), .producer (.publish 0), .producer (.step 0),
    .producer (.published 0), .engine 0 (.consumer (.flag true) none), .engine 0 (.wait .waitFor), .engine 0 (.barrier .next),
    .engine 0 (.barrier .next), .engine 0 (.barrier .next), .engine 0 (.barrier .next),
    .engine 0 (.consumer (.answer (.ok s)) none), .engine 0 (.consumer (.handler .ok) none),
    .engine 0 (.consumer .tick none), .engine 0 (.consumer (.handler .ok) none), .engine 0 (.consumer .tick none),
    .engine 0 (.consumer .tick none)]

/-- The owner halts it. -/
def haltOne : List (LifecycleAction Nat) :=
  [.call .halt, .owner, .owner, .owner, .owner, .engine 0 (.consumer (.flag false) none),
    .engine 0 (.consumer (.handler .ok) none), .thread 0, .owner, .owner]

set_option maxRecDepth 4000 in
/-- Two cycles of one processor, with one event each. -/
theorem dsl_restart_delivery_twice : ∃ st : Lifecycle Nat,
    LifecycleReach ⟨1, by decide⟩ [⟨[], false⟩] (fun _ e _ _ => e + 1) (fun _ a => a.handlersOk = true)
      (.init ⟨1, by decide⟩ [⟨[], false⟩] false fun _ => 0) st ∧
    st.cycle = 2 ∧ (st.pipeline.sequential 0).calls = [0, 1] ∧ st.pipeline.sequences 0 = 1 := by
  obtain ⟨st, hr, hcycle, hrest, hstarted, hcalls, hlast⟩ : ∃ st : Lifecycle Nat,
      LifecycleReach ⟨1, by decide⟩ [⟨[], false⟩] (fun _ e _ _ => e + 1) (fun _ a => a.handlersOk = true)
        (.init ⟨1, by decide⟩ [⟨[], false⟩] false fun _ => 0) st ∧
      st.cycle = 2 ∧ st.owner.atRest = true ∧ st.started = false ∧ (st.pipeline.sequential 0).calls = [0, 1] ∧
      (st.pipeline.sequential 0).lastHandled = 1 := by
    refine ⟨_, reach_of_exec (startOne ++ passOne 0 7 ++ haltOne ++ startOne ++ passOne 1 8 ++ haltOne) rfl, rfl, rfl, rfl,
      rfl, rfl⟩
  have hlaw := dsl_restart_delivery (show dslProcessors [.handleEventsWith, .build] = some _ from rfl)
    (by decide) hr (c := 0) (by decide)
  exact ⟨st, hr, hcycle, hcalls, by rw [hlaw.2.2.2.2 hrest hstarted, hlast]⟩

end BadBatch
