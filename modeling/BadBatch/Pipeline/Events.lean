import BadBatch.Pipeline.Delivery
import BadBatch.Pipeline.Windows
import BadBatch.Producer.Writes

/-!
# Calls and returns of handlers

What sequential loops and workers have in common: a consumer is inside of at most one event, it calls and it returns
(`EventView`, `EventMove`). A consumer that is about to call or inside of `s` is `Engaged` with `s`: it may access the slot,
and it has not returned for `s` yet.
-/

namespace BadBatch

open MultiProducerSequencer StepSys

variable {E : Type} {b : BufferSize} {t : Wiring} {handlers : Nat → E → Int → Bool → E} {st st' : Pipeline E} {c : Nat}
  {s : Int}

/-- What a consumer has called, what has returned, and the event it is inside of with its `end_of_batch`. -/
structure EventView where
  inside : Option (Int × Bool)
  calls : List Int
  returned : List Int

def SeqLoop.view (l : SeqLoop) : EventView := ⟨l.pc.inside, l.calls, l.returned⟩

def WorkLoop.view (l : WorkLoop) : EventView := ⟨l.inside, l.calls, l.returned⟩

def Pipeline.view (t : Wiring) (st : Pipeline E) (c : Nat) : EventView :=
  match t.runMode (t.stage c) with
  | .sequential => (st.sequential c).view
  | .workPool => (st.workers c).view

/-- One step as far as events go; `ready s` is the place from which `s` is called. -/
inductive EventMove (ready : Int → Prop) (i : EngineInput) (v : EventView) : EventView → Prop
  | quiet (h : v.inside = none) : EventMove ready i v v
  | call (s : Int) (endOfBatch : Bool) (h : v.inside = none) (hr : ready s) :
    EventMove ready i v ⟨some (s, endOfBatch), v.calls ++ [s], v.returned⟩
  | return (s : Int) (endOfBatch : Bool) (h : v.inside = some (s, endOfBatch)) (hi : i = .handler .ok) :
    EventMove ready i v ⟨none, v.calls, v.returned ++ [s]⟩

/-- A loop without failures calls and returns. -/
theorem seqStep_move {cfg : EngineConfig} {sequence sequence' : Int} {l l' : SeqLoop} {i : EngineInput}
    (h : seqStep cfg sequence l i = some (sequence', l')) (hi : i.fails = false) :
    EventMove (fun s => ∃ available, s ≤ available ∧ l.pc = .event s available) i l.view l'.view := by
  obtain ⟨pc, calls, ret, ends, failed⟩ := l
  cases seqRule_of_seqStep h with
  | panic | startFailed | batchStartFailed | skip | fail | shutdownFailed => cases hi
  | @call next available hle => exact .call next _ rfl ⟨available, hle, rfl⟩
  | @handled next => exact .return next _ rfl rfl
  | _ => exact .quiet rfl

theorem workStep_move {cfg : EngineConfig} {work work' sequence sequence' : Int} {l l' : WorkLoop} {i : EngineInput}
    (h : workStep cfg work sequence l i = some (work', sequence', l')) (hi : i.fails = false) :
    EventMove (fun s => l.pc = .event s) i l.view l'.view := by
  obtain ⟨pc, ca, la, calls, ret⟩ := l
  cases workRule_of_workStep h with
  | panic | startFailed | batchStartFailed | fail | shutdownFailed => cases hi
  | @call claimed => exact .call claimed _ rfl rfl
  | @handled claimed => exact .return claimed _ rfl rfl
  | _ => exact .quiet rfl

/-! ## Engaged consumers -/

/-- Consumer `c` is about to call `on_event(s)`. -/
def Ready (t : Wiring) (st : Pipeline E) (c : Nat) (s : Int) : Prop :=
  match t.runMode (t.stage c) with
  | .sequential => ∃ available, s ≤ available ∧ (st.sequential c).pc = .event s available
  | .workPool => (st.workers c).pc = .event s

/-- Consumer `c` is about to call, or inside of, `on_event(s)`. -/
def Engaged (t : Wiring) (st : Pipeline E) (c : Nat) (s : Int) : Prop :=
  Ready t st c s ∨ ∃ endOfBatch, (st.view t c).inside = some (s, endOfBatch)

/-- What the loops know when no handler fails: the trace of a sequential consumer, that it can be entered again, and that a
worker's `Sequence` covers what it has processed, or is about to. -/
structure LoopInv (t : Wiring) (st : Pipeline E) : Prop where
  trace : ∀ c < t.count, t.runMode (t.stage c) = .sequential → SeqTrace (st.sequences c) (st.sequential c)
  rest : ∀ c < t.count, t.runMode (t.stage c) = .sequential → SeqRest (st.sequences c) (st.sequential c)
  stored : ∀ c < t.count, t.runMode (t.stage c) = .workPool →
    ∀ s ∈ (st.workers c).returned, s ≤ st.sequences c ∨ (st.workers c).pc = .store s

theorem SeqPc.inside_eq {pc : SeqPc} {endOfBatch : Bool} (h : pc.inside = some (s, endOfBatch)) :
    ∃ available, pc = .inEvent s available := by
  cases pc <;> simp only [SeqPc.inside, reduceCtorEq, Option.some.injEq, Prod.mk.injEq] at h
  obtain ⟨rfl, -⟩ := h
  exact ⟨_, rfl⟩

theorem WorkLoop.inside_eq {l : WorkLoop} {endOfBatch : Bool} (h : l.inside = some (s, endOfBatch)) :
    l.pc = .inEvent s := by
  unfold WorkLoop.inside at h
  split at h <;> rename_i hpc <;> simp only [reduceCtorEq, Option.some.injEq, Prod.mk.injEq] at h
  rw [hpc, h.1]

/-- A sequential loop that is engaged with `s`. -/
theorem Engaged.sequential (h : Engaged t st c s) (hm : t.runMode (t.stage c) = .sequential) :
    ∃ available, s ≤ available ∧ (st.sequential c).pc = .event s available ∨ (st.sequential c).pc = .inEvent s available := by
  rcases h with h | ⟨e, h⟩
  · simp only [Ready, hm] at h
    obtain ⟨available, hr⟩ := h
    exact ⟨available, .inl hr⟩
  · simp only [Pipeline.view, hm] at h
    obtain ⟨available, hr⟩ := SeqPc.inside_eq h
    exact ⟨available, .inr hr⟩

theorem Engaged.worker (h : Engaged t st c s) (hm : t.runMode (t.stage c) = .workPool) :
    (st.workers c).pc = .event s ∨ (st.workers c).pc = .inEvent s := by
  rcases h with h | ⟨e, h⟩
  · simp only [Ready, hm] at h
    exact .inl h
  · simp only [Pipeline.view, hm] at h
    exact .inr (WorkLoop.inside_eq h)

theorem Engaged.accesses (h : PipeInv b t st) (hc : c < t.count) (he : Engaged t st c s) :
    Accesses t st (.consumer c) s := by
  refine ⟨hc, ?_⟩
  split
  · rename_i hm
    have hp := ((h.consumers.each c hc).sequential hm).place
    obtain ⟨available, ⟨hle, hpc⟩ | hpc⟩ := he.sequential hm <;> simp only [SeqPlace, hpc] at hp
    · exact ⟨available, by rw [hpc]; rfl, hp.1, hle⟩
    · exact ⟨available, by rw [hpc]; rfl, hp.1, hp.2⟩
  · rename_i hm
    rcases he.worker hm with hpc | hpc <;> simp only [WorkLoop.window, hpc]

/-- An engaged consumer has not returned yet. -/
theorem Engaged.fresh (h : PipeInv b t st) (hL : LoopInv t st) (hc : c < t.count) (he : Engaged t st c s) :
    s ∉ (st.view t c).returned := by
  cases hm : t.runMode (t.stage c) with
  | sequential =>
    have ht := hL.trace c hc hm
    have hcount := ht.count
    simp only [Pipeline.view, hm, SeqLoop.view]
    rw [ht.returned, mem_upTo]
    obtain ⟨available, ⟨-, hpc⟩ | hpc⟩ := he.sequential hm <;> simp only [SeqCount, hpc] at hcount <;> omega
  | workPool =>
    have hok := (h.consumers.pool _ hm).each c (Wiring.mem_members.mpr ⟨hc, rfl⟩)
    simp only [Pipeline.view, hm, WorkLoop.view]
    rcases he.worker hm with hpc | hpc <;> exact (hok.claimed s (by rw [hpc]; rfl)).1

/-- Calls are made in the order of the sequences. -/
theorem Ready.calls_lt (h : PipeInv b t st) (hL : LoopInv t st) (hc : c < t.count) (hr : Ready t st c s) :
    ∀ u ∈ (st.view t c).calls, u < s := by
  intro u hu
  cases hm : t.runMode (t.stage c) with
  | sequential =>
    have ht := hL.trace c hc hm
    have hcount := ht.count
    simp only [Pipeline.view, hm, SeqLoop.view] at hu
    simp only [Ready, hm] at hr
    obtain ⟨available, -, hpc⟩ := hr
    simp only [SeqCount, hpc] at hcount
    rw [ht.calls, mem_upTo] at hu
    omega
  | workPool =>
    have hok := (h.consumers.pool _ hm).each c (Wiring.mem_members.mpr ⟨hc, rfl⟩)
    simp only [Pipeline.view, hm, WorkLoop.view] at hu
    simp only [Ready, hm] at hr
    have hseq : st.sequences c = s - 1 := (hok.claimed s (by rw [hr]; rfl)).2.1
    have hplace := hok.place
    simp only [WorkPcOk, hr] at hplace
    rcases hok.called u hu with hret | hclaim
    · rcases hL.stored c hc hm u hret with hle | hpc
      · omega
      · rw [hr] at hpc; cases hpc
    · simp only [hr, WorkPc.claim, Option.some.injEq] at hclaim
      subst hclaim
      exact absurd hu hplace.2

/-! ## Runs without failures -/

/-- A step of a thread that runs once and does not fail. -/
def PipelineAction.clean : PipelineAction E → Bool
  | producer a => !a.fails
  | consumer _ i _ => !i.fails
  | restart _ => false
  | _ => true

/-- No handler fails; update closures may, and loops may be entered again. -/
def PipelineAction.handlersOk : PipelineAction E → Bool
  | consumer _ i _ => !i.fails
  | _ => true

theorem PipelineAction.handlersOk_of_clean {a : PipelineAction E} (h : a.clean = true) : a.handlersOk = true := by
  cases a <;> first | rfl | exact h

/-- A worker that has processed `s` stores it next. -/
theorem workStored_step {cfg : EngineConfig} {work work' sequence sequence' : Int} {l l' : WorkLoop} {i : EngineInput}
    (h : workStep cfg work sequence l i = some (work', sequence', l')) (hi : i.fails = false)
    (hok : WorkerOk work sequence l) (hl : ∀ u ∈ l.returned, u ≤ sequence ∨ l.pc = .store u) :
    ∀ u ∈ l'.returned, u ≤ sequence' ∨ l'.pc = .store u := by
  have hle := (workerOk_step h hok).2.1
  intro u hu
  -- what is not covered waits for the store, and the store is the only step from there
  have hold : u ∈ l.returned → u ≤ sequence' := by
    intro hu
    rcases hl u hu with hle' | hpc
    · omega
    · have hr := workRule_of_workStep h
      rw [hpc] at hr
      cases hr with
      | panic => cases hi
      | store => exact le_rfl
  rcases workStep_cases h hok.high with ⟨-, -, -, hr, -⟩ | ⟨_, -, -, -, rfl⟩ | ⟨-, -, -, rfl⟩ | ⟨_, -, -, -, rfl⟩ |
    ⟨claimed, -, -, -, rfl⟩ | ⟨_, -, -, -, rfl⟩
  · exact .inl (hold (hr ▸ hu))
  · exact .inl (hold hu)
  · exact .inl (hold hu)
  · exact .inl (hold hu)
  · rcases List.mem_append.mp hu with hu | hu
    · exact .inl (hold hu)
    · rw [List.mem_singleton.mp hu]
      exact .inr rfl
  · exact .inl (hold hu)

/-- **Step lemma of the loops.** -/
theorem loopInv_step {a : PipelineAction E} (h : PipeInv b t st) (hL : LoopInv t st) (ha : a.handlersOk = true)
    (hs : st.step b t handlers a = some st') : LoopInv t st' := by
  by_cases hr : a.isRestart = true
  · cases pipelineRule_of_step hs with
    | @restart d hd hm hdone =>
      have hother : ∀ c, c ≠ d →
          Function.update st.sequential d { st.sequential d with pc := .start } c = st.sequential c :=
        fun c hc => Function.update_of_ne hc _ _
      refine ⟨fun c hc hmc => ?_, fun c hc hmc => ?_, hL.stored⟩
      · by_cases hcd : c = d
        · subst hcd
          simp only [Function.update_self]
          exact seqTrace_restart (hL.trace c hc hm) (hL.rest c hc hm) hdone
        · simp only [hother c hcd]
          exact hL.trace c hc hmc
      · by_cases hcd : c = d
        · subst hcd
          simp only [Function.update_self]
          trivial
        · simp only [hother c hcd]
          exact hL.rest c hc hmc
    | _ => cases hr
  · have hr := Bool.eq_false_iff.mpr hr
    have hfails : ∀ {c i torn}, a = .consumer c i torn → i.fails = false := by
      rintro c i torn rfl
      simpa [PipelineAction.handlersOk] using ha
    refine ⟨fun c hc hm => ?_, fun c hc hm => ?_, fun c hc hm => ?_⟩
    · rcases step_loop h.feed.books hr hs c with ⟨h1, h2, -⟩ | ⟨i, torn, he, ⟨-, hst⟩ | ⟨hm', -⟩⟩
      · rw [h1, h2]
        exact hL.trace c hc hm
      · refine seqTrace_step (fun _ hi => ?_) hst (hL.trace c hc hm)
        have := hfails he
        rw [hi] at this
        cases this
      · rw [hm] at hm'; cases hm'
    · rcases step_loop h.feed.books hr hs c with ⟨h1, h2, -⟩ | ⟨i, torn, he, ⟨-, hst⟩ | ⟨hm', -⟩⟩
      · rw [h1, h2]
        exact hL.rest c hc hm
      · exact seqRest_step (hfails he) hst (hL.trace c hc hm) (hL.rest c hc hm)
      · rw [hm] at hm'; cases hm'
    · rcases step_loop h.feed.books hr hs c with ⟨h1, -, h2, -⟩ | ⟨i, torn, he, ⟨hm', -⟩ | ⟨-, work, hst⟩⟩
      · rw [h1, h2]
        exact hL.stored c hc hm
      · rw [hm] at hm'; cases hm'
      · exact workStored_step hst (hfails he)
          ((h.consumers.pool _ hm).each c (Wiring.mem_members.mpr ⟨hc, rfl⟩)) (hL.stored c hc hm)

end BadBatch
