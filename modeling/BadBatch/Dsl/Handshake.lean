import BadBatch.Dsl.Lifecycle

/-!
# The startup handshake

`start` waits for `startup_complete` of every processor it spawns. Only the thread itself clears the flag, after its CAS on
`running`: the poll of a restart may read the flag of the cycle before. Then `start` returns before `on_start`, and a `halt`
may come before the CAS and the `clear_alert` that undo it.

* `FreshPolls`: no poll reads a flag that the new thread has yet to clear;
* `restart_handshake`: in every run of such polls, `start` returns `Ok` after every `on_start`, and no halt is lost;
* `first_cycle_handshake`: in the first cycle every poll is one.
-/

namespace BadBatch

open MultiProducerSequencer StepSys

variable {E : Type} {b : BufferSize} {t : Wiring} {handlers : Nat → E → Int → Bool → E} {st st' : Lifecycle E} {i j : Nat}
  {processors : List DslProcessor}

/-- `start` has returned `Ok` only after `on_start` of every processor in this cycle. -/
def StartsComplete (t : Wiring) (st : Lifecycle E) : Prop :=
  st.owner = .returned .start (.ok ()) → ∀ i < t.count, st.completed i = st.cycle

/-- The owner waits for the thread of processor `i`, which it has halted, and the processor neither sees `running = false` nor
an alert. -/
def LostHalt (st : Lifecycle E) (i : Nat) : Prop :=
  (∃ why joinErrors, st.owner = .join why joinErrors) ∧ i ∈ st.threadHandles ∧ (st.threads i).isFinished = false ∧
    st.pipeline.running i = true ∧ st.pipeline.alerted i = false

/-- One whole cycle of a disruptor with one processor, and a second start that returns before the new thread has run. -/
def staleRun : List (LifecycleAction Unit) :=
  [.call .start, .owner, .owner, .thread 0, .thread 0, .thread 0, .engine 0 (.consumer (.handler .ok) none), .thread 0,
    .owner, .owner, .owner, .owner, .call .halt, .owner, .owner, .owner, .owner, .engine 0 (.consumer .tick none),
    .engine 0 (.consumer (.flag false) none), .engine 0 (.consumer (.handler .ok) none), .thread 0, .owner, .owner,
    .call .start, .owner, .owner, .owner, .owner, .owner, .owner]

/-- A restart that reads the flag of the cycle before: `start` returns `Ok` although `on_start` has not been called, and the
halt that follows is lost. -/
theorem restart_loses_halt :
    (∃ st : Lifecycle Unit, LifecycleReach ⟨0, by decide⟩ [⟨[], false⟩] (fun _ e _ _ => e) (fun _ _ => True)
        (.init ⟨0, by decide⟩ [⟨[], false⟩] false fun _ => ()) st ∧ ¬StartsComplete (dslWiring [⟨[], false⟩]) st) ∧
    ∃ st : Lifecycle Unit, LifecycleReach ⟨0, by decide⟩ [⟨[], false⟩] (fun _ e _ _ => e) (fun _ _ => True)
        (.init ⟨0, by decide⟩ [⟨[], false⟩] false fun _ => ()) st ∧ LostHalt st 0 := by
  refine ⟨⟨_, reach_of_exec staleRun rfl, fun h => ?_⟩, ⟨_, reach_of_exec (staleRun ++ [.call .halt, .owner, .owner,
    .owner, .owner, .thread 0, .thread 0, .thread 0]) rfl, ⟨_, _, rfl⟩, by decide, rfl, rfl, rfl⟩⟩
  exact absurd (h rfl 0 (by decide)) (by decide)

/-! ## One processor -/

/-- What the handshake sees of a processor. -/
structure View where
  pc : ThreadPc
  engine : SeqLoop
  running : Bool
  startupComplete : Bool
  completed : Nat

def Lifecycle.view (st : Lifecycle E) (i : Nat) : View :=
  ⟨st.threads i, st.pipeline.sequential i, st.pipeline.running i, st.startupComplete i, st.completed i⟩

namespace ThreadPc

/-- `startup_complete` of this cycle is set, or the thread has ended. -/
def up : ThreadPc → Bool
  | main _ => true
  | release _ => true
  | finished _ => true
  | _ => false

/-- The thread has yet to clear `startup_complete`. -/
def stale : ThreadPc → Bool
  | claim => true
  | reset => true
  | _ => false

end ThreadPc

/-- `poison_with_failure`, with nothing to follow. -/
def SeqPc.failing : SeqPc → Bool
  | record _ last => last
  | poison _ last => last
  | _ => false

/-- What holds of a processor at each place of its thread, in cycle `cycle`. -/
def View.Place (cycle : Nat) (v : View) : Prop :=
  match v.pc with
  | .idle => v.running = false ∧ (v.engine.pc = .start ∨ v.engine.pc = .done)
  | .claim => v.running = false ∧ v.engine.pc = .start ∧ v.completed < cycle
  | .reset => v.engine.pc = .start ∧ v.completed < cycle
  | .clearAlert => v.engine.pc = .start ∧ v.startupComplete = false
  | .onStart panicked =>
    v.startupComplete = false ∧ (v.engine.pc = .start ∨ v.engine.pc.failing = true ∧ (panicked = true ∨ v.completed = cycle))
  | .complete started =>
    v.startupComplete = false ∧ v.completed = cycle ∧ (started = false → v.engine.pc = .done)
  | .main _ => v.completed = cycle
  | .release _ => v.engine.pc = .done ∧ (v.startupComplete = true → v.completed = cycle)
  | .finished _ =>
    v.running = false ∧ (v.engine.pc = .start ∨ v.engine.pc = .done) ∧ (v.startupComplete = true → v.completed = cycle)

structure View.Ok (cycle : Nat) (v : View) : Prop where
  place : v.Place cycle
  bound : v.completed ≤ cycle
  ever : v.startupComplete = true → 1 ≤ v.completed
  active : v.pc ≠ .idle → 1 ≤ cycle

/-- A step of the thread of a processor. -/
inductive View.Move (cycle : Nat) (v : View) : View → Prop
  | refused (h : v.pc = .claim) (hr : v.running = true) : Move cycle v { v with pc := .finished .alreadyRunning }
  | claim (h : v.pc = .claim) (hr : v.running = false) : Move cycle v { v with pc := .reset, running := true }
  | reset (h : v.pc = .reset) : Move cycle v { v with pc := .clearAlert, startupComplete := false }
  | clearAlert (h : v.pc = .clearAlert) : Move cycle v { v with pc := .onStart false }
  | onStart {panicked : Bool} {cfg : EngineConfig} {input : EngineInput} {s s' : Int} {l : SeqLoop}
    (h : v.pc = .onStart panicked) (hcfg : cfg.readonly = false) (hst : seqStep cfg s v.engine input = some (s', l)) :
    Move cycle v { v with
      pc := afterOnStart panicked input l.pc
      engine := l
      completed := if onStartReturns v.engine.pc input then cycle else v.completed }
  | complete {started : Bool} (h : v.pc = .complete started) :
    Move cycle v { v with pc := if started then .main false else .release .ok, startupComplete := true }
  | main {panicked panics : Bool} {l : SeqLoop} (h : v.pc = .main panicked) :
    Move cycle v { v with pc := afterMain panicked panics l.pc, engine := l }
  | release {r : ThreadResult} (h : v.pc = .release r) : Move cycle v { v with pc := .finished r, running := false }

namespace View

variable {cycle : Nat} {v v' : View}

/-- `on_start` returns, or its failure is recorded. -/
theorem seqStep_start {cfg : EngineConfig} {s s' : Int} {l l' : SeqLoop} {input : EngineInput} (hcfg : cfg.readonly = false)
    (h : l.pc = .start) (hst : seqStep cfg s l input = some (s', l')) :
    (l'.pc = .enter ∧ input ≠ .panic) ∨ l'.pc.failing = true := by
  obtain ⟨pc, calls, ret, ends, failed⟩ := l
  obtain rfl : pc = .start := h
  cases seqRule_of_seqStep hst with
  | startReadonly hr =>
    rw [hcfg] at hr
    cases hr
  | started => exact .inl ⟨rfl, by simp⟩
  | panic | startFailed => exact .inr rfl

theorem seqStep_failing {cfg : EngineConfig} {s s' : Int} {l l' : SeqLoop} {input : EngineInput}
    (h : l.pc.failing = true) (hst : seqStep cfg s l input = some (s', l')) :
    l'.pc.failing = true ∨ (l'.pc = .done ∧ input ≠ .panic) := by
  obtain ⟨pc, calls, ret, ends, failed⟩ := l
  cases seqRule_of_seqStep hst with
  | panic => exact .inl rfl
  | record => exact .inl h
  | poisonLast => exact .inr ⟨rfl, by simp⟩
  | _ => cases h

theorem afterOnStart_of_failing {panicked : Bool} {input : EngineInput} {pc : SeqPc} (h : pc.failing = true) :
    afterOnStart panicked input pc = .onStart (panicked || input == .panic) := by
  cases pc <;> first | rfl | cases h

theorem afterMain_of_ne {panicked panics : Bool} {pc : SeqPc} (h : pc ≠ .done) :
    afterMain panicked panics pc = .main (panicked || panics) := by
  cases pc <;> first | rfl | exact absurd rfl h

/-- A step of `invoke_on_start`. -/
theorem Ok.onStart {panicked : Bool} {cfg : EngineConfig} {input : EngineInput} {s s' : Int} {l : SeqLoop} (h : v.Ok cycle)
    (hpc : v.pc = .onStart panicked) (hcfg : cfg.readonly = false) (hst : seqStep cfg s v.engine input = some (s', l)) :
    View.Ok cycle { v with
      pc := afterOnStart panicked input l.pc
      engine := l
      completed := if onStartReturns v.engine.pc input then cycle else v.completed } := by
  have hp := h.place
  have hb := h.bound
  simp only [Place, hpc] at hp
  obtain ⟨hsc, hp⟩ := hp
  have hcyc := h.active (by simp [hpc])
  refine ⟨?_, ?_, fun he => (by rw [hsc] at he; cases he), fun _ => hcyc⟩
  · rcases hp with hstart | ⟨hfail, hret⟩
    · rcases seqStep_start hcfg hstart hst with ⟨henter, hin⟩ | hfail
      · simp only [Place, henter, afterOnStart, onStartReturns, hstart]
        exact ⟨hsc, by simp [hin], by simp⟩
      · rw [Place, afterOnStart_of_failing hfail]
        refine ⟨hsc, .inr ⟨hfail, ?_⟩⟩
        by_cases hin : input = .panic
        · exact .inl (by simp [hin])
        · exact .inr (by simp [onStartReturns, hstart, hin])
    · have hno : onStartReturns v.engine.pc input = false := by
        unfold onStartReturns
        cases hpc' : v.engine.pc <;> first | rfl | (rw [hpc'] at hfail; cases hfail)
      simp only [hno, Bool.false_eq_true, if_false]
      rcases seqStep_failing hfail hst with hfail' | ⟨hdone, hin⟩
      · rw [Place, afterOnStart_of_failing hfail']
        refine ⟨hsc, .inr ⟨hfail', hret.imp (fun hq => ?_) id⟩⟩
        simp only [hq, Bool.true_or]
      · simp only [Place, hdone, afterOnStart]
        cases panicked
        · exact ⟨hsc, hret.resolve_left (by simp), fun _ => trivial⟩
        · exact ⟨trivial, fun he => by rw [hsc] at he; cases he⟩
  · show (if onStartReturns v.engine.pc input then cycle else v.completed) ≤ cycle
    split
    · exact le_rfl
    · exact hb

/-- **Step lemma of a processor.** -/
theorem Ok.move (h : v.Ok cycle) (hm : v.Move cycle v') : v'.Ok cycle := by
  have hp := h.place
  have hb := h.bound
  cases hm with
  | refused hpc hr =>
    simp only [Place, hpc] at hp
    rw [hp.1] at hr
    cases hr
  | claim hpc hr =>
    simp only [Place, hpc] at hp
    exact ⟨⟨hp.2.1, hp.2.2⟩, hb, h.ever, fun _ => h.active (by simp [hpc])⟩
  | reset hpc =>
    simp only [Place, hpc] at hp
    exact ⟨⟨hp.1, rfl⟩, hb, (fun he => by cases he), fun _ => h.active (by simp [hpc])⟩
  | clearAlert hpc =>
    simp only [Place, hpc] at hp
    exact ⟨⟨hp.2, .inl hp.1⟩, hb, h.ever, fun _ => h.active (by simp [hpc])⟩
  | @onStart panicked cfg input s s' l hpc hcfg hst =>
    exact h.onStart hpc hcfg hst
  | @complete started hpc =>
    simp only [Place, hpc] at hp
    have hcyc := h.active (by simp [hpc])
    refine ⟨?_, hb, fun _ => by rw [hp.2.1]; exact hcyc, fun _ => hcyc⟩
    cases started
    · exact ⟨hp.2.2 rfl, fun _ => hp.2.1⟩
    · exact hp.2.1
  | @main panicked panics l hpc =>
    simp only [Place, hpc] at hp
    refine ⟨?_, hb, h.ever, fun _ => h.active (by simp [hpc])⟩
    by_cases hd : l.pc = .done
    · simp only [Place, afterMain, hd]
      exact ⟨trivial, fun _ => hp⟩
    · rw [Place, afterMain_of_ne hd]
      exact hp
  | @release r hpc =>
    simp only [Place, hpc] at hp
    exact ⟨⟨rfl, .inr hp.1, hp.2⟩, hb, h.ever, fun _ => h.active (by simp [hpc])⟩

end View

/-! ## One step of a thread -/

/-- The owner does not move, and only processor `i` does. -/
structure ThreadMove (i : Nat) (st st' : Lifecycle E) : Prop where
  owner : st'.owner = st.owner
  handles : st'.threadHandles = st.threadHandles
  started : st'.started = st.started
  cycle : st'.cycle = st.cycle
  move : (st.view i).Move st.cycle (st'.view i)
  other : ∀ j, j ≠ i → st'.view j = st.view j

theorem view_goto_of_ne (st : Lifecycle E) (pc : ThreadPc) (h : j ≠ i) : (st.goto i pc).view j = st.view j := by
  simp only [Lifecycle.view, Lifecycle.goto, Function.update_of_ne h]

theorem view_goto (st : Lifecycle E) (pc : ThreadPc) : (st.goto i pc).view i = { st.view i with pc := pc } := by
  simp only [Lifecycle.view, Lifecycle.goto, Function.update_self]

theorem completed_noteOnStart (st : Lifecycle E) (returned : Bool) :
    (st.noteOnStart i returned).completed i = if returned then st.cycle else st.completed i := by
  unfold Lifecycle.noteOnStart
  split
  · exact Function.update_self _ _ _
  · rfl

theorem completed_noteOnStart_of_ne (st : Lifecycle E) (returned : Bool) (h : j ≠ i) :
    (st.noteOnStart i returned).completed j = st.completed j := by
  unfold Lifecycle.noteOnStart
  split
  · exact Function.update_of_ne h _ _
  · rfl

/-- A step of `run`. -/
theorem threadStep_move (hs : st.threadStep b t handlers i = some st') : ThreadMove i st st' := by
  obtain ⟨pc, hpc, hr⟩ := threadRule_of_threadStep hs
  cases hr with
  | alreadyRunning hrun =>
    refine ⟨rfl, rfl, rfl, rfl, ?_, fun j hj => view_goto_of_ne _ _ hj⟩
    rw [view_goto]
    exact .refused hpc hrun
  | claim hrun =>
    refine ⟨rfl, rfl, rfl, rfl, ?_, fun j hj => ?_⟩
    · rw [view_goto]
      simp only [Lifecycle.view, Function.update_self]
      exact .claim hpc hrun
    · rw [view_goto_of_ne _ _ hj]
      simp only [Lifecycle.view, Function.update_of_ne hj]
  | reset =>
    refine ⟨rfl, rfl, rfl, rfl, ?_, fun j hj => ?_⟩
    · rw [view_goto]
      simp only [Lifecycle.view, Function.update_self]
      exact .reset hpc
    · rw [view_goto_of_ne _ _ hj]
      simp only [Lifecycle.view, Function.update_of_ne hj]
  | clearAlert =>
    refine ⟨rfl, rfl, rfl, rfl, ?_, fun j hj => view_goto_of_ne _ _ hj⟩
    rw [view_goto]
    exact .clearAlert hpc
  | complete =>
    refine ⟨rfl, rfl, rfl, rfl, ?_, fun j hj => ?_⟩
    · rw [view_goto]
      simp only [Lifecycle.view, Function.update_self]
      exact .complete hpc
    · rw [view_goto_of_ne _ _ hj]
      simp only [Lifecycle.view, Function.update_of_ne hj]
  | release =>
    refine ⟨rfl, rfl, rfl, rfl, ?_, fun j hj => ?_⟩
    · rw [view_goto]
      simp only [Lifecycle.view, Function.update_self]
      exact .release hpc
    · rw [view_goto_of_ne _ _ hj]
      simp only [Lifecycle.view, Function.update_of_ne hj]

/-- A step of the engine keeps the flags and moves one loop. -/
theorem consumerStep_flags {p p' : Pipeline E} {input : EngineInput} {torn : Option E}
    (hs : p.consumerStep b (dslWiring processors) handlers i input torn = some p') :
    p'.running = p.running ∧ ∃ v l, p'.sequential = Function.update p.sequential i l ∧
      seqStep (Pipeline.config (dslWiring processors) i) (p.sequences i) (p.sequential i) input = some (v, l) := by
  obtain ⟨-, -, ⟨-, v, l, hst, rfl⟩ | ⟨hm, -⟩⟩ := consumerStep_cases hs
  · obtain ⟨ring, held, received, doneBy, he⟩ := access_frame b (dslWiring processors) handlers
      ({ p with sequential := Function.update p.sequential i l }.settle i v (p.sequential i).pc.fault) i
      (p.sequential i).pc.inside l.pc.inside input torn
    rw [he]
    exact ⟨rfl, v, l, rfl, hst⟩
  · cases hm

theorem engineAction_flags {p p' : Pipeline E} {a : EngineAction E}
    (hs : p.step b (dslWiring processors) handlers (a.toPipeline i) = some p') :
    p'.running = p.running ∧ ∃ l, p'.sequential = Function.update p.sequential i l := by
  cases a with
  | wait call =>
    cases pipelineRule_of_step hs
    exact ⟨rfl, p.sequential i, by simp only [Function.update_eq_self]⟩
  | barrier input =>
    cases pipelineRule_of_step hs
    exact ⟨rfl, p.sequential i, by simp only [Function.update_eq_self]⟩
  | consumer input torn =>
    obtain ⟨hr, v, l, hl, -⟩ := consumerStep_flags hs
    exact ⟨hr, l, hl⟩

/-- A step of `process_events`. -/
theorem engineStep_move {a : EngineAction E} (hs : st.engineStep b (dslWiring processors) handlers i a = some st') :
    ThreadMove i st st' := by
  unfold Lifecycle.engineStep at hs
  split at hs
  · rename_i panicked input torn hpc
    obtain ⟨p, hp, rfl⟩ := act_some hs
    obtain ⟨hrun, v, l, hl, hst⟩ := consumerStep_flags hp
    refine ⟨rfl, rfl, rfl, rfl, ?_, fun j hj => ?_⟩
    · rw [view_goto]
      show View.Move st.cycle (st.view i) ⟨afterOnStart panicked input (p.sequential i).pc, p.sequential i, p.running i,
        st.startupComplete i, ({ st with pipeline := p }.noteOnStart i _).completed i⟩
      rw [completed_noteOnStart, hrun, hl, Function.update_self]
      exact .onStart hpc rfl hst
    · rw [view_goto_of_ne _ _ hj]
      show View.mk (st.threads j) (p.sequential j) (p.running j) (st.startupComplete j)
        (({ st with pipeline := p }.noteOnStart i _).completed j) = st.view j
      rw [completed_noteOnStart_of_ne _ _ hj, hrun, hl, Function.update_of_ne hj]
      rfl
  · rename_i panicked hpc
    obtain ⟨p, hp, rfl⟩ := act_some hs
    obtain ⟨hrun, l, hl⟩ := engineAction_flags hp
    refine ⟨rfl, rfl, rfl, rfl, ?_, fun j hj => ?_⟩
    · rw [view_goto]
      simp only [Lifecycle.view, hrun, hl, Function.update_self]
      exact .main hpc
    · rw [view_goto_of_ne _ _ hj]
      simp only [Lifecycle.view, hrun, hl, Function.update_of_ne hj]
  · cases hs

/-! ## The owner -/

/-- The first `n` processors have a thread that is up, the others have none. -/
structure Spawned (st : Lifecycle E) (n : Nat) : Prop where
  handles : st.threadHandles = List.range n
  up : ∀ j < n, (st.threads j).up = true
  idle : ∀ j, n ≤ j → st.threads j = .idle

/-- `start` has spawned processor `i` and waits for it. -/
structure Launching (t : Wiring) (st : Lifecycle E) (i : Nat) : Prop where
  lt : i < t.count
  stopped : st.started = false
  handles : st.threadHandles = List.range i
  up : ∀ j < i, (st.threads j).up = true
  completed : ∀ j < i, st.completed j = st.cycle
  live : st.threads i ≠ .idle
  idle : ∀ j, i < j → st.threads j = .idle
  waiting : ∀ j, i < j → st.completed j < st.cycle

/-- The owner closes the claim path and drains the backlog. -/
def OwnerPc.drains : OwnerPc → Bool
  | close _ => true
  | drainCursor _ => true
  | drainPoisoned _ _ => true
  | drainFinished _ _ _ => true
  | drainScan _ _ _ _ => true
  | drainDeadline _ => true
  | _ => false

/-- What holds of the threads at each place of the owner. -/
def OwnerOk (t : Wiring) (st : Lifecycle E) : Prop :=
  match st.owner with
  | .idle => Spawned st (if st.started then t.count else 0)
  | .returned call r =>
    Spawned st (if st.started then t.count else 0) ∧
      (call = .start → r = .ok () → ∀ j < t.count, st.completed j = st.cycle)
  | .reopen => st.started = false ∧ Spawned st 0 ∧ ∀ j, st.completed j < st.cycle
  | .spawn i =>
    i ≤ t.count ∧ st.started = false ∧ Spawned st i ∧ (∀ j < i, st.completed j = st.cycle) ∧
      ∀ j, i ≤ j → st.completed j < st.cycle
  | .poll i => Launching t st i
  | .pollFinished i => Launching t st i
  | .exited i =>
    Launching t st i ∧ (st.threads i).up = true ∧ ((st.threads i).isFinished = true ∨ st.completed i = st.cycle)
  | .checkPoisoned i exitedEarly =>
    i < t.count ∧ st.started = false ∧ Spawned st (i + 1) ∧ (∀ j < i, st.completed j = st.cycle) ∧
      (exitedEarly = false → st.completed i = st.cycle) ∧ ∀ j, i + 1 ≤ j → st.completed j < st.cycle
  | .halt k _ => (∃ n ≤ t.count, Spawned st n) ∧ ∀ j < k, st.pipeline.running j = false
  | .alert k _ => (∃ n ≤ t.count, Spawned st n) ∧ ∀ j < k + 1, st.pipeline.running j = false
  | .join _ _ => (∃ n ≤ t.count, Spawned st n) ∧ ∀ j < t.count, st.pipeline.running j = false
  | .close _ | .drainCursor _ | .drainPoisoned _ _ | .drainFinished _ _ _ | .drainScan _ _ _ _ | .drainDeadline _ =>
    st.started = true ∧ Spawned st t.count

/-- The invariant of the handshake. -/
structure HandshakeInv (t : Wiring) (st : Lifecycle E) : Prop where
  views : ∀ i, (st.view i).Ok st.cycle
  owner : OwnerOk t st

/-- A step of the others, as the owner sees it. -/
structure Keeps (st st' : Lifecycle E) : Prop where
  owner : st'.owner = st.owner
  handles : st'.threadHandles = st.threadHandles
  started : st'.started = st.started
  cycle : st'.cycle = st.cycle
  up : ∀ j, (st.threads j).up = true → (st'.threads j).up = true
  live : ∀ j, st.threads j ≠ .idle → st'.threads j ≠ .idle
  idle : ∀ j, st.threads j = .idle → st'.threads j = .idle
  waiting : ∀ j, st.threads j = .idle → st'.completed j = st.completed j
  finished : ∀ j, (st.threads j).isFinished = true → (st'.threads j).isFinished = true
  completed : ∀ j, st.completed j = st.cycle → st'.completed j = st.cycle
  running : ∀ j, (st.threads j).up = true ∨ st.threads j = .idle → st.pipeline.running j = false →
    st'.pipeline.running j = false

/-- Once it is up, a thread stays up and never claims again. -/
theorem View.Move.facts {cycle : Nat} {v v' : View} (h : v.Move cycle v') :
    (v.pc.up = true → v'.pc.up = true) ∧ v.pc ≠ .idle ∧ v'.pc ≠ .idle ∧ v.pc.isFinished = false ∧
      (v.completed = cycle → v'.completed = cycle) ∧ (v.pc.up = true → v.running = false → v'.running = false) := by
  cases h with
  | refused h hr => simp [h, ThreadPc.up, ThreadPc.isFinished]
  | claim h hr => simp [h, ThreadPc.up, ThreadPc.isFinished]
  | reset h => simp [h, ThreadPc.up, ThreadPc.isFinished]
  | clearAlert h => simp [h, ThreadPc.up, ThreadPc.isFinished]
  | @onStart panicked cfg input s s' l h hcfg hst =>
    refine ⟨by simp [h, ThreadPc.up], by simp [h], ?_, by simp [h, ThreadPc.isFinished], fun hc => ?_, by simp [h, ThreadPc.up]⟩
    · show afterOnStart panicked input l.pc ≠ .idle
      unfold afterOnStart
      split
      · simp
      · split <;> simp
      · simp
    · show (if onStartReturns v.engine.pc input then cycle else v.completed) = cycle
      split
      · rfl
      · exact hc
  | @complete started h => cases started <;> simp [h, ThreadPc.up, ThreadPc.isFinished]
  | @main panicked panics l h =>
    refine ⟨fun _ => ?_, by simp [h], ?_, by simp [h, ThreadPc.isFinished], id, fun _ => id⟩
    · show (afterMain panicked panics l.pc).up = true
      unfold afterMain
      split <;> rfl
    · show afterMain panicked panics l.pc ≠ .idle
      unfold afterMain
      split <;> simp
  | release h => simp [h, ThreadPc.up, ThreadPc.isFinished]

theorem ThreadMove.keeps (h : ThreadMove i st st') : Keeps st st' := by
  obtain ⟨hup, hlive, hlive', hfin, hcomp, hrun⟩ := h.move.facts
  have hother : ∀ j, j ≠ i → st'.threads j = st.threads j ∧ st'.completed j = st.completed j ∧
      st'.pipeline.running j = st.pipeline.running j := fun j hj =>
    ⟨congrArg View.pc (h.other j hj), congrArg View.completed (h.other j hj), congrArg View.running (h.other j hj)⟩
  refine ⟨h.owner, h.handles, h.started, h.cycle, fun j hj => ?_, fun j hj => ?_, fun j hj => ?_, fun j hj => ?_,
    fun j hj => ?_, fun j hj => ?_, fun j hj hr => ?_⟩ <;> by_cases hji : j = i
  · subst hji; exact hup hj
  · rw [(hother j hji).1]; exact hj
  · subst hji; exact hlive'
  · rw [(hother j hji).1]; exact hj
  · subst hji; exact absurd hj hlive
  · rw [(hother j hji).1]; exact hj
  · subst hji; exact absurd hj hlive
  · exact (hother j hji).2.1
  · subst hji
    rw [show (st.threads j).isFinished = false from hfin] at hj
    cases hj
  · rw [(hother j hji).1]; exact hj
  · subst hji; exact hcomp hj
  · rw [(hother j hji).2.1]; exact hj
  · subst hji
    rcases hj with hj | hj
    · exact hrun hj hr
    · exact absurd hj hlive
  · rw [(hother j hji).2.2]; exact hr

theorem Spawned.congr {n : Nat} (h : Spawned st n) (hh : st'.threadHandles = st.threadHandles)
    (ht : st'.threads = st.threads) : Spawned st' n :=
  ⟨hh.trans h.handles, fun j hj => by rw [ht]; exact h.up j hj, fun j hj => by rw [ht]; exact h.idle j hj⟩

theorem Spawned.keeps {n : Nat} (h : Spawned st n) (hk : Keeps st st') : Spawned st' n :=
  ⟨hk.handles.trans h.handles, fun j hj => hk.up j (h.up j hj), fun j hj => hk.idle j (h.idle j hj)⟩

theorem Launching.congr (h : Launching t st i) (hh : st'.threadHandles = st.threadHandles) (ht : st'.threads = st.threads)
    (hs : st'.started = st.started) (hc : st'.completed = st.completed) (hcy : st'.cycle = st.cycle) : Launching t st' i where
  lt := h.lt
  stopped := hs.trans h.stopped
  handles := hh.trans h.handles
  up j hj := by rw [ht]; exact h.up j hj
  completed j hj := by rw [hc, hcy]; exact h.completed j hj
  live := by rw [ht]; exact h.live
  idle j hj := by rw [ht]; exact h.idle j hj
  waiting j hj := by rw [hc, hcy]; exact h.waiting j hj

theorem Launching.keeps (h : Launching t st i) (hk : Keeps st st') : Launching t st' i where
  lt := h.lt
  stopped := hk.started.trans h.stopped
  handles := hk.handles.trans h.handles
  up j hj := hk.up j (h.up j hj)
  completed j hj := by rw [hk.cycle]; exact hk.completed j (h.completed j hj)
  live := hk.live i h.live
  idle j hj := hk.idle j (h.idle j hj)
  waiting j hj := by rw [hk.cycle, hk.waiting j (h.idle j hj)]; exact h.waiting j hj

/-- The threads do not disturb the owner. -/
theorem OwnerOk.keeps (h : OwnerOk t st) (hk : Keeps st st') : OwnerOk t st' := by
  have hcomp : ∀ {j}, st.completed j = st.cycle → st'.completed j = st'.cycle := fun hj => by
    rw [hk.cycle]; exact hk.completed _ hj
  have hwait : ∀ {j}, st.threads j = .idle → st.completed j < st.cycle → st'.completed j < st'.cycle := fun hi hj => by
    rw [hk.cycle, hk.waiting _ hi]; exact hj
  -- a halted processor stays halted
  have hrun : ∀ {n : Nat}, (∃ m ≤ t.count, Spawned st m) → (∀ j < n, st.pipeline.running j = false) →
      (∃ m ≤ t.count, Spawned st' m) ∧ ∀ j < n, st'.pipeline.running j = false := by
    rintro n ⟨m, hm, hsp⟩ hr
    refine ⟨⟨m, hm, hsp.keeps hk⟩, fun j hj => hk.running j ?_ (hr j hj)⟩
    by_cases hjm : j < m
    · exact .inl (hsp.up j hjm)
    · exact .inr (hsp.idle j (by omega))
  unfold OwnerOk at h ⊢
  rw [hk.owner]
  split at h
  · rw [hk.started]; exact h.keeps hk
  · rw [hk.started]; exact ⟨h.1.keeps hk, fun hc hr j hj => hcomp (h.2 hc hr j hj)⟩
  · exact ⟨hk.started.trans h.1, h.2.1.keeps hk, fun j => hwait (h.2.1.idle j (by omega)) (h.2.2 j)⟩
  · obtain ⟨hle, hst, hsp, hc, hw⟩ := h
    exact ⟨hle, hk.started.trans hst, hsp.keeps hk, fun j hj => hcomp (hc j hj), fun j hj => hwait (hsp.idle j hj) (hw j hj)⟩
  · exact h.keeps hk
  · exact h.keeps hk
  · exact ⟨h.1.keeps hk, hk.up _ h.2.1, h.2.2.imp (hk.finished _) hcomp⟩
  · obtain ⟨hlt, hst, hsp, hc, he, hw⟩ := h
    exact ⟨hlt, hk.started.trans hst, hsp.keeps hk, fun j hj => hcomp (hc j hj), fun hf => hcomp (he hf),
      fun j hj => hwait (hsp.idle j hj) (hw j hj)⟩
  · exact hrun h.1 h.2
  · exact hrun h.1 h.2
  · exact hrun h.1 h.2
  all_goals exact ⟨hk.started.trans h.1, h.2.keeps hk⟩

/-- The threads keep the invariant. -/
theorem HandshakeInv.threadMove (h : HandshakeInv t st) (hm : ThreadMove i st st') : HandshakeInv t st' := by
  refine ⟨fun j => ?_, h.owner.keeps hm.keeps⟩
  rw [hm.cycle]
  by_cases hj : j = i
  · subst hj; exact (h.views j).move hm.move
  · rw [hm.other j hj]; exact h.views j

/-- A step of a producer, or of the claim path. -/
theorem producer_flags {p p' : Pipeline E} {a : FeedAction E} (hs : p.step b t handlers (.producer a) = some p') :
    p'.running = p.running ∧ p'.sequential = p.sequential := by
  cases pipelineRule_of_step hs
  exact ⟨rfl, rfl⟩

/-- The invariant reads the flags and the loops of the pipeline only. -/
theorem HandshakeInv.producer {p : Pipeline E} (h : HandshakeInv t st)
    (hp : p.running = st.pipeline.running ∧ p.sequential = st.pipeline.sequential) :
    HandshakeInv t { st with pipeline := p } := by
  refine ⟨fun j => ?_, h.owner.keeps ⟨rfl, rfl, rfl, rfl, fun _ => id, fun _ => id, fun _ => id, fun _ _ => rfl, fun _ => id,
    fun _ => id, fun j _ hr => ?_⟩⟩
  · have : ({ st with pipeline := p } : Lifecycle E).view j = st.view j := by
      simp only [Lifecycle.view, hp.1, hp.2]
    rw [this]
    exact h.views j
  · show p.running j = false
    rw [hp.1]; exact hr

/-- The owner moves, and nothing else changes. -/
theorem HandshakeInv.goto {pc : OwnerPc} (h : HandshakeInv t st) (ho : OwnerOk t { st with owner := pc }) :
    HandshakeInv t { st with owner := pc } :=
  ⟨h.views, ho⟩

/-- A call of the owner. -/
theorem handshakeInv_call {c : OwnerCall} (h : HandshakeInv t st) (hrest : Spawned st (if st.started then t.count else 0)) :
    HandshakeInv t (st.callStep c) := by
  cases c with
  | start =>
    simp only [Lifecycle.callStep]
    split <;> rename_i hs
    · exact h.goto ⟨hrest.congr rfl rfl, fun _ hr => by cases hr⟩
    · have hs' : st.started = false := by simpa using hs
      rw [if_neg hs] at hrest
      refine ⟨fun j => ?_, hs', hrest.congr rfl rfl, fun j => Nat.lt_succ_of_le (h.views j).bound⟩
      have hv := h.views j
      have hidle : (st.view j).pc = .idle := hrest.idle j (Nat.zero_le j)
      have hp := hv.place
      simp only [View.Place, hidle] at hp
      refine ⟨?_, Nat.le_succ_of_le hv.bound, hv.ever, fun hne => absurd hidle hne⟩
      show View.Place (st.cycle + 1) (st.view j)
      simp only [View.Place, hidle]
      exact hp
  | halt =>
    simp only [Lifecycle.callStep]
    split <;> rename_i hs
    · rw [if_pos hs] at hrest
      exact h.goto ⟨hs, hrest.congr rfl rfl⟩
    · exact h.goto ⟨hrest.congr rfl rfl, fun hc => by cases hc⟩
  | shutdown deadline =>
    simp only [Lifecycle.callStep]
    split <;> rename_i hs
    · rw [if_pos hs] at hrest
      exact h.goto ⟨hs, hrest.congr rfl rfl⟩
    · exact h.goto ⟨hrest.congr rfl rfl, fun hc => by cases hc⟩

/-- A restarted loop stands at `on_start`. -/
theorem restart_flags (b : BufferSize) (handlers : Nat → E → Int → Bool → E) {p : Pipeline E}
    (hi : i < (dslWiring processors).count)
    (hpc : (p.sequential i).pc = .start ∨ (p.sequential i).pc = .done) :
    ((p.step b (dslWiring processors) handlers (.restart i)).getD p).running = p.running ∧
      (((p.step b (dslWiring processors) handlers (.restart i)).getD p).sequential i).pc = .start ∧
      ∀ j, j ≠ i → ((p.step b (dslWiring processors) handlers (.restart i)).getD p).sequential j = p.sequential j := by
  simp only [Pipeline.step]
  rcases hpc with hpc | hpc
  · rw [if_neg (by simp [hpc])]
    exact ⟨rfl, hpc, fun _ _ => rfl⟩
  · rw [if_pos ⟨hi, rfl, hpc⟩]
    refine ⟨rfl, ?_, fun j hj => ?_⟩
    · simp only [Option.getD_some, Function.update_self]
    · simp only [Option.getD_some, Function.update_of_ne hj]

/-- `start` spawns processor `i`. -/
theorem handshakeInv_spawn (h : HandshakeInv (dslWiring processors) st) (ho : st.owner = .spawn i)
    (hi : i < (dslWiring processors).count) :
    HandshakeInv (dslWiring processors) (st.spawned b (dslWiring processors) handlers i) := by
  have hok := h.owner
  simp only [OwnerOk, ho] at hok
  obtain ⟨-, hst, hsp, hc, hw⟩ := hok
  have hidle : (st.view i).pc = .idle := hsp.idle i le_rfl
  have hp := (h.views i).place
  simp only [View.Place, hidle] at hp
  obtain ⟨hrun, hstart, hother⟩ := restart_flags b handlers hi hp.2
  refine ⟨fun j => ?_, ?_⟩
  · by_cases hj : j = i
    · subst hj
      refine ⟨?_, (h.views j).bound, (h.views j).ever, fun _ => ?_⟩
      · simp only [View.Place, Lifecycle.view, Lifecycle.spawned, Function.update_self]
        exact ⟨by rw [hrun]; exact hp.1, hstart, hw j le_rfl⟩
      · exact Nat.lt_of_le_of_lt (Nat.zero_le _) (hw j le_rfl)
    · have hv : (st.spawned b (dslWiring processors) handlers i).view j = st.view j := by
        simp only [Lifecycle.view, Lifecycle.spawned, Function.update_of_ne hj, hrun, hother j hj]
      rw [hv]
      exact h.views j
  · refine ⟨hi, hst, hsp.handles, fun j hj => ?_, hc, ?_, fun j hj => ?_, fun j hj => hw j (le_of_lt hj)⟩
    · simp only [Lifecycle.spawned, Function.update_of_ne (Nat.ne_of_lt hj)]
      exact hsp.up j hj
    · simp only [Lifecycle.spawned, Function.update_self]
      simp
    · simp only [Lifecycle.spawned, Function.update_of_ne (Nat.ne_of_gt hj)]
      exact hsp.idle j (le_of_lt hj)

/-- A thread is joined. -/
theorem handshakeInv_join {why : HaltFor} {joinErrors : List ThreadResult} {r : ThreadResult} (h : HandshakeInv t st)
    (ho : st.owner = .join why joinErrors) (hi : st.threadHandles.getLast? = some i) (hr : st.threads i = .finished r) :
    HandshakeInv t (st.joined i r why joinErrors) := by
  have hok := h.owner
  simp only [OwnerOk, ho] at hok
  obtain ⟨⟨n, hn, hsp⟩, hrun⟩ := hok
  have hshape : ∃ p errs, st.joined i r why joinErrors =
      { st with
        pipeline := p
        threads := Function.update st.threads i .idle
        threadHandles := st.threadHandles.dropLast
        owner := .join why errs } ∧ p.running = st.pipeline.running ∧ p.sequential = st.pipeline.sequential := by
    cases r <;> exact ⟨_, _, rfl, rfl, rfl⟩
  obtain ⟨p, errs, he, hpr, hps⟩ := hshape
  obtain ⟨m, rfl⟩ : ∃ m, n = m + 1 := by
    cases n with
    | zero => rw [hsp.handles] at hi; cases hi
    | succ m => exact ⟨m, rfl⟩
  obtain rfl : m = i := by
    rw [hsp.handles, List.range_succ, List.getLast?_append] at hi
    simpa using hi
  rw [he]
  refine ⟨fun j => ?_, ⟨m, by omega, ?_, fun j hj => ?_, fun j hj => ?_⟩, fun j hj => ?_⟩
  · by_cases hj : j = m
    · subst hj
      have hv := h.views j
      have hpl := hv.place
      simp only [View.Place, Lifecycle.view, hr] at hpl
      refine ⟨?_, hv.bound, hv.ever, fun hne => absurd ?_ hne⟩
      · simp only [View.Place, Lifecycle.view, Function.update_self, hpr, hps]
        exact ⟨hpl.1, hpl.2.1⟩
      · simp only [Lifecycle.view, Function.update_self]
    · have : Lifecycle.view { st with
          pipeline := p
          threads := Function.update st.threads m .idle
          threadHandles := st.threadHandles.dropLast
          owner := .join why errs } j = st.view j := by
        simp only [Lifecycle.view, Function.update_of_ne hj, hpr, hps]
      rw [this]
      exact h.views j
  · simp only [hsp.handles, List.range_succ, List.dropLast_concat]
  · simp only [Function.update_of_ne (Nat.ne_of_lt hj)]
    exact hsp.up j (by omega)
  · by_cases hjm : j = m
    · simp only [hjm, Function.update_self]
    · simp only [Function.update_of_ne hjm]
      exact hsp.idle j (by omega)
  · simp only [hpr]
    exact hrun j hj

/-- A processor is halted. -/
theorem View.Ok.halt {cycle : Nat} {v : View} (h : v.Ok cycle) : View.Ok cycle { v with running := false } := by
  have hp := h.place
  refine ⟨?_, h.bound, h.ever, h.active⟩
  obtain ⟨pc, engine, running, startupComplete, completed⟩ := v
  cases pc with
  | idle => exact ⟨rfl, hp.2⟩
  | claim => exact ⟨rfl, hp.2⟩
  | finished r => exact ⟨rfl, hp.2⟩
  | _ => exact hp

/-- The step is no poll of a `startup_complete` that is set and that the new thread has yet to clear. -/
def Lifecycle.pollsFresh (st : Lifecycle E) (a : LifecycleAction E) : Bool :=
  match a, st.owner with
  | .owner, .poll i => !(st.startupComplete i && (st.threads i).stale)
  | _, _ => true

def FreshPolls (st : Lifecycle E) (a : LifecycleAction E) : Prop := st.pollsFresh a = true

instance (st : Lifecycle E) (a : LifecycleAction E) : Decidable (FreshPolls st a) :=
  inferInstanceAs (Decidable (_ = true))

theorem FreshPolls.stale (h : FreshPolls st .owner) (ho : st.owner = .poll i) (hc : st.startupComplete i = true) :
    (st.threads i).stale = false := by
  simpa only [FreshPolls, Lifecycle.pollsFresh, ho, hc, Bool.true_and, Bool.not_eq_true'] using h

/-- A set flag that is not stale belongs to this cycle. -/
theorem View.Ok.fresh {cycle : Nat} {v : View} (h : v.Ok cycle) (hlive : v.pc ≠ .idle) (hst : v.pc.stale = false)
    (hc : v.startupComplete = true) : v.pc.up = true ∧ v.completed = cycle := by
  have hp := h.place
  obtain ⟨pc, engine, running, startupComplete, completed⟩ := v
  obtain rfl : startupComplete = true := hc
  cases pc with
  | idle => exact absurd rfl hlive
  | claim => cases hst
  | reset => cases hst
  | clearAlert => exact absurd hp.2 (by simp)
  | onStart panicked => exact absurd hp.1 (by simp)
  | complete started => exact absurd hp.1 (by simp)
  | main panicked => exact ⟨rfl, hp⟩
  | release r => exact ⟨rfl, hp.2 rfl⟩
  | finished r => exact ⟨rfl, hp.2.2 rfl⟩

/-- `halt_join` begins. -/
theorem ownerOk_halt {n : Nat} {why : HaltFor} (ho : st.owner = .halt 0 why) (hn : n ≤ t.count) (h : Spawned st n) :
    OwnerOk t st := by
  simp only [OwnerOk, ho]
  exact ⟨⟨n, hn, h⟩, fun j hj => absurd hj (Nat.not_lt_zero j)⟩

/-- `halt_join` ends: nobody is left. -/
theorem ownerOk_halted {n : Nat} {why : HaltFor} {joinErrors : List ThreadResult} (h : Spawned st n)
    (hlast : st.threadHandles.getLast? = none) : OwnerOk t (st.halted why joinErrors) := by
  have hnil : st.threadHandles = [] := List.getLast?_eq_none_iff.mp hlast
  obtain rfl : n = 0 := by
    have := h.handles
    rw [hnil] at this
    simpa using congrArg List.length this.symm
  refine ⟨h.congr rfl rfl, fun hc hr => ?_⟩
  -- a call of `start` that gets here returns an error
  cases why with
  | startPoisoned => cases hr
  | startExited => cases joinErrors <;> cases hr
  | halt => cases hc
  | shutdown deadline drained => cases hc

/-- `halt_join` stores `running = false` of processor `i`. -/
theorem handshakeInv_halt {n : Nat} {why : HaltFor} (h : HandshakeInv t st) (hn : n ≤ t.count) (hsp : Spawned st n)
    (hrun : ∀ j < i, st.pipeline.running j = false) :
    HandshakeInv t { st with
      pipeline := { st.pipeline with running := Function.update st.pipeline.running i false }
      owner := .alert i why } := by
  refine ⟨fun j => ?_, ⟨n, hn, hsp.congr rfl rfl⟩, fun j hj => ?_⟩
  · by_cases hj : j = i
    · subst hj
      simp only [Lifecycle.view, Function.update_self]
      exact (h.views j).halt
    · simp only [Lifecycle.view, Function.update_of_ne hj]
      exact h.views j
  · show Function.update st.pipeline.running i false j = false
    rcases Nat.lt_succ_iff_lt_or_eq.mp hj with hj | rfl
    · rw [Function.update_of_ne (Nat.ne_of_lt hj)]
      exact hrun j hj
    · rw [Function.update_self]

/-- The poll of processor `i`. -/
theorem handshakeInv_poll (h : HandshakeInv t st) (ho : st.owner = .poll i)
    (hfresh : st.startupComplete i = true → (st.threads i).stale = false) :
    HandshakeInv t { st with owner := if st.startupComplete i then .exited i else .pollFinished i } := by
  have hok := h.owner
  simp only [OwnerOk, ho] at hok
  refine h.goto ?_
  split <;> rename_i hc
  · obtain ⟨hup, hcomp⟩ := (h.views i).fresh hok.live (hfresh hc) hc
    exact ⟨hok.congr rfl rfl rfl rfl rfl, hup, .inr hcomp⟩
  · exact hok.congr rfl rfl rfl rfl rfl

theorem handshakeInv_pollFinished (h : HandshakeInv t st) (ho : st.owner = .pollFinished i) :
    HandshakeInv t { st with owner := if (st.threads i).isFinished then .exited i else .poll i } := by
  have hok := h.owner
  simp only [OwnerOk, ho] at hok
  refine h.goto ?_
  split <;> rename_i hf
  · refine ⟨hok.congr rfl rfl rfl rfl rfl, ?_, .inl hf⟩
    show (st.threads i).up = true
    cases hpc : st.threads i <;> rw [hpc] at hf <;> first | rfl | cases hf
  · exact hok.congr rfl rfl rfl rfl rfl

/-- The handle of processor `i` is pushed. -/
theorem handshakeInv_exited (h : HandshakeInv t st) (ho : st.owner = .exited i) :
    HandshakeInv t { st with
      threadHandles := st.threadHandles ++ [i]
      owner := .checkPoisoned i (st.threads i).isFinished } := by
  have hok := h.owner
  simp only [OwnerOk, ho] at hok
  obtain ⟨hl, hup, hc⟩ := hok
  refine ⟨h.views, hl.lt, hl.stopped, ⟨?_, fun j hj => ?_, fun j hj => hl.idle j hj⟩, hl.completed, fun hf => ?_,
    fun j hj => hl.waiting j hj⟩
  · simp only [hl.handles, List.range_succ]
  · rcases Nat.lt_succ_iff_lt_or_eq.mp hj with hj | rfl
    · exact hl.up j hj
    · exact hup
  · exact hc.resolve_left (by rw [hf]; simp)

/-- The next thread is spawned. -/
theorem handshakeInv_up (h : HandshakeInv t st) (ho : st.owner = .checkPoisoned i false) :
    HandshakeInv t { st with owner := .spawn (i + 1) } := by
  have hok := h.owner
  simp only [OwnerOk, ho] at hok
  obtain ⟨hlt, hst, hsp, hc, he, hw⟩ := hok
  refine h.goto ⟨hlt, hst, hsp.congr rfl rfl, fun j hj => ?_, hw⟩
  rcases Nat.lt_succ_iff_lt_or_eq.mp hj with hj | rfl
  · exact hc j hj
  · exact he trivial

/-- While the owner closes and drains, every processor is up; so it may go on, or begin to halt. -/
theorem handshakeInv_drain {pc : OwnerPc} (h : HandshakeInv t st) (hst : st.started = true) (hsp : Spawned st t.count)
    (hpc : (∃ why, pc = .halt 0 why) ∨ pc.drains = true) : HandshakeInv t { st with owner := pc } := by
  refine h.goto ?_
  rcases hpc with ⟨why, rfl⟩ | hpc
  · exact ownerOk_halt rfl le_rfl (hsp.congr rfl rfl)
  · cases pc <;> first | exact ⟨hst, hsp.congr rfl rfl⟩ | cases hpc

/-- The owner keeps the invariant, when it polls fresh flags. -/
theorem handshakeInv_ownerStep (h : HandshakeInv (dslWiring processors) st) (hfresh : FreshPolls st .owner)
    (hs : st.ownerStep b (dslWiring processors) handlers = some st') : HandshakeInv (dslWiring processors) st' := by
  obtain ⟨pc, ho, hr⟩ := ownerRule_of_ownerStep hs
  have hok := h.owner
  unfold OwnerOk at hok
  rw [ho] at hok
  cases hr with
  | reopen hp =>
    exact (h.producer (producer_flags hp)).goto ⟨Nat.zero_le _, hok.1, hok.2.1.congr rfl rfl,
      fun j hj => absurd hj (Nat.not_lt_zero j), fun j _ => hok.2.2 j⟩
  | spawn hi => exact handshakeInv_spawn h ho hi
  | started hi =>
    obtain ⟨hle, hst, hsp, hc, hw⟩ := hok
    obtain rfl := Nat.le_antisymm hle hi
    exact ⟨h.views, hsp.congr rfl rfl, fun _ _ => hc⟩
  | poll => exact handshakeInv_poll h ho (hfresh.stale ho)
  | pollFinished => exact handshakeInv_pollFinished h ho
  | exited => exact handshakeInv_exited h ho
  | startPoisoned | startExited => exact h.goto (ownerOk_halt rfl hok.1 (hok.2.2.1.congr rfl rfl))
  | up => exact handshakeInv_up h ho
  | closeDrain hp => exact handshakeInv_drain (h.producer (producer_flags hp)) hok.1 (hok.2.congr rfl rfl) (.inr rfl)
  | close _ hp => exact handshakeInv_drain (h.producer (producer_flags hp)) hok.1 (hok.2.congr rfl rfl) (.inl ⟨_, rfl⟩)
  | drainPoisoned | drainExited | drained => exact handshakeInv_drain h hok.1 hok.2 (.inl ⟨_, rfl⟩)
  | drainCursor | drainNotPoisoned | drainUp | drainAllUp | drainScan | drainTimed | drainAgain | drainDeadline =>
    exact handshakeInv_drain h hok.1 hok.2 (.inr rfl)
  | halt =>
    obtain ⟨⟨n, hn, hsp⟩, hrun⟩ := hok
    exact handshakeInv_halt h hn hsp hrun
  | haltJoin hi =>
    obtain ⟨⟨n, hn, hsp⟩, hrun⟩ := hok
    exact h.goto ⟨⟨n, hn, hsp.congr rfl rfl⟩, fun j hj => hrun j (Nat.lt_of_lt_of_le hj hi)⟩
  | alert =>
    obtain ⟨⟨n, hn, hsp⟩, hrun⟩ := hok
    exact ⟨h.views, ⟨n, hn, hsp.congr rfl rfl⟩, hrun⟩
  | halted hlast =>
    obtain ⟨⟨n, hn, hsp⟩, -⟩ := hok
    exact ⟨h.views, ownerOk_halted hsp hlast⟩
  | join hlast hpc => exact handshakeInv_join h ho hlast hpc

/-! ## Runs -/

/-- **Step lemma.** -/
theorem handshakeInv_step {a : LifecycleAction E} (h : HandshakeInv (dslWiring processors) st) (hfresh : FreshPolls st a)
    (hs : st.step b (dslWiring processors) handlers a = some st') : HandshakeInv (dslWiring processors) st' := by
  cases a with
  | call c =>
    have hok := h.owner
    simp only [Lifecycle.step] at hs
    split at hs <;> rename_i ho <;> simp only [OwnerOk, ho] at hok <;> simp only [Option.some.injEq, reduceCtorEq] at hs <;>
      subst hs
    · exact handshakeInv_call h hok
    · exact handshakeInv_call h hok.1
  | owner => exact handshakeInv_ownerStep h hfresh hs
  | expire =>
    have hok := h.owner
    simp only [Lifecycle.step] at hs
    split at hs <;> rename_i ho <;> simp only [Option.some.injEq, reduceCtorEq] at hs
    subst hs
    simp only [OwnerOk, ho] at hok
    exact h.goto (ownerOk_halt rfl le_rfl (hok.2.congr rfl rfl))
  | thread i => exact h.threadMove (threadStep_move hs)
  | engine i a => exact h.threadMove (engineStep_move hs)
  | producer a =>
    obtain ⟨p, hp, rfl⟩ := act_some hs
    exact h.producer (producer_flags hp)

theorem handshakeInv_init (processors : List DslProcessor) (multiProducer : Bool) (factory : Nat → E) :
    HandshakeInv (dslWiring processors) (.init b processors multiProducer factory) where
  views _ := ⟨⟨rfl, .inl rfl⟩, le_rfl, (fun h => by cases h), fun h => absurd rfl h⟩
  owner := ⟨rfl, fun j hj => absurd hj (Nat.not_lt_zero j), fun _ _ => rfl⟩

/-- What the invariant says at the return of `start` and inside `halt_join`. -/
theorem HandshakeInv.holds (h : HandshakeInv t st) : StartsComplete t st ∧ ∀ i, ¬LostHalt st i := by
  have hok := h.owner
  refine ⟨fun ho => ?_, ?_⟩
  · unfold OwnerOk at hok
    rw [ho] at hok
    exact hok.2 rfl rfl
  · rintro i ⟨⟨why, joinErrors, ho⟩, hmem, -, hrun, -⟩
    simp only [OwnerOk, ho] at hok
    obtain ⟨⟨n, hn, hsp⟩, hall⟩ := hok
    rw [hsp.handles, List.mem_range] at hmem
    rw [hall i (by omega)] at hrun
    cases hrun

theorem LifecycleReach.handshakeInv {multiProducer : Bool} {factory : Nat → E}
    (h : LifecycleReach b processors handlers FreshPolls (.init b processors multiProducer factory) st) :
    HandshakeInv (dslWiring processors) st :=
  Reach.inv (I := HandshakeInv (dslWiring processors)) (handshakeInv_init processors multiProducer factory)
    handshakeInv_step h

/-- **The startup handshake.** In every run that polls fresh flags only, over any number of processors, calls and cycles:
when `start` returns `Ok`, `on_start` of every processor has completed in this cycle, and no halt is lost. -/
theorem restart_handshake {multiProducer : Bool} {factory : Nat → E}
    (h : LifecycleReach b processors handlers FreshPolls (.init b processors multiProducer factory) st) :
    StartsComplete (dslWiring processors) st ∧ ∀ i, ¬LostHalt st i :=
  h.handshakeInv.holds

/-- Two cycles in which the thread runs before the owner polls. -/
theorem restart_handshake_second : ∃ st : Lifecycle Unit,
    LifecycleReach ⟨0, by decide⟩ [⟨[], false⟩] (fun _ e _ _ => e) FreshPolls
      (.init ⟨0, by decide⟩ [⟨[], false⟩] false fun _ => ()) st ∧
    st.owner = .returned .start (.ok ()) ∧ st.cycle = 2 ∧ st.startupComplete 0 = true ∧ st.completed 0 = 2 := by
  obtain ⟨st, hr, ho, hc, hs⟩ : ∃ st : Lifecycle Unit,
      LifecycleReach ⟨0, by decide⟩ [⟨[], false⟩] (fun _ e _ _ => e) FreshPolls
        (.init ⟨0, by decide⟩ [⟨[], false⟩] false fun _ => ()) st ∧
      st.owner = .returned .start (.ok ()) ∧ st.cycle = 2 ∧ st.startupComplete 0 = true :=
    ⟨_, reach_of_exec (staleRun.take 26 ++ [.thread 0, .thread 0, .thread 0, .engine 0 (.consumer (.handler .ok) none),
      .thread 0, .owner, .owner, .owner, .owner]) rfl, rfl, rfl, rfl⟩
  refine ⟨st, hr, ho, hc, hs, ?_⟩
  rw [(restart_handshake hr).1 ho 0 (by decide), hc]

/-! ## The first cycle -/

/-- Before the second start, no thread finds its flag set. -/
theorem HandshakeInv.freshPolls (h : HandshakeInv t st) (hc : st.cycle ≤ 1) (a : LifecycleAction E) : FreshPolls st a := by
  unfold FreshPolls Lifecycle.pollsFresh
  split
  · rename_i i _
    rw [Bool.not_eq_true', Bool.and_eq_false_iff]
    by_contra hno
    obtain ⟨hset, hstale⟩ : st.startupComplete i = true ∧ (st.threads i).stale = true := by simpa using hno
    have hever : 1 ≤ st.completed i := (h.views i).ever hset
    have hp := (h.views i).place
    have hlt : st.completed i < st.cycle := by
      cases hpc : st.threads i <;> simp only [hpc, ThreadPc.stale, Bool.false_eq_true] at hstale <;>
        simp only [View.Place, Lifecycle.view, hpc] at hp
      · exact hp.2.2
      · exact hp.2
    omega
  · rfl

/-- In the first cycle the handshake cannot fail: only a restart finds the flag set. -/
theorem first_cycle_handshake {multiProducer : Bool} {factory : Nat → E}
    (h : LifecycleReach b processors handlers (fun st _ => st.cycle ≤ 1) (.init b processors multiProducer factory) st) :
    StartsComplete (dslWiring processors) st ∧ ∀ i, ¬LostHalt st i := by
  have hI : HandshakeInv (dslWiring processors) st :=
    Reach.inv (I := HandshakeInv (dslWiring processors)) (handshakeInv_init processors multiProducer factory)
      (fun hI hc hs => handshakeInv_step hI (hI.freshPolls hc _) hs) h
  exact hI.holds

end BadBatch
