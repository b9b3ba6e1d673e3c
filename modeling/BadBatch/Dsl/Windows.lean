import BadBatch.Pipeline.Windows

/-!
# Exclusive windows of DSL processors

Processors of one chain never share a slot. A second root waits for the cursor just like the first one, and nothing orders
the two: both are released the same events, and both take `&mut` references to them.

* `dsl_windows_exclusive_iff`: the processors of a chain of calls have exclusive windows in every run exactly when at most one
  of the calls registers a root.
-/

namespace BadBatch

open MultiProducerSequencer StepSys

variable {E : Type} {b : BufferSize} {handlers : Nat → E → Int → Bool → E} {st st' : Pipeline E} {calls : List DslCall}
  {processors : List DslProcessor} {c d : Nat}

/-- A DSL disruptor before its first step. -/
def dslInit (b : BufferSize) (processors : List DslProcessor) (multiProducer : Bool) (factory : Nat → E) : Pipeline E :=
  .init b (dslWiring processors) multiProducer false factory

/-- Any interleaving of publishers and processors of a DSL disruptor, over any number of start and halt cycles. -/
def DslReach (b : BufferSize) (processors : List DslProcessor) (handlers : Nat → E → Int → Bool → E) :
    Pipeline E → Pipeline E → Prop :=
  PipeReach b (dslWiring processors) handlers fun _ _ => True

/-- At most one processor is between the release of its barrier and the store of its `Sequence` for any slot. -/
def ExclusiveWindows (b : BufferSize) (processors : List DslProcessor) (st : Pipeline E) : Prop :=
  ∀ c d s u, c ≠ d → Accesses (dslWiring processors) st (.consumer c) s →
    Accesses (dslWiring processors) st (.consumer d) u → calculateIndex b s ≠ calculateIndex b u

/-! ## One chain -/

/-- With one root call, only the first processor is a root. -/
theorem root_of_rootCalls (h : dslProcessors calls = some processors) (hone : rootCalls calls ≤ 1) {k : Nat} (hk : 0 < k) :
    (dslWiring processors).root k = false := by
  cases processors with
  | nil => rfl
  | cons p ps =>
    obtain ⟨k, rfl⟩ : ∃ j, k = j + 1 := ⟨k - 1, by omega⟩
    have hnone : ∀ q ∈ ps, ¬q.isRoot = true := by
      have := rootCalls_eq h
      exact List.countP_eq_zero.mp (by omega)
    simp only [dslWiring, List.getElem?_cons_succ]
    cases hq : ps[k]? with
    | none => rfl
    | some q => simpa using hnone q (List.mem_of_getElem? hq)

theorem DslReach.inv (h : dslProcessors calls = some processors) (hne : processors ≠ []) {multiProducer : Bool}
    {factory : Nat → E} (hr : DslReach b processors handlers (dslInit b processors multiProducer factory) st) :
    PipeInv b (dslWiring processors) st :=
  PipeReach.inv (wf_dslWiring h hne) hr (pipeInv_init (wf_dslWiring h hne) _ _ _)

theorem exclusiveWindows_nil (h : processors = []) : ExclusiveWindows b processors st := by
  intro c d s u _ hc
  subst h
  exact absurd hc.1 (Nat.not_lt_zero c)

/-- The processors of one chain never share a slot. -/
theorem PipeInv.exclusiveWindows (hI : PipeInv b (dslWiring processors) st) (h : dslProcessors calls = some processors)
    (hone : rootCalls calls ≤ 1) (hne : processors ≠ []) : ExclusiveWindows b processors st := by
  intro c d s u hcd hc hd hslot
  obtain ⟨-, c', d', hc', hd', hstage, -⟩ := hI.exclusive (wf_dslWiring h hne)
    (fun k hk => root_of_rootCalls h hone hk) (x := .consumer c) (y := .consumer d) (by simpa using hcd) hc hd hslot
  -- every processor is a stage of its own
  have hstage' : c' = d' := hstage
  cases hc'
  cases hd'
  exact hcd hstage'

/-- One chain has exclusive windows. -/
theorem exclusiveWindows_of_rootCalls (h : dslProcessors calls = some processors) (hone : rootCalls calls ≤ 1)
    {multiProducer : Bool} {factory : Nat → E}
    (hr : DslReach b processors handlers (dslInit b processors multiProducer factory) st) :
    ExclusiveWindows b processors st := by
  by_cases hne : processors = []
  · exact exclusiveWindows_nil hne
  · exact (hr.inv h hne).exclusiveWindows h hone hne

/-! ## Two roots -/

/-- Consumer `c` is moved to another place of its loop and of its barrier call; nothing else changes. -/
def Pipeline.place (st : Pipeline E) (c : Nat) (l : SeqLoop) (pc : BarrierPc) : Pipeline E :=
  { st with sequential := Function.update st.sequential c l, barriers := Function.update st.barriers c pc }

theorem place_place (l l' : SeqLoop) (pc pc' : BarrierPc) : (st.place c l pc).place c l' pc' = st.place c l' pc' := by
  simp only [Pipeline.place, Function.update_idem]

theorem place_self (st : Pipeline E) (c : Nat) : st.place c (st.sequential c) (st.barriers c) = st := by
  simp only [Pipeline.place, Function.update_eq_self]

/-- A consumer that stores nothing and touches no event only moves. -/
theorem consumerStep_place {t : Wiring} {i : EngineInput} {l : SeqLoop} (hc : c < t.count)
    (hm : t.runMode (t.stage c) = .sequential) (hin : st.inputOk t c i = true)
    (hst : seqStep (Pipeline.config t c) (st.sequences c) (st.sequential c) i = some (st.sequences c, l))
    (hf : (st.sequential c).pc.fault = ⟨none, false⟩) (h1 : (st.sequential c).pc.inside = none) (h2 : l.pc.inside = none) :
    st.consumerStep b t handlers c i none = some (st.place c l .idle) := by
  have hstore : st.feed.world.store c (st.sequences c) = st.feed.world := by
    simp only [Pipeline.sequences]
    cases st.feed.world <;> simp only [SequencerWorld.store, SequencerWorld.sequences, Function.update_eq_self]
  simp only [Pipeline.consumerStep, hc, hin, and_self, if_true, hm, hst, Option.map_some, hf, h1, h2, Pipeline.access,
    Pipeline.settle, hstore, Option.or_none, Pipeline.place, Bool.false_eq_true, if_false]

/-- A root whose thread has not run yet. -/
structure FreshRoot (processors : List DslProcessor) (st : Pipeline E) (c : Nat) : Prop where
  lt : c < processors.length
  root : (dslWiring processors).dependentSequences c = []
  sequence : st.sequences c = -1
  running : st.running c = true
  alerted : st.alerted c = false
  loop : st.sequential c = .init
  barrier : st.barriers c = .idle

namespace FreshRoot

variable {l l' : SeqLoop} {pc pc' : BarrierPc} {i : EngineInput}

/-- A step of the loop. -/
theorem move (h : FreshRoot processors st c)
    (hst : seqStep (Pipeline.config (dslWiring processors) c) (-1) l i = some (-1, l'))
    (hin : (st.place c l pc).inputOk (dslWiring processors) c i = true) (hf : l.pc.fault = ⟨none, false⟩)
    (h1 : l.pc.inside = none) (h2 : l'.pc.inside = none) :
    (st.place c l pc).step b (dslWiring processors) handlers (.consumer c i none) = some (st.place c l' .idle) := by
  have hl : (st.place c l pc).sequential c = l := by simp only [Pipeline.place, Function.update_self]
  have hseq : (st.place c l pc).sequences c = -1 := h.sequence
  rw [← place_place l l' pc]
  exact consumerStep_place h.lt rfl hin (by rw [hseq, hl]; exact hst) (by rw [hl]; exact hf) (by rw [hl]; exact h1) h2

/-- The call of the barrier. -/
theorem wait (h : FreshRoot processors st c) (hl : l.pc = .waiting 0) :
    (st.place c l .idle).step b (dslWiring processors) handlers (.wait c .waitFor) =
      some (st.place c l (.checkStop .waitFor 0)) := by
  have hl' : ((st.place c l .idle).sequential c).pc = .waiting 0 := by
    simp only [Pipeline.place, Function.update_self, hl]
  have hawait : (st.place c l .idle).awaited (dslWiring processors) c = some 0 := by
    simp only [Pipeline.awaited, dslWiring, hl']
  have hidle : (st.place c l .idle).barriers c = .idle := by simp only [Pipeline.place, Function.update_self]
  simp only [Pipeline.step, hawait]
  rw [if_pos ⟨h.lt, hidle⟩, ← place_place l l .idle]
  simp only [Pipeline.place, Function.update_idem]
  rfl

/-- A load of the barrier. -/
theorem load {w : SingleWorld} (h : FreshRoot processors st c) (hw : st.feed.world = .single w)
    (hst : barrierStep b (.single w) [] false false pc .next = some pc') :
    (st.place c l pc).step b (dslWiring processors) handlers (.barrier c .next) = some (st.place c l pc') := by
  have hstop : (!(st.place c l pc).shouldContinue (dslWiring processors) c) = false := by
    show (!st.running c) = false
    rw [h.running]
    rfl
  have hpc : (st.place c l pc).barriers c = pc := by simp only [Pipeline.place, Function.update_self]
  have hworld : (st.place c l pc).feed.world = .single w := hw
  have halert : (st.place c l pc).alerted c = false := h.alerted
  simp only [Pipeline.step, hpc, hworld, halert, hstop, h.root, hst, Option.map_some,
    if_pos (show c < (dslWiring processors).count from h.lt)]
  rw [← place_place l l pc pc']
  simp only [Pipeline.place, Function.update_idem]

/-- Once an event is published, the root is given it. -/
theorem released {w : SingleWorld} (h : FreshRoot processors st c) (hw : st.feed.world = .single w)
    (hcur : w.sequencer.cursor = 0) :
    DslReach b processors handlers st (st.place c { SeqLoop.init with pc := .batchStart 0 0, batchEnds := [0] } .idle) := by
  have hgo : ∀ {l pc}, (st.place c l pc).inputOk (dslWiring processors) c (.flag true) = true := by
    intro l pc
    show (true == st.running c) = true
    rw [h.running]
    rfl
  have hanswer : ∀ {l}, (st.place c l (.returned (.ok 0))).inputOk (dslWiring processors) c (.answer (.ok 0)) = true := by
    intro l
    simp only [Pipeline.inputOk, Pipeline.place, Function.update_self, decide_true]
  have hpolled : barrierStep b (.single w) [] false false (.waiting .waitFor 0) .next = some (.recheck .waitFor 0 0) := by
    simp only [barrierStep, SequencerWorld.cursor, hcur]
    rfl
  have hstart : st = st.place c .init .idle := by
    conv_lhs => rw [← place_self st c, h.loop, h.barrier]
  -- `on_start` and the loop
  have r1 : DslReach b processors handlers st (st.place c { SeqLoop.init with pc := .enter } .idle) := by
    refine .tail .refl trivial (a := .consumer c (.handler .ok) none) ?_
    conv_lhs => rw [hstart]
    exact h.move rfl rfl rfl rfl rfl
  have r2 : DslReach b processors handlers st (st.place c { SeqLoop.init with pc := .loop 0 } .idle) :=
    .tail r1 trivial (h.move (i := .tick) rfl rfl rfl rfl rfl)
  have r3 : DslReach b processors handlers st (st.place c { SeqLoop.init with pc := .waiting 0 } .idle) :=
    .tail r2 trivial (h.move (i := .flag true) rfl hgo rfl rfl rfl)
  -- the barrier call: the stop flag, the alert flag, the cursor, the alert flag again
  have r4 : DslReach b processors handlers st
      (st.place c { SeqLoop.init with pc := .waiting 0 } (.checkStop .waitFor 0)) := .tail r3 trivial (h.wait rfl)
  have r5 : DslReach b processors handlers st
      (st.place c { SeqLoop.init with pc := .waiting 0 } (.checkAlert .waitFor 0)) := .tail r4 trivial (h.load hw rfl)
  have r6 : DslReach b processors handlers st
      (st.place c { SeqLoop.init with pc := .waiting 0 } (.waiting .waitFor 0)) := .tail r5 trivial (h.load hw rfl)
  have r7 : DslReach b processors handlers st
      (st.place c { SeqLoop.init with pc := .waiting 0 } (.recheck .waitFor 0 0)) := .tail r6 trivial (h.load hw hpolled)
  have r8 : DslReach b processors handlers st
      (st.place c { SeqLoop.init with pc := .waiting 0 } (.returned (.ok 0))) := .tail r7 trivial (h.load hw rfl)
  exact .tail r8 trivial (h.move (i := .answer (.ok 0)) rfl hanswer rfl rfl rfl)

end FreshRoot

/-- A fresh disruptor with one published event, on a ring of one slot. -/
theorem publish_one (processors : List DslProcessor) : ∃ (w : SingleWorld) (st : Pipeline Unit),
    DslReach ⟨0, by decide⟩ processors (fun _ e _ _ => e) (dslInit ⟨0, by decide⟩ processors false fun _ => ()) st ∧
    st.feed.world = .single w ∧ w.sequencer.cursor = 0 ∧ (∀ c, st.sequences c = -1) ∧ (∀ c, st.running c = true) ∧
    (∀ c, st.alerted c = false) ∧ (∀ c, st.sequential c = .init) ∧ ∀ c, st.barriers c = .idle :=
  ⟨_, _, reach_of_exec [.producer (.call 0 (.nextN 1)), .producer (.step 0), .producer (.step 0), .producer (.step 0),
    .producer (.step 0), .producer (.step 0), .producer (.claimed 0), .producer (.write 0 ()), .producer (.publish 0),
    .producer (.step 0), .producer (.published 0)] rfl, rfl, rfl, fun _ => rfl, fun _ => rfl, fun _ => rfl, fun _ => rfl,
    fun _ => rfl⟩

/-- Two roots are given the same event. -/
theorem shared_of_two_roots (hc : c < processors.length) (hd : d < processors.length) (hcd : c ≠ d)
    (hrc : (dslWiring processors).dependentSequences c = []) (hrd : (dslWiring processors).dependentSequences d = []) :
    ∃ st : Pipeline Unit,
      DslReach ⟨0, by decide⟩ processors (fun _ e _ _ => e) (dslInit ⟨0, by decide⟩ processors false fun _ => ()) st ∧
      Accesses (dslWiring processors) st (.consumer c) 0 ∧ Accesses (dslWiring processors) st (.consumer d) 0 := by
  obtain ⟨w, st, hr, hw, hcur, hseq, hrun, halert, hloop, hbar⟩ := publish_one processors
  have hfc : FreshRoot processors st c := ⟨hc, hrc, hseq c, hrun c, halert c, hloop c, hbar c⟩
  have r1 := hr.trans (hfc.released hw hcur)
  have hfd : FreshRoot processors
      (st.place c { SeqLoop.init with pc := .batchStart 0 0, batchEnds := [0] } .idle) d := by
    refine ⟨hd, hrd, hseq d, hrun d, halert d, ?_, ?_⟩
    · simp only [Pipeline.place, Function.update_of_ne (Ne.symm hcd), hloop]
    · simp only [Pipeline.place, Function.update_of_ne (Ne.symm hcd), hbar]
  have r2 := Reach.trans r1 (hfd.released hw hcur)
  refine ⟨_, r2, ⟨hc, 0, ?_, ?_, le_rfl⟩, ⟨hd, 0, ?_, ?_, le_rfl⟩⟩
  · simp only [Pipeline.place, Function.update_of_ne hcd, Function.update_self]
    rfl
  · show st.sequences c < 0
    rw [hseq]; decide
  · simp only [Pipeline.place, Function.update_self]
    rfl
  · show st.sequences d < 0
    rw [hseq]; decide

/-- A second `handle_events_with` on the built `Disruptor`: with one published event, both processors hold its slot. -/
theorem dsl_windows_shared_second_root :
    dslProcessors [.handleEventsWith, .build, .handleEventsWith, .build] = some [⟨[], false⟩, ⟨[], false⟩] ∧
    ∃ st : Pipeline Unit, DslReach ⟨0, by decide⟩ [⟨[], false⟩, ⟨[], false⟩] (fun _ e _ _ => e)
        (dslInit ⟨0, by decide⟩ [⟨[], false⟩, ⟨[], false⟩] false fun _ => ()) st ∧
      ¬ExclusiveWindows ⟨0, by decide⟩ [⟨[], false⟩, ⟨[], false⟩] st := by
  refine ⟨rfl, ?_⟩
  obtain ⟨st, hr, h0, h1⟩ := shared_of_two_roots (c := 0) (d := 1)
    (show 0 < [DslProcessor.mk [] false, ⟨[], false⟩].length by decide) (by decide) (by decide) rfl rfl
  exact ⟨st, hr, fun hex => hex 0 1 0 0 (by decide) h0 h1 rfl⟩

/-- **Exclusive windows.** The processors of a chain of safe calls have exclusive windows in every state of every run exactly
when at most one of the calls registers a root. -/
theorem dsl_windows_exclusive_iff (h : dslProcessors calls = some processors) :
    (∀ (E : Type) (b : BufferSize) (handlers : Nat → E → Int → Bool → E) (multiProducer : Bool) (factory : Nat → E)
      (st : Pipeline E), DslReach b processors handlers (dslInit b processors multiProducer factory) st →
      ExclusiveWindows b processors st) ↔ rootCalls calls ≤ 1 := by
  constructor
  · intro hall
    by_contra hmany
    cases hp : processors with
    | nil =>
      rw [hp] at h
      obtain ⟨s, hok, he⟩ := dslOk_of_dslProcessors h
      have := hok.roots
      rw [he] at this
      simp only [List.countP_nil] at this
      omega
    | cons p ps =>
      rw [hp] at h hall
      -- another root besides the first processor
      obtain ⟨q, hq, hroot⟩ := List.countP_pos_iff.mp (show 0 < ps.countP DslProcessor.isRoot by
        have := rootCalls_eq h
        omega)
      obtain ⟨j, hj⟩ := List.get_of_mem hq
      have hj' : ps[j.1]? = some q := by rw [List.getElem?_eq_getElem j.2]; exact congrArg some hj
      have hfirst : (dslWiring (p :: ps)).dependentSequences 0 = [] := by
        rcases dslWiring_dependents h (show 0 < (p :: ps).length by simp) with ⟨hd, -⟩ | ⟨h0, -⟩
        · exact hd
        · omega
      have hother : (dslWiring (p :: ps)).dependentSequences (j.1 + 1) = [] := by
        show ((ps[j.1]?.map DslProcessor.dependentSequences).getD []) = []
        rw [hj']
        simpa [DslProcessor.isRoot] using hroot
      obtain ⟨st, hr, hc, hd⟩ := shared_of_two_roots (show 0 < (p :: ps).length by simp)
        (show j.1 + 1 < (p :: ps).length by simp) (by omega) hfirst hother
      exact hall Unit _ _ false _ st hr 0 (j.1 + 1) 0 0 (by omega) hc hd rfl
  · intro hone E b handlers multiProducer factory st hr
    exact exclusiveWindows_of_rootCalls h hone hr

/-- `handle_events_with(..).then(..).build()` -/
theorem dsl_windows_exclusive_chain :
    dslProcessors [.handleEventsWith, .then, .build] = some [⟨[], false⟩, ⟨[0], false⟩] ∧
    ∀ (b : BufferSize) (handlers : Nat → Unit → Int → Bool → Unit) (st : Pipeline Unit),
      DslReach b [⟨[], false⟩, ⟨[0], false⟩] handlers (dslInit b [⟨[], false⟩, ⟨[0], false⟩] true fun _ => ()) st →
      ExclusiveWindows b [⟨[], false⟩, ⟨[0], false⟩] st :=
  ⟨rfl, fun b handlers st hr => (dsl_windows_exclusive_iff
    (show dslProcessors [.handleEventsWith, .then, .build] = some [⟨[], false⟩, ⟨[0], false⟩] from rfl)).mpr
    (by decide) Unit b handlers true (fun _ => ()) st hr⟩

end BadBatch
