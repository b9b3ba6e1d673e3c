import BadBatch.Pipeline.Values

/-!
# Ownership of claimed slots

Every publish path turns its claim into a mutable reference, because "the sequencer granted exclusive access to this sequence
until we publish it". The sequencer checks a claim against the slowest gating sequence only; that no other producer holds the
slot follows from the consumers, which pass published sequences only. Without gating sequences a claim is checked against the
cursor, and laps whatever is not published.

The gating set is empty in a DSL disruptor without handlers, and in a core whose consumers are stopped.

* `Pipeline.coreStep`: the pipeline with the removal of its gating sequences;
* `granted_slots_owned_iff`: as long as no gating sequence is removed, the grants of all runs own their slots exactly when the
  assembly has registered a gating sequence.
-/

namespace BadBatch

open MultiProducerSequencer StepSys

variable {E : Type} {b : BufferSize} {t : Wiring} {handlers : Nat → E → Int → Bool → E} {st st' : Pipeline E}

/-! ## The core -/

/-- The thread of consumer `c` can be joined. -/
def Pipeline.finished (t : Wiring) (st : Pipeline E) (c : Nat) : Bool :=
  match t.runMode (t.stage c) with
  | .sequential => (st.sequential c).pc == .done
  | .workPool =>
    match (st.workers c).pc with
    | .done _ => true
    | _ => false

/-- A step of the pipeline, or of the core that stops it. -/
inductive CoreAction (E : Type)
  | run (a : PipelineAction E)
  /-- `stop_consumers_keep_claims`: `self.sequencer.remove_gating_sequence(sequence)` -/
  | removeGatingSequence (c : Nat)

/-- The core of the Builder removes its gating sequences when the shutdown flag is up and every consumer is joined. -/
def Pipeline.coreStep (b : BufferSize) (t : Wiring) (handlers : Nat → E → Int → Bool → E) (st : Pipeline E) :
    CoreAction E → Option (Pipeline E)
  | .run a => st.step b t handlers a
  | .removeGatingSequence c =>
    if t.stop = .external ∧ st.shutdown = true ∧ ∀ d < t.count, st.finished t d = true then
      (st.feed.world.step b (.removeGatingSequence c)).map fun w => { st with feed := { st.feed with world := w } }
    else none

def CoreAction.keepsGating : CoreAction E → Bool
  | run _ => true
  | removeGatingSequence _ => false

/-- Any interleaving of producers, consumers and the stopping core, by steps that `ok` allows. -/
def CoreReach (b : BufferSize) (t : Wiring) (handlers : Nat → E → Int → Bool → E)
    (ok : Pipeline E → CoreAction E → Prop) : Pipeline E → Pipeline E → Prop :=
  Reach (Pipeline.coreStep b t handlers) ok

/-- What the safe calls assemble; a DSL disruptor may be left without handlers. -/
def SafelyAssembled (t : Wiring) : Prop := Assembled t ∨ t = dslWiring []

/-! ## Grants -/

/-- If the step grants a range, no slot of the range is the slot of a sequence that another producer has been granted and has
not published. -/
def GrantOwnsSlots (b : BufferSize) (w w' : SequencerWorld) : Prop :=
  ∀ g, w'.ledger.granted = g :: w.ledger.granted → ∀ s u q, g.Has s → w.ledger.owner u = some q → q ≠ g.producer →
    calculateIndex b s ≠ calculateIndex b u

theorem grantOwnsSlots_of_same {w w' : SequencerWorld} (h : w'.ledger = w.ledger) : GrantOwnsSlots b w w' := by
  intro g hg
  rw [h] at hg
  exact absurd hg.symm (List.cons_ne_self g _)

/-- What the grant laps is passed by the gating sequences, and so published. -/
theorem grantOwnsSlots_of_move {w w' : SequencerWorld} {p : Nat} (h : w.Inv b) (h' : w'.Inv b)
    (hseq : w'.sequences = w.sequences) (hgat : w'.gatingSequences = w.gatingSequences)
    (hm : SequencerWorld.LedgerMove p w w') : GrantOwnsSlots b w w' := by
  cases hm with
  | same hl hh => exact grantOwnsSlots_of_same hl
  | publish lo hi hl hh ho =>
    intro g hg
    rw [hl] at hg
    exact absurd hg.symm (List.cons_ne_self g _)
  | grant n hn hl hh =>
    intro g hg s u q hs hu _ hslot
    rw [hl] at hg
    obtain ⟨rfl, -⟩ : (⟨p, n, w.high + n⟩ : Grant) = g ∧ True := ⟨(List.cons.inj hg).1, trivial⟩
    obtain ⟨hlow, hhigh⟩ := hs
    simp only [Grant.low] at hlow hhigh
    obtain ⟨h0, hle, hunpub⟩ := h.ledger.held hu
    -- `u` is claimed, `s` is fresh: the slot is the same only a lap later
    have hlap : u ≤ w'.high - b.sizeI64 := by
      by_contra hlt
      have := eq_of_calculateIndex_eq b hslot (by omega) (by have := b.sizeI64_pos; omega)
      omega
    have hpassed : Below w.sequences w.gatingSequences u := by
      have := h'.lap.le hlap
      rwa [hseq, hgat] at this
    rw [h.passed h0 hpassed] at hunpub
    cases hunpub

/-- **Step lemma.** -/
theorem grantOwnsSlots_step {a : PipelineAction E} (hwf : t.Wf) (h : PipeInv b t st)
    (hs : st.step b t handlers a = some st') : GrantOwnsSlots b st.feed.world st'.feed.world := by
  have h' := pipeInv_step hwf h hs
  cases pipelineRule_of_step hs with
  | producer hst =>
    obtain ⟨hseq, hgat, -, p, hm⟩ := feedStep_world h.feed hst
    exact grantOwnsSlots_of_move h.feed.world h'.feed.world hseq hgat hm
  | consumer hst => exact grantOwnsSlots_of_same (consumerStep_feed hst).1
  | wait | barrier | restart | raiseShutdown | setRunning | setAlert => exact grantOwnsSlots_of_same rfl

/-- While no gating sequence is removed, the core runs the pipeline. -/
theorem CoreReach.pipeReach (h : CoreReach b t handlers (fun _ a => a.keepsGating = true) st st') :
    PipeReach b t handlers (fun _ _ => True) st st' := by
  refine Reach.proj id (I := fun _ => True) (fun _ => trivial) rfl (fun {s s' a} _ ha hs => ?_) h
  cases a with
  | run a => exact .inr ⟨a, trivial, hs⟩
  | removeGatingSequence c => cases ha

/-! ## Without gating sequences -/

/-- Producer 0 claims sequence 0 and does not publish it; producer 1 claims 1, publishes it, and is about to claim 2. -/
def lappingRun : List (PipelineAction Unit) :=
  [.producer (.call 0 (.nextN 1)), .producer (.step 0), .producer (.step 0), .producer (.step 0), .producer (.step 0),
    .producer (.step 0), .producer (.call 1 (.nextN 1)), .producer (.step 1), .producer (.step 1), .producer (.step 1),
    .producer (.step 1), .producer (.step 1), .producer (.claimed 1), .producer (.write 1 ()), .producer (.publish 1),
    .producer (.step 1), .producer (.published 1), .producer (.call 1 (.nextN 1)), .producer (.step 1), .producer (.step 1),
    .producer (.step 1), .producer (.step 1), .producer (.step 1), .producer (.step 1), .producer (.step 1)]

/-- Without handlers, the slot of the claimed sequence 0 is granted again. -/
theorem bare_grant_laps : ∃ st st' : Pipeline Unit,
    CoreReach ⟨1, by decide⟩ (dslWiring []) (fun _ e _ _ => e) (fun _ a => a.keepsGating = true)
      (.init ⟨1, by decide⟩ (dslWiring []) true false fun _ => ()) st ∧
    st.coreStep ⟨1, by decide⟩ (dslWiring []) (fun _ e _ _ => e) (.run (.producer (.step 1))) = some st' ∧
    ¬GrantOwnsSlots ⟨1, by decide⟩ st.feed.world st'.feed.world :=
  ⟨_, _, reach_of_exec (lappingRun.map .run) rfl, rfl, fun h => h ⟨1, 1, 2⟩ rfl 2 0 0 ⟨by decide, by decide⟩
    rfl (by decide) rfl⟩

/-- The slot of a claimed sequence is granted to another producer: in a DSL disruptor without handlers, and in a Builder
pipeline whose only consumer is stopped while the sequence is claimed. -/
theorem claimed_slot_granted_again :
    (∃ st st' : Pipeline Unit, SafelyAssembled (dslWiring []) ∧
      CoreReach ⟨1, by decide⟩ (dslWiring []) (fun _ e _ _ => e) (fun _ _ => True)
        (.init ⟨1, by decide⟩ (dslWiring []) true false fun _ => ()) st ∧
      st.coreStep ⟨1, by decide⟩ (dslWiring []) (fun _ e _ _ => e) (.run (.producer (.step 1))) = some st' ∧
      ¬GrantOwnsSlots ⟨1, by decide⟩ st.feed.world st'.feed.world) ∧
    ∃ st st' : Pipeline Unit, SafelyAssembled (createDisruptorCore [⟨0, .mutable⟩]) ∧
      CoreReach ⟨1, by decide⟩ (createDisruptorCore [⟨0, .mutable⟩]) (fun _ e _ _ => e) (fun _ _ => True)
        (builderInit ⟨1, by decide⟩ [⟨0, .mutable⟩] true fun _ => ()) st ∧
      st.coreStep ⟨1, by decide⟩ (createDisruptorCore [⟨0, .mutable⟩]) (fun _ e _ _ => e)
        (.run (.producer (.step 1))) = some st' ∧
      ¬GrantOwnsSlots ⟨1, by decide⟩ st.feed.world st'.feed.world := by
  constructor
  · obtain ⟨st, st', hr, hs, hno⟩ := bare_grant_laps
    exact ⟨st, st', .inr rfl, hr.mono fun _ _ _ => trivial, hs, hno⟩
  · refine ⟨_, _, .inl (.builder (show builderConsumers .mutable [] = some _ from rfl)), reach_of_exec
      (CoreAction.run .raiseShutdown ::
      .run (.consumer 0 (.handler .ok) none) :: .run (.consumer 0 .tick none) :: .run (.consumer 0 (.flag false) none) ::
      .run (.consumer 0 (.handler .ok) none) :: .removeGatingSequence 0 :: lappingRun.map .run) rfl, rfl, ?_⟩
    exact fun h => h ⟨1, 1, 2⟩ rfl 2 0 0 ⟨by decide, by decide⟩ rfl (by decide) rfl

/-- **Ownership of grants.** While no gating sequence is removed, every grant of every run owns its slots, exactly when the
assembly has registered a gating sequence before the first claim. -/
theorem granted_slots_owned_iff (h : SafelyAssembled t) :
    (∀ (E : Type) (b : BufferSize) (handlers : Nat → E → Int → Bool → E) (unique : Bool) (factory : Nat → E)
      (st st' : Pipeline E) (a : CoreAction E),
      CoreReach b t handlers (fun _ a => a.keepsGating = true) (.init b t true unique factory) st →
      a.keepsGating = true → st.coreStep b t handlers a = some st' → GrantOwnsSlots b st.feed.world st'.feed.world) ↔
    t.gatingSequences ≠ [] := by
  constructor
  · intro hall
    rcases h with h | rfl
    · exact h.wf.gating_ne_nil
    · obtain ⟨st, st', hr, hs, hno⟩ := bare_grant_laps
      exact absurd (hall Unit _ _ _ _ st st' _ hr rfl hs) hno
  · intro hg E b handlers unique factory st st' a hr ha hs
    have hwf : t.Wf := by
      rcases h with h | rfl
      · exact h.wf
      · exact absurd rfl hg
    cases a with
    | run a => exact grantOwnsSlots_step hwf (hr.pipeReach.inv hwf (pipeInv_init hwf _ _ _)) hs
    | removeGatingSequence c => cases ha

/-- With a consumer, the second producer gets the other slot. -/
theorem granted_slots_owned_second : ∃ st st' : Pipeline Unit,
    CoreReach ⟨1, by decide⟩ (createDisruptorCore [⟨0, .mutable⟩]) (fun _ e _ _ => e) (fun _ a => a.keepsGating = true)
      (builderInit ⟨1, by decide⟩ [⟨0, .mutable⟩] true fun _ => ()) st ∧
    st.feed.world.ledger.owner 0 = some 0 ∧ st'.feed.world.ledger.granted = [⟨1, 1, 1⟩, ⟨0, 1, 0⟩] ∧
    GrantOwnsSlots ⟨1, by decide⟩ st.feed.world st'.feed.world := by
  obtain ⟨st, st', hr, hs, ho, hg⟩ : ∃ st st' : Pipeline Unit,
      CoreReach ⟨1, by decide⟩ (createDisruptorCore [⟨0, .mutable⟩]) (fun _ e _ _ => e) (fun _ a => a.keepsGating = true)
        (builderInit ⟨1, by decide⟩ [⟨0, .mutable⟩] true fun _ => ()) st ∧
      st.coreStep ⟨1, by decide⟩ (createDisruptorCore [⟨0, .mutable⟩]) (fun _ e _ _ => e) (.run (.producer (.step 1))) =
        some st' ∧ st.feed.world.ledger.owner 0 = some 0 ∧ st'.feed.world.ledger.granted = [⟨1, 1, 1⟩, ⟨0, 1, 0⟩] :=
    ⟨_, _, reach_of_exec ((lappingRun.take 11).map .run) rfl, rfl, rfl, rfl⟩
  refine ⟨st, st', hr, ho, hg, ?_⟩
  have hall := (granted_slots_owned_iff (.inl (.builder (show builderConsumers .mutable [] = some _ from rfl)))).mpr
    (by decide)
  exact hall Unit _ _ true _ st st' _ hr rfl hs

end BadBatch
