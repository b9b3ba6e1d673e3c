import BadBatch.Liveness.Claims
import BadBatch.Producer.Batch
import BadBatch.Pipeline.Panic

/-!
# A claim among the steps of all others

Every round of the wait for capacity looks at the closed and the poison flag. Once one of them is up, `next_n` is over within a
round: it is refused, or granted on the way. As long as both are down, it is granted when there is room.

* `SequencerWorld.refuseRank`: what is left of the round;
* `refuse_own`, `refuse_other`, `refuse_step`: the steps of the producer, of the other producers, and of everybody;
* `granted_step`: the same on an open claim path; `scans_step`: without gating sequences.
-/

namespace BadBatch

open MultiProducerSequencer

variable {E : Type} {b : BufferSize} {f f' : Feed E} {w w' : SequencerWorld} {p : Nat} {n : Int} {a : FeedAction E}

/-- How far a producer is from the next look at a flag that is up. -/
def MultiPc.refuseRank (poisoned : Bool) : MultiPc → Nat × Nat
  | .returned _ => (0, 0)
  | .loadPoisoned _ => (if poisoned then 1 else 10, 0)
  | .loadClosed _ => (2, 0)
  | .cas _ _ => (3, 0)
  | .storeCached _ _ _ => (4, 0)
  | .scan _ _ rest _ => (5, rest.length)
  | .loadGating _ _ => (6, 0)
  | .loadCached _ _ _ => (7, 0)
  | .loadCursor _ | .loadCursorUnder _ _ => (8, 0)
  | _ => (9, 0)

/-- How far the driver of a single-producer sequencer is from the next look at a flag that is up. -/
def SinglePc.refuseRank (poisoned : Bool) : SinglePc → Nat × Nat
  | .returned _ => (0, 0)
  | .spinPoisoned _ => (if poisoned then 1 else 5, 0)
  | .spinClosed _ => (2, 0)
  | .scan _ rest _ => (3, rest.length)
  | .loadGating _ => (4, 0)
  | .setVolatile _ => (6, 0)
  | .check _ => (7, 0)
  | .loadPoisoned _ => (8, 0)
  | _ => (9, 0)

/-- What is left of the round of producer `p`. -/
def SequencerWorld.refuseRank (w : SequencerWorld) (p : Nat) : Nat × Nat :=
  match w with
  | .single w => w.pc.refuseRank w.sequencer.poisoned
  | .multi w => (w.producers p).refuseRank w.sequencer.poisoned

/-- The claim path is closed, or the sequencer poisoned. -/
def SequencerWorld.Shut (w : SequencerWorld) : Prop := w.closed = true ∨ w.poisoned = true

/-- The answers of `next_n`: the position claimed last, or the flag that it has seen. -/
def NextAnswer (closed poisoned : Bool) (high : Int) (r : ClaimResult) : Prop :=
  r = .ok high ∨ r = .err .poisoned ∧ poisoned = true ∨ r = .err .shutdown ∧ closed = true

/-- `next_n` of producer `p` has just returned. -/
def SequencerWorld.Decided (w : SequencerWorld) (p : Nat) : Prop :=
  ∃ r, w.result p = some r ∧ NextAnswer w.closed w.poisoned w.high r

/-! ## Inside `next_n` -/

theorem multiRefuse_step {sequences : Nat → Int} {m m' : MultiProducerSequencer} {pc pc' : MultiPc} {e : LedgerEffect}
    (hc : pc.call = some (.nextN n)) (hst : claimStep b sequences m pc = some (m', pc', e)) :
    (∃ r, pc' = .returned r ∧ NextAnswer m.closed m.poisoned m'.cursor r) ∨
      pc'.call = some (.nextN n) ∧ (m.closed = true ∨ m.poisoned = true →
        toLex (pc'.refuseRank m.poisoned) < toLex (pc.refuseRank m.poisoned)) := by
  cases multiRule_of_claimStep hst with
  | closed h =>
    cases hc
    exact .inl ⟨_, rfl, .inr (.inr ⟨rfl, h⟩)⟩
  | poisoned h =>
    cases hc
    exact .inl ⟨_, rfl, .inr (.inl ⟨rfl, h⟩)⟩
  | grant => exact .inl ⟨_, rfl, .inl rfl⟩
  | notClosed h =>
    refine .inr ⟨hc, fun hshut => ?_⟩
    have hp : m.poisoned = true := hshut.resolve_left (by simp [h])
    rw [hp]
    exact Prod.Lex.left _ _ (by decide)
  | notPoisoned h =>
    refine .inr ⟨hc, fun _ => ?_⟩
    rw [h]
    exact Prod.Lex.left _ _ (by decide)
  | scan => exact .inr ⟨hc, fun _ => Prod.Lex.right _ (Nat.lt_succ_self _)⟩
  | cursorNext | staleNext | fresh | gating | full | scanned | store | lostNext =>
    cases hc
    exact .inr ⟨rfl, fun _ => Prod.Lex.left _ _ (by decide)⟩
  | cursor h | stale h | storeFull h | lost h =>
    cases hc
    exact absurd rfl (h n)
  | gatingFirst => exact .inr ⟨hc, fun _ => Prod.Lex.left _ _ (by decide)⟩
  | cursorUnder => exact .inr ⟨hc, fun _ => Prod.Lex.left _ _ (by decide)⟩
  | gatingTry | overflow | freshAvailable | answerRemaining | answerAvailable | publish | rangeDone | range => cases hc

theorem singleRefuse_step {sequences : Nat → Int} {m m' : SingleProducerSequencer} {pc pc' : SinglePc} {e : LedgerEffect}
    (hacq : pc ≠ .acquire (.nextN n)) (hc : pc.call = some (.nextN n))
    (hst : SingleProducerSequencer.claimStep b true sequences m pc = some (m', pc', e)) :
    (∃ r, pc' = .returned r ∧ NextAnswer m.closed m.poisoned m'.nextValue r) ∨
      pc'.call = some (.nextN n) ∧ (m.closed = true ∨ m.poisoned = true →
        toLex (pc'.refuseRank m.poisoned) < toLex (pc.refuseRank m.poisoned)) := by
  cases singleRule_of_claimStep hst with
  | closed h | spinShutdown h =>
    cases hc
    exact .inl ⟨_, rfl, .inr (.inr ⟨rfl, h⟩)⟩
  | poisoned h | spinPoisoned h =>
    cases hc
    exact .inl ⟨_, rfl, .inr (.inl ⟨rfl, h⟩)⟩
  | grantCached | grantScanned => exact .inl ⟨_, rfl, .inl rfl⟩
  | spinNotClosed h =>
    refine .inr ⟨hc, fun hshut => ?_⟩
    have hp : m.poisoned = true := hshut.resolve_left (by simp [h])
    rw [hp]
    exact Prod.Lex.left _ _ (by decide)
  | spin h =>
    refine .inr ⟨hc, fun _ => ?_⟩
    rw [h]
    exact Prod.Lex.left _ _ (by decide)
  | scan => exact .inr ⟨hc, fun _ => Prod.Lex.right _ (Nat.lt_succ_self _)⟩
  | toAcquire _ hu => cases hu
  | contended | acquire =>
    cases hc
    exact absurd rfl hacq
  | notClosed | toCheck | stale | setVolatile | loadGating | full =>
    cases hc
    exact .inr ⟨rfl, fun _ => Prod.Lex.left _ _ (by decide)⟩
  | remaining | overflow | askGating | askCached | answerRemaining | answerAvailable | tryFull | release | publish => cases hc

/-- **Its own step.** A producer inside `next_n` returns or goes on, and behind a flag that is up it comes closer to the
next look at it. -/
theorem refuse_own (hu : w.Unique) (hc : w.call p = some (.nextN n)) (hs : w.step b (.step p) = some w') :
    w'.Decided p ∨ w'.call p = some (.nextN n) ∧ (w.Shut → toLex (w'.refuseRank p) < toLex (w.refuseRank p)) := by
  have hclosed := SequencerWorld.closed_own hs
  have hpoisoned : w'.poisoned = w.poisoned := by simpa using SequencerWorld.poisoned_step hs
  cases SequencerWorld.rule_of_step hs with
  | @single w _ _ hr =>
    cases hr with | @step m' pc' e hst =>
    obtain ⟨hu, hacq⟩ := hu
    simp only [SequencerWorld.call, if_true] at hc
    rw [hu] at hst
    rcases singleRefuse_step (hacq n) hc hst with ⟨r, rfl, hr⟩ | ⟨hc', hlt⟩
    · refine .inl ⟨r, if_pos rfl, ?_⟩
      rw [hclosed, hpoisoned]
      exact hr
    · refine .inr ⟨by simpa only [SequencerWorld.call, if_true] using hc', ?_⟩
      have hp : m'.poisoned = w.sequencer.poisoned := hpoisoned
      simp only [SequencerWorld.refuseRank, hp]
      exact hlt
  | @multi w _ _ hr =>
    cases hr with | @step _ m' pc' e hst =>
    rcases multiRefuse_step hc hst with ⟨r, rfl, hr⟩ | ⟨hc', hlt⟩
    · refine .inl ⟨r, by simp only [SequencerWorld.result, Function.update_self], ?_⟩
      rw [hclosed, hpoisoned]
      exact hr
    · refine .inr ⟨by simpa only [SequencerWorld.call, Function.update_self] using hc', ?_⟩
      have hp : m'.poisoned = w.sequencer.poisoned := hpoisoned
      simp only [SequencerWorld.refuseRank, Function.update_self, hp]
      exact hlt

/-! ## Among the producers -/

/-- The claim path stays closed until it is reopened. -/
theorem SequencerWorld.closed_step {a : SequencerAction} (ha : a ≠ .reopen) (hs : w.step b a = some w')
    (hc : w.closed = true) : w'.closed = true := by
  by_cases hp : ∃ p, a = .step p
  · obtain ⟨p, rfl⟩ := hp
    exact (closed_own hs).trans hc
  cases SequencerWorld.rule_of_step hs with
  | single hr =>
    cases hr with
    | step => exact absurd ⟨_, rfl⟩ hp
    | reopen => exact absurd rfl ha
    | close => rfl
    | call | publish | publishRange | advance | poison | addGatingSequences | removeGatingSequence => exact hc
  | multi hr =>
    cases hr with
    | step => exact absurd ⟨_, rfl⟩ hp
    | reopen => exact absurd rfl ha
    | close => rfl
    | call | publish | publishRange | advance | poison | addGatingSequences | removeGatingSequence => exact hc

theorem closed_feedStep (ha : a ≠ .reopen) (hs : f.step b a = some f') (hc : f.world.closed = true) :
    f'.world.closed = true := by
  cases feedRule_of_step hs with
  | call _ hst | step hst | publish _ _ _ hst | publishRange _ _ hst | poison _ hst | close hst =>
    exact SequencerWorld.closed_step (by simp) hst hc
  | reopen => exact absurd rfl ha
  | granted | refused | write | published | panic | record => exact hc

theorem SequencerWorld.isMulti_step {a : SequencerAction} (h : w.step b a = some w') :
    w'.isMulti = w.isMulti := by
  cases w <;> simp only [SequencerWorld.step, Option.map_eq_some_iff] at h <;> obtain ⟨_, -, rfl⟩ := h <;> rfl

/-- The kind of the sequencer stays. -/
theorem Feed.isMulti_step (h : f.step b a = some f') :
    f'.world.isMulti = f.world.isMulti := by
  rcases feedStep_action h with he | ⟨_, hst, -⟩
  · rw [he]
  · exact SequencerWorld.isMulti_step hst

/-- A flag that goes up brings its next look closer. -/
theorem MultiPc.refuseRank_le {x y : Bool} (pc : MultiPc) (h : x = true → y = true) :
    toLex (pc.refuseRank y) ≤ toLex (pc.refuseRank x) := by
  cases pc with
  | loadPoisoned =>
    cases x <;> cases y
    · exact le_rfl
    · exact le_of_lt (Prod.Lex.left _ _ (by decide))
    · exact absurd (h rfl) Bool.false_ne_true
    · exact le_rfl
  | _ => exact le_rfl

theorem SinglePc.refuseRank_le {x y : Bool} (pc : SinglePc) (h : x = true → y = true) :
    toLex (pc.refuseRank y) ≤ toLex (pc.refuseRank x) := by
  cases pc with
  | spinPoisoned =>
    cases x <;> cases y
    · exact le_rfl
    · exact le_of_lt (Prod.Lex.left _ _ (by decide))
    · exact absurd (h rfl) Bool.false_ne_true
    · exact le_rfl
  | _ => exact le_rfl

/-- **The steps of others** leave a producer inside `next_n` where it is. -/
theorem refuse_other {c : ClaimCall} (hI : FeedBooks b f) (hc : f.world.call p = some c) (hs : f.step b a = some f')
    (hp : a.producer ≠ some p) :
    f'.world.call p = some c ∧ toLex (f'.world.refuseRank p) ≤ toLex (f.world.refuseRank p) := by
  refine ⟨(claim_other hI hc hs hp).1, ?_⟩
  have hpois := feedStep_poisoned hs
  cases hw : f.world with
  | single w =>
    have hclaim := claiming_of_call hI hc
    have hd : w.driver = p := by
      have hok := hI.phases p
      rw [hw, hclaim] at hok
      exact hok.1
    obtain ⟨closed, hw'⟩ := single_other hw hI hd (by simp [hclaim]) hs hp
    rw [hw']
    exact le_rfl
  | multi w =>
    obtain ⟨w', hw', hpc⟩ := multi_other hw hs hp
    rw [hw, hw'] at hpois
    rw [hw']
    simp only [SequencerWorld.refuseRank, hpc]
    exact MultiPc.refuseRank_le _ hpois

/-- What consumers and the owner of the gating sequences do leaves every producer where it is. -/
structure SequencerWorld.Stands (w w' : SequencerWorld) : Prop where
  call : w'.call = w.call
  refuseRank : ∀ p, toLex (w'.refuseRank p) ≤ toLex (w.refuseRank p)
  claimRank : ∀ b p, w'.claimRank b p = w.claimRank b p
  scans : w'.scans = w.scans
  high : w'.high = w.high
  closed : w.closed = true → w'.closed = true
  unique : w.Unique → w'.Unique
  isMulti : w'.isMulti = w.isMulti
  gatingSequences : ∀ i ∈ w'.gatingSequences, i ∈ w.gatingSequences

theorem stands_store {i : Nat} {v : Int} : w.Stands (w.store i v) := by
  cases w <;> exact ⟨rfl, fun _ => le_rfl, fun _ _ => rfl, rfl, rfl, id, id, rfl, fun _ => id⟩

theorem stands_poison : w.Stands w.poison := by
  cases w with
  | single w =>
    exact ⟨rfl, fun _ => SinglePc.refuseRank_le _ fun _ => rfl, fun _ _ => rfl, rfl, rfl, id, id, rfl, fun _ => id⟩
  | multi w =>
    exact ⟨rfl, fun _ => MultiPc.refuseRank_le _ fun _ => rfl, fun _ _ => rfl, rfl, rfl, id, id, rfl, fun _ => id⟩

theorem stands_removeGatingSequence {i : Nat} (hs : w.step b (.removeGatingSequence i) = some w') : w.Stands w' := by
  cases SequencerWorld.rule_of_step hs with
  | single hr =>
    cases hr
    exact ⟨rfl, fun _ => le_rfl, fun _ _ => rfl, rfl, rfl, id, id, rfl, fun _ => mem_of_mem_removeGatingSequenceCas⟩
  | multi hr =>
    cases hr
    exact ⟨rfl, fun _ => le_rfl, fun _ _ => rfl, rfl, rfl, id, id, rfl, fun _ => mem_of_mem_removeGatingSequenceCas⟩

/-- What is removed is not registered any more. -/
theorem SequencerWorld.not_mem_of_removed {i : Nat} (hs : w.step b (.removeGatingSequence i) = some w') :
    i ∉ w'.gatingSequences := by
  cases SequencerWorld.rule_of_step hs with
  | single hr =>
    cases hr
    simp [SequencerWorld.gatingSequences, removeGatingSequenceCas]
  | multi hr =>
    cases hr
    simp [SequencerWorld.gatingSequences, removeGatingSequenceCas]

theorem SequencerWorld.Stands.trans {w₁ w₂ w₃ : SequencerWorld} (h : w₁.Stands w₂) (h' : w₂.Stands w₃) : w₁.Stands w₃ where
  call := h'.call.trans h.call
  refuseRank p := (h'.refuseRank p).trans (h.refuseRank p)
  claimRank b p := (h'.claimRank b p).trans (h.claimRank b p)
  scans := h'.scans.trans h.scans
  high := h'.high.trans h.high
  closed := h'.closed ∘ h.closed
  unique := h'.unique ∘ h.unique
  isMulti := h'.isMulti.trans h.isMulti
  gatingSequences i := h.gatingSequences i ∘ h'.gatingSequences i

/-- The producers do not notice that a gating sequence is removed. -/
theorem feedBooks_removeGatingSequence {i : Nat} (hI : FeedBooks b f) (hs : f.world.step b (.removeGatingSequence i) = some w) :
    FeedBooks b { f with world := w } := by
  refine ⟨SequencerWorld.books_step hI.world hs (by simp), fun p => ?_⟩
  have hok := hI.phases p
  show PhaseOk w p (f.phases p)
  generalize f.world = w₀ at hs hok
  generalize f.phases p = phase at hok
  cases SequencerWorld.rule_of_step hs with
  | single hr =>
    cases hr
    exact SinglePhaseOk.frame hok rfl rfl rfl rfl rfl id
  | multi hr =>
    cases hr
    cases phase <;> exact hok

section Pipeline

variable {t : Wiring} {handlers : Nat → E → Int → Bool → E} {st st' : Pipeline E} {a : PipelineAction E}

theorem stands_consumerStep {c : Nat} {i : EngineInput} {torn : Option E}
    (hs : st.consumerStep b t handlers c i torn = some st') : st.feed.world.Stands st'.feed.world := by
  obtain ⟨v, hw | hw⟩ := consumerStep_world hs <;> rw [hw]
  · exact stands_store
  · exact stands_store.trans stands_poison

/-- What a step of the pipeline leaves as it is. -/
theorem kind_step (hs : st.step b t handlers a = some st') : (st.feed.world.Unique → st'.feed.world.Unique) ∧
    st'.feed.world.isMulti = st.feed.world.isMulti := by
  rcases step_feed hs with ⟨a', rfl, hst⟩ | ⟨c, i, torn, rfl, hst⟩ | he
  · refine ⟨fun h => ?_, Feed.isMulti_step hst⟩
    rcases feedStep_action hst with he | ⟨_, hst', -⟩
    · rw [he]
      exact h
    · exact unique_step h hst'
  · have hstands := stands_consumerStep hst
    exact ⟨hstands.unique, hstands.isMulti⟩
  · rw [he]
    exact ⟨id, rfl⟩

/-- No step of the pipeline registers a gating sequence. -/
theorem gating_step (hI : FeedBooks b st.feed) (hs : st.step b t handlers a = some st') :
    ∀ i ∈ st'.feed.world.gatingSequences, i ∈ st.feed.world.gatingSequences := by
  rcases step_feed hs with ⟨a', rfl, hst⟩ | ⟨c, i, torn, rfl, hst⟩ | he
  · obtain ⟨-, hg, -⟩ := hI.step_world hst
    rw [hg]
    exact fun _ => id
  · exact (stands_consumerStep hst).gatingSequences
  · rw [he]
    exact fun _ => id

/-- A step of producer `p`. -/
abbrev OwnStep (p : Nat) (a : PipelineAction E) : Prop := ∃ a', a = .producer a' ∧ a'.producer = some p

theorem not_ownStep {a' : FeedAction E} (hp : a'.producer ≠ some p) : ¬OwnStep p (.producer a') := by
  rintro ⟨a'', he, hp'⟩
  cases he
  exact hp hp'

/-- **Step lemma.** -/
theorem refuse_step (hI : FeedBooks b st.feed) (hu : st.feed.world.Unique) (hs : st.step b t handlers a = some st')
    (hc : st.feed.world.call p = some (.nextN n)) : st'.feed.world.Decided p ∨
      st'.feed.world.call p = some (.nextN n) ∧ (st.feed.world.Shut →
        toLex (st'.feed.world.refuseRank p) ≤ toLex (st.feed.world.refuseRank p) ∧
          (OwnStep p a → toLex (st'.feed.world.refuseRank p) < toLex (st.feed.world.refuseRank p))) := by
  cases pipelineRule_of_step hs with
  | @producer a' feed hst =>
    by_cases hp : a'.producer = some p
    · refine (refuse_own hu hc (step_of_call hI hc hst hp)).imp id fun hq => ⟨hq.1, fun hshut => ?_⟩
      exact ⟨le_of_lt (hq.2 hshut), fun _ => hq.2 hshut⟩
    · obtain ⟨hc', hle⟩ := refuse_other hI hc hst hp
      exact .inr ⟨hc', fun _ => ⟨hle, fun hown => absurd hown (not_ownStep hp)⟩⟩
  | consumer hst =>
    have hstands := stands_consumerStep hst
    exact .inr ⟨by rw [hstands.call]; exact hc, fun _ => ⟨hstands.refuseRank p, by simp⟩⟩
  | wait | barrier | restart | raiseShutdown | setRunning | setAlert =>
    exact .inr ⟨hc, fun _ => ⟨le_rfl, by simp⟩⟩

/-- **Step lemma of an open claim path.** A producer inside `next_n` is granted its claim or goes on. Its own steps bring it
closer when the gating sequences that it still has to look at have caught up. The steps of others set it back only by a grant of
their own, behind a multi-producer sequencer. -/
theorem granted_step (hI : FeedBooks b st.feed) (hu : st.feed.world.Unique)
    (hopen : OwnStep p a → ¬st.feed.world.Shut) (hs : st.step b t handlers a = some st')
    (hc : st.feed.world.call p = some (.nextN n)) : st'.feed.world.result p = some (.ok st'.feed.world.high) ∨
      st'.feed.world.call p = some (.nextN n) ∧ (st'.feed.world.isMulti = true ∧ st.feed.world.high < st'.feed.world.high ∨
        st'.feed.world.high = st.feed.world.high ∧
          (OwnStep p a → Below st.feed.world.sequences (st.feed.world.scans p) st.feed.world.high →
            toLex (st'.feed.world.claimRank b p) < toLex (st.feed.world.claimRank b p)) ∧
          (¬OwnStep p a → st'.feed.world.claimRank b p = st.feed.world.claimRank b p)) := by
  cases pipelineRule_of_step hs with
  | @producer a' feed hst =>
    by_cases hp : a'.producer = some p
    · have hown : OwnStep p (.producer a') := ⟨a', rfl, hp⟩
      obtain ⟨hclosed, hpoisoned⟩ := not_or.mp (hopen hown)
      rcases claim_own (hI.world.le_size hc) hu (by simpa using hclosed) (by simpa using hpoisoned) hc
        (step_of_call hI hc hst hp) with ⟨hr, hhigh⟩ | ⟨hc', hhigh, hlt⟩
      · exact .inl (by rw [hhigh]; exact hr)
      · exact .inr ⟨hc', .inr ⟨hhigh, fun _ => hlt, fun hno => absurd hown hno⟩⟩
    · obtain ⟨hc', -, hr⟩ := claim_other hI hc hst hp
      refine .inr ⟨hc', ?_⟩
      obtain ⟨-, -, -, q, hmove⟩ := hI.step_world hst
      by_cases hhigh : feed.world.high = st.feed.world.high
      · exact .inr ⟨hhigh, fun hown => absurd hown (not_ownStep hp), fun _ => hr hhigh⟩
      · refine .inl ⟨?_, lt_of_le_of_ne hmove.high_le (Ne.symm hhigh)⟩
        show feed.world.isMulti = true
        rw [Feed.isMulti_step hst]
        cases hw : st.feed.world with
        | single w => exact absurd (single_claim_other hw hI hc hst hp).2.2.1 hhigh
        | multi w => rfl
  | consumer hst =>
    have hstands := stands_consumerStep hst
    exact .inr ⟨by rw [hstands.call]; exact hc, .inr ⟨hstands.high, by simp, fun _ => hstands.claimRank b p⟩⟩
  | wait | barrier | restart | raiseShutdown | setRunning | setAlert =>
    exact .inr ⟨hc, .inr ⟨rfl, by simp, fun _ => rfl⟩⟩

/-- Without gating sequences nothing is left to look at, once an old scan is over. -/
theorem scans_step (hI : FeedBooks b st.feed) (hg : st.feed.world.gatingSequences = [])
    (hs : st.step b t handlers a = some st') (hc : st.feed.world.call p = some (.nextN n)) :
    (OwnStep p a → st'.feed.world.scans p = (st.feed.world.scans p).tail) ∧
      (¬OwnStep p a → st'.feed.world.scans p = st.feed.world.scans p) := by
  cases pipelineRule_of_step hs with
  | @producer a' feed hst =>
    by_cases hp : a'.producer = some p
    · exact ⟨fun _ => SequencerWorld.scans_own hg hc (step_of_call hI hc hst hp), fun hno => absurd ⟨a', rfl, hp⟩ hno⟩
    · exact ⟨fun hown => absurd hown (not_ownStep hp), fun _ => (claim_other hI hc hst hp).2.1⟩
  | consumer hst => exact ⟨by simp, fun _ => congrFun (stands_consumerStep hst).scans p⟩
  | wait | barrier | restart | raiseShutdown | setRunning | setAlert => exact ⟨by simp, fun _ => rfl⟩

end Pipeline

end BadBatch
