import BadBatch.Liveness.Publications
import BadBatch.Pipeline.Progress

/-!
# A claim that fits is granted

Once the gating sequences have caught up with what is claimed, the wait for capacity ends at the next look at them. A producer
behind a multi-producer sequencer may still lose its `compare_exchange`, but then somebody else has won it: the claimed position
moves on. `SequencerWorld.claimRank` counts what is left of `next_n` while it does not.

* `claim_own`: the steps of the producer inside `next_n`;
* `claim_other`: the steps of the others.
-/

namespace BadBatch

open MultiProducerSequencer

variable {E : Type} {b : BufferSize} {f f' : Feed E} {w w' : SequencerWorld} {p : Nat} {n : Int} {a : FeedAction E}

/-- How far a producer is from its `compare_exchange`, the cursor being at `cursor`. What was computed from another cursor, and
a scan that has shown a laggard, is wasted. -/
def MultiPc.claimRank (b : BufferSize) (cursor : Int) : MultiPc → Nat × Nat
  | .cas _ current => (if current = cursor then 0 else 8, 0)
  | .storeCached _ current _ => (if current = cursor then 1 else 9, 0)
  | .scan c current rest minimum => (if current = cursor ∧ current + c.n - b.sizeI64 ≤ minimum then 2 else 10, rest.length)
  | .loadGating _ current => (if current = cursor then 3 else 11, 0)
  | .loadCached _ current _ => (if current = cursor then 4 else 12, 0)
  | .loadCursor _ | .loadCursorUnder _ _ => (5, 0)
  | .loadPoisoned _ | .loadGatingFirst _ => (6, 0)
  | .loadClosed _ => (7, 0)
  | _ => (13, 0)

/-- How far the driver of a single-producer sequencer is from its grant. -/
def SinglePc.claimRank (b : BufferSize) (nextValue : Int) : SinglePc → Nat × Nat
  | .scan c rest minimum => (if nextValue + c.n - b.sizeI64 ≤ minimum then 0 else 4, rest.length)
  | .loadGating _ => (1, 0)
  | .spinPoisoned _ => (2, 0)
  | .spinClosed _ => (3, 0)
  | .setVolatile _ => (5, 0)
  | .check _ => (6, 0)
  | .loadPoisoned _ => (7, 0)
  | .loadClosed _ => (8, 0)
  | _ => (9, 0)

/-- How far producer `p` is from being granted its claim. -/
def SequencerWorld.claimRank (b : BufferSize) (w : SequencerWorld) (p : Nat) : Nat × Nat :=
  match w with
  | .single w => w.pc.claimRank b w.sequencer.nextValue
  | .multi w => (w.producers p).claimRank b w.sequencer.cursor

/-- The gating sequences that a claim still has to look at in its round. -/
def MultiPc.scans : MultiPc → List Nat
  | .scan _ _ rest _ => rest
  | _ => []

def SinglePc.scans : SinglePc → List Nat
  | .scan _ rest _ => rest
  | _ => []

/-- The gating sequences that producer `p` still has to look at. -/
def SequencerWorld.scans (w : SequencerWorld) (p : Nat) : List Nat :=
  match w with
  | .single w => w.pc.scans
  | .multi w => (w.producers p).scans

/-- As long as gating sequences stay registered, a scan looks at nothing else. -/
theorem SequencerWorld.Inv.scans (h : w.Inv b) {i : Nat} (hi : i ∈ w.scans p) : i ∈ w.gatingSequences := by
  cases w with
  | single w =>
    have hok := SingleInv.pc h
    simp only [SequencerWorld.scans] at hi
    generalize w.pc = pc at hok hi
    cases pc with
    | scan c rest minimum =>
      obtain ⟨-, -, scanned, he, -⟩ := hok
      simp only [SequencerWorld.gatingSequences, ← he]
      exact List.mem_append_right _ hi
    | _ => cases hi
  | multi w =>
    have hok := (AvailInv.claims h).pcs p
    simp only [SequencerWorld.scans] at hi
    generalize w.producers p = pc at hok hi
    cases pc with
    | scan c current rest minimum =>
      obtain ⟨-, scanned, he, -⟩ := hok
      simp only [SequencerWorld.gatingSequences, ← he]
      exact List.mem_append_right _ hi
    | _ => cases hi

/-- The driver of the Builder has the claim lock for good and never competes for it. -/
def SequencerWorld.Unique : SequencerWorld → Prop
  | .single w => w.unique = true ∧ ∀ n, w.pc ≠ .acquire (.nextN n)
  | .multi _ => True

/-- **Step lemma.** -/
theorem unique_step {a : SequencerAction} (h : w.Unique) (hs : w.step b a = some w') : w'.Unique := by
  cases SequencerWorld.rule_of_step hs with
  | multi => trivial
  | @single w _ _ hr =>
    obtain ⟨hu, hacq⟩ := h
    cases hr with
    | @step m' pc' e hst =>
      refine ⟨hu, fun n he => ?_⟩
      have he : pc' = .acquire (.nextN n) := he
      generalize w.pc = pc at hst
      rw [hu, he] at hst
      cases singleRule_of_claimStep hst with
      | toAcquire _ hu' => cases hu'
    | @call p c =>
      refine ⟨hu, fun n he => ?_⟩
      have he : SingleProducerSequencer.claimStart b w.unique c = .acquire (.nextN n) := he
      rw [hu] at he
      cases c <;> simp only [SingleProducerSequencer.claimStart, if_true] at he
      case nextN k | tryNextN k => split at he <;> cases he
      case hasAvailableCapacity k => cases he
      case remainingCapacity => cases he
    | publish | publishRange => exact ⟨hu, by simp⟩
    | advance | close | reopen | poison | addGatingSequences | removeGatingSequence => exact ⟨hu, hacq⟩

/-! ## Inside `next_n` -/

/-- A scan that goes on from a sequence that is not behind. -/
theorem le_lower {m v x : Int} (h1 : x ≤ m) (h2 : x ≤ v) : x ≤ lower m v := by
  unfold lower
  split
  · exact h2
  · exact h1

theorem multiClaim_step {sequences : Nat → Int} {m m' : MultiProducerSequencer} {pc pc' : MultiPc} {e : LedgerEffect}
    (hclosed : m.closed = false) (hpoisoned : m.poisoned = false) (hn : n ≤ b.sizeI64) (hc : pc.call = some (.nextN n))
    (hst : claimStep b sequences m pc = some (m', pc', e)) :
    pc' = .returned (.ok (m.cursor + n)) ∧ m'.cursor = m.cursor + n ∨
      pc'.call = some (.nextN n) ∧ m'.cursor = m.cursor ∧ (Below sequences pc.scans m.cursor →
        toLex (pc'.claimRank b m.cursor) < toLex (pc.claimRank b m.cursor)) := by
  cases multiRule_of_claimStep hst with
  | closed h =>
    rw [hclosed] at h
    cases h
  | poisoned h =>
    rw [hpoisoned] at h
    cases h
  | grant =>
    cases hc
    exact .inl ⟨rfl, rfl⟩
  | notClosed | notPoisoned => exact .inr ⟨hc, rfl, fun _ => Prod.Lex.left _ _ (by decide)⟩
  | cursorNext =>
    refine .inr ⟨hc, rfl, fun _ => ?_⟩
    simp only [MultiPc.claimRank, if_true]
    exact Prod.Lex.left _ _ (by decide)
  | staleNext h =>
    refine .inr ⟨hc, rfl, fun _ => ?_⟩
    simp only [MultiPc.claimRank]
    split <;> exact Prod.Lex.left _ _ (by decide)
  | fresh =>
    cases hc
    refine .inr ⟨rfl, rfl, fun _ => ?_⟩
    simp only [MultiPc.claimRank]
    split <;> exact Prod.Lex.left _ _ (by decide)
  | @gating _ current =>
    cases hc
    refine .inr ⟨rfl, rfl, fun _ => ?_⟩
    simp only [MultiPc.claimRank]
    by_cases he : current = m.cursor
    · rw [if_pos he, if_pos ⟨he, by simp only [ClaimCall.n]; omega⟩]
      exact Prod.Lex.left _ _ (by decide)
    · rw [if_neg he, if_neg (fun h => he h.1)]
      exact Prod.Lex.left _ _ (by decide)
  | @scan _ current i rest minimum =>
    cases hc
    refine .inr ⟨rfl, rfl, fun hroom => ?_⟩
    have hi : m.cursor ≤ sequences i := hroom i (List.mem_cons_self ..)
    -- a sequence that has caught up does not spoil the scan
    have hphase : (current = m.cursor ∧ current + n - b.sizeI64 ≤ lower minimum (sequences i)) ↔
        (current = m.cursor ∧ current + n - b.sizeI64 ≤ minimum) :=
      ⟨fun ⟨h1, h2⟩ => ⟨h1, le_trans h2 lower_le_left⟩, fun ⟨h1, h2⟩ => ⟨h1, le_lower h2 (by omega)⟩⟩
    simp only [MultiPc.claimRank, ClaimCall.n, hphase, List.length_cons]
    exact Prod.Lex.right _ (by omega)
  | @full _ current minimum hfull =>
    cases hc
    have hlag : ¬(current = m.cursor ∧ current + n - b.sizeI64 ≤ minimum) := fun h => absurd h.2 (not_le.mpr hfull)
    refine .inr ⟨rfl, rfl, fun _ => ?_⟩
    simp only [MultiPc.claimRank, ClaimCall.n, hlag, if_false]
    exact Prod.Lex.left _ _ (by decide)
  | @scanned _ current minimum _ hfits =>
    cases hc
    have hle := hfits n rfl
    refine .inr ⟨rfl, rfl, fun _ => ?_⟩
    simp only [MultiPc.claimRank, ClaimCall.n, hle, and_true]
    split <;> exact Prod.Lex.left _ _ (by decide)
  | store =>
    cases hc
    refine .inr ⟨rfl, rfl, fun _ => ?_⟩
    simp only [MultiPc.claimRank]
    split <;> exact Prod.Lex.left _ _ (by decide)
  | lostNext h =>
    refine .inr ⟨hc, rfl, fun _ => ?_⟩
    simp only [MultiPc.claimRank, if_neg (Ne.symm h)]
    exact Prod.Lex.left _ _ (by decide)
  | cursor h => cases hc; exact absurd rfl (h n)
  | stale h => cases hc; exact absurd rfl (h n)
  | storeFull h => cases hc; exact absurd rfl (h n)
  | lost h => cases hc; exact absurd rfl (h n)
  | gatingTry | overflow | freshAvailable | answerRemaining | answerAvailable | publish | rangeDone | range => cases hc
  | gatingFirst => exact .inr ⟨hc, rfl, fun _ => Prod.Lex.left _ _ (by decide)⟩
  | cursorUnder =>
    refine .inr ⟨hc, rfl, fun _ => ?_⟩
    simp only [MultiPc.claimRank, if_true]
    exact Prod.Lex.left _ _ (by decide)

theorem singleClaim_step {sequences : Nat → Int} {m m' : SingleProducerSequencer} {pc pc' : SinglePc} {e : LedgerEffect}
    (hclosed : m.closed = false) (hpoisoned : m.poisoned = false) (hacq : pc ≠ .acquire (.nextN n)) (hn : n ≤ b.sizeI64)
    (hc : pc.call = some (.nextN n)) (hst : SingleProducerSequencer.claimStep b true sequences m pc = some (m', pc', e)) :
    pc' = .returned (.ok (m.nextValue + n)) ∧ m'.nextValue = m.nextValue + n ∨
      pc'.call = some (.nextN n) ∧ m'.nextValue = m.nextValue ∧ (Below sequences pc.scans m.nextValue →
        toLex (pc'.claimRank b m.nextValue) < toLex (pc.claimRank b m.nextValue)) := by
  cases singleRule_of_claimStep hst with
  | closed h | spinShutdown h =>
    rw [hclosed] at h
    cases h
  | poisoned h | spinPoisoned h =>
    rw [hpoisoned] at h
    cases h
  | toAcquire _ hu => cases hu
  | contended | acquire =>
    cases hc
    exact absurd rfl hacq
  | grantCached | grantScanned =>
    cases hc
    exact .inl ⟨rfl, rfl⟩
  | notClosed | toCheck | spinNotClosed | spin | stale | setVolatile =>
    exact .inr ⟨hc, rfl, fun _ => Prod.Lex.left _ _ (by decide)⟩
  | loadGating =>
    cases hc
    refine .inr ⟨rfl, rfl, fun _ => ?_⟩
    have hfits : m.nextValue + n - b.sizeI64 ≤ m.nextValue := by omega
    simp only [SinglePc.claimRank, ClaimCall.n, hfits, if_true]
    exact Prod.Lex.left _ _ (by decide)
  | @scan _ i rest minimum =>
    cases hc
    refine .inr ⟨rfl, rfl, fun hroom => ?_⟩
    have hi : m.nextValue ≤ sequences i := hroom i (List.mem_cons_self ..)
    have hphase : m.nextValue + n - b.sizeI64 ≤ lower minimum (sequences i) ↔ m.nextValue + n - b.sizeI64 ≤ minimum :=
      ⟨fun h => le_trans h lower_le_left, fun h => le_lower h (by omega)⟩
    simp only [SinglePc.claimRank, ClaimCall.n, hphase, List.length_cons]
    exact Prod.Lex.right _ (by omega)
  | full h =>
    cases hc
    refine .inr ⟨rfl, rfl, fun _ => ?_⟩
    simp only [SinglePc.claimRank, ClaimCall.n, not_le.mpr h, if_false]
    exact Prod.Lex.left _ _ (by decide)
  | remaining | overflow | askGating | askCached | answerRemaining | answerAvailable | tryFull | release | publish => cases hc

/-- A producer inside `next_n(n)` asked for at most a ring. -/
theorem SequencerWorld.Books.le_size (h : w.Books b) (hc : w.call p = some (.nextN n)) : n ≤ b.sizeI64 := by
  cases w with
  | single w =>
    have hpc := SingleBooks.pc h
    simp only [SequencerWorld.call] at hc
    split at hc
    · generalize w.pc = pc at hpc hc
      cases pc <;> first | (cases hc; exact hpc.1.2) | cases hc
    · cases hc
  | multi w =>
    have hpc := (MultiBooks.pcs h) p
    simp only [SequencerWorld.call] at hc
    generalize w.producers p = pc at hpc hc
    cases pc with
    | loadCursor | loadGating | scan =>
      cases hc
      exact hpc.2
    | returned | publish | publishRange => cases hc
    | _ =>
      cases hc
      exact hpc.1.2

/-- **Its own step.** A producer inside `next_n` is granted its claim or goes on, and gets closer when the gating sequences that
it still has to look at have caught up. -/
theorem claim_own (hn : n ≤ b.sizeI64) (hu : w.Unique) (hclosed : w.closed = false) (hpoisoned : w.poisoned = false)
    (hc : w.call p = some (.nextN n)) (hs : w.step b (.step p) = some w') :
    w'.result p = some (.ok (w.high + n)) ∧ w'.high = w.high + n ∨
      w'.call p = some (.nextN n) ∧ w'.high = w.high ∧
        (Below w.sequences (w.scans p) w.high → toLex (w'.claimRank b p) < toLex (w.claimRank b p)) := by
  cases SequencerWorld.rule_of_step hs with
  | @single w _ _ hr =>
    cases hr with | @step m' pc' e hst =>
    obtain ⟨hu, hacq⟩ := hu
    simp only [SequencerWorld.call, if_true] at hc
    rw [hu] at hst
    rcases singleClaim_step hclosed hpoisoned (hacq n) hn hc hst with ⟨rfl, hnext⟩ | ⟨hc', hnext, hlt⟩
    · exact .inl ⟨if_pos rfl, hnext⟩
    · refine .inr ⟨by simpa only [SequencerWorld.call, if_true] using hc', hnext, ?_⟩
      simp only [SequencerWorld.claimRank, hnext]
      exact hlt
  | @multi w _ _ hr =>
    cases hr with | @step _ m' pc' e hst =>
    rcases multiClaim_step hclosed hpoisoned hn hc hst with ⟨rfl, hcur⟩ | ⟨hc', hcur, hlt⟩
    · refine .inl ⟨?_, hcur⟩
      simp only [SequencerWorld.result, Function.update_self]
      rfl
    · refine .inr ⟨by simpa only [SequencerWorld.call, Function.update_self] using hc', hcur, ?_⟩
      simp only [SequencerWorld.claimRank, Function.update_self, hcur]
      exact hlt

/-- Without gating sequences an old scan goes on to its end, and a new one has nothing to look at. -/
theorem SequencerWorld.scans_own (hg : w.gatingSequences = []) (hc : w.call p = some (.nextN n))
    (hs : w.step b (.step p) = some w') : w'.scans p = (w.scans p).tail := by
  cases SequencerWorld.rule_of_step hs with
  | @single w _ _ hr =>
    cases hr with | @step m' pc' e hst =>
    have hg : w.sequencer.gatingSequences = [] := hg
    simp only [scans]
    generalize w.pc = pc at hst
    cases singleRule_of_claimStep hst with
    | loadGating =>
      simp only [SinglePc.scans, hg]
      rfl
    | scan => rfl
    | _ => first | rfl | (unfold SingleProducerSequencer.finish; split <;> rfl)
  | @multi w _ _ hr =>
    cases hr with | @step _ m' pc' e hst =>
    have hg : w.sequencer.gatingSequences = [] := hg
    simp only [scans, call, Function.update_self] at hc ⊢
    generalize w.producers p = pc at hst hc
    cases multiRule_of_claimStep hst with
    | gating =>
      simp only [MultiPc.scans, hg]
      rfl
    | stale hno =>
      cases hc
      exact absurd rfl (hno n)
    | _ => rfl

/-- Its own steps leave the claim path open or closed. -/
theorem SequencerWorld.closed_own (hs : w.step b (.step p) = some w') : w'.closed = w.closed := by
  cases SequencerWorld.rule_of_step hs with
  | @single w _ _ hr =>
    cases hr with
    | step hst =>
      generalize w.pc = pc at hst
      cases singleRule_of_claimStep hst <;> rfl
  | multi hr =>
    cases hr with
    | @step p m' pc' e hst =>
      rcases claimStep_cases hst with ⟨rfl, -⟩ | ⟨_, _, _, -, -, rfl⟩ | ⟨_, -, -, rfl⟩ | ⟨lo, hi, hpub, -⟩
      · rfl
      · rfl
      · rfl
      · rw [hpub.frame]
        rfl

/-! ## Among the producers -/

/-- A producer inside a call of the claim path is claiming. -/
theorem claiming_of_call {c : ClaimCall} (hI : FeedBooks b f) (hc : f.world.call p = some c) : f.phases p = .claiming c := by
  have hok := hI.phases p
  cases hw : f.world with
  | single w =>
    rw [hw] at hok hc
    simp only [SequencerWorld.call] at hc
    split at hc
    · rename_i hd
      cases hph : f.phases p with
      | idle =>
        rw [hph] at hok
        obtain ⟨⟨r, hr⟩, -⟩ := hok hd
        rw [hr] at hc
        cases hc
      | claiming c' =>
        rw [hph] at hok
        rcases hok.2 with ⟨hc', -⟩ | ⟨r, hr | hr, -⟩
        · rw [hc] at hc'
          rw [Option.some.inj hc']
        · rw [hr] at hc
          cases hc
        · rw [hr] at hc
          cases hc
      | writing low high next =>
        rw [hph] at hok
        obtain ⟨-, ⟨r, hr⟩, -⟩ := hok
        rw [hr] at hc
        cases hc
      | publishing =>
        rw [hph] at hok
        rcases hok.2 with hr | ⟨⟨r, hr⟩, -⟩
        · rw [hr] at hc
          cases hc
        · rw [hr] at hc
          cases hc
      | panicked low | poisoning =>
        rw [hph] at hok
        obtain ⟨-, r, hr⟩ := hok
        rw [hr] at hc
        cases hc
    · cases hc
  | multi w =>
    rw [hw] at hok hc
    have hc : (w.producers p).call = some c := hc
    cases hph : f.phases p with
    | claiming c' =>
      rw [hph] at hok
      rcases hok with hc' | ⟨r, hr, -⟩
      · rw [hc] at hc'
        rw [Option.some.inj hc']
      · rw [hr] at hc
        cases hc
    | writing low high next =>
      rw [hph] at hok
      obtain ⟨⟨r, hr⟩, -⟩ := hok
      rw [hr] at hc
      cases hc
    | idle | publishing | panicked low | poisoning =>
      rw [hph] at hok
      have hno : (w.producers p).call = none := hok
      rw [hno] at hc
      cases hc

/-- Inside a call there is no result. -/
theorem SequencerWorld.result_of_call {c : ClaimCall} (hc : w.call p = some c) : w.result p = none := by
  cases w with
  | single w =>
    simp only [SequencerWorld.call] at hc
    split at hc
    · simp only [SequencerWorld.result]
      split
      · rename_i hpc
        rw [hpc] at hc
        cases hc
      · rfl
    · cases hc
  | multi w =>
    simp only [SequencerWorld.call] at hc
    simp only [SequencerWorld.result]
    split
    · rename_i hpc
      rw [hpc] at hc
      cases hc
    · rfl

/-- A producer inside a call of the claim path goes on with it. -/
theorem step_of_call {c : ClaimCall} (hI : FeedBooks b f) (hc : f.world.call p = some c) (hs : f.step b a = some f')
    (hp : a.producer = some p) : f.world.step b (.step p) = some f'.world := by
  have hclaim := claiming_of_call hI hc
  have hbusy : f.mayCall p = false := by
    cases hw : f.world with
    | multi w => simp only [Feed.mayCall, hw, hclaim, beq_eq_false_iff_ne, ne_eq, reduceCtorEq, not_false_eq_true]
    | single w =>
      have hd : w.driver = p := by
        have hok := hI.phases p
        rw [hw, hclaim] at hok
        exact hok.1
      simp only [Feed.mayCall, hw, hd, hclaim, beq_eq_false_iff_ne, ne_eq, reduceCtorEq, not_false_eq_true]
  cases feedRule_of_step hs with
  | step hst =>
    cases hp
    exact hst
  | call hmay =>
    cases hp
    rw [hbusy] at hmay
    cases hmay
  | granted _ hr | refused _ hr =>
    cases hp
    rw [SequencerWorld.result_of_call hc] at hr
    cases hr
  | write hph | publish hph | publishRange hph | published hph | panic hph | record hph | poison hph =>
    cases hp
    rw [hclaim] at hph
    cases hph
  | close | reopen => cases hp

/-- **The steps of others**, behind a single-producer sequencer. -/
theorem single_claim_other {w : SingleWorld} {c : ClaimCall} (hw : f.world = .single w) (hI : FeedBooks b f)
    (hc : f.world.call p = some c) (hs : f.step b a = some f') (hp : a.producer ≠ some p) :
    f'.world.call p = some c ∧ f'.world.scans p = f.world.scans p ∧ f'.world.high = f.world.high ∧
      f'.world.claimRank b p = f.world.claimRank b p := by
  have hclaim := claiming_of_call hI hc
  have hd : w.driver = p := by
    have hok := hI.phases p
    rw [hw, hclaim] at hok
    exact hok.1
  obtain ⟨closed, hw'⟩ := single_other hw hI hd (by simp [hclaim]) hs hp
  rw [hw] at hc
  rw [hw, hw']
  exact ⟨hc, rfl, rfl, rfl⟩

/-- **The steps of others.** They leave the call where it is, and do not set it back as long as nobody is granted anything. -/
theorem claim_other {c : ClaimCall} (hI : FeedBooks b f) (hc : f.world.call p = some c) (hs : f.step b a = some f')
    (hp : a.producer ≠ some p) :
    f'.world.call p = some c ∧ f'.world.scans p = f.world.scans p ∧
      (f'.world.high = f.world.high → f'.world.claimRank b p = f.world.claimRank b p) := by
  cases hw : f.world with
  | single w =>
    obtain ⟨hc', hscans, -, hr⟩ := single_claim_other hw hI hc hs hp
    rw [← hw]
    exact ⟨hc', hscans, fun _ => hr⟩
  | multi w =>
    rw [hw] at hc
    obtain ⟨w', hw', hpc⟩ := multi_other hw hs hp
    rw [hw']
    refine ⟨?_, ?_, fun hhigh => ?_⟩
    · simpa only [SequencerWorld.call, hpc] using hc
    · simp only [SequencerWorld.scans, hpc]
    · have hcur : w'.sequencer.cursor = w.sequencer.cursor := hhigh
      simp only [SequencerWorld.claimRank, hpc, hcur]

end BadBatch
