import BadBatch.Sequencer.Books
import BadBatch.Sequencer.MultiAvailability

/-!
# Either sequencer

`SequencerEnum` dispatches to the single- or the multi-producer sequencer. Consumers see both through the same few facts,
collected here once: what a step does to the sequences and the ledger (`step_producer`, `step_other`), the books
(`SequencerWorld.Books`) and, under a fixed gating set, the invariant (`SequencerWorld.Inv`), each with its step lemma.
-/

namespace BadBatch

open StepSys

/-- `SequencerEnum` with everything around it. -/
inductive SequencerWorld
  | single (w : SingleWorld)
  | multi (w : MultiWorld)

namespace SequencerWorld

/-- The values of all sequences. -/
def sequences : SequencerWorld → Nat → Int
  | single w => w.sequences
  | multi w => w.sequences

def ledger : SequencerWorld → Ledger
  | single w => w.ledger
  | multi w => w.ledger

/-- `get_cursor().get()` -/
def cursor : SequencerWorld → Int
  | single w => w.sequencer.cursor
  | multi w => w.sequencer.cursor

/-- The highest claimed sequence. -/
def high : SequencerWorld → Int
  | single w => w.sequencer.nextValue
  | multi w => w.sequencer.cursor

def gatingSequences : SequencerWorld → List Nat
  | single w => w.sequencer.gatingSequences
  | multi w => w.sequencer.gatingSequences

def poisoned : SequencerWorld → Bool
  | single w => w.sequencer.poisoned
  | multi w => w.sequencer.poisoned

/-- What the last call of producer `p` returned, when `p` is between two calls. -/
def result : SequencerWorld → Nat → Option ClaimResult
  | single w, p =>
    match w.pc with
    | .returned r => if w.driver = p then some r else none
    | _ => none
  | multi w, p =>
    match w.producers p with
    | .returned r => some r
    | _ => none

/-- Producer `p` may start a call. Behind a single-producer sequencer nobody may be inside of one. -/
def atRest : SequencerWorld → Nat → Bool
  | single w, _ => w.atRest
  | multi w, p => w.atRest p

def step (b : BufferSize) : SequencerWorld → SequencerAction → Option SequencerWorld
  | single w, a => (w.step b a).map single
  | multi w, a => (w.step b a).map multi

/-- `create_disruptor_core` and `Disruptor::new`: a fresh sequencer with its gating sequences. -/
def init (b : BufferSize) (multiProducer unique : Bool) (gating : List Nat) : SequencerWorld :=
  if multiProducer then multi (.init b gating) else single (.init unique gating)

/-- The invariant of either sequencer. -/
def Inv (b : BufferSize) : SequencerWorld → Prop
  | single w => SingleInv b w
  | multi w => AvailInv b w

variable {b : BufferSize} {w w' : SequencerWorld} {a : SequencerAction} {s : Int}

theorem inv_init {multiProducer unique : Bool} {gating : List Nat} (hg : gating ≠ []) :
    (init b multiProducer unique gating).Inv b := by
  unfold init
  split
  · exact availInv_init hg
  · exact singleInv_init hg

theorem Inv.ledger (h : w.Inv b) : w.ledger.Inv w.high := by
  cases w with
  | single w => exact SingleInv.ledger h
  | multi w => exact (AvailInv.claims h).ledger

/-- Claims stay within a lap of the gating sequences. -/
theorem Inv.lap (h : w.Inv b) : Below w.sequences w.gatingSequences (w.high - b.sizeI64) := by
  cases w with
  | single w => exact SingleInv.lap h
  | multi w => exact (AvailInv.claims h).lap

/-- What all gating sequences have passed is published. -/
theorem Inv.passed (h : w.Inv b) (h0 : 0 ≤ s) (hs : Below w.sequences w.gatingSequences s) :
    w.ledger.published s = true := by
  cases w with
  | single w => exact SingleInv.passed h s h0 hs
  | multi w => exact AvailInv.passed h s h0 hs

theorem Inv.cursor_le (h : w.Inv b) : w.cursor ≤ w.high := by
  cases w with
  | single w => exact SingleInv.cursor_le h
  | multi w => exact le_rfl

/-- The books of either sequencer. -/
def Books (b : BufferSize) : SequencerWorld → Prop
  | single w => SingleBooks b w
  | multi w => MultiBooks b w

theorem books_init {multiProducer unique : Bool} {gating : List Nat} : (init b multiProducer unique gating).Books b := by
  unfold init
  split
  · exact (claimInv_init gating).books
  · exact singleBooks_init

theorem Inv.books (h : w.Inv b) : w.Books b := by
  cases w with
  | single w => exact SingleInv.books h
  | multi w => exact (AvailInv.claims h).books

theorem Books.ledger (h : w.Books b) : w.ledger.Inv w.high := by
  cases w with
  | single w => exact SingleBooks.ledger h
  | multi w => exact MultiBooks.ledger h

/-- What is published is at or below the cursor. -/
theorem Books.le_cursor (h : w.Books b) (hs : w.ledger.published s = true) : s ≤ w.cursor := by
  cases w with
  | single w => exact ((SingleBooks.published h s).mp hs).2
  | multi w => exact ((MultiBooks.ledger h).claimed hs).2

variable (b) in
/-- The steps of either sequencer. -/
inductive Rule : SequencerWorld → SequencerAction → SequencerWorld → Prop
  | single {w₀ w₁ action} (h : SingleWorldRule b w₀ w₀.MayPublish action w₁) : Rule (.single w₀) action (.single w₁)
  | multi {w₀ w₁ action} (h : MultiWorldRule b w₀ action w₁) : Rule (.multi w₀) action (.multi w₁)

theorem rule_of_step (hs : w.step b a = some w') : Rule b w a w' := by
  cases w with
  | single w =>
    simp only [step, Option.map_eq_some_iff] at hs
    obtain ⟨w', hs, rfl⟩ := hs
    exact .single (singleWorldRule_of_step hs)
  | multi w =>
    simp only [step, Option.map_eq_some_iff] at hs
    obtain ⟨w', hs, rfl⟩ := hs
    exact .multi (multiWorldRule_of_step hs)

/-- A claim of the single driver starts when its last one is published, or the sequencer is poisoned. -/
def Settled : SequencerWorld → Prop
  | single w => w.sequencer.nextValue = w.sequencer.cursor ∨ w.sequencer.poisoned = true
  | multi _ => True

/-- **Step lemma of the books.** -/
theorem books_step (h : w.Books b) (hs : w.step b a = some w') (hcall : ∀ p c, a = .call p c → w.Settled) : w'.Books b := by
  cases w with
  | single w =>
    simp only [step, Option.map_eq_some_iff] at hs
    obtain ⟨w', hs, rfl⟩ := hs
    exact singleBooks_step h hs hcall
  | multi w =>
    simp only [step, Option.map_eq_some_iff] at hs
    obtain ⟨w', hs, rfl⟩ := hs
    exact multiBooks_step h hs

/-- **Step lemma of either sequencer.** -/
theorem inv_step (h : w.Inv b) (ha : a.KeepsGating) (hs : w.step b a = some w')
    (hcall : ∀ p c, a = .call p c → w.Settled)
    (hadv : ∀ i v, a = .advance i v →
      ∀ s, 0 ≤ s → Below w'.sequences w'.gatingSequences s → w'.ledger.published s = true) : w'.Inv b := by
  cases w with
  | single w =>
    simp only [step, Option.map_eq_some_iff] at hs
    obtain ⟨w', hs, rfl⟩ := hs
    exact singleInv_step h ha hs hcall hadv
  | multi w =>
    simp only [step, Option.map_eq_some_iff] at hs
    obtain ⟨w', hs, rfl⟩ := hs
    exact availInv_step h ha hs hadv

/-- The ledger before and after a step of producer `p`. -/
inductive LedgerMove (p : Nat) (w w' : SequencerWorld) : Prop
  | same (hl : w'.ledger = w.ledger) (hh : w'.high = w.high)
  | grant (n : Int) (hn : 1 ≤ n) (hl : w'.ledger = w.ledger.grant p n (w.high + n)) (hh : w'.high = w.high + n)
  | publish (lo hi : Int) (hl : w'.ledger = w.ledger.publish lo hi) (hh : w'.high = w.high)
    (ho : ∀ s, lo ≤ s → s < hi → w.ledger.owner s = some p)

/-- An atomic step of producer `p` changes the ledger at most by one grant to it or one publication of what it holds; the
sequences and the gating set stay. -/
theorem step_producer (h : w.Books b) {p : Nat} (hs : w.step b (.step p) = some w') :
    w'.sequences = w.sequences ∧ w'.gatingSequences = w.gatingSequences ∧ w.cursor ≤ w'.cursor ∧
      w'.poisoned = w.poisoned ∧ LedgerMove p w w' := by
  cases rule_of_step hs with
  | @single w w' _ hr =>
    cases hr with | @step m' pc' e hst =>
    have hI : SingleBooks b w := h
    have hpc := hI.pc
    rcases singleStep_cases hst with ⟨rfl, ⟨hcur, hgat, hnext, hpois⟩, -⟩ | ⟨c, he, rfl, rfl, rfl⟩ |
      ⟨c, hc, rfl, hm, -, -, hfrom⟩ | ⟨high, he, rfl, rfl, rfl⟩
    · exact ⟨rfl, hgat, le_of_eq hcur.symm, hpois, .same rfl hnext⟩
    · rw [he] at hpc
      exact ⟨rfl, rfl, le_of_eq hpc.2.symm, rfl, .same rfl rfl⟩
    · have hn : 1 ≤ c.n := (hI.grants hc (hfrom.imp And.left fun hp => ⟨_, hp⟩)).1.one_le hc
      have hnext : m'.nextValue = w.sequencer.nextValue + c.n := by rw [hm]
      have hcur : m'.cursor = w.sequencer.cursor := by rw [hm]
      have hgat : m'.gatingSequences = w.sequencer.gatingSequences := by rw [hm]
      have hpois : m'.poisoned = w.sequencer.poisoned := by rw [hm]
      exact ⟨rfl, hgat, le_of_eq hcur.symm, hpois, .grant c.n hn rfl hnext⟩
    · obtain ⟨hgt, -, hall⟩ := hI.publishing he
      exact ⟨rfl, rfl, le_of_lt hgt, rfl, .publish _ _ rfl rfl hall⟩
  | @multi w w' _ hr =>
    cases hr with | @step _ m' pc' e hst =>
    have hI : MultiBooks b w := h
    have hpc := hI.pcs p
    rcases claimStep_cases hst with ⟨rfl, rfl⟩ | ⟨c, current, minimum, he, rfl, rfl⟩ | ⟨c, he, rfl, rfl⟩ |
      ⟨lo, hi, hpub, rfl⟩
    · exact ⟨rfl, rfl, le_rfl, rfl, .same rfl rfl⟩
    · exact ⟨rfl, rfl, le_rfl, rfl, .same rfl rfl⟩
    · rw [he] at hpc
      have hn : 1 ≤ c.n := hpc.2
      exact ⟨rfl, rfl, by simp only [cursor]; omega, rfl, .grant c.n hn rfl rfl⟩
    · obtain ⟨hm, -⟩ := hpub.marks hI.laid
      obtain ⟨hcur, hgat, -⟩ := hm.sameClaims
      exact ⟨rfl, hgat, le_of_eq hcur.symm, by simp only [poisoned]; rw [hm.frame], .publish lo hi rfl hcur
        (hI.owned hpub)⟩

/-- The other steps leave the ledger alone; only `advance` changes a sequence. -/
theorem step_other (ha : a.KeepsGating) (hp : ∀ p, a ≠ .step p) (hs : w.step b a = some w') :
    w'.ledger = w.ledger ∧ w'.high = w.high ∧ w'.cursor = w.cursor ∧ w'.gatingSequences = w.gatingSequences ∧
      (w.poisoned = true → w'.poisoned = true) ∧ (∀ i, w.sequences i ≤ w'.sequences i) ∧
      ((∀ i v, a ≠ .advance i v) → w'.sequences = w.sequences) := by
  cases rule_of_step hs with
  | single hr =>
    cases hr with
    | step => exact absurd rfl (hp _)
    | addGatingSequences | removeGatingSequence => exact ha.elim
    | advance hle => exact ⟨rfl, rfl, rfl, rfl, id, le_update hle, fun h => absurd rfl (h _ _)⟩
    | call | publish | publishRange | close | reopen =>
      exact ⟨rfl, rfl, rfl, rfl, id, fun _ => le_rfl, fun _ => rfl⟩
    | poison => exact ⟨rfl, rfl, rfl, rfl, fun _ => rfl, fun _ => le_rfl, fun _ => rfl⟩
  | multi hr =>
    cases hr with
    | step => exact absurd rfl (hp _)
    | addGatingSequences | removeGatingSequence => exact ha.elim
    | advance hle => exact ⟨rfl, rfl, rfl, rfl, id, le_update hle, fun h => absurd rfl (h _ _)⟩
    | call | publish | publishRange | close | reopen =>
      exact ⟨rfl, rfl, rfl, rfl, id, fun _ => le_rfl, fun _ => rfl⟩
    | poison => exact ⟨rfl, rfl, rfl, rfl, fun _ => rfl, fun _ => le_rfl, fun _ => rfl⟩

end SequencerWorld

end BadBatch
