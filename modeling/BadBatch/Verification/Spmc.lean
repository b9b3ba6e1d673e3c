import BadBatch.Verification.Cursor
import Mathlib.Data.Finset.Lattice.Fold

/-!
# `BadBatchSPMC.tla`

One producer and many consumers around a cursor: the producer writes the slot after the cursor (`BeginWrite`) and moves the
cursor on (`EndWrite`); a reader enters its next sequence once the cursor has reached it. The model wants a single writer
(`Cardinality(Writers) = 1` in `TypeOk`), here `Unique`.

Proved for every nonempty set of readers, every size from 1 on and every number of events (`spmc_spec_correct`). The model is a
relay in which the only sequence that can be claimed and unpublished is the one after the cursor.
-/

namespace BadBatch.Verification.SPMC

open BadBatchRingBuffer Temporal

variable {R W : Type}

/-- `vars` -/
structure State (R W : Type) where
  ringbuffer : BadBatchRingBuffer R W
  published : Int
  read : R → Int
  consumed : R → List (Option Int)
  pc : W ⊕ R → Pc

/-- `Init` -/
def init : State R W where
  ringbuffer := .init
  published := -1
  read := fun _ => -1
  consumed := fun _ => []
  pc := fun _ => .access

/-- `MinReadSequence` -/
def State.minReadSequence [Fintype R] [Nonempty R] (st : State R W) : Int := Finset.univ.inf' Finset.univ_nonempty st.read

section Actions

variable [DecidableEq R] [DecidableEq W] [Fintype R] [Nonempty R] (size maxPublished : Int) (st : State R W)

/-- `BeginWrite` -/
def beginWrite (writer : W) : Option (State R W) :=
  let next := st.published + 1
  if next - size ≤ st.minReadSequence ∧ next < maxPublished ∧ st.pc (.inl writer) = .access then
    some { st with
      pc := Function.update st.pc (.inl writer) .advance
      ringbuffer := st.ringbuffer.write (indexOf size next) writer next }
  else none

/-- `EndWrite` -/
def endWrite (writer : W) : Option (State R W) :=
  let next := st.published + 1
  if st.pc (.inl writer) = .advance then
    some { st with
      pc := Function.update st.pc (.inl writer) .access
      ringbuffer := st.ringbuffer.endWrite (indexOf size next) writer
      published := next }
  else none

/-- `BeginRead` -/
def beginRead (reader : R) : Option (State R W) :=
  let next := st.read reader + 1
  let index := indexOf size next
  if next ≤ st.published ∧ st.pc (.inr reader) = .access then
    some { st with
      pc := Function.update st.pc (.inr reader) .advance
      ringbuffer := st.ringbuffer.beginRead index reader
      consumed := Function.update st.consumed reader (st.consumed reader ++ [st.ringbuffer.read index]) }
  else none

/-- `EndRead` -/
def endRead (reader : R) : Option (State R W) :=
  let next := st.read reader + 1
  if st.pc (.inr reader) = .advance then
    some { st with
      pc := Function.update st.pc (.inr reader) .access
      ringbuffer := st.ringbuffer.endRead (indexOf size next) reader
      read := Function.update st.read reader next }
  else none

/-- One action of `Next`. -/
def step : Action R W → Option (State R W)
  | .beginWrite writer => beginWrite size maxPublished st writer
  | .endWrite writer => endWrite size st writer
  | .beginRead reader => beginRead size st reader
  | .endRead reader => endRead size st reader

/-- `Spec` -/
structure Spec (run : ℕ → State R W) : Prop where
  init : run 0 = init
  next : Steps (fun st st' => ∃ a, step size maxPublished st a = some st') run
  fairness : ∀ a, WeakFair (fun st st' => step size maxPublished st a = some st') run

end Actions

/-- `TypeOk`, as far as it is not a matter of types here. -/
def TypeOk (st : State R W) : Prop := ∀ r, ∀ x ∈ st.consumed r, ∃ n : Nat, x = some (n : Int)

/-- What `Liveness` says of the end. -/
def Finished (maxPublished : Int) (st : State R W) : Prop := ∀ r, st.consumed r = firstSequences maxPublished.toNat

/-! ## The view -/

def State.view [Unique W] (st : State R W) : Relay R W := cursorView st.ringbuffer st.published st.read st.consumed st.pc

section Steps

variable {size maxPublished s : Int} {st st' : State R W}

theorem le_minReadSequence [Fintype R] [Nonempty R] {x : Int} : x ≤ st.minReadSequence ↔ ∀ r, x ≤ st.read r := by
  simp [State.minReadSequence, Finset.le_inf'_iff]

variable [DecidableEq R] [DecidableEq W] [Fintype R] [Nonempty R] [Unique W]

/-- The actions are those of a relay in which no reader waits for another. -/
theorem view_step (a : Action R W) :
    (step size maxPublished st a).map State.view = Relay.step (fun _ _ => False) size maxPublished st.view a := by
  cases a with
  | beginWrite w =>
    simp only [step, beginWrite, le_minReadSequence, State.view]
    split
    · rename_i hg
      exact (cursorView_beginWrite hg.2.2 hg.2.1 hg.1).symm
    · rename_i hg
      exact (cursorView_beginWrite_eq_none hg).symm
  | endWrite w =>
    simp only [step, endWrite, State.view]
    rcases hpc : st.pc (.inl w) with _ | _
    · exact (cursorView_endWrite_of_access hpc).symm
    · exact (cursorView_endWrite hpc).symm
  | beginRead r =>
    simp only [step, beginRead, State.view]
    split
    · rename_i hg
      exact (cursorView_beginRead hg.2 hg.1 fun _ hd => hd.elim).symm
    · rename_i hg
      exact (cursorView_beginRead_eq_none fun h => hg ⟨h.1.1, h.2⟩).symm
  | endRead r =>
    simp only [step, endRead, State.view]
    rcases hpc : st.pc (.inr r) with _ | _
    · exact (cursorView_endRead_of_access hpc).symm
    · exact (cursorView_endRead hpc).symm

/-- `BadBatchSPMC` is a relay. -/
def seen (R W : Type) [DecidableEq R] [DecidableEq W] [Fintype R] [Nonempty R] [Unique W] (size maxPublished : Int) :
    Seen (W := W) (step size maxPublished) (init : State R W) (fun _ _ : R => False) size maxPublished where
  view := State.view
  action a := a
  surjective a := ⟨a, rfl⟩
  Ok := fun _ => True
  ok_init := trivial
  view_init := cursorView_init
  ok_step _ _ _ := trivial
  commutes a _ _ := view_step a

/-- **`BadBatchSPMC` for all constants that mean something.** In every behaviour of `Spec`, for any nonempty set of readers, a
ring of one slot or more and any number of events, `TypeOk` and `NoDataRaces` hold in every state, and from some state on
every reader has read every event, once and in order. -/
theorem spmc_spec_correct (hsize : 1 ≤ size) {run : ℕ → State R W} (h : Spec size maxPublished run) :
    (∀ n, TypeOk (run n) ∧ NoDataRaces size (run n).ringbuffer) ∧ EventuallyAlways run (Finished maxPublished) := by
  obtain ⟨hinv, hend⟩ := (seen R W size maxPublished).correct (fun _ => 0) (fun _ _ hd => hd.elim) hsize h.init h.next
    h.fairness
  refine ⟨fun n => ?_, hend⟩
  obtain ⟨-, hrelay⟩ := hinv n
  refine ⟨fun r x hx => ?_, hrelay.noDataRaces⟩
  exact hrelay.consumed_nat hx

end Steps

/-- Two readers and one event. -/
theorem spmc_spec_correct_one : ∃ run : ℕ → State Bool Unit, Spec 1 1 run ∧
    (∀ n, TypeOk (run n) ∧ NoDataRaces 1 (run n).ringbuffer) ∧ EventuallyAlways run (Finished 1) := by
  have hspec : Spec 1 1 (play (step 1 1) (init : State Bool Unit) [.beginWrite (), .endWrite (), .beginRead true,
      .beginRead false, .endRead true, .endRead false]) := by
    constructor
    · rfl
    · apply steps_play
      intro s s' a _ hs
      exact ⟨a, hs⟩
    · intro a
      apply weakFair_play
      rintro ⟨s', hs', -⟩
      rcases a with w | w | (_ | _) | (_ | _) <;> cases hs'
  exact ⟨_, hspec, spmc_spec_correct (by decide) hspec⟩

end BadBatch.Verification.SPMC
