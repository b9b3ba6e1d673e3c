import BadBatch.Verification.Cursor
import Mathlib.Data.Finset.Lattice.Fold

/-!
# `BadBatchPipeline.tla`

A single producer and two stages of consumers: a reader of the second stage enters an event when every reader of the first
stage has left it, and the producer looks at both stages (`MinAllReads`).

Proved for all nonempty sets of readers, every size from 1 on and every number of events (`pipeline_spec_correct`). The model is
a relay with a cursor in which the second stage waits for the first.
-/

namespace BadBatch.Verification.Pipeline

open BadBatchRingBuffer Temporal

variable {S₁ S₂ W : Type}

/-- `vars` -/
structure State (S₁ S₂ W : Type) where
  ringbuffer : BadBatchRingBuffer (S₁ ⊕ S₂) W
  published : Int
  read1 : S₁ → Int
  read2 : S₂ → Int
  consumed1 : S₁ → List (Option Int)
  consumed2 : S₂ → List (Option Int)
  pc : W ⊕ (S₁ ⊕ S₂) → Pc

/-- `Init` -/
def init : State S₁ S₂ W where
  ringbuffer := .init
  published := -1
  read1 := fun _ => -1
  read2 := fun _ => -1
  consumed1 := fun _ => []
  consumed2 := fun _ => []
  pc := fun _ => .access

namespace State

variable [Fintype S₁] [Fintype S₂] [Nonempty S₁] [Nonempty S₂] (st : State S₁ S₂ W)

/-- `MinStage1` -/
def minStage1 : Int := Finset.univ.inf' Finset.univ_nonempty st.read1

/-- `MinStage2` -/
def minStage2 : Int := Finset.univ.inf' Finset.univ_nonempty st.read2

/-- `MinAllReads` -/
def minAllReads : Int := if st.minStage1 ≤ st.minStage2 then st.minStage1 else st.minStage2

end State

inductive StageAction (S₁ S₂ W : Type)
  | beginWrite (writer : W)
  | endWrite (writer : W)
  | beginReadStage1 (reader : S₁)
  | endReadStage1 (reader : S₁)
  | beginReadStage2 (reader : S₂)
  | endReadStage2 (reader : S₂)
  deriving DecidableEq, Repr

section Actions

variable [DecidableEq S₁] [DecidableEq S₂] [DecidableEq W] [Fintype S₁] [Fintype S₂] [Nonempty S₁] [Nonempty S₂]
  (size maxPublished : Int) (st : State S₁ S₂ W)

/-- `BeginWrite` -/
def beginWrite (writer : W) : Option (State S₁ S₂ W) :=
  let next := st.published + 1
  if next - size ≤ st.minAllReads ∧ next < maxPublished ∧ st.pc (.inl writer) = .access then
    some { st with
      pc := Function.update st.pc (.inl writer) .advance
      ringbuffer := st.ringbuffer.write (indexOf size next) writer next }
  else none

/-- `EndWrite` -/
def endWrite (writer : W) : Option (State S₁ S₂ W) :=
  let next := st.published + 1
  if st.pc (.inl writer) = .advance then
    some { st with
      pc := Function.update st.pc (.inl writer) .access
      ringbuffer := st.ringbuffer.endWrite (indexOf size next) writer
      published := next }
  else none

/-- `BeginReadStage1` -/
def beginReadStage1 (reader : S₁) : Option (State S₁ S₂ W) :=
  let next := st.read1 reader + 1
  let index := indexOf size next
  if next ≤ st.published ∧ st.pc (.inr (.inl reader)) = .access then
    some { st with
      pc := Function.update st.pc (.inr (.inl reader)) .advance
      ringbuffer := st.ringbuffer.beginRead index (.inl reader)
      consumed1 := Function.update st.consumed1 reader (st.consumed1 reader ++ [st.ringbuffer.read index]) }
  else none

/-- `EndReadStage1` -/
def endReadStage1 (reader : S₁) : Option (State S₁ S₂ W) :=
  let next := st.read1 reader + 1
  if st.pc (.inr (.inl reader)) = .advance then
    some { st with
      pc := Function.update st.pc (.inr (.inl reader)) .access
      ringbuffer := st.ringbuffer.endRead (indexOf size next) (.inl reader)
      read1 := Function.update st.read1 reader next }
  else none

/-- `BeginReadStage2` -/
def beginReadStage2 (reader : S₂) : Option (State S₁ S₂ W) :=
  let next := st.read2 reader + 1
  let index := indexOf size next
  if next ≤ st.published ∧ next ≤ st.minStage1 ∧ st.pc (.inr (.inr reader)) = .access then
    some { st with
      pc := Function.update st.pc (.inr (.inr reader)) .advance
      ringbuffer := st.ringbuffer.beginRead index (.inr reader)
      consumed2 := Function.update st.consumed2 reader (st.consumed2 reader ++ [st.ringbuffer.read index]) }
  else none

/-- `EndReadStage2` -/
def endReadStage2 (reader : S₂) : Option (State S₁ S₂ W) :=
  let next := st.read2 reader + 1
  if st.pc (.inr (.inr reader)) = .advance then
    some { st with
      pc := Function.update st.pc (.inr (.inr reader)) .access
      ringbuffer := st.ringbuffer.endRead (indexOf size next) (.inr reader)
      read2 := Function.update st.read2 reader next }
  else none

/-- One action of `Next`. -/
def step : StageAction S₁ S₂ W → Option (State S₁ S₂ W)
  | .beginWrite writer => beginWrite size maxPublished st writer
  | .endWrite writer => endWrite size st writer
  | .beginReadStage1 reader => beginReadStage1 size st reader
  | .endReadStage1 reader => endReadStage1 size st reader
  | .beginReadStage2 reader => beginReadStage2 size st reader
  | .endReadStage2 reader => endReadStage2 size st reader

/-- `Spec` -/
structure Spec (run : ℕ → State S₁ S₂ W) : Prop where
  init : run 0 = init
  next : Steps (fun st st' => ∃ a, step size maxPublished st a = some st') run
  fairness : ∀ a, WeakFair (fun st st' => step size maxPublished st a = some st') run

end Actions

/-- `TypeOk`, as far as it is not a matter of types here. -/
def TypeOk (st : State S₁ S₂ W) : Prop :=
  (∀ r, ∀ x ∈ st.consumed1 r, ∃ n : Nat, x = some (n : Int)) ∧ ∀ r, ∀ x ∈ st.consumed2 r, ∃ n : Nat, x = some (n : Int)

/-- `DependencyOrder` -/
def DependencyOrder (st : State S₁ S₂ W) : Prop := ∀ s₂ s₁, st.read2 s₂ ≤ st.read1 s₁

/-- What `Liveness` says of the end of the second stage, and the same of the first. -/
def Finished (maxPublished : Int) (st : State S₁ S₂ W) : Prop :=
  (∀ r, st.consumed2 r = firstSequences maxPublished.toNat) ∧ ∀ r, st.consumed1 r = firstSequences maxPublished.toNat

/-! ## The view -/

/-- The second stage waits for the first. -/
def before : S₁ ⊕ S₂ → S₁ ⊕ S₂ → Prop
  | .inl _, .inr _ => True
  | _, _ => False

def State.view [Unique W] (st : State S₁ S₂ W) : Relay (S₁ ⊕ S₂) W :=
  cursorView st.ringbuffer st.published (Sum.elim st.read1 st.read2) (Sum.elim st.consumed1 st.consumed2) st.pc

def StageAction.toAction : StageAction S₁ S₂ W → Action (S₁ ⊕ S₂) W
  | beginWrite w => .beginWrite w
  | endWrite w => .endWrite w
  | beginReadStage1 r => .beginRead (.inl r)
  | endReadStage1 r => .endRead (.inl r)
  | beginReadStage2 r => .beginRead (.inr r)
  | endReadStage2 r => .endRead (.inr r)

theorem toAction_surjective : Function.Surjective (StageAction.toAction : StageAction S₁ S₂ W → Action (S₁ ⊕ S₂) W) := by
  intro a
  rcases a with w | w | (r | r) | (r | r)
  · exact ⟨.beginWrite w, rfl⟩
  · exact ⟨.endWrite w, rfl⟩
  · exact ⟨.beginReadStage1 r, rfl⟩
  · exact ⟨.beginReadStage2 r, rfl⟩
  · exact ⟨.endReadStage1 r, rfl⟩
  · exact ⟨.endReadStage2 r, rfl⟩

section Steps

variable {size maxPublished x : Int} {st st' : State S₁ S₂ W}

theorem le_minStage1 [Fintype S₁] [Nonempty S₁] : x ≤ st.minStage1 ↔ ∀ r, x ≤ st.read1 r := by
  simp [State.minStage1, Finset.le_inf'_iff]

theorem le_minStage2 [Fintype S₂] [Nonempty S₂] : x ≤ st.minStage2 ↔ ∀ r, x ≤ st.read2 r := by
  simp [State.minStage2, Finset.le_inf'_iff]

theorem le_minAllReads [Fintype S₁] [Fintype S₂] [Nonempty S₁] [Nonempty S₂] :
    x ≤ st.minAllReads ↔ ∀ r, x ≤ Sum.elim st.read1 st.read2 r := by
  rw [Sum.forall]
  simp only [Sum.elim_inl, Sum.elim_inr, ← le_minStage1, ← le_minStage2, State.minAllReads]
  split
  · exact ⟨fun h => ⟨h, by omega⟩, fun h => h.1⟩
  · exact ⟨fun h => ⟨by omega, h⟩, fun h => h.2⟩

theorem view_init [Unique W] : (init : State S₁ S₂ W).view = .init := by
  have hread : Sum.elim (fun _ : S₁ => (-1 : Int)) (fun _ : S₂ => -1) = fun _ => -1 := by
    funext r
    cases r <;> rfl
  have hconsumed : Sum.elim (fun _ : S₁ => ([] : List (Option Int))) (fun _ : S₂ => []) = fun _ => [] := by
    funext r
    cases r <;> rfl
  simp only [State.view, init, hread, hconsumed]
  exact cursorView_init

variable [DecidableEq S₁] [DecidableEq S₂] [DecidableEq W] [Fintype S₁] [Fintype S₂] [Nonempty S₁] [Nonempty S₂] [Unique W]

/-- The actions are those of a relay in which the second stage waits for the first. -/
theorem view_step (a : StageAction S₁ S₂ W) :
    (step size maxPublished st a).map State.view = Relay.step before size maxPublished st.view a.toAction := by
  cases a with
  | beginWrite w =>
    simp only [step, beginWrite, le_minAllReads, State.view, StageAction.toAction]
    split
    · rename_i hg
      exact (cursorView_beginWrite hg.2.2 hg.2.1 hg.1).symm
    · rename_i hg
      exact (cursorView_beginWrite_eq_none hg).symm
  | endWrite w =>
    simp only [step, endWrite, State.view, StageAction.toAction]
    rcases hpc : st.pc (.inl w) with _ | _
    · exact (cursorView_endWrite_of_access hpc).symm
    · exact (cursorView_endWrite hpc).symm
  | beginReadStage1 r =>
    simp only [step, beginReadStage1, State.view, StageAction.toAction]
    split
    · rename_i hg
      rw [cursorView_beginRead hg.2 hg.1 (by rintro (d | d) hd <;> exact hd.elim), Sum.update_elim_inl]
      rfl
    · rename_i hg
      refine (cursorView_beginRead_eq_none ?_).symm
      rintro ⟨⟨hopen, -⟩, hpc⟩
      exact hg ⟨hopen, hpc⟩
  | endReadStage1 r =>
    simp only [step, endReadStage1, State.view, StageAction.toAction]
    rcases hpc : st.pc (.inr (.inl r)) with _ | _
    · exact (cursorView_endRead_of_access hpc).symm
    · rw [cursorView_endRead hpc, Sum.update_elim_inl]
      rfl
  | beginReadStage2 r =>
    simp only [step, beginReadStage2, le_minStage1, State.view, StageAction.toAction]
    split
    · rename_i hg
      have hbefore : ∀ d, before d (.inr r) → st.read2 r + 1 ≤ Sum.elim st.read1 st.read2 d := by
        rintro (d | d) hd
        · exact hg.2.1 d
        · exact hd.elim
      rw [cursorView_beginRead hg.2.2 hg.1 hbefore, Sum.update_elim_inr]
      rfl
    · rename_i hg
      refine (cursorView_beginRead_eq_none ?_).symm
      rintro ⟨⟨hopen, hbefore⟩, hpc⟩
      exact hg ⟨hopen, fun d => hbefore (.inl d) trivial, hpc⟩
  | endReadStage2 r =>
    simp only [step, endReadStage2, State.view, StageAction.toAction]
    rcases hpc : st.pc (.inr (.inr r)) with _ | _
    · exact (cursorView_endRead_of_access hpc).symm
    · rw [cursorView_endRead hpc, Sum.update_elim_inr]
      rfl

/-- `BadBatchPipeline` is a relay. -/
def seen (S₁ S₂ W : Type) [DecidableEq S₁] [DecidableEq S₂] [DecidableEq W] [Fintype S₁] [Fintype S₂] [Nonempty S₁]
    [Nonempty S₂] [Unique W] (size maxPublished : Int) :
    Seen (R := S₁ ⊕ S₂) (W := W) (step size maxPublished) (init : State S₁ S₂ W) before size maxPublished where
  view := State.view
  action := StageAction.toAction
  surjective := toAction_surjective
  Ok := fun _ => True
  ok_init := trivial
  view_init := view_init
  ok_step _ _ _ := trivial
  commutes a _ _ := view_step a

/-- **`BadBatchPipeline` for all constants that mean something.** In every behaviour of `Spec`, for any nonempty sets of
consumers on the two stages, a ring of one slot or more and any number of events, `TypeOk`, `NoDataRaces` and
`DependencyOrder` hold in every state, and from some state on every consumer of either stage has read every event, once and
in order. -/
theorem pipeline_spec_correct (hsize : 1 ≤ size) {run : ℕ → State S₁ S₂ W} (h : Spec size maxPublished run) :
    (∀ n, TypeOk (run n) ∧ NoDataRaces size (run n).ringbuffer ∧ DependencyOrder (run n)) ∧
      EventuallyAlways run (Finished maxPublished) := by
  -- the stages as numbers
  have hstage : ∀ d r : S₁ ⊕ S₂, before d r → Sum.elim (fun _ => 0) (fun _ => 1) d < Sum.elim (fun _ => 0) (fun _ => 1) r := by
    rintro (d | d) (r | r) hd
    · exact hd.elim
    · exact Nat.zero_lt_one
    · exact hd.elim
    · exact hd.elim
  obtain ⟨hinv, n, hend⟩ := (seen S₁ S₂ W size maxPublished).correct _ hstage hsize h.init h.next h.fairness
  refine ⟨fun n => ?_, n, fun m hm => ⟨fun r => hend m hm (.inr r), fun r => hend m hm (.inl r)⟩⟩
  obtain ⟨-, hrelay⟩ := hinv n
  refine ⟨⟨fun r x hx => ?_, fun r x hx => ?_⟩, hrelay.noDataRaces, fun s₂ s₁ => hrelay.order (.inl s₁) (.inr s₂) trivial⟩
  · exact hrelay.consumed_nat (r := Sum.inl r) hx
  · exact hrelay.consumed_nat (r := Sum.inr r) hx

end Steps

/-- Two consumers on the first stage, one on the second, one event. -/
theorem pipeline_spec_correct_one : ∃ run : ℕ → State Bool Unit Unit, Spec 1 1 run ∧
    (∀ n, TypeOk (run n) ∧ NoDataRaces 1 (run n).ringbuffer ∧ DependencyOrder (run n)) ∧
      EventuallyAlways run (Finished 1) := by
  have hspec : Spec 1 1 (play (step 1 1) (init : State Bool Unit Unit) [.beginWrite (), .endWrite (),
      .beginReadStage1 true, .beginReadStage1 false, .endReadStage1 true, .endReadStage1 false, .beginReadStage2 (),
      .endReadStage2 ()]) := by
    constructor
    · rfl
    · apply steps_play
      intro s s' a _ hs
      exact ⟨a, hs⟩
    · intro a
      apply weakFair_play
      rintro ⟨s', hs', -⟩
      rcases a with w | w | (_ | _) | (_ | _) | r | r <;> cases hs'
  exact ⟨_, hspec, pipeline_spec_correct (by decide) hspec⟩

end BadBatch.Verification.Pipeline
