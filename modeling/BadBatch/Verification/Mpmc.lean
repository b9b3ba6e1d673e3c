import BadBatch.Verification.Relay
import Mathlib.Data.Finset.Lattice.Fold
import Mathlib.Data.Fintype.Sum

/-!
# `BadBatchMPMC.tla`

Many producers, many consumers, one event each at a time. A writer claims the next sequence and writes its slot (`BeginWrite`),
then publishes it by flipping the parity flag of the slot (`EndWrite`); a reader enters the slot of its next sequence once the
flag shows the parity of its round (`BeginRead`), and leaves it (`EndRead`).

TLC checks `TypeOk`, `NoDataRaces` and `Liveness` for the constants of its configurations. Here they are proved for all finite
nonempty sets of writers and readers, every size from 1 on and every number of events (`mpmc_spec_correct`). The model is a
relay whose flags tell what is held: within the last lap, exactly the sequences that nobody holds have the parity of their
round (`FlagsOk`).
-/

namespace BadBatch.Verification.MPMC

open BadBatchRingBuffer Temporal

variable {R W : Type}

/-- `vars` -/
structure State (R W : Type) where
  ringbuffer : BadBatchRingBuffer R W
  nextSequence : Int
  claimedSequence : W → Int
  published : Int → Bool
  read : R → Int
  consumed : R → List (Option Int)
  pc : W ⊕ R → Pc

/-- `Init` -/
def init : State R W where
  ringbuffer := .init
  nextSequence := 0
  claimedSequence := fun _ => -1
  published := fun _ => false
  read := fun _ => -1
  consumed := fun _ => []
  pc := fun _ => .access

namespace State

/-- `MinReadSequence` -/
def minReadSequence [Fintype R] [Nonempty R] (st : State R W) : Int := Finset.univ.inf' Finset.univ_nonempty st.read

/-- `IsPublished`: the flag is true when the slot was last published in an even round. -/
def isPublished (size : Int) (st : State R W) (sequence : Int) : Bool :=
  st.published (indexOf size sequence) == decide (sequence / size % 2 = 0)

/-- `Publish` -/
def publish (size : Int) (st : State R W) (sequence : Int) : Int → Bool :=
  Function.update st.published (indexOf size sequence) (!st.published (indexOf size sequence))

end State

section Actions

variable [DecidableEq R] [DecidableEq W] [Fintype R] [Nonempty R] (size maxPublished : Int) (st : State R W)

/-- `BeginWrite` -/
def beginWrite (writer : W) : Option (State R W) :=
  let seq := st.nextSequence
  if seq - size ≤ st.minReadSequence ∧ seq < maxPublished ∧ st.pc (.inl writer) = .access then
    some { st with
      claimedSequence := Function.update st.claimedSequence writer seq
      nextSequence := seq + 1
      pc := Function.update st.pc (.inl writer) .advance
      ringbuffer := st.ringbuffer.write (indexOf size seq) writer seq }
  else none

/-- `EndWrite` -/
def endWrite (writer : W) : Option (State R W) :=
  let seq := st.claimedSequence writer
  if st.pc (.inl writer) = .advance then
    some { st with
      pc := Function.update st.pc (.inl writer) .access
      ringbuffer := st.ringbuffer.endWrite (indexOf size seq) writer
      published := st.publish size seq }
  else none

/-- `BeginRead` -/
def beginRead (reader : R) : Option (State R W) :=
  let next := st.read reader + 1
  let index := indexOf size next
  if st.isPublished size next = true ∧ st.pc (.inr reader) = .access then
    some { st with
      pc := Function.update st.pc (.inr reader) .advance
      ringbuffer := st.ringbuffer.beginRead index reader
      consumed := Function.update st.consumed reader (st.consumed reader ++ [st.ringbuffer.read index]) }
  else none

/-- `EndRead` -/
def endRead (reader : R) : Option (State R W) :=
  let next := st.read reader + 1
  if st.pc (.inr reader) = .advance then
    some { st with
      pc := Function.update st.pc (.inr reader) .access
      ringbuffer := st.ringbuffer.endRead (indexOf size next) reader
      read := Function.update st.read reader next }
  else none

/-- One action of `Next`. -/
def step : Action R W → Option (State R W)
  | .beginWrite writer => beginWrite size maxPublished st writer
  | .endWrite writer => endWrite size st writer
  | .beginRead reader => beginRead size st reader
  | .endRead reader => endRead size st reader

/-- `Spec` -/
structure Spec (run : ℕ → State R W) : Prop where
  init : run 0 = init
  next : Steps (fun st st' => ∃ a, step size maxPublished st a = some st') run
  fairness : ∀ a, WeakFair (fun st st' => step size maxPublished st a = some st') run

end Actions

/-- `TypeOk`, as far as it is not a matter of types here. -/
def TypeOk (st : State R W) : Prop := 0 ≤ st.nextSequence ∧ ∀ r, ∀ x ∈ st.consumed r, ∃ n : Nat, x = some (n : Int)

/-! ## The view -/

namespace State

/-- The sequence that a writer holds. -/
def writing (st : State R W) (w : W) : Option Int :=
  match st.pc (.inl w) with
  | .access => none
  | .advance => some (st.claimedSequence w)

/-- Who holds what, and who is inside of what. -/
def view (st : State R W) : Relay R W where
  next := st.nextSequence
  writing := st.writing
  read := st.read
  reading := fun r => st.pc (.inr r) == .advance
  ringbuffer := st.ringbuffer
  consumed := st.consumed

end State

/-- The flags of the last lap show what nobody holds. -/
def FlagsOk (size : Int) (st : State R W) : Prop :=
  ∀ s, st.nextSequence - size ≤ s → s < st.nextSequence → (st.isPublished size s = true ↔ ∀ w, st.writing w ≠ some s)

variable {size maxPublished s : Int} {st st' : State R W} {w : W} {r : R}

theorem flagsOk_init (hsize : 1 ≤ size) : FlagsOk size (init : State R W) := by
  intro s h1 h2
  simp only [init] at h1 h2
  -- one lap back from the first sequences, an odd round
  have hround : s / size = -1 := by
    have hzero : (s + size) / size = 0 := Int.ediv_eq_zero_of_lt (by omega) (by omega)
    rw [Int.add_ediv_of_dvd_right (dvd_refl size), Int.ediv_self (by omega)] at hzero
    omega
  simp [State.isPublished, State.writing, init, hround]

/-- One lap on, the flag of a slot means the opposite. -/
theorem isPublished_sub (hsize : 1 ≤ size) (st : State R W) (s : Int) :
    st.isPublished size (s - size) = !st.isPublished size s := by
  have hslot : indexOf size (s - size) = indexOf size s := RingWindow.emod_sub_self
  have hround := RingWindow.lap_sub_parity (n := size) (s := s) (by omega)
  simp only [State.isPublished, hslot, hround]
  rcases Int.emod_two_eq_zero_or_one (s / size) with hp | hp <;> cases st.published (indexOf size s) <;> simp [hp]

/-- The flag of a slot that was not touched. -/
theorem isPublished_publish {t next : Int} {rb : BadBatchRingBuffer R W} {claimed : W → Int} {read : R → Int}
    {consumed : R → List (Option Int)} {pcs : W ⊕ R → Pc} (h : indexOf size s ≠ indexOf size t) :
    State.isPublished size ⟨rb, next, claimed, st.publish size t, read, consumed, pcs⟩ s = st.isPublished size s := by
  simp only [State.isPublished, State.publish, Function.update_of_ne h]

theorem writing_eq_none : st.writing w = none ↔ st.pc (.inl w) = .access := by
  unfold State.writing
  cases st.pc (.inl w) <;> simp

theorem writing_eq_some : st.writing w = some s ↔ st.pc (.inl w) = .advance ∧ s = st.claimedSequence w := by
  unfold State.writing
  cases st.pc (.inl w) <;> simp [eq_comm]

variable {before : R → R → Prop}

/-- A writer that holds the sequence one lap behind the next one keeps everybody from claiming. -/
theorem held_lap [Nonempty R] (h : Relay.Inv before size maxPublished st.view)
    (hlap : ∀ r, st.nextSequence - size ≤ st.read r) (w : W) : st.writing w ≠ some (st.nextSequence - size) := by
  intro hw
  obtain ⟨r⟩ := ‹Nonempty R›
  have h1 : st.read r < st.nextSequence - size := (h.writing w _ hw).2 r
  have h2 := hlap r
  omega

/-- The flag of the next event of a reader is set exactly when the event is claimed and not held. -/
theorem isPublished_next (hsize : 1 ≤ size) (hflags : FlagsOk size st) (h : Relay.Inv before size maxPublished st.view) :
    st.isPublished size (st.read r + 1) = true ↔
      st.read r + 1 < st.nextSequence ∧ ∀ w, st.writing w ≠ some (st.read r + 1) := by
  have hread : st.read r < st.nextSequence := (h.read r).2
  have hlap : st.nextSequence ≤ st.read r + 1 + size := h.lap r
  by_cases hlt : st.read r + 1 < st.nextSequence
  · rw [hflags _ (by omega) hlt]
    exact ⟨fun hno => ⟨hlt, hno⟩, fun hboth => hboth.2⟩
  · refine ⟨fun hpub => ?_, fun hboth => absurd hboth.1 hlt⟩
    -- the flag is the one of the lap before, which the reader has passed
    have hprev : st.isPublished size (st.read r + 1 - size) = false := by
      rw [isPublished_sub hsize, hpub]
      rfl
    have hheld : ¬∀ w, st.writing w ≠ some (st.read r + 1 - size) := by
      rw [← hflags _ (by omega) (by omega), hprev]
      simp
    push Not at hheld
    obtain ⟨w, hw⟩ := hheld
    have : st.read r < st.read r + 1 - size := (h.writing w _ hw).2 r
    omega

section Steps

theorem le_minReadSequence [Fintype R] [Nonempty R] {x : Int} : x ≤ st.minReadSequence ↔ ∀ r, x ≤ st.read r := by
  simp [State.minReadSequence, Finset.le_inf'_iff]

variable [DecidableEq R] [DecidableEq W] {rb : BadBatchRingBuffer R W} {next : Int} {published : Int → Bool} {read : R → Int}
  {consumed : R → List (Option Int)} {claimed : W → Int} {pc : Pc}

theorem writing_advance :
    State.writing ⟨rb, next, Function.update st.claimedSequence w s, published, read, consumed,
      Function.update st.pc (.inl w) .advance⟩ = Function.update st.writing w (some s) := by
  funext w'
  by_cases h : w' = w
  · subst h
    simp [State.writing]
  · simp [State.writing, h]

theorem writing_access :
    State.writing ⟨rb, next, st.claimedSequence, published, read, consumed, Function.update st.pc (.inl w) .access⟩ =
      Function.update st.writing w none := by
  funext w'
  by_cases h : w' = w
  · subst h
    simp [State.writing]
  · simp [State.writing, h]

theorem writing_reader :
    State.writing ⟨rb, next, st.claimedSequence, published, read, consumed, Function.update st.pc (.inr r) pc⟩ =
      st.writing := by
  funext w
  simp [State.writing]

theorem reading_writer :
    (fun r => Function.update st.pc (.inl w) pc (.inr r) == .advance) = fun r => st.pc (.inr r) == .advance := by
  funext r
  simp

theorem reading_reader :
    (fun r' => Function.update st.pc (.inr r) pc (.inr r') == .advance) =
      Function.update (fun r' => st.pc (.inr r') == .advance) r (pc == .advance) := by
  funext r'
  by_cases h : r' = r
  · subst h
    simp
  · simp [h]

variable [Fintype R] [Nonempty R]

/-- The actions are those of a relay in which no reader waits for another. -/
theorem view_step (hsize : 1 ≤ size) (hflags : FlagsOk size st)
    (h : Relay.Inv (fun _ _ => False) size maxPublished st.view) (a : Action R W) :
    (step size maxPublished st a).map State.view = Relay.step (fun _ _ => False) size maxPublished st.view a := by
  cases a with
  | beginWrite w =>
    have hguard : (st.nextSequence - size ≤ st.minReadSequence ∧ st.nextSequence < maxPublished ∧ st.pc (.inl w) = .access) ↔
        (st.view.writing w = none ∧ st.view.next < maxPublished ∧ ∀ r, st.view.next - size ≤ st.view.read r) := by
      rw [le_minReadSequence, State.view, writing_eq_none]
      tauto
    simp only [step, beginWrite, Relay.step]
    by_cases hg : st.nextSequence - size ≤ st.minReadSequence ∧ st.nextSequence < maxPublished ∧ st.pc (.inl w) = .access
    · rw [if_pos hg, if_pos (hguard.mp hg), Option.map_some]
      simp only [State.view, writing_advance, reading_writer]
    · rw [if_neg hg, if_neg (mt hguard.mpr hg), Option.map_none]
  | endWrite w =>
    simp only [step, endWrite, Relay.step]
    rcases hpc : st.pc (.inl w) with _ | _
    · have hw : st.view.writing w = none := writing_eq_none.mpr hpc
      rw [if_neg (by simp), hw]
      rfl
    · have hw : st.view.writing w = some (st.claimedSequence w) := writing_eq_some.mpr ⟨hpc, rfl⟩
      rw [if_pos rfl, hw, Option.map_some, Option.map_some]
      simp only [State.view, writing_access, reading_writer]
  | beginRead r =>
    have hguard : (st.isPublished size (st.read r + 1) = true ∧ st.pc (.inr r) = .access) ↔
        (st.view.reading r = false ∧ st.view.Open (fun _ _ => False) r) := by
      rw [isPublished_next hsize hflags h, Relay.Open]
      cases hpc : st.pc (.inr r) <;> simp [State.view, hpc]
    simp only [step, beginRead, Relay.step]
    by_cases hg : st.isPublished size (st.read r + 1) = true ∧ st.pc (.inr r) = .access
    · rw [if_pos hg, if_pos (hguard.mp hg), Option.map_some]
      simp only [State.view, writing_reader, reading_reader]
      rfl
    · rw [if_neg hg, if_neg (mt hguard.mpr hg), Option.map_none]
  | endRead r =>
    simp only [step, endRead, Relay.step]
    rcases hpc : st.pc (.inr r) with _ | _
    · rw [if_neg (by simp), if_neg (by simp [State.view, hpc])]
      rfl
    · rw [if_pos rfl, if_pos (by simp [State.view, hpc]), Option.map_some]
      simp only [State.view, writing_reader, reading_reader]
      rfl

/-- **Step lemma** of the flags. -/
theorem flagsOk_step {a : Action R W} (hsize : 1 ≤ size) (hflags : FlagsOk size st)
    (h : Relay.Inv before size maxPublished st.view) (hs : step size maxPublished st a = some st') : FlagsOk size st' := by
  cases a with
  | beginWrite w =>
    simp only [step, beginWrite, Option.ite_none_right_eq_some, Option.some.injEq, le_minReadSequence] at hs
    obtain ⟨⟨hlap, -, hpc⟩, rfl⟩ := hs
    intro s h1 h2
    dsimp only at h1 h2
    rw [writing_advance]
    change st.isPublished size s = true ↔ _
    by_cases he : s = st.nextSequence
    · subst he
      have hprev : st.isPublished size (st.nextSequence - size) = true :=
        (hflags _ le_rfl (by omega)).mpr (held_lap h hlap)
      rw [isPublished_sub hsize] at hprev
      constructor
      · intro hp
        rw [hp] at hprev
        cases hprev
      · intro hno
        exact absurd (Function.update_self ..) (hno w)
    · rw [hflags s (by omega) (by omega)]
      constructor
      · intro hno w' hw'
        rcases Relay.update_some_eq_some hw' with ⟨-, heq⟩ | ⟨-, hold⟩
        · exact he heq
        · exact hno w' hold
      · intro hno w' hold
        have hne : w' ≠ w := by
          rintro rfl
          rw [writing_eq_none.mpr hpc] at hold
          cases hold
        exact hno w' (by rw [Function.update_of_ne hne]; exact hold)
  | endWrite w =>
    simp only [step, endWrite, Option.ite_none_right_eq_some, Option.some.injEq] at hs
    obtain ⟨hpc, rfl⟩ := hs
    have hw : st.writing w = some (st.claimedSequence w) := writing_eq_some.mpr ⟨hpc, rfl⟩
    obtain ⟨hlow, hhigh⟩ : st.nextSequence - size ≤ st.claimedSequence w ∧ st.claimedSequence w < st.nextSequence :=
      h.writing_window hw
    intro s h1 h2
    dsimp only at h1 h2
    rw [writing_access]
    by_cases he : s = st.claimedSequence w
    · subst he
      have hwas : st.isPublished size (st.claimedSequence w) = false := by
        rw [Bool.eq_false_iff]
        intro hp
        exact (hflags _ h1 h2).mp hp w hw
      refine ⟨fun _ w' hw' => ?_, fun _ => ?_⟩
      · obtain ⟨hne, hold⟩ := Relay.update_none_eq_some hw'
        exact hne (h.unique _ _ _ hold hw)
      · simp only [State.isPublished, State.publish, Function.update_self] at hwas ⊢
        cases hf : st.published (indexOf size (st.claimedSequence w)) <;> simp_all
    · have hslot : indexOf size s ≠ indexOf size (st.claimedSequence w) := fun hi =>
        he (RingWindow.eq_of_emod_eq (n := size) hi (by omega) (by omega))
      rw [isPublished_publish hslot, hflags s h1 h2]
      constructor
      · intro hno w' hw'
        exact hno w' (Relay.update_none_eq_some hw').2
      · intro hno w' hold
        have hne : w' ≠ w := by
          rintro rfl
          rw [hw, Option.some.injEq] at hold
          exact he hold.symm
        exact hno w' (by rw [Function.update_of_ne hne]; exact hold)
  | beginRead r =>
    simp only [step, beginRead, Option.ite_none_right_eq_some, Option.some.injEq] at hs
    obtain ⟨-, rfl⟩ := hs
    intro s h1 h2
    rw [writing_reader]
    exact hflags s h1 h2
  | endRead r =>
    simp only [step, endRead, Option.ite_none_right_eq_some, Option.some.injEq] at hs
    obtain ⟨-, rfl⟩ := hs
    intro s h1 h2
    rw [writing_reader]
    exact hflags s h1 h2

/-- `BadBatchMPMC` is a relay. -/
def seen (R W : Type) [DecidableEq R] [DecidableEq W] [Fintype R] [Nonempty R] {size : Int} (hsize : 1 ≤ size)
    (maxPublished : Int) :
    Seen (W := W) (step size maxPublished) (init : State R W) (fun _ _ : R => False) size maxPublished where
  view := State.view
  action := id
  surjective := Function.surjective_id
  Ok := FlagsOk size
  ok_init := flagsOk_init hsize
  view_init := by simp [State.view, init, Relay.init, State.writing, funext_iff]
  ok_step := flagsOk_step hsize
  commutes a hflags h := view_step hsize hflags h a

end Steps

/-- What `Liveness` says of the end. -/
def Finished (maxPublished : Int) (st : State R W) : Prop := ∀ r, st.consumed r = firstSequences maxPublished.toNat

/-- **`BadBatchMPMC` for all constants that mean something.** In every behaviour of `Spec`, for any nonempty sets of writers and
readers, a ring of one slot or more and any number of events, `TypeOk` and `NoDataRaces` hold in every state, and from some
state on every reader has read every event, once and in order. -/
theorem mpmc_spec_correct [DecidableEq R] [DecidableEq W] [Fintype R] [Fintype W] [Nonempty R] [Nonempty W] (hsize : 1 ≤ size)
    {run : ℕ → State R W} (h : Spec size maxPublished run) :
    (∀ n, TypeOk (run n) ∧ NoDataRaces size (run n).ringbuffer) ∧ EventuallyAlways run (Finished maxPublished) := by
  obtain ⟨hinv, hend⟩ := (seen R W hsize maxPublished).correct (fun _ => 0) (fun _ _ hd => hd.elim) hsize h.init h.next
    h.fairness
  refine ⟨fun n => ?_, hend⟩
  obtain ⟨-, hrelay⟩ := hinv n
  refine ⟨⟨hrelay.next.1, fun r x hx => ?_⟩, hrelay.noDataRaces⟩
  exact hrelay.consumed_nat hx

/-- One writer, one reader and two events on a ring of one slot. -/
theorem mpmc_spec_correct_two : ∃ run : ℕ → State Unit Unit, Spec 1 2 run ∧
    (∀ n, TypeOk (run n) ∧ NoDataRaces 1 (run n).ringbuffer) ∧ EventuallyAlways run (Finished 2) := by
  have hspec : Spec 1 2 (play (step 1 2) (init : State Unit Unit) [.beginWrite (), .endWrite (), .beginRead (),
      .endRead (), .beginWrite (), .endWrite (), .beginRead (), .endRead ()]) := by
    constructor
    · rfl
    · apply steps_play
      intro s s' a _ hs
      exact ⟨a, hs⟩
    · intro a
      apply weakFair_play
      rintro ⟨s', hs', -⟩
      cases a <;> cases hs'
  exact ⟨_, hspec, mpmc_spec_correct (by decide) hspec⟩

end BadBatch.Verification.MPMC
