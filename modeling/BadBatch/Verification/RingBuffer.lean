import BadBatch.Lib.RingWindow
import Mathlib.Algebra.BigOperators.Group.Finset.Basic
import Mathlib.Data.Finset.Card
import Mathlib.Data.Fintype.Basic
import Mathlib.Logic.Function.Basic

/-!
# `BadBatchRingBuffer.tla`

The ring buffer that the TLA+ models share. It remembers who is inside of a slot, reading or writing; a model is free of data
races when nobody writes a slot that somebody else is inside of (`NoDataRaces`).

The constants `Readers` and `Writers` are types, `NULL` is `none`; a slot outside `0 .. LastIndex` is never used.

* `Tracks`: who is inside of which slot, told from the sequences that readers and writers are at;
* `Tracks.noDataRaces`: readers and writers within one lap of each other, at different sequences, do not race;
* `Filled`: the last lap of sequences is in the slots.
-/

namespace BadBatch.Verification

/-- `ringbuffer` -/
structure BadBatchRingBuffer (R W : Type) where
  slots : Int → Option Int
  readers : Int → Finset R
  writers : Int → Finset W

/-- `Access`, `Advance` -/
inductive Pc
  | access
  | advance
  deriving DecidableEq, Repr

namespace BadBatchRingBuffer

variable {R W : Type}

/-- `Init` -/
def init : BadBatchRingBuffer R W where
  slots := fun _ => none
  readers := fun _ => ∅
  writers := fun _ => ∅

/-- `IndexOf` -/
def indexOf (size sequence : Int) : Int := sequence % size

section Operations

variable [DecidableEq R] [DecidableEq W] (rb : BadBatchRingBuffer R W)

def write (index : Int) (writer : W) (value : Int) : BadBatchRingBuffer R W :=
  { rb with
    writers := Function.update rb.writers index (insert writer (rb.writers index))
    slots := Function.update rb.slots index (some value) }

def endWrite (index : Int) (writer : W) : BadBatchRingBuffer R W :=
  { rb with writers := Function.update rb.writers index ((rb.writers index).erase writer) }

def beginRead (index : Int) (reader : R) : BadBatchRingBuffer R W :=
  { rb with readers := Function.update rb.readers index (insert reader (rb.readers index)) }

def read (index : Int) : Option Int := rb.slots index

def endRead (index : Int) (reader : R) : BadBatchRingBuffer R W :=
  { rb with readers := Function.update rb.readers index ((rb.readers index).erase reader) }

end Operations

/-- `NoDataRaces` -/
def NoDataRaces (size : Int) (rb : BadBatchRingBuffer R W) : Prop :=
  ∀ i, 0 ≤ i → i ≤ size - 1 → (rb.readers i = ∅ ∨ rb.writers i = ∅) ∧ (rb.writers i).card ≤ 1

/-! ## Who is where -/

/-- Readers and writers are inside of the slots of the sequences they are at. -/
structure Tracks (size : Int) (reading : R → Option Int) (writing : W → Option Int) (rb : BadBatchRingBuffer R W) : Prop where
  readers : ∀ i r, r ∈ rb.readers i ↔ ∃ s, reading r = some s ∧ indexOf size s = i
  writers : ∀ i w, w ∈ rb.writers i ↔ ∃ s, writing w = some s ∧ indexOf size s = i

variable {size next s : Int} {reading : R → Option Int} {writing : W → Option Int} {rb : BadBatchRingBuffer R W}

theorem tracks_init : Tracks size (fun _ : R => none) (fun _ : W => none) init where
  readers := by simp [init]
  writers := by simp [init]

section Steps

/-- A set of visitors per slot, after one of them enters. -/
theorem mem_enter {α : Type} [DecidableEq α] {place : α → Option Int} {sets : Int → Finset α} {a : α}
    (h : ∀ i x, x ∈ sets i ↔ ∃ s, place x = some s ∧ indexOf size s = i) (ha : place a = none) (i : Int) (x : α) :
    x ∈ Function.update sets (indexOf size s) (insert a (sets (indexOf size s))) i ↔
      ∃ s', Function.update place a (some s) x = some s' ∧ indexOf size s' = i := by
  by_cases hx : x = a
  · subst hx
    have hno : ∀ j, x ∉ sets j := by
      intro j hj
      obtain ⟨s', hs', -⟩ := (h j x).mp hj
      rw [ha] at hs'
      cases hs'
    by_cases hi : i = indexOf size s
    · subst hi
      simp
    · simp [Function.update_of_ne hi, hno, Ne.symm hi]
  · by_cases hi : i = indexOf size s
    · subst hi
      simp [hx, h]
    · simp [Function.update_of_ne hi, Function.update_of_ne hx, h]

/-- A set of visitors per slot, after one of them leaves. -/
theorem mem_leave {α : Type} [DecidableEq α] {place : α → Option Int} {sets : Int → Finset α} {a : α}
    (h : ∀ i x, x ∈ sets i ↔ ∃ s, place x = some s ∧ indexOf size s = i) (ha : place a = some s) (i : Int) (x : α) :
    x ∈ Function.update sets (indexOf size s) ((sets (indexOf size s)).erase a) i ↔
      ∃ s', Function.update place a none x = some s' ∧ indexOf size s' = i := by
  by_cases hx : x = a
  · subst hx
    by_cases hi : i = indexOf size s
    · subst hi
      simp
    · have hno : x ∉ sets i := by
        intro hj
        obtain ⟨s', hs', he⟩ := (h i x).mp hj
        rw [ha, Option.some.injEq] at hs'
        subst hs'
        exact hi he.symm
      simp [Function.update_of_ne hi, hno]
  · by_cases hi : i = indexOf size s
    · subst hi
      simp [hx, h]
    · simp [Function.update_of_ne hi, Function.update_of_ne hx, h]

variable {r : R} {w : W} {value : Int}

theorem Tracks.write [DecidableEq W] (h : Tracks size reading writing rb) (hw : writing w = none) :
    Tracks size reading (Function.update writing w (some s)) (rb.write (indexOf size s) w value) where
  readers := h.readers
  writers := mem_enter h.writers hw

theorem Tracks.endWrite [DecidableEq W] (h : Tracks size reading writing rb) (hw : writing w = some s) :
    Tracks size reading (Function.update writing w none) (rb.endWrite (indexOf size s) w) where
  readers := h.readers
  writers := mem_leave h.writers hw

theorem Tracks.beginRead [DecidableEq R] (h : Tracks size reading writing rb) (hr : reading r = none) :
    Tracks size (Function.update reading r (some s)) writing (rb.beginRead (indexOf size s) r) where
  readers := mem_enter h.readers hr
  writers := h.writers

theorem Tracks.endRead [DecidableEq R] (h : Tracks size reading writing rb) (hr : reading r = some s) :
    Tracks size (Function.update reading r none) writing (rb.endRead (indexOf size s) r) where
  readers := mem_leave h.readers hr
  writers := h.writers

end Steps

/-- Readers and writers within one lap of each other, at different sequences, and every writer at its own: no data race. -/
theorem Tracks.noDataRaces (next : Int) (h : Tracks size reading writing rb)
    (hr : ∀ r s, reading r = some s → next - size ≤ s ∧ s < next)
    (hw : ∀ w s, writing w = some s → next - size ≤ s ∧ s < next)
    (hrw : ∀ r w s, reading r = some s → writing w ≠ some s)
    (hww : ∀ w w' s, writing w = some s → writing w' = some s → w = w') : NoDataRaces size rb := by
  intro i _ _
  constructor
  · by_contra hboth
    push Not at hboth
    obtain ⟨⟨r, hr'⟩, ⟨w, hw'⟩⟩ := hboth
    obtain ⟨s, hs, hsi⟩ := (h.readers i r).mp hr'
    obtain ⟨s', hs', hsi'⟩ := (h.writers i w).mp hw'
    have h1 := hr r s hs
    have h2 := hw w s' hs'
    have heq : s = s' := RingWindow.eq_of_emod_eq (n := size) (hsi.trans hsi'.symm) (by omega) (by omega)
    subst heq
    exact hrw r w s hs hs'
  · apply Finset.card_le_one.mpr
    intro w hw' w' hw''
    obtain ⟨s, hs, hsi⟩ := (h.writers i w).mp hw'
    obtain ⟨s', hs', hsi'⟩ := (h.writers i w').mp hw''
    have h1 := hw w s hs
    have h2 := hw w' s' hs'
    have heq : s = s' := RingWindow.eq_of_emod_eq (n := size) (hsi.trans hsi'.symm) (by omega) (by omega)
    subst heq
    exact hww w w' s hs hs'

/-! ## What is in the slots -/

/-- The sequences of the last lap below `next` are in their slots. -/
def Filled (size next : Int) (rb : BadBatchRingBuffer R W) : Prop :=
  ∀ s, 0 ≤ s → next - size ≤ s → s < next → rb.read (indexOf size s) = some s

theorem Filled.write [DecidableEq W] {w : W} (h : Filled size next rb) :
    Filled size (next + 1) (rb.write (indexOf size next) w next) := by
  intro s h0 h1 h2
  simp only [read, BadBatchRingBuffer.write]
  by_cases hs : s = next
  · subst hs
    rw [Function.update_self]
  · have hne : indexOf size s ≠ indexOf size next := by
      intro he
      exact hs (RingWindow.eq_of_emod_eq (n := size) he (by omega) (by omega))
    rw [Function.update_of_ne hne]
    exact h s h0 (by omega) (by omega)

end BadBatchRingBuffer

/-- `[i \in 1..n |-> i - 1]` -/
def firstSequences (n : Nat) : List (Option Int) := (List.range n).map fun i : Nat => some (i : Int)

theorem firstSequences_succ (n : Nat) : firstSequences (n + 1) = firstSequences n ++ [some (n : Int)] := by
  simp [firstSequences, List.range_succ]

/-- A sum in which one summand changes. -/
theorem sum_change {α : Type} [Fintype α] [DecidableEq α] (f f' : α → Nat) (a : α) (h : ∀ i, i ≠ a → f' i = f i) :
    ∑ i, f' i + f a = ∑ i, f i + f' a := by
  rw [← Finset.add_sum_erase _ f (Finset.mem_univ a), ← Finset.add_sum_erase _ f' (Finset.mem_univ a)]
  have hrest : ∑ i ∈ Finset.univ.erase a, f' i = ∑ i ∈ Finset.univ.erase a, f i :=
    Finset.sum_congr rfl fun i hi => h i (Finset.ne_of_mem_erase hi)
  omega

end BadBatch.Verification
