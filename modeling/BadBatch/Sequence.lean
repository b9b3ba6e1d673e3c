import Mathlib.Algebra.Order.Ring.Int
import Mathlib.Order.Lattice
import Mathlib.Logic.Function.Basic

/-!
# Sequences and ring sizes

A `Sequence` is one shared `i64` counter; `sequences : Nat → Int` gives the value of each, keyed by the identity of
its `Arc`. Sequences are `Int` here: the program keeps them below `i64::MAX - N`, where no addition wraps.

* `BufferSize`: the ring sizes the constructors accept, a power of two that fits into `i64`.
* `lower`: one load of the minimum loops; `getMinimumSequence`, `getMinimumSequenceWithDefault` are the loops.
* `Below`: a value that no sequence of a list is under. It survives any growth of the sequences (`Below.mono`), which
  is why a minimum that was read one sequence at a time stays a lower bound.
-/

namespace BadBatch

/-- `INITIAL_CURSOR_VALUE` -/
def initialCursorValue : Int := -1

/-- `i64::MAX` -/
def i64Max : Int := 2 ^ 63 - 1

/-- The failures of the sequencing layer (`DisruptorError`, as far as this layer returns them). -/
inductive DisruptorError
  | invalidSequence (n : Int)
  | concurrentClaimDriver
  | poisoned
  | shutdown
  | alert
  | timeout
  deriving DecidableEq, Repr

/-! ## Ring sizes -/

/-- A power of two below `2 ^ 63`: what `is_power_of_two` and `i64::try_from` let through. -/
structure BufferSize where
  shift : Nat
  fits : shift ≤ 62
  deriving DecidableEq, Repr

/-- `buffer_size` -/
def BufferSize.size (b : BufferSize) : Nat := 2 ^ b.shift

/-- `buffer_size_i64` -/
def BufferSize.sizeI64 (b : BufferSize) : Int := (b.size : Int)

theorem BufferSize.size_pos (b : BufferSize) : 0 < b.size := Nat.two_pow_pos b.shift

theorem BufferSize.sizeI64_pos (b : BufferSize) : 0 < b.sizeI64 := by
  have := b.size_pos
  unfold BufferSize.sizeI64
  omega

theorem BufferSize.sizeI64_le (b : BufferSize) : b.sizeI64 ≤ i64Max := by
  have hpow : (2 : Nat) ^ b.shift ≤ 2 ^ 62 := Nat.pow_le_pow_right (by omega) b.fits
  have hsize : b.sizeI64 ≤ 2 ^ 62 := by
    unfold BufferSize.sizeI64 BufferSize.size
    exact_mod_cast hpow
  unfold i64Max
  omega

/-! ## Minimum loops -/

/-- One load of a minimum loop: `if value < minimum { minimum = value }`. -/
def lower (minimum value : Int) : Int := if value < minimum then value else minimum

/-- `Sequence::get_minimum_sequence_with_default` -/
def getMinimumSequenceWithDefault (sequences : Nat → Int) : List Nat → Int → Int
  | [], minimum => minimum
  | i :: is, minimum => getMinimumSequenceWithDefault sequences is (lower minimum (sequences i))

/-- `Sequence::get_minimum_sequence` -/
def getMinimumSequence (sequences : Nat → Int) : List Nat → Int
  | [] => i64Max
  | i :: is => getMinimumSequenceWithDefault sequences is (sequences i)

/-- No sequence of the list is below `m`. -/
def Below (sequences : Nat → Int) (ids : List Nat) (m : Int) : Prop := ∀ i ∈ ids, m ≤ sequences i

instance (sequences : Nat → Int) (ids : List Nat) (m : Int) : Decidable (Below sequences ids m) :=
  inferInstanceAs (Decidable (∀ i ∈ ids, m ≤ sequences i))

variable {sequences sequences' : Nat → Int} {ids : List Nat} {m m' : Int}

theorem lower_le_left : lower m m' ≤ m := by unfold lower; split <;> omega

theorem lower_le_right : lower m m' ≤ m' := by unfold lower; split <;> omega

@[simp] theorem below_nil : Below sequences [] m := by simp [Below]

@[simp] theorem below_cons {i : Nat} : Below sequences (i :: ids) m ↔ m ≤ sequences i ∧ Below sequences ids m := by
  simp [Below]

/-- Lower bounds survive growth. -/
theorem Below.mono (h : Below sequences ids m) (hs : ∀ i, sequences i ≤ sequences' i) : Below sequences' ids m :=
  fun i hi => le_trans (h i hi) (hs i)

theorem Below.le (h : Below sequences ids m) (hm : m' ≤ m) : Below sequences ids m' :=
  fun i hi => le_trans hm (h i hi)

/-- A minimum loop goes over one more sequence. -/
theorem Below.scan {i : Nat} (h : Below sequences ids m) : Below sequences (ids ++ [i]) (lower m (sequences i)) := by
  intro j hj
  rcases List.mem_append.mp hj with hj | hj
  · exact le_trans lower_le_left (h j hj)
  · rw [List.mem_singleton.mp hj]
    exact lower_le_right

/-- A store of a larger value lets every sequence grow. -/
theorem le_update {i : Nat} {v : Int} (h : sequences i ≤ v) (j : Nat) :
    sequences j ≤ Function.update sequences i v j := by
  by_cases hj : j = i
  · subst hj; simpa using h
  · simp [Function.update_of_ne hj]

/-- What lies under the scanned minimum is under the start value and every scanned sequence. -/
theorem le_getMinimumSequenceWithDefault : ∀ {ids : List Nat} {m x : Int},
    x ≤ getMinimumSequenceWithDefault sequences ids m ↔ x ≤ m ∧ Below sequences ids x
  | [], m, x => by simp [getMinimumSequenceWithDefault]
  | i :: is, m, x => by
    rw [getMinimumSequenceWithDefault, le_getMinimumSequenceWithDefault, below_cons]
    have hl : x ≤ lower m (sequences i) ↔ x ≤ m ∧ x ≤ sequences i := by unfold lower; split <;> omega
    rw [hl, and_assoc]

/-- On a non-empty list the minimum is the greatest lower bound. -/
theorem le_getMinimumSequence (h : ids ≠ []) {x : Int} :
    x ≤ getMinimumSequence sequences ids ↔ Below sequences ids x := by
  cases ids with
  | nil => exact absurd rfl h
  | cons i is => rw [getMinimumSequence, le_getMinimumSequenceWithDefault, below_cons]

theorem below_getMinimumSequence (h : ids ≠ []) : Below sequences ids (getMinimumSequence sequences ids) :=
  (le_getMinimumSequence h).mp le_rfl

end BadBatch
