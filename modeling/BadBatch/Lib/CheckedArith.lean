import Mathlib.Data.Nat.Bitwise

/-!
# Checked machine arithmetic

Operations on 64-bit integers and on arrays that stop where a debug build of the program would: on overflow, on a shift
amount outside the word, on an index outside the array. A loop that is given too few turns stops with `Fault.turns`.
The `_ok` lemmas say when an operation goes through, and with which value.
-/

namespace CheckedArith

/-- Why an evaluation stops. -/
inductive Fault
  | overflow
  | shift
  | index
  | turns
  deriving DecidableEq, Repr

/-- The range of `i64`. -/
def InI64 (x : Int) : Prop := -2 ^ 63 ≤ x ∧ x ≤ 2 ^ 63 - 1

instance (x : Int) : Decidable (InI64 x) := inferInstanceAs (Decidable (_ ∧ _))

/-- The result of an `i64` operation. -/
def i64 (x : Int) : Except Fault Int := if InI64 x then .ok x else .error .overflow

/-- The result of an `i64` operation in a build without overflow checks. -/
def wrapI64 (x : Int) : Int := (BitVec.ofInt 64 x).toInt

/-- The result of a saturating `i64` operation. -/
def saturateI64 (x : Int) : Int := max (-2 ^ 63) (min x (2 ^ 63 - 1))

/-- A subtraction of `usize` values. -/
def usizeSub (x y : Nat) : Except Fault Nat := if y ≤ x then .ok (x - y) else .error .overflow

/-- A subtraction of `u64` values. -/
def u64Sub (x y : BitVec 64) : Except Fault (BitVec 64) := if y.toNat ≤ x.toNat then .ok (x - y) else .error .overflow

/-- `x << k` -/
def shl (x : BitVec 64) (k : Nat) : Except Fault (BitVec 64) := if k < 64 then .ok (x <<< k) else .error .shift

/-- `x >> k` on `i64` -/
def sar (x : BitVec 64) (k : Nat) : Except Fault (BitVec 64) := if k < 64 then .ok (x.sshiftRight k) else .error .shift

/-- `xs[i]` -/
def index {α : Type*} (xs : List α) (i : Nat) : Except Fault α :=
  match xs[i]? with
  | some x => .ok x
  | none => .error .index

/-- `x as usize` -/
def asUsize (x : Int) : Nat := (BitVec.ofInt 64 x).toNat

/-- `n as i64` -/
def asI64 (n : Nat) : Int := (BitVec.ofNat 64 n).toInt

@[simp] theorem ok_bind {α β : Type} (x : α) (f : α → Except Fault β) : (Except.ok x >>= f) = f x := rfl

theorem i64_ok {x : Int} (h : InI64 x) : i64 x = .ok x := if_pos h

theorem saturateI64_eq {x : Int} (h : InI64 x) : saturateI64 x = x := by
  obtain ⟨h1, h2⟩ := h
  unfold saturateI64
  omega

theorem wrapI64_eq {x : Int} (h : InI64 x) : wrapI64 x = x := by
  obtain ⟨h1, h2⟩ := h
  unfold wrapI64
  rw [BitVec.toInt_ofInt, Int.bmod_eq_of_le] <;> omega

/-- Past the end of the range an operation wraps around once. -/
theorem wrapI64_of_gt {x : Int} (h1 : 2 ^ 63 - 1 < x) (h2 : x ≤ 3 * 2 ^ 63 - 1) : wrapI64 x = x - 2 ^ 64 := by
  unfold wrapI64
  rw [BitVec.toInt_ofInt, ← Int.sub_bmod_right, Int.bmod_eq_of_le] <;> omega

/-- Intermediate wrapping does not show in the end. -/
theorem wrapI64_wrap_sub (x y : Int) : wrapI64 (wrapI64 x - y) = wrapI64 (x - y) := by
  unfold wrapI64
  rw [BitVec.toInt_ofInt, BitVec.toInt_ofInt, BitVec.toInt_ofInt, Int.bmod_sub_bmod]

theorem usizeSub_ok {x y : Nat} (h : y ≤ x) : usizeSub x y = .ok (x - y) := if_pos h

theorem u64Sub_ok {x y : BitVec 64} (h : y.toNat ≤ x.toNat) : u64Sub x y = .ok (x - y) := if_pos h

theorem shl_ok {x : BitVec 64} {k : Nat} (h : k < 64) : shl x k = .ok (x <<< k) := if_pos h

theorem sar_ok {x : BitVec 64} {k : Nat} (h : k < 64) : sar x k = .ok (x.sshiftRight k) := if_pos h

theorem index_ok {α : Type*} {xs : List α} {i : Nat} (h : i < xs.length) (d : α) : index xs i = .ok (xs.getD i d) := by
  unfold index
  simp [h]

/-- Casts do not change what both types can hold. -/
theorem asUsize_eq {x : Int} (h0 : 0 ≤ x) (h : InI64 x) : asUsize x = x.toNat := by
  obtain ⟨-, h⟩ := h
  unfold asUsize
  rw [BitVec.toNat_ofInt, Int.emod_eq_of_lt h0 (by omega)]

theorem asI64_eq {n : Nat} (h : n < 2 ^ 63) : asI64 n = n := by
  unfold asI64
  have h1 : n < 2 ^ 64 := by omega
  rw [BitVec.toInt_eq_toNat_of_lt (by rw [BitVec.toNat_ofNat, Nat.mod_eq_of_lt h1]; omega), BitVec.toNat_ofNat,
    Nat.mod_eq_of_lt h1]

end CheckedArith
