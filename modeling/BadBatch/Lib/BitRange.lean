import Mathlib.Data.Nat.Bitwise

/-!
# Contiguous bit ranges of a word

`rangeMask a c` has the bits `a, …, a + c - 1`. It is built with shifts as hardware code builds it.
-/

namespace BitRange

/-- The word with `c` bits set from bit `a` on. -/
def rangeMask (a c : Nat) : BitVec 64 :=
  if 64 ≤ c then BitVec.allOnes 64 else ((1#64 <<< c) - 1#64) <<< a

theorem toNat_low {c : Nat} (hc : c < 64) : ((1#64 <<< c) - 1#64).toNat = 2 ^ c - 1 := by
  have h1 : 1 ≤ 2 ^ c := Nat.one_le_two_pow
  have h2 : 2 ^ c < 2 ^ 64 := Nat.pow_lt_pow_right (by omega) hc
  have hs : (1#64 <<< c).toNat = 2 ^ c := by
    simp only [BitVec.toNat_shiftLeft, BitVec.toNat_ofNat, Nat.shiftLeft_eq]
    omega
  rw [BitVec.toNat_sub_of_le (by rw [BitVec.le_def, hs]; simpa using h1), hs]
  simp

/-- The bits of a range that stays inside the word. -/
theorem getLsbD_rangeMask {a c i : Nat} (h : a + c ≤ 64) :
    (rangeMask a c).getLsbD i = decide (a ≤ i ∧ i < a + c) := by
  unfold rangeMask
  split
  · have ha : a = 0 := by omega
    have hc : c = 64 := by omega
    subst ha; subst hc
    rw [BitVec.getLsbD_allOnes]
    simp
  · rename_i hc
    rw [BitVec.getLsbD_shiftLeft, ← BitVec.testBit_toNat, toNat_low (by omega), Nat.testBit_two_pow_sub_one]
    by_cases h1 : i < 64 <;> by_cases h2 : i < a <;> by_cases h3 : i - a < c <;> simp [h1, h2, h3] <;> omega

/-- The lowest set bit of a masked word lies in the range. -/
theorem ctz_and_rangeMask {x : BitVec 64} {a c : Nat} (h : a + c ≤ 64) (hx : x &&& rangeMask a c ≠ 0#64) :
    a ≤ (x &&& rangeMask a c).ctz.toNat ∧ (x &&& rangeMask a c).ctz.toNat < a + c := by
  have hset := BitVec.getLsbD_true_ctz_of_ne_zero hx
  rw [BitVec.getLsbD_and, getLsbD_rangeMask h] at hset
  simpa using (Bool.and_eq_true_iff.mp hset).2

end BitRange
