import Mathlib.Algebra.Order.Ring.Int
import Mathlib.Tactic.Ring
import Mathlib.Tactic.Linarith

/-!
# Windows of a ring

A ring of `n` slots holds position `s` in slot `s % n`, and the number of the lap is `s / n`. Any `n` consecutive
positions occupy different slots (`eq_of_emod_eq`), and two positions one lap apart differ in the parity of their
lap (`lap_sub_parity`).
-/

namespace RingWindow

variable {n s t : ℤ}

/-- Positions less than a lap apart share a slot only when they are equal. -/
theorem eq_of_emod_eq (h : s % n = t % n) (hst : s < t + n) (hts : t < s + n) : s = t := by
  have hd : n ∣ s - t := Int.dvd_of_emod_eq_zero (Int.emod_eq_emod_iff_emod_sub_eq_zero.mp h)
  have ha : |s - t| < n := abs_lt.mpr ⟨by linarith, by linarith⟩
  have := Int.eq_zero_of_abs_lt_dvd hd ha
  linarith

theorem ediv_sub_self (hn : 0 < n) : (s - n) / n = s / n - 1 := by
  have h : s - n = s + n * (-1) := by ring
  rw [h, Int.add_mul_ediv_left _ _ (ne_of_gt hn)]
  ring

/-- One lap back, the other parity. -/
theorem lap_sub_parity (hn : 0 < n) : (s - n) / n % 2 = 1 - s / n % 2 := by
  rw [ediv_sub_self hn]
  omega

/-- One lap back, the same slot. -/
theorem emod_sub_self : (s - n) % n = s % n := Int.sub_emod_right s n

end RingWindow
