import Mathlib

/-!
# Integers as numbers

A number holds every integer up to `2 ^ 53` exactly.  A larger one is rounded to one of the multiples
of a power of two on its two sides, to the even one when it lies in the middle.
-/

namespace Falryn

/-- The number nearest to a natural number. -/
def nearestNumber (n : ℕ) : ℕ :=
  let unit := 2 ^ (n.log2 - 52)
  let below := n / unit
  let rest := n % unit
  if unit < 2 * rest ∨ (unit = 2 * rest ∧ below % 2 = 1) then (below + 1) * unit else below * unit

/-- The number nearest to an integer: what adding or subtracting two integers yields. -/
def toNumber (n : ℤ) : ℤ := n.sign * nearestNumber n.natAbs

theorem nearestNumber_of_lt {n : ℕ} (h : n < 2 ^ 53) : nearestNumber n = n := by
  have hlog : n.log2 - 52 = 0 := by
    rcases Nat.eq_zero_or_pos n with rfl | hpos
    · rfl
    · have := (Nat.log2_lt hpos.ne').2 h
      omega
  simp [nearestNumber, hlog, Nat.mod_one]

theorem le_nearestNumber {n : ℕ} (h : 2 ^ 53 ≤ n) : 2 ^ 53 ≤ nearestNumber n := by
  have hpos : n ≠ 0 := by omega
  have hlog : 53 ≤ n.log2 := (Nat.le_log2 hpos).2 h
  have hself : 2 ^ n.log2 ≤ n := Nat.log2_self_le hpos
  have hunit : 2 ^ 52 * 2 ^ (n.log2 - 52) = 2 ^ n.log2 := by
    rw [← pow_add]
    congr 1
    omega
  have hbelow : 2 ^ 52 ≤ n / 2 ^ (n.log2 - 52) :=
    (Nat.le_div_iff_mul_le (by positivity)).2 (by omega)
  have hmul : 2 ^ 53 ≤ n / 2 ^ (n.log2 - 52) * 2 ^ (n.log2 - 52) :=
    calc 2 ^ 53 ≤ 2 ^ n.log2 := Nat.pow_le_pow_right (by norm_num) hlog
      _ = 2 ^ 52 * 2 ^ (n.log2 - 52) := hunit.symm
      _ ≤ _ := Nat.mul_le_mul_right _ hbelow
  simp only [nearestNumber]
  split_ifs
  · exact hmul.trans (Nat.mul_le_mul_right _ (Nat.le_succ _))
  · exact hmul

/-- A safe integer is a number. -/
theorem toNumber_of_safe {n : ℤ} (h : |n| ≤ 2 ^ 53 - 1) : toNumber n = n := by
  have hlt : n.natAbs < 2 ^ 53 := by
    rw [← Int.natCast_natAbs] at h
    omega
  rw [toNumber, nearestNumber_of_lt hlt, Int.sign_mul_natAbs]

/-- Rounding never makes an integer safe. -/
theorem toNumber_not_safe {n : ℤ} (h : ¬ |n| ≤ 2 ^ 53 - 1) : ¬ |toNumber n| ≤ 2 ^ 53 - 1 := by
  have hle : 2 ^ 53 ≤ n.natAbs := by
    rw [← Int.natCast_natAbs] at h
    omega
  have hn : n ≠ 0 := by
    rintro rfl
    simp at hle
  rw [toNumber, abs_mul, Int.abs_sign_of_ne_zero hn, one_mul, Nat.abs_cast]
  have := le_nearestNumber hle
  omega

end Falryn
