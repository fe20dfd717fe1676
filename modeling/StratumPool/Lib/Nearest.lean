import Mathlib.Data.Int.Log
import Mathlib.Data.Rat.Floor
import Mathlib.Tactic.Linarith
import Mathlib.Tactic.FieldSimp

namespace Lib.Nearest

/-- The nearest whole number, of two the even one. -/
def whole (x : ℚ) : ℤ :=
  let low := ⌊x⌋
  if x - low < 1 / 2 then low
  else if 1 / 2 < x - low then low + 1
  else if low % 2 = 0 then low else low + 1

@[simp] theorem whole_intCast (n : ℤ) : whole n = n := by
  simp [whole]

/-- Half a unit below zero is still rounded to zero, everything below it is
not. -/
theorem whole_nonneg_iff (x : ℚ) : 0 ≤ whole x ↔ -(1 / 2) ≤ x := by
  have hlow := Int.floor_le x
  have hhigh := Int.lt_floor_add_one x
  rw [whole]
  obtain hneg | hzero := lt_or_ge ⌊x⌋ 0
  · -- below zero only minus one can be rounded up to zero
    have hcast : (⌊x⌋ : ℚ) ≤ -1 := by exact_mod_cast Int.le_sub_one_of_lt hneg
    obtain hone | hmore := (Int.le_sub_one_of_lt hneg).eq_or_lt
    · have hfloor : (⌊x⌋ : ℚ) = -1 := by
        rw [hone]
        norm_num
      simp only [hfloor]
      split_ifs with hless hgreater heven
      · constructor
        · intro h
          omega
        · intro h
          linarith
      · constructor
        · intro _
          linarith
        · intro _
          omega
      · omega
      · constructor
        · intro _
          linarith
        · intro _
          omega
    · have hfloor : (⌊x⌋ : ℚ) ≤ -2 := by exact_mod_cast (by omega : ⌊x⌋ ≤ -2)
      refine iff_of_false ?_ (by linarith)
      split_ifs <;> omega
  · have hcast : (0 : ℚ) ≤ ⌊x⌋ := by exact_mod_cast hzero
    refine iff_of_true ?_ (by linarith)
    split_ifs <;> omega

/-- The place of the last of the `p` binary digits of `x`. -/
def lastPlace (p : ℕ) (x : ℚ) : ℤ := Int.log 2 |x| - p + 1

/-- The nearest number of `p` binary digits. -/
def binary (p : ℕ) (x : ℚ) : ℚ := whole (x / 2 ^ lastPlace p x) * 2 ^ lastPlace p x

/-- A number that has no more than `p` digits is its own. -/
theorem binary_of_multiple {p : ℕ} {m e : ℤ} (h : |m| < 2 ^ p) :
    binary p (m * 2 ^ e) = m * 2 ^ e := by
  by_cases hm : m = 0
  · simp [binary, hm, whole]
  · have hpow : (0 : ℚ) < 2 ^ e := zpow_pos two_pos e
    have habs : |(m * 2 ^ e : ℚ)| = |m| * 2 ^ e := by rw [abs_mul, abs_of_pos hpow, Int.cast_abs]
    have hpos : 0 < |(m * 2 ^ e : ℚ)| := abs_pos.mpr (mul_ne_zero (Int.cast_ne_zero.mpr hm) hpow.ne')
    have hplace : lastPlace p (m * 2 ^ e) ≤ e := by
      have hless : |(m * 2 ^ e : ℚ)| < ((2 : ℕ) : ℚ) ^ (p + e : ℤ) := by
        rw [habs, Nat.cast_ofNat, zpow_add₀ two_ne_zero, zpow_natCast]
        exact mul_lt_mul_of_pos_right (by exact_mod_cast h) hpow
      have hlog := (Int.lt_zpow_iff_log_lt one_lt_two hpos).mp hless
      rw [lastPlace]
      omega
    obtain ⟨k, hk⟩ := Int.le.dest hplace
    have hunit : (2 : ℚ) ^ lastPlace p (m * 2 ^ e) ≠ 0 := (zpow_pos two_pos _).ne'
    have hquotient : (m * 2 ^ e : ℚ) / 2 ^ lastPlace p (m * 2 ^ e) = ((m * 2 ^ k : ℤ) : ℚ) := by
      have hsplit : (2 : ℚ) ^ e = 2 ^ k * 2 ^ lastPlace p (m * 2 ^ e) := by
        rw [← zpow_natCast, ← zpow_add₀ two_ne_zero]
        congr 1
        omega
      rw [div_eq_iff hunit, Int.cast_mul, Int.cast_pow, Int.cast_ofNat, mul_assoc,
        ← hsplit]
    rw [binary, hquotient, whole_intCast, ← hquotient, div_mul_cancel₀ _ hunit]

end Lib.Nearest
