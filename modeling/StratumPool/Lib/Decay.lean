import Mathlib.Analysis.SpecialFunctions.Exp
import Mathlib.Analysis.SpecialFunctions.Log.Basic
import Mathlib.Order.Interval.Set.UnorderedInterval

namespace Lib.Decay

/-- What is left of a unit after the time `dt`. -/
noncomputable def weight (tau dt : ℝ) : ℝ := Real.exp (-dt / tau)

section Weight

variable {tau dt dt' : ℝ}

theorem weight_pos (tau dt : ℝ) : 0 < weight tau dt := Real.exp_pos _

@[simp] theorem weight_zero (tau : ℝ) : weight tau 0 = 1 := by simp [weight]

theorem weight_add (tau a b : ℝ) : weight tau (a + b) = weight tau a * weight tau b := by
  rw [weight, weight, weight, ← Real.exp_add]
  congr 1
  ring

theorem weight_anti (htau : 0 < tau) (h : dt ≤ dt') : weight tau dt' ≤ weight tau dt := by
  apply Real.exp_le_exp.mpr
  gcongr

theorem weight_le_one (htau : 0 < tau) (hdt : 0 ≤ dt) : weight tau dt ≤ 1 := by
  rw [← weight_zero tau]
  exact weight_anti htau hdt

theorem one_sub_weight_le (tau dt : ℝ) : 1 - weight tau dt ≤ dt / tau := by
  have hexp := Real.add_one_le_exp (-dt / tau)
  have hneg : -dt / tau = -(dt / tau) := by ring
  rw [hneg] at hexp
  rw [weight, hneg]
  linarith

/-- How long something that decays stays above a level. -/
theorem lt_mul_weight_iff (htau : 0 < tau) (hdt : 0 ≤ dt) {size level : ℝ} (hsize : 0 ≤ size)
    (hlevel : 0 < level) :
    level < size * weight tau dt ↔ dt < tau * Real.log (size / level) := by
  obtain rfl | hpos := hsize.eq_or_lt
  · simp only [zero_mul, zero_div, Real.log_zero, mul_zero]
    exact iff_of_false (not_lt.mpr hlevel.le) (not_lt.mpr hdt)
  · have hratio : 0 < size / level := div_pos hpos hlevel
    calc level < size * weight tau dt
        ↔ Real.exp (dt / tau) < size / level := by
          rw [weight, neg_div, Real.exp_neg, ← div_eq_mul_inv, lt_div_iff₀ (Real.exp_pos _),
            lt_div_iff₀ hlevel, mul_comm]
      _ ↔ dt / tau < Real.log (size / level) := (Real.lt_log_iff_exp_lt hratio).symm
      _ ↔ dt < tau * Real.log (size / level) := by
          rw [div_lt_iff₀ htau, mul_comm]

end Weight

section Load

variable {tau : ℝ}

/-- What is left at the time `t` of pulses, each of a size and a time, that came
in at the rate `size / tau`. -/
noncomputable def load (tau t : ℝ) (pulses : List (ℝ × ℝ)) : ℝ :=
  (pulses.map fun pulse => pulse.1 / tau * weight tau (t - pulse.2)).sum

@[simp] theorem load_nil (tau t : ℝ) : load tau t [] = 0 := rfl

theorem load_concat (tau t : ℝ) (pulses : List (ℝ × ℝ)) (size : ℝ) :
    load tau t (pulses ++ [(size, t)]) = load tau t pulses + size / tau := by
  simp [load]

theorem load_later (tau t dt : ℝ) (pulses : List (ℝ × ℝ)) :
    load tau (t + dt) pulses = load tau t pulses * weight tau dt := by
  induction pulses with
  | nil => simp
  | cons pulse pulses ih =>
    have htime : t + dt - pulse.2 = t - pulse.2 + dt := by ring
    simp only [load, List.map_cons, List.sum_cons] at ih ⊢
    rw [ih, htime, weight_add]
    ring

theorem load_nonneg (htau : 0 < tau) (t : ℝ) {pulses : List (ℝ × ℝ)}
    (h : ∀ pulse ∈ pulses, 0 ≤ pulse.1) : 0 ≤ load tau t pulses := by
  apply List.sum_nonneg
  intro x hx
  obtain ⟨pulse, hm, rfl⟩ := List.mem_map.mp hx
  exact mul_nonneg (div_nonneg (h pulse hm) htau.le) (weight_pos _ _).le

end Load

section Average

variable {tau size dt x : ℝ}

/-- The average after a pulse that is spread over the time since the last one. -/
noncomputable def spread (tau size dt x : ℝ) : ℝ :=
  x * weight tau dt + size / dt * (1 - weight tau dt)

/-- The average after a pulse that counts as if it came all at once. -/
noncomputable def burst (tau size dt x : ℝ) : ℝ := x * weight tau dt + size / tau

/-- Spreading a pulse never makes it count for more. -/
theorem spread_le_burst (hsize : 0 ≤ size) (hdt : 0 < dt) :
    spread tau size dt x ≤ burst tau size dt x := by
  have hshare : size / dt * (1 - weight tau dt) ≤ size / tau := by
    calc size / dt * (1 - weight tau dt)
        ≤ size / dt * (dt / tau) :=
          mul_le_mul_of_nonneg_left (one_sub_weight_le tau dt) (div_nonneg hsize hdt.le)
      _ = size / tau := div_mul_div_cancel₀ hdt.ne'
  rw [spread, burst]
  linarith

theorem spread_nonneg (htau : 0 < tau) (hsize : 0 ≤ size) (hdt : 0 < dt) (hx : 0 ≤ x) :
    0 ≤ spread tau size dt x := by
  have hw := weight_pos tau dt
  have hrest := weight_le_one htau hdt.le
  apply add_nonneg (mul_nonneg hx hw.le)
  exact mul_nonneg (div_nonneg hsize hdt.le) (sub_nonneg.mpr hrest)

theorem burst_nonneg (htau : 0 < tau) (hsize : 0 ≤ size) (hx : 0 ≤ x) :
    0 ≤ burst tau size dt x :=
  add_nonneg (mul_nonneg hx (weight_pos tau dt).le) (div_nonneg hsize htau.le)

/-- A clock that went back by more than it is said to only makes the bound
larger. -/
theorem burst_le_load (htau : 0 < tau) {t t' : ℝ} (hlater : t' - t ≤ dt) {pulses : List (ℝ × ℝ)}
    (hpulses : ∀ pulse ∈ pulses, 0 ≤ pulse.1) (hx : x ≤ load tau t pulses) :
    burst tau size dt x ≤ load tau t' (pulses ++ [(size, t')]) := by
  have hload : load tau t' pulses = load tau t pulses * weight tau (t' - t) := by
    rw [← load_later, add_sub_cancel]
  have hw := weight_anti htau hlater
  have hnonneg := load_nonneg htau t hpulses
  have hold : x * weight tau dt ≤ load tau t pulses * weight tau (t' - t) := by
    calc x * weight tau dt
        ≤ load tau t pulses * weight tau dt := mul_le_mul_of_nonneg_right hx (weight_pos _ _).le
      _ ≤ load tau t pulses * weight tau (t' - t) := mul_le_mul_of_nonneg_left hw hnonneg
  rw [load_concat, hload, burst]
  linarith

/-- The average moves towards the rate of the interval and not past it. -/
theorem spread_mem_uIcc (htau : 0 < tau) (hdt : 0 ≤ dt) :
    spread tau size dt x ∈ Set.uIcc x (size / dt) := by
  have hw := weight_pos tau dt
  have hrest := sub_nonneg.mpr (weight_le_one htau hdt)
  rw [spread, Set.mem_uIcc]
  obtain hle | hle := le_total x (size / dt)
  · left
    constructor
    · have hmove := mul_nonneg hrest (sub_nonneg.mpr hle)
      linarith
    · have hmove := mul_nonneg hw.le (sub_nonneg.mpr hle)
      linarith
  · right
    constructor
    · have hmove := mul_nonneg hw.le (sub_nonneg.mpr hle)
      linarith
    · have hmove := mul_nonneg hrest (sub_nonneg.mpr hle)
      linarith

end Average

section Cut

variable {tau b cut : ℝ}

/-- What is no more than `cut` counts as nothing. -/
noncomputable def cutBelow (cut x : ℝ) : ℝ := if cut < x then x else 0

/-- Cut on the way or not, what is left in the end is the same. -/
theorem cutBelow_weight (htau : 0 < tau) (hb : 0 ≤ b) (hcut : 0 ≤ cut) (x : ℝ) :
    cutBelow cut (cutBelow cut x * weight tau b) = cutBelow cut (x * weight tau b) := by
  by_cases hx : cut < x
  · have hself : cutBelow cut x = x := if_pos hx
    rw [hself]
  · have hzero : cutBelow cut x = 0 := if_neg hx
    have hrest : ¬ cut < x * weight tau b := by
      obtain hneg | hpos := le_total x 0
      · exact not_lt.mpr ((mul_nonpos_of_nonpos_of_nonneg hneg (weight_pos _ _).le).trans hcut)
      · have hle := mul_le_of_le_one_right hpos (weight_le_one htau hb)
        exact not_lt.mpr (hle.trans (not_lt.mp hx))
    rw [hzero, zero_mul]
    simp [cutBelow, hrest]

end Cut

end Lib.Decay
