import Mathlib.Data.Rat.Cast.Order
import Mathlib.Tactic.Positivity
import Mathlib.Tactic.Ring
import Mathlib.Tactic.Linarith

namespace Lib.Binary64

open Float.Model Float.Model.UnpackedFloat

/-- The value of a finite number as a multiple of the smallest positive one. -/
def units : UnpackedFloat → Int
  | .finite s m e _ => s.apply (m * 2 ^ (e + 1074).toNat)
  | _ => 0

/-- The rational number a finite double stands for. -/
def toRat (x : Float) : ℚ := units x.toModel.unpack / 2 ^ 1074

structure Canonical (m : Nat) (e : Int) : Prop where
  mantissa_lt : m < 2 ^ 53
  exponent_ge : -1074 ≤ e
  normal : 2 ^ 52 ≤ m ∨ e = -1074

theorem append_one_toNat (v : BitVec 52) : (1#1 ++ v).toNat = 2 ^ 52 + v.toNat := by
  rw [BitVec.toNat_append, ← Nat.shiftLeft_add_eq_or_of_lt v.isLt]
  rfl

theorem unpack_canonical (f : Float.Model) {s : Sign} {m : Nat} {e : Int} {hm : 0 < m}
    (h : f.unpack = .finite s m e hm) : Canonical m e := by
  have hlt : (@unpackMantissa Format.binary64 f.toBits.toBitVec).toNat < 2 ^ 52 :=
    (@unpackMantissa Format.binary64 f.toBits.toBitVec).isLt
  unfold Float.Model.unpack UnpackedFloat.unpack at h
  dsimp only at h
  by_cases hones : @unpackExponent Format.binary64 f.toBits.toBitVec = -1#11
  · rw [if_pos hones] at h
    by_cases hzero : @unpackMantissa Format.binary64 f.toBits.toBitVec = 0#52
    · rw [if_pos hzero] at h
      cases h
    · rw [if_neg hzero] at h
      cases h
  rw [if_neg hones] at h
  by_cases hexp : @unpackExponent Format.binary64 f.toBits.toBitVec = 0#11
  · rw [if_pos hexp] at h
    by_cases hzero : @unpackMantissa Format.binary64 f.toBits.toBitVec = 0#52
    · rw [dif_pos hzero] at h
      cases h
    · rw [dif_neg hzero] at h
      cases h
      exact ⟨by omega, by simp [hexp, Format.exponentBias],
        .inr (by simp [hexp, Format.exponentBias])⟩
  · rw [if_neg hexp] at h
    cases h
    have hpos : (@unpackExponent Format.binary64 f.toBits.toBitVec).toNat ≠ 0 :=
      fun hz => hexp (BitVec.eq_of_toNat_eq hz)
    refine ⟨?_, ?_, .inl ?_⟩
    · rw [append_one_toNat]
      omega
    · norm_num [Format.exponentBias]
      omega
    · rw [append_one_toNat]
      omega

/-- A larger exponent wins over any mantissa. -/
theorem magnitude_lt {m n : Nat} {e f : Int} (h : Canonical m e) (h' : Canonical n f)
    (hlt : e < f) : m * 2 ^ (e + 1074).toNat < n * 2 ^ (f + 1074).toNat := by
  have he := h.exponent_ge
  have hn : 2 ^ 52 ≤ n := h'.normal.resolve_right (by omega)
  obtain ⟨k, hk⟩ : ∃ k, (f + 1074).toNat = (e + 1074).toNat + 1 + k :=
    ⟨(f - e - 1).toNat, by omega⟩
  calc m * 2 ^ (e + 1074).toNat
      < 2 ^ 53 * 2 ^ (e + 1074).toNat := Nat.mul_lt_mul_of_pos_right h.mantissa_lt (by positivity)
    _ = 2 ^ 52 * 2 ^ ((e + 1074).toNat + 1) := by ring
    _ ≤ n * 2 ^ (f + 1074).toNat := by
      rw [hk]
      exact Nat.mul_le_mul hn (Nat.pow_le_pow_right (by decide) (by omega))

theorem compare_magnitude {m n : Nat} {e f : Int} (h : Canonical m e) (h' : Canonical n f) :
    (compare e f).then (compare m n) =
      compare (m * 2 ^ (e + 1074).toNat) (n * 2 ^ (f + 1074).toNat) := by
  obtain hl | rfl | hg := lt_trichotomy e f
  · rw [compare_lt_iff_lt.mpr hl, compare_lt_iff_lt.mpr (magnitude_lt h h' hl)]
    rfl
  · rw [compare_eq_iff_eq.mpr rfl, Ordering.then]
    have hp : 0 < 2 ^ (e + 1074).toNat := by positivity
    obtain hl | rfl | hg := lt_trichotomy m n
    · rw [compare_lt_iff_lt.mpr hl, compare_lt_iff_lt.mpr (Nat.mul_lt_mul_of_pos_right hl hp)]
    · rw [compare_eq_iff_eq.mpr rfl, compare_eq_iff_eq.mpr rfl]
    · rw [compare_gt_iff_gt.mpr hg, compare_gt_iff_gt.mpr (Nat.mul_lt_mul_of_pos_right hg hp)]
  · rw [compare_gt_iff_gt.mpr hg, compare_gt_iff_gt.mpr (magnitude_lt h' h hg)]
    rfl

theorem compare_neg (a b : Nat) : (compare a b).swap = compare (-(a : Int)) (-(b : Int)) := by
  obtain hl | rfl | hg := lt_trichotomy a b
  · rw [compare_lt_iff_lt.mpr hl, compare_gt_iff_gt.mpr (by omega)]
    rfl
  · rw [compare_eq_iff_eq.mpr rfl, compare_eq_iff_eq.mpr rfl]
    rfl
  · rw [compare_gt_iff_gt.mpr hg, compare_lt_iff_lt.mpr (by omega)]
    rfl

theorem compare_cast (a b : Nat) : compare a b = compare (a : Int) (b : Int) := by
  obtain hl | rfl | hg := lt_trichotomy a b
  · rw [compare_lt_iff_lt.mpr hl, compare_lt_iff_lt.mpr (by omega)]
  · rw [compare_eq_iff_eq.mpr rfl, compare_eq_iff_eq.mpr rfl]
  · rw [compare_gt_iff_gt.mpr hg, compare_gt_iff_gt.mpr (by omega)]

theorem magnitude_pos {m : Nat} (hm : 0 < m) (e : Int) : (0 : Int) < m * 2 ^ (e + 1074).toNat := by
  positivity

theorem compare_zero_finite (s t : Sign) {n : Nat} (j : Int) (hn : 0 < n) :
    (zero s).compare (.finite t n j hn) = some (compare 0 (units (.finite t n j hn))) := by
  have hp := magnitude_pos hn j
  cases t with
  | negative => exact congrArg some (compare_gt_iff_gt.mpr (neg_lt_zero.mpr hp)).symm
  | positive => exact congrArg some (compare_lt_iff_lt.mpr hp).symm

theorem compare_finite_zero (s t : Sign) {m : Nat} (i : Int) (hm : 0 < m) :
    (finite s m i hm).compare (.zero t) = some (compare (units (.finite s m i hm)) 0) := by
  have hp := magnitude_pos hm i
  cases s with
  | negative => exact congrArg some (compare_lt_iff_lt.mpr (neg_lt_zero.mpr hp)).symm
  | positive => exact congrArg some (compare_gt_iff_gt.mpr hp).symm

theorem compare_finite_finite (s t : Sign) {m n : Nat} {i j : Int} (hm : 0 < m) (hn : 0 < n)
    (hi : Canonical m i) (hj : Canonical n j) :
    (finite s m i hm).compare (.finite t n j hn) =
      some (compare (units (.finite s m i hm)) (units (.finite t n j hn))) := by
  have hp := magnitude_pos hm i
  have hq := magnitude_pos hn j
  have hc := compare_magnitude hi hj
  cases s with
  | negative =>
    cases t with
    | negative =>
      apply congrArg some
      rw [hc, compare_neg]
      rfl
    | positive =>
      exact congrArg some (compare_lt_iff_lt.mpr ((neg_lt_zero.mpr hp).trans hq)).symm
  | positive =>
    cases t with
    | negative =>
      exact congrArg some (compare_gt_iff_gt.mpr ((neg_lt_zero.mpr hq).trans hp)).symm
    | positive =>
      apply congrArg some
      rw [hc, compare_cast]
      rfl

/-- The comparison of two finite doubles is the comparison of their values. -/
theorem compare_eq_units (f g : Float.Model) (hf : f.isFinite = true) (hg : g.isFinite = true) :
    f.unpack.compare g.unpack = some (compare (units f.unpack) (units g.unpack)) := by
  rw [Float.Model.isFinite] at hf hg
  cases hu : f.unpack with
  | notANumber =>
    rw [hu] at hf
    cases hf
  | infinity s =>
    rw [hu] at hf
    cases hf
  | zero s =>
    cases hv : g.unpack with
    | notANumber =>
      rw [hv] at hg
      cases hg
    | infinity t =>
      rw [hv] at hg
      cases hg
    | zero t => rfl
    | finite t n j hn => exact compare_zero_finite s t j hn
  | finite s m i hm =>
    cases hv : g.unpack with
    | notANumber =>
      rw [hv] at hg
      cases hg
    | infinity t =>
      rw [hv] at hg
      cases hg
    | zero t => exact compare_finite_zero s t i hm
    | finite t n j hn =>
      exact compare_finite_finite s t hm hn (unpack_canonical f hu) (unpack_canonical g hv)

theorem toRat_lt_iff (x y : Float) : toRat x < toRat y ↔
    units x.toModel.unpack < units y.toModel.unpack := by
  simp only [toRat]
  rw [div_lt_div_iff_of_pos_right (by positivity)]
  exact Int.cast_lt

theorem lt_iff {x y : Float} (hx : x.isFinite = true) (hy : y.isFinite = true) :
    x < y ↔ toRat x < toRat y := by
  change decide (x.toModel < y.toModel) = true ↔ _
  rw [decide_eq_true_iff, toRat_lt_iff]
  change (x.toModel.unpack.compare y.toModel.unpack == some .lt) = true ↔ _
  rw [compare_eq_units _ _ hx hy]
  obtain hl | he | hg := lt_trichotomy (units x.toModel.unpack) (units y.toModel.unpack)
  · simp [compare_lt_iff_lt.mpr hl, hl]
  · simp [he]
  · simp [compare_gt_iff_gt.mpr hg, hg.le]

theorem not_lt_iff {x y : Float} (hx : x.isFinite = true) (hy : y.isFinite = true) :
    ¬ x < y ↔ toRat y ≤ toRat x := by
  rw [lt_iff hx hy, not_lt]

theorem le_iff {x y : Float} (hx : x.isFinite = true) (hy : y.isFinite = true) :
    x ≤ y ↔ toRat x ≤ toRat y := by
  have hlt := toRat_lt_iff y x
  change decide (x.toModel ≤ y.toModel) = true ↔ _
  rw [decide_eq_true_iff, ← not_lt, hlt]
  change x.toModel.unpack.le y.toModel.unpack = true ↔ _
  rw [UnpackedFloat.le, compare_eq_units _ _ hx hy]
  obtain hl | he | hg := lt_trichotomy (units x.toModel.unpack) (units y.toModel.unpack)
  · simp [compare_lt_iff_lt.mpr hl, hl.le]
  · simp [he]
  · simp [compare_gt_iff_gt.mpr hg, hg]

theorem le_infinite_iff {z x : Float} (hz : z.isFinite = true) (hx : ¬ x.isFinite = true) :
    z ≤ x ↔ x.toModel.unpack = .infinity .positive := by
  change decide (z.toModel ≤ x.toModel) = true ↔ _
  rw [decide_eq_true_iff]
  change (z.toModel.unpack.compare x.toModel.unpack).any (·.isLE) = true ↔ _
  change z.toModel.unpack.isFinite = true at hz
  change ¬ x.toModel.unpack.isFinite = true at hx
  have hnan (y : UnpackedFloat) : (y.compare .notANumber).any (·.isLE) = false := by
    cases y <;> rfl
  have hneg {y : UnpackedFloat} (hy : y.isFinite = true) :
      (y.compare (.infinity .negative)).any (·.isLE) = false := by
    cases y <;> first | rfl | cases hy
  have hpos {y : UnpackedFloat} (hy : y.isFinite = true) :
      (y.compare (.infinity .positive)).any (·.isLE) = true := by
    cases y <;> first | rfl | cases hy
  cases hu : x.toModel.unpack with
  | zero t =>
    rw [hu] at hx
    exact absurd rfl hx
  | finite t m e hm =>
    rw [hu] at hx
    exact absurd rfl hx
  | notANumber => simp [hnan]
  | infinity t =>
    cases t with
    | negative => simp [hneg hz]
    | positive => simp [hpos hz]

theorem toRat_of_units {x : Float} {n : Int} (h : units x.toModel.unpack = n * 2 ^ 1074) :
    toRat x = n := by
  rw [toRat, h, Int.cast_mul, Int.cast_pow, Int.cast_ofNat]
  exact mul_div_cancel_right₀ _ (pow_ne_zero _ two_ne_zero)

theorem toRat_zero : toRat 0.0 = 0 := by
  have hu : units (0.0 : Float).toModel.unpack = 0 := by decide +kernel
  simp [toRat, hu]

/-- The number `q` does not exceed the double `x`, which may be infinite. -/
def AtMost (q : ℚ) (x : Float) : Prop :=
  if x.isFinite then q ≤ toRat x else x.toModel.unpack = .infinity .positive

theorem AtMost.mono {q r : ℚ} {x : Float} (hqr : q ≤ r) (h : AtMost r x) : AtMost q x := by
  rw [AtMost] at h ⊢
  split_ifs at h ⊢ with hx
  · exact hqr.trans h
  · exact h

theorem zero_atMost_iff (x : Float) : AtMost 0 x ↔ 0.0 ≤ x := by
  have hz : (0.0 : Float).isFinite = true := by decide +kernel
  rw [AtMost]
  split_ifs with hx
  · rw [le_iff hz hx, toRat_zero]
  · rw [le_infinite_iff hz hx]

theorem atMost_of_not_lt {x a : Float} (ha : a.isFinite = true) (h0 : AtMost 0 x) (h : ¬ x < a) :
    AtMost (toRat a) x := by
  rw [AtMost] at h0 ⊢
  split_ifs at h0 ⊢ with hx
  · exact (not_lt_iff hx ha).mp h
  · exact h0

end Lib.Binary64
