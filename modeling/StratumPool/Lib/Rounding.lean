import Mathlib
import StratumPool.Lib.Binary64

namespace Lib.Binary64

open Float.Model Float.Model.UnpackedFloat

section Fractions

/-- The whole part of `num / den` with the residual bits of the rest. -/
def ofFraction (num den : Nat) : ExtendedMantissa :=
  .ofMantissaAndAccuracy (num / den) (accuracyOfFraction (num % den) den)

theorem ofFraction_one (m : Nat) : ofFraction m 1 = .ofMantissaAndAccuracy m .exact := by
  simp [ofFraction, accuracyOfFraction, Nat.mod_one]

/-- The residual bits say whether the rest is none, or how it compares to one
half. -/
theorem ofFraction_eq (num den : Nat) (hden : 0 < den) :
    ofFraction num den =
      ⟨num / den, decide (den ≤ 2 * (num % den)),
        decide (num % den ≠ 0 ∧ 2 * (num % den) ≠ den)⟩ := by
  rw [ofFraction, accuracyOfFraction]
  by_cases hzero : num % den = 0
  · simp [hzero, ExtendedMantissa.ofMantissaAndAccuracy, hden.ne']
  · rw [if_neg hzero]
    obtain hlt | heq | hgt := lt_trichotomy (2 * (num % den)) den
    · simp [compare_lt_iff_lt.mpr hlt, ExtendedMantissa.ofMantissaAndAccuracy, hzero, hlt, hlt.ne]
    · simp [ExtendedMantissa.ofMantissaAndAccuracy, hzero, heq]
    · simp [compare_gt_iff_gt.mpr hgt, ExtendedMantissa.ofMantissaAndAccuracy, hzero, hgt.le,
        hgt.ne']

theorem shiftRightOne_ofFraction (num den : Nat) (hden : 0 < den) :
    (ofFraction num den).shiftRightOne = ofFraction num (den * 2) := by
  rw [ofFraction_eq num den hden, ofFraction_eq num (den * 2) (by omega),
    ExtendedMantissa.shiftRightOne]
  have hdiv : num / den / 2 = num / (den * 2) := Nat.div_div_eq_div_mul num den 2
  have hmod : num % (den * 2) = num % den + den * (num / den % 2) := Nat.mod_mul
  have hlt : num % den < den := Nat.mod_lt num hden
  obtain heven | hodd := Nat.mod_two_eq_zero_or_one (num / den)
  · rw [heven, mul_zero, add_zero] at hmod
    simp only [hdiv, hmod, heven, ExtendedMantissa.mk.injEq, true_and]
    constructor
    · simp
      omega
    · grind
  · rw [hodd, mul_one] at hmod
    simp only [hdiv, hmod, hodd, ExtendedMantissa.mk.injEq, true_and]
    constructor
    · simp
      omega
    · grind

theorem shift_ofFraction (num den n : Nat) (hden : 0 < den) :
    ofFraction num den >>> n = ofFraction num (den * 2 ^ n) := by
  change n.repeat ExtendedMantissa.shiftRightOne (ofFraction num den) = _
  induction n with
  | zero => rw [pow_zero, mul_one, Nat.repeat]
  | succ n ih =>
    rw [Nat.repeat, ih, shiftRightOne_ofFraction _ _ (by positivity), pow_succ, mul_assoc]

theorem rounded_ofFraction (num den : Nat) (hden : 0 < den) :
    num / den ≤ (ofFraction num den).roundedMantissa ∧
      (ofFraction num den).roundedMantissa ≤ num / den + 1 := by
  rw [ofFraction_eq num den hden, ExtendedMantissa.roundedMantissa]
  cases decide (den ≤ 2 * (num % den)) <;>
    cases decide (num % den ≠ 0 ∧ 2 * (num % den) ≠ den) <;>
    simp only [ExtendedMantissa.accuracy, Accuracy.roundToNearestEven] <;> omega

/-- Half a unit is still rounded to zero, and everything above it is not. -/
theorem rounded_ne_zero_iff (num den : Nat) (hden : 0 < den) :
    (ofFraction num den).roundedMantissa ≠ 0 ↔ den < 2 * num := by
  obtain hlt | hle := lt_or_ge num den
  · have hdiv : num / den = 0 := Nat.div_eq_of_lt hlt
    rw [ofFraction_eq num den hden, ExtendedMantissa.roundedMantissa, hdiv, Nat.mod_eq_of_lt hlt]
    obtain h | h | h := lt_trichotomy (2 * num) den
    · have hround : ¬ den ≤ 2 * num := by omega
      cases hs : decide (num ≠ 0 ∧ 2 * num ≠ den) <;>
        simp [hround, ExtendedMantissa.accuracy, Accuracy.roundToNearestEven, h.le]
    · simp [h, ExtendedMantissa.accuracy, Accuracy.roundToNearestEven]
    · have hzero : num ≠ 0 := by omega
      simp [h, h.le, h.ne', hzero, ExtendedMantissa.accuracy, Accuracy.roundToNearestEven]
  · have hone : 1 ≤ num / den := (Nat.one_le_div_iff hden).mpr hle
    have hge := (rounded_ofFraction num den hden).1
    constructor
    · omega
    · omega

theorem rounded_whole (q den : Nat) (hden : 0 < den) :
    (ofFraction (q * den) den).roundedMantissa = q := by
  rw [ofFraction_eq _ den hden, Nat.mul_mod_left, Nat.mul_div_cancel q hden]
  simp [hden.ne', ExtendedMantissa.roundedMantissa, ExtendedMantissa.accuracy,
    Accuracy.roundToNearestEven]

end Fractions

section Rounding

/-- How far a mantissa must be shifted to leave 53 bits, or fewer at the
smallest exponent. -/
def excess (m : Nat) (e : Int) : Nat := (max ((m.log2 : Int) + e - 52) (-1074) - e).toNat

theorem shiftToTargetExponent_eq (m : Nat) (e : Int) (acc : Accuracy) :
    shiftToTargetExponent Format.binary64 m e acc =
      (ExtendedMantissa.ofMantissaAndAccuracy m acc >>> excess m e, e + excess m e) := by
  have htarget : Format.binary64.targetExponent (totalExponent m e) =
      max ((m.log2 : Int) + e - 52) (-1074) := by
    simp only [Format.targetExponent, totalExponent, Format.mantissaBits, Format.minExponent]
    omega
  rw [shiftToTargetExponent, htarget]
  rfl

theorem excess_small {m : Nat} {e : Int} (hm : m < 2 ^ 53) (he : -1074 ≤ e) : excess m e = 0 := by
  have hlog : m.log2 ≤ 52 := by
    by_cases hzero : m = 0
    · simp [hzero]
    · have hlt := (Nat.log2_lt hzero).mpr hm
      omega
  rw [excess]
  omega

theorem excess_carry {e : Int} (he : -1074 ≤ e) : excess (2 ^ 53) e = 1 := by
  rw [excess, Nat.log2_two_pow]
  omega

theorem exponent_ge (m : Nat) (e : Int) : -1074 ≤ e + excess m e := by
  rw [excess]
  omega

/-- What is left after the shift has at most 53 bits. -/
theorem shifted_lt (m : Nat) (e : Int) : m / 2 ^ excess m e < 2 ^ 53 := by
  rw [Nat.div_lt_iff_lt_mul (by positivity), ← pow_add]
  apply (Nat.lt_log2_self (n := m)).trans_le
  apply Nat.pow_le_pow_right (by decide)
  rw [excess]
  omega

/-- It has all 53 bits unless the exponent is the smallest one. -/
theorem shifted_normal {m : Nat} {e : Int} (h : 2 ^ 52 ≤ m ∨ e ≤ -1074) :
    2 ^ 52 ≤ m / 2 ^ excess m e ∨ e + excess m e = -1074 := by
  by_cases hmin : e + excess m e = -1074
  · exact .inr hmin
  · have hlog : 52 + excess m e ≤ m.log2 := by
      have hm : 52 ≤ m.log2 ∨ e ≤ -1074 := by
        refine h.imp_left fun hm => (Nat.le_log2 ?_).mpr hm
        omega
      rw [excess] at hmin ⊢
      omega
    have hne : m ≠ 0 := by
      rintro rfl
      simp at hlog
    left
    rw [Nat.le_div_iff_mul_le (by positivity), ← pow_add]
    exact (Nat.pow_le_pow_right (by decide) hlog).trans (Nat.log2_self_le hne)

/-- The nearest double to `num / den` times a power of two, before it is packed:
the mantissa carries at most once. -/
theorem roundWithAccuracy_eq (s : Sign) (num den : Nat) (hden : 0 < den) (e : Int) :
    let n := excess (num / den) e
    let r := (ofFraction num (den * 2 ^ n)).roundedMantissa
    roundWithAccuracy Format.binary64 s (num / den) e (accuracyOfFraction (num % den) den) =
      if h : r = 0 then .zero s
      else if r < 2 ^ 53 then .finite s r (e + n) (Nat.pos_of_ne_zero h)
      else .finite s (2 ^ 52) (e + n + 1) (by decide) := by
  intro n r
  have hfirst : shiftToTargetExponent Format.binary64 (num / den) e
      (accuracyOfFraction (num % den) den) = (ofFraction num (den * 2 ^ n), e + n) := by
    rw [shiftToTargetExponent_eq, ← shift_ofFraction num den n hden]
    rfl
  have hle : r ≤ 2 ^ 53 := by
    have hr := (rounded_ofFraction num (den * 2 ^ n) (by positivity)).2
    have hlt := shifted_lt (num / den) e
    rw [Nat.div_div_eq_div_mul] at hlt
    exact hr.trans hlt
  have he : -1074 ≤ e + n := exponent_ge _ _
  have hsecond := shiftToTargetExponent_eq r (e + n) .exact
  rw [← ofFraction_one, shift_ofFraction r 1 _ Nat.one_pos, one_mul] at hsecond
  rw [roundWithAccuracy, hfirst]
  simp only
  rw [show (ofFraction num (den * 2 ^ n)).roundedMantissa = r from rfl]
  simp only [hsecond]
  clear_value r
  obtain hlt | heq := hle.lt_or_eq
  · have hm : (ofFraction r 1).mantissa = r := by rw [ofFraction_eq r 1 Nat.one_pos, Nat.div_one]
    simp only [excess_small hlt he, pow_zero, hm, hlt, if_true, Nat.cast_zero, add_zero]
  · have hm : (ofFraction (2 ^ 53) (2 ^ 1)).mantissa = 2 ^ 52 := by decide +kernel
    subst heq
    simp only [excess_carry he, hm, Nat.cast_one, lt_irrefl, if_false]
    rw [dif_neg (by decide), dif_neg (by decide)]

theorem canonical_rounded {num den : Nat} (hden : 0 < den) {e : Int}
    (h : 2 ^ 52 ≤ num / den ∨ e ≤ -1074)
    (hr : (ofFraction num (den * 2 ^ excess (num / den) e)).roundedMantissa < 2 ^ 53) :
    Canonical (ofFraction num (den * 2 ^ excess (num / den) e)).roundedMantissa
      (e + excess (num / den) e) where
  mantissa_lt := hr
  exponent_ge := exponent_ge _ _
  normal := by
    refine (shifted_normal h).imp_left fun hnormal => ?_
    rw [Nat.div_div_eq_div_mul] at hnormal
    exact hnormal.trans (rounded_ofFraction num _ (by positivity)).1

end Rounding

section Packing

theorem unpack_normal (s : Sign) {x : BitVec 11} (v : BitVec 52) (hones : x ≠ -1#11)
    (hzero : x ≠ 0#11) :
    UnpackedFloat.unpack Format.binary64 (packComponents Format.binary64 s x v) =
      .finite s (1#1 ++ v).toNat (x.toNat - 1075) (by rw [append_one_toNat]; omega) := by
  rw [UnpackedFloat.unpack]
  simp only [unpackMantissa_packComponents, unpackExponent_packComponents,
    unpackSign_packComponents, Sign.ofBitVec_toBitVec]
  rw [if_neg hones, if_neg hzero]
  rfl

theorem unpack_subnormal (s : Sign) {v : BitVec 52} (hv : 0 < v.toNat) :
    UnpackedFloat.unpack Format.binary64 (packComponents Format.binary64 s 0#11 v) =
      .finite s v.toNat (-1074) hv := by
  have hne : v ≠ 0#52 := by
    rintro rfl
    exact absurd hv (by decide)
  rw [UnpackedFloat.unpack]
  simp only [unpackMantissa_packComponents, unpackExponent_packComponents,
    unpackSign_packComponents, Sign.ofBitVec_toBitVec]
  rw [if_neg (by decide), if_pos trivial, dif_neg hne]
  rfl

theorem unpack_infinity (s : Sign) :
    UnpackedFloat.unpack Format.binary64 (packedInfinity Format.binary64 s) = .infinity s := by
  rw [packedInfinity, UnpackedFloat.unpack]
  simp only [unpackMantissa_packComponents, unpackExponent_packComponents,
    unpackSign_packComponents, Sign.ofBitVec_toBitVec]
  rfl

/-- Packing loses nothing of a canonical number that is not too large. -/
theorem unpack_pack {s : Sign} {m : Nat} {e : Int} {hm : 0 < m} (h : Canonical m e)
    (he : e ≤ 971) : (Float.Model.pack (.finite s m e hm)).unpack = .finite s m e hm := by
  have hlt := h.mantissa_lt
  have hge := h.exponent_ge
  have hbias : ¬ 2 ^ 11 ≤ (e + 1023 + 52).toNat + 1 := by omega
  change UnpackedFloat.unpack Format.binary64 (if 2 ^ 11 ≤ (e + 1023 + 52).toNat + 1 then _
    else if m.log2 + 1 = 53 then packComponents _ s (BitVec.ofNat 11 (e + 1023 + 52).toNat)
      (BitVec.ofNat 52 m) else packComponents _ s 0#11 (BitVec.ofNat 52 m)) = _
  rw [if_neg hbias]
  by_cases hnormal : 2 ^ 52 ≤ m
  · have hlog : m.log2 + 1 = 53 := by
      have hle := (Nat.le_log2 hm.ne').mpr hnormal
      have hlt := (Nat.log2_lt hm.ne').mpr hlt
      omega
    have hx : (BitVec.ofNat 11 (e + 1023 + 52).toNat).toNat = (e + 1023 + 52).toNat := by
      rw [BitVec.toNat_ofNat, Nat.mod_eq_of_lt (by omega)]
    have hones : BitVec.ofNat 11 (e + 1023 + 52).toNat ≠ -1#11 := by
      intro hx'
      rw [hx'] at hx
      change 2047 = _ at hx
      omega
    have hzero : BitVec.ofNat 11 (e + 1023 + 52).toNat ≠ 0#11 := by
      intro hx'
      rw [hx'] at hx
      change 0 = _ at hx
      omega
    have hv : (1#1 ++ BitVec.ofNat 52 m).toNat = m := by
      rw [append_one_toNat, BitVec.toNat_ofNat]
      omega
    rw [if_pos hlog, unpack_normal s _ hones hzero]
    simp only [hv, hx]
    congr 1
    omega
  · have hlog : ¬ m.log2 + 1 = 53 := by
      have hlt := (Nat.log2_lt hm.ne').mpr (not_le.mp hnormal)
      omega
    have hv : (BitVec.ofNat 52 m).toNat = m := by
      rw [BitVec.toNat_ofNat, Nat.mod_eq_of_lt (not_le.mp hnormal)]
    rw [if_neg hlog, unpack_subnormal s (by omega)]
    simp only [hv, h.normal.resolve_left hnormal]

theorem unpack_pack_large {s : Sign} {m : Nat} {e : Int} {hm : 0 < m} (he : 971 < e) :
    (Float.Model.pack (.finite s m e hm)).unpack = .infinity s := by
  have hbias : 2 ^ 11 ≤ (e + 1023 + 52).toNat + 1 := by omega
  change UnpackedFloat.unpack Format.binary64 (if 2 ^ 11 ≤ (e + 1023 + 52).toNat + 1 then
    packedInfinity _ s else _) = _
  rw [if_pos hbias, unpack_infinity]

end Packing

section Products

theorem finite_of_unpack {x : Float} {s : Sign} {m : Nat} {e : Int} {hm : 0 < m}
    (h : x.toModel.unpack = .finite s m e hm) : x.isFinite = true := by
  change x.toModel.unpack.isFinite = true
  rw [h]
  rfl

theorem roundWithAccuracy_exact (s : Sign) {m : Nat} {e : Int} (hm : 0 < m) (hlt : m < 2 ^ 53)
    (he : -1074 ≤ e) : roundWithAccuracy Format.binary64 s m e .exact = .finite s m e hm := by
  have hround := roundWithAccuracy_eq s m 1 Nat.one_pos e
  have hwhole := rounded_whole m 1 Nat.one_pos
  rw [mul_one] at hwhole
  simp only [Nat.div_one, excess_small hlt he, one_mul, pow_zero, hwhole] at hround
  rw [dif_neg hm.ne', if_pos hlt] at hround
  simpa [Nat.mod_one, accuracyOfFraction] using hround

/-- A whole number of at most 53 bits is a double. -/
theorem unpack_ofNat {n : Nat} (hpos : 0 < n) (hlt : n < 2 ^ 53) :
    (Float.Model.ofNat n).unpack =
      .finite .positive (n * 2 ^ (52 - n.log2)) (n.log2 - 52)
        (Nat.mul_pos hpos (Nat.two_pow_pos _)) := by
  have hlog : n.log2 ≤ 52 := by
    have hlt := (Nat.log2_lt hpos.ne').mpr hlt
    omega
  have hcompare : compare (n : Int) 0 = .gt := compare_gt_iff_gt.mpr (by omega)
  have htarget : Format.binary64.targetExponent (totalExponent n 0) = n.log2 - 52 := by
    simp only [Format.targetExponent, totalExponent, Format.mantissaBits, Format.minExponent]
    omega
  have hshift : (0 - ((n.log2 : Int) - 52)).toNat = 52 - n.log2 := by omega
  have hnormal : 2 ^ 52 ≤ n * 2 ^ (52 - n.log2) := by
    calc 2 ^ 52 = 2 ^ n.log2 * 2 ^ (52 - n.log2) := by rw [← pow_add, Nat.add_sub_cancel' hlog]
      _ ≤ n * 2 ^ (52 - n.log2) := Nat.mul_le_mul_right _ (Nat.log2_self_le hpos.ne')
  have hbits : n * 2 ^ (52 - n.log2) < 2 ^ 53 := by
    calc n * 2 ^ (52 - n.log2)
        < 2 ^ (n.log2 + 1) * 2 ^ (52 - n.log2) :=
          Nat.mul_lt_mul_of_pos_right Nat.lt_log2_self (by positivity)
      _ = 2 ^ 53 := by
        rw [← pow_add]
        congr 1
        omega
  have he : (0 : Int) - ((52 - n.log2 : Nat) : Int) = n.log2 - 52 := by omega
  rw [Float.Model.ofNat, UnpackedFloat.ofNat, UnpackedFloat.ofInt, UnpackedFloat.normalize, hcompare]
  simp only [Int.toNat_natCast, UnpackedFloat.round, htarget, decreaseExponent, hshift, Nat.shiftLeft_eq, he]
  rw [roundWithAccuracy_exact _ (by positivity) hbits (by omega)]
  exact unpack_pack ⟨hbits, by omega, .inl hnormal⟩ (by omega)

/-- Multiplication by a power of two moves the exponent. -/
theorem unpack_mul_pow {x y : Float} {s t : Sign} {m : Nat} {e f : Int} {hm : 0 < m}
    (hx : x.toModel.unpack = .finite s m e hm)
    (hy : y.toModel.unpack = .finite t (2 ^ 52) f (by decide)) (hnormal : 2 ^ 52 ≤ m)
    (hlow : -1074 ≤ e + f + 52) (hhigh : e + f + 52 ≤ 971) :
    (x * y).toModel.unpack = .finite (s * t) m (e + f + 52) hm := by
  have hlt := (unpack_canonical x.toModel hx).mantissa_lt
  have hlog : (m * 2 ^ 52).log2 = 104 := by
    rw [Nat.log2_eq_iff (by positivity)]
    omega
  have hexcess : excess (m * 2 ^ 52) (e + f) = 52 := by
    rw [excess, hlog]
    omega
  have hround := roundWithAccuracy_eq (s * t) (m * 2 ^ 52) 1 Nat.one_pos (e + f)
  simp only [Nat.div_one, hexcess, one_mul, rounded_whole m (2 ^ 52) (by decide)] at hround
  rw [dif_neg hm.ne', if_pos hlt] at hround
  have hexact : accuracyOfFraction (m * 2 ^ 52 % 1) 1 = .exact := by
    rw [Nat.mod_one]
    rfl
  rw [hexact] at hround
  change (Float.Model.pack (x.toModel.unpack.mul Format.binary64 y.toModel.unpack)).unpack = _
  rw [hx, hy]
  change (Float.Model.pack (roundWithAccuracy _ (s * t) (m * 2 ^ 52) (e + f) .exact)).unpack = _
  rw [hround]
  exact unpack_pack ⟨hlt, hlow, .inl hnormal⟩ hhigh

theorem unpack_two : (2.0 : Float).toModel.unpack = .finite .positive (2 ^ 52) (-51) (by decide) :=
  rfl

theorem unpack_half : (0.5 : Float).toModel.unpack = .finite .positive (2 ^ 52) (-53) (by decide) :=
  rfl

/-- Halves and doubles of whole numbers are exact enough to stay in order. -/
theorem half_le_double {x : Float} {n : Nat} (hx : x.toModel = .ofNat n) (hlt : n < 2 ^ 53) :
    (x * 0.5).isFinite = true ∧ (x * 2.0).isFinite = true ∧ toRat (x * 0.5) ≤ toRat (x * 2.0) := by
  obtain rfl | hpos := Nat.eq_zero_or_pos n
  · obtain rfl : x = ⟨.ofNat 0⟩ := congrArg Float.ofModel hx
    refine ⟨by decide +kernel, by decide +kernel, ?_⟩
    rw [← le_iff (by decide +kernel) (by decide +kernel)]
    decide +kernel
  · have hunpack := unpack_ofNat hpos hlt
    rw [← hx] at hunpack
    have hc := unpack_canonical x.toModel hunpack
    have hlog := (Nat.log2_lt hpos.ne').mpr hlt
    have hnormal := hc.normal.resolve_right (by omega)
    have hhalf := unpack_mul_pow hunpack unpack_half hnormal (by omega) (by omega)
    have hdouble := unpack_mul_pow hunpack unpack_two hnormal (by omega) (by omega)
    refine ⟨finite_of_unpack hhalf, finite_of_unpack hdouble, not_lt.mp ?_⟩
    rw [toRat_lt_iff, hhalf, hdouble, not_lt]
    change (_ * 2 ^ _ : Int) ≤ _ * 2 ^ _
    gcongr
    · decide
    · omega

end Products

section Order

/-- What is not finite compares with a finite number by its sign, or not at
all. -/
theorem compare_of_not_finite {u v : UnpackedFloat} (hu : ¬ u.isFinite = true)
    (hv : v.isFinite = true) :
    (u.compare v = none ∧ v.compare u = none ∧ u = .notANumber) ∨
      (u.compare v = some .lt ∧ v.compare u = some .gt ∧ u = .infinity .negative) ∨
      (u.compare v = some .gt ∧ v.compare u = some .lt ∧ u = .infinity .positive) := by
  cases u with
  | zero s => exact absurd rfl hu
  | finite s m e hm => exact absurd rfl hu
  | notANumber =>
    cases v with
    | zero s => exact .inl ⟨rfl, rfl, rfl⟩
    | finite s m e hm => exact .inl ⟨rfl, rfl, rfl⟩
    | notANumber => cases hv
    | infinity s => cases hv
  | infinity s =>
    cases v with
    | notANumber => cases hv
    | infinity t => cases hv
    | zero t =>
      cases s with
      | negative => exact .inr (.inl ⟨rfl, rfl, rfl⟩)
      | positive => exact .inr (.inr ⟨rfl, rfl, rfl⟩)
    | finite t m e hm =>
      cases s with
      | negative => exact .inr (.inl ⟨rfl, rfl, rfl⟩)
      | positive => exact .inr (.inr ⟨rfl, rfl, rfl⟩)

theorem lt_unpack (x y : Float) :
    x < y ↔ x.toModel.unpack.compare y.toModel.unpack = some .lt := by
  change decide (x.toModel < y.toModel) = true ↔ _
  rw [decide_eq_true_iff]
  change (x.toModel.unpack.compare y.toModel.unpack == some .lt) = true ↔ _
  exact beq_iff_eq

theorem le_unpack (x y : Float) :
    x ≤ y ↔ (x.toModel.unpack.compare y.toModel.unpack).any (·.isLE) = true := by
  change decide (x.toModel ≤ y.toModel) = true ↔ _
  rw [decide_eq_true_iff]
  rfl

variable {x y z : Float}

theorem ne_infinity (hx : x.isFinite = true) (s : Sign) : x.toModel.unpack ≠ .infinity s := by
  intro h
  change x.toModel.unpack.isFinite = true at hx
  rw [h] at hx
  cases hx

theorem lt_of_finite (hz : z.isFinite = true) :
    x < z ↔ (x.isFinite = true ∧ toRat x < toRat z) ∨ x.toModel.unpack = .infinity .negative := by
  by_cases hx : x.isFinite = true
  · rw [lt_iff hx hz]
    simp [hx, ne_infinity hx]
  · rw [lt_unpack]
    obtain ⟨hc, -, hu⟩ | ⟨hc, -, hu⟩ | ⟨hc, -, hu⟩ := compare_of_not_finite hx hz
    all_goals rw [hc, hu]; simp [hx]

theorem finite_lt (hz : z.isFinite = true) :
    z < x ↔ (x.isFinite = true ∧ toRat z < toRat x) ∨ x.toModel.unpack = .infinity .positive := by
  by_cases hx : x.isFinite = true
  · rw [lt_iff hz hx]
    simp [hx, ne_infinity hx]
  · rw [lt_unpack]
    obtain ⟨-, hc, hu⟩ | ⟨-, hc, hu⟩ | ⟨-, hc, hu⟩ := compare_of_not_finite hx hz
    all_goals rw [hc, hu]; simp [hx]

theorem le_of_finite (hz : z.isFinite = true) :
    x ≤ z ↔ (x.isFinite = true ∧ toRat x ≤ toRat z) ∨ x.toModel.unpack = .infinity .negative := by
  by_cases hx : x.isFinite = true
  · rw [le_iff hx hz]
    simp [hx, ne_infinity hx]
  · rw [le_unpack]
    obtain ⟨hc, -, hu⟩ | ⟨hc, -, hu⟩ | ⟨hc, -, hu⟩ := compare_of_not_finite hx hz
    all_goals rw [hc, hu]; simp [hx]

/-- Two finite thresholds in order cannot both be passed, whatever passes them. -/
theorem not_both_passed {a b : Float} (ha : a.isFinite = true) (hb : b.isFinite = true)
    (hab : toRat a ≤ toRat b) (hlt : x < a) : ¬ b < x := by
  intro hgt
  obtain ⟨hx, hlt⟩ | hneg := (lt_of_finite ha).mp hlt
  · obtain ⟨-, hgt⟩ | hpos := (finite_lt hb).mp hgt
    · exact absurd (hlt.trans_le hab) hgt.asymm
    · exact absurd hpos (ne_infinity hx _)
  · obtain ⟨hx, -⟩ | hpos := (finite_lt hb).mp hgt
    · exact absurd hneg (ne_infinity hx _)
    · rw [hneg] at hpos
      cases hpos

theorem le_trans_finite (hy : y.isFinite = true) (hz : z.isFinite = true)
    (hyz : toRat y ≤ toRat z) (hxy : x ≤ y) : x ≤ z := by
  rw [le_of_finite hy] at hxy
  rw [le_of_finite hz]
  exact hxy.imp_left fun h => ⟨h.1, h.2.trans hyz⟩

/-- A positive number is a positive finite one or the positive infinity. -/
theorem zero_lt_unpack :
    0.0 < x ↔ x.toModel.unpack = .infinity .positive ∨
      ∃ m e hm, x.toModel.unpack = .finite .positive m e hm := by
  rw [lt_unpack]
  have hzero : (0.0 : Float).toModel.unpack = .zero .positive := rfl
  rw [hzero]
  cases x.toModel.unpack with
  | notANumber => simp [UnpackedFloat.compare]
  | zero s => simp [UnpackedFloat.compare]
  | infinity s => cases s <;> simp [UnpackedFloat.compare]
  | finite s m e hm => cases s <;> simp [UnpackedFloat.compare, hm]

/-- What is positive and does not exceed a finite bound is finite. -/
theorem le_of_not_lt (hz : z.isFinite = true) (hpos : 0.0 < x) (h : ¬ z < x) :
    x.isFinite = true ∧ x ≤ z := by
  obtain hinf | ⟨m, e, hm, hfin⟩ := zero_lt_unpack.mp hpos
  · exact absurd ((finite_lt hz).mpr (.inr hinf)) h
  · have hx := finite_of_unpack hfin
    exact ⟨hx, (le_iff hx hz).mpr ((not_lt_iff hz hx).mp h)⟩

end Order

section Quotients

/-- The exponent that division starts from, and how far it shifts the
numerator. -/
def quotientExponent (m : Nat) (e : Int) (n : Nat) (f : Int) : Int :=
  min (e - f) (max ((m.log2 : Int) + e - (n.log2 + f) - 53) (-1074))

def quotientShift (m : Nat) (e : Int) (n : Nat) (f : Int) : Nat :=
  (e - f - quotientExponent m e n f).toNat

theorem divCore_eq (m : Nat) (e : Int) (n : Nat) (f : Int) :
    divCore Format.binary64 m e n f =
      (m * 2 ^ quotientShift m e n f / n, quotientExponent m e n f,
        accuracyOfFraction (m * 2 ^ quotientShift m e n f % n) n) := by
  have htarget : min (e - f) (Format.binary64.targetExponent
      (totalExponent m e - totalExponent n f)) = quotientExponent m e n f := by
    rw [quotientExponent]
    simp only [Format.targetExponent, totalExponent, Format.mantissaBits, Format.minExponent]
    omega
  rw [divCore]
  simp only [htarget, Nat.shiftLeft_eq]
  rfl

/-- The quotient has all its bits unless its exponent is too small for them. -/
theorem quotient_normal {m n : Nat} (hm : 0 < m) (hn : 0 < n) (e f : Int) :
    2 ^ 52 ≤ m * 2 ^ quotientShift m e n f / n ∨ quotientExponent m e n f ≤ -1074 := by
  by_cases hsmall : quotientExponent m e n f ≤ -1074
  · exact .inr hsmall
  · left
    have hshift : n.log2 + 53 ≤ m.log2 + quotientShift m e n f := by
      rw [quotientShift]
      rw [quotientExponent] at hsmall ⊢
      omega
    rw [Nat.le_div_iff_mul_le hn]
    calc 2 ^ 52 * n ≤ 2 ^ 52 * 2 ^ (n.log2 + 1) := Nat.mul_le_mul_left _ Nat.lt_log2_self.le
      _ = 2 ^ (n.log2 + 53) := by ring
      _ ≤ 2 ^ (m.log2 + quotientShift m e n f) := Nat.pow_le_pow_right (by decide) hshift
      _ = 2 ^ m.log2 * 2 ^ quotientShift m e n f := pow_add _ _ _
      _ ≤ m * 2 ^ quotientShift m e n f := Nat.mul_le_mul_right _ (Nat.log2_self_le hm.ne')

/-- A quotient is rounded to zero if it does not exceed half of the smallest
positive double. -/
theorem rounded_quotient_ne_zero {m n : Nat} {e f : Int} (hm : 0 < m) (hn : 0 < n)
    (he : -1074 ≤ e) (hf : -1074 ≤ f) :
    let num := m * 2 ^ quotientShift m e n f
    let k := excess (num / n) (quotientExponent m e n f)
    (ofFraction num (n * 2 ^ k)).roundedMantissa ≠ 0 ↔
      n * 2 ^ (f + 1074).toNat < 2 * (2 ^ 1074 * (m * 2 ^ (e + 1074).toNat)) := by
  intro num k
  rw [rounded_ne_zero_iff _ _ (by positivity)]
  have hshift : (quotientShift m e n f : Int) = e - f - quotientExponent m e n f := by
    rw [quotientShift, quotientExponent]
    omega
  have hk : -1074 ≤ quotientExponent m e n f + k := exponent_ge _ _
  obtain hnormal | hmin : 2 ^ 52 ≤ num / n / 2 ^ k ∨ quotientExponent m e n f + k = -1074 :=
    shifted_normal (quotient_normal hm hn e f)
  · have hexp : quotientShift m e n f + (f + 1074).toNat ≤ (e + 1074).toNat + k + 1074 := by omega
    rw [Nat.div_div_eq_div_mul, Nat.le_div_iff_mul_le (by positivity)] at hnormal
    change 2 ^ 52 * (n * 2 ^ k) ≤ num at hnormal
    have hone : 0 < n * 2 ^ k := by positivity
    refine iff_of_true (by omega) ?_
    have hscaled : 2 ^ k * (2 ^ 52 * (n * 2 ^ (f + 1074).toNat)) ≤
        2 ^ k * (2 ^ 1074 * (m * 2 ^ (e + 1074).toNat)) := by
      calc 2 ^ k * (2 ^ 52 * (n * 2 ^ (f + 1074).toNat))
          = 2 ^ 52 * (n * 2 ^ k) * 2 ^ (f + 1074).toNat := by ring
        _ ≤ num * 2 ^ (f + 1074).toNat := Nat.mul_le_mul_right _ hnormal
        _ = m * 2 ^ (quotientShift m e n f + (f + 1074).toNat) := by rw [pow_add, mul_assoc]
        _ ≤ m * 2 ^ ((e + 1074).toNat + k + 1074) :=
          Nat.mul_le_mul_left _ (Nat.pow_le_pow_right (by decide) hexp)
        _ = 2 ^ k * (2 ^ 1074 * (m * 2 ^ (e + 1074).toNat)) := by
          rw [pow_add, pow_add]
          generalize (2 : Nat) ^ 1074 = scale
          ring
    have hle := Nat.le_of_mul_le_mul_left hscaled (by positivity)
    have hpos : 0 < n * 2 ^ (f + 1074).toNat := by positivity
    generalize 2 ^ 1074 * (m * 2 ^ (e + 1074).toNat) = bound at hle ⊢
    omega
  · have heq : quotientShift m e n f + (f + 1074).toNat = (e + 1074).toNat + k + 1074 := by omega
    have hleft : n * 2 ^ k * 2 ^ (f + 1074).toNat = 2 ^ k * (n * 2 ^ (f + 1074).toNat) := by ring
    have hright : 2 * num * 2 ^ (f + 1074).toNat =
        2 ^ k * (2 * (2 ^ 1074 * (m * 2 ^ (e + 1074).toNat))) := by
      calc 2 * num * 2 ^ (f + 1074).toNat
          = 2 * m * 2 ^ (quotientShift m e n f + (f + 1074).toNat) := by
            simp only [num]
            ring
        _ = 2 ^ k * (2 * (2 ^ 1074 * (m * 2 ^ (e + 1074).toNat))) := by
          rw [heq, pow_add, pow_add]
          generalize (2 : Nat) ^ 1074 = scale
          ring
    rw [← Nat.mul_lt_mul_right (show 0 < 2 ^ (f + 1074).toNat by positivity), hleft, hright,
      Nat.mul_lt_mul_left (by positivity)]

/-- The sign of a quotient survives its rounding. -/
theorem pack_rounded_pos {num den : Nat} (hden : 0 < den) {e : Int}
    (h : 2 ^ 52 ≤ num / den ∨ e ≤ -1074) {x : Float}
    (hx : x.toModel = Float.Model.pack (roundWithAccuracy Format.binary64 .positive (num / den) e
      (accuracyOfFraction (num % den) den))) :
    0.0 < x ↔ (ofFraction num (den * 2 ^ excess (num / den) e)).roundedMantissa ≠ 0 := by
  have hround := roundWithAccuracy_eq .positive num den hden e
  simp only at hround
  rw [zero_lt_unpack, hx, hround]
  have hcanonical := canonical_rounded hden h
  have hge : -1074 ≤ e + excess (num / den) e := exponent_ge _ _
  have hsign : ∀ {m : Nat} {f : Int} {hm : 0 < m}, Canonical m f →
      (Float.Model.pack (.finite .positive m f hm)).unpack = .infinity .positive ∨
        ∃ m' f' hm', (Float.Model.pack (.finite .positive m f hm)).unpack =
          .finite .positive m' f' hm' := by
    intro m f hm hc
    obtain hsmall | hlarge := le_or_gt f 971
    · exact .inr ⟨m, f, hm, unpack_pack hc hsmall⟩
    · exact .inl (unpack_pack_large hlarge)
  generalize (ofFraction num (den * 2 ^ excess (num / den) e)).roundedMantissa = r at hcanonical ⊢
  by_cases hzero : r = 0
  · rw [dif_pos hzero]
    have hunpack : (Float.Model.pack (.zero .positive)).unpack = .zero .positive := rfl
    simp [hunpack, hzero]
  · rw [dif_neg hzero]
    refine iff_of_true ?_ hzero
    by_cases hcarry : r < 2 ^ 53
    · rw [if_pos hcarry]
      exact hsign (hcanonical hcarry)
    · rw [if_neg hcarry]
      exact hsign ⟨by decide, by omega, .inl le_rfl⟩

/-- When the quotient of two positive numbers is positive: the divisor is finite
and the quotient exceeds half of the smallest positive double. -/
theorem zero_lt_div_iff {x y : Float} (hx : x.isFinite = true) (hx0 : 0.0 < x) (hy0 : 0.0 < y) :
    0.0 < x / y ↔ y.isFinite = true ∧ toRat y < 2 ^ 1075 * toRat x := by
  obtain hinf | ⟨m, e, hm, hux⟩ := zero_lt_unpack.mp hx0
  · exact absurd hinf (ne_infinity hx _)
  have hdiv : (x / y).toModel = Float.Model.pack
      (UnpackedFloat.div Format.binary64 (.finite .positive m e hm) y.toModel.unpack) := by
    rw [← hux]
    rfl
  obtain hinf | ⟨n, f, hn, huy⟩ := zero_lt_unpack.mp hy0
  · have hzero : (Float.Model.pack (.zero .positive)).unpack = .zero .positive := rfl
    have hy : ¬ y.isFinite = true := fun hy => ne_infinity hy _ hinf
    have hunpack : (x / y).toModel.unpack = .zero .positive := by
      rw [hdiv, hinf]
      exact hzero
    rw [zero_lt_unpack, hunpack]
    simp [hy]
  · have hcx := unpack_canonical x.toModel hux
    have hcy := unpack_canonical y.toModel huy
    rw [huy] at hdiv
    simp only [UnpackedFloat.div, divCore_eq] at hdiv
    have hnonzero := rounded_quotient_ne_zero hm hn hcx.exponent_ge hcy.exponent_ge
    simp only at hnonzero
    rw [pack_rounded_pos hn (quotient_normal hm hn e f) hdiv, hnonzero, toRat, toRat, hux, huy]
    simp only [finite_of_unpack huy, true_and]
    have hscale : (2 : ℚ) ^ 1075 * (units (.finite .positive m e hm) / 2 ^ 1074) =
        2 * (2 ^ 1074 * units (.finite .positive m e hm)) / 2 ^ 1074 := by
      rw [pow_succ' 2 1074, mul_assoc, mul_div_assoc, mul_div_assoc]
    rw [hscale, div_lt_div_iff_of_pos_right (by positivity)]
    simp only [units, Sign.apply]
    generalize hs : (2 : Nat) ^ 1074 = scale
    have hs' : (2 : ℚ) ^ 1074 = scale := by rw [← hs, Nat.cast_pow, Nat.cast_ofNat]
    rw [hs']
    exact_mod_cast Iff.rfl

end Quotients

end Lib.Binary64
