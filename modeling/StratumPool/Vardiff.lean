import StratumPool.Lib.Hysteresis
import StratumPool.Lib.Rounding

namespace StratumPool.Vardiff

open Lib Lib.Binary64

section Clamp

/-- `x.round() as u32`: to the nearest, halves away from zero, and what does not
fit to the closest number that does. -/
def roundU32 (x : Float) : Nat :=
  if x.isFinite then min (2 ^ 32 - 1) ⌊toRat x + 1 / 2⌋.toNat
  else if 0.0 < x then 2 ^ 32 - 1 else 0

variable (log2 : Float → Float)

def exponent (diff : Float) : Nat := if diff ≤ 1.0 then 0 else roundU32 (log2 diff)

/-- In a release build the power wraps around. -/
def clampToPowerOf2 (diff : Float) : UInt64 :=
  if diff ≤ 1.0 then 1 else 2 ^ roundU32 (log2 diff)

/-- A power of two between 1 and 2^63. -/
def IsPower (difficulty : UInt64) : Prop := ∃ k < 64, difficulty = 2 ^ k

theorem toNat_two_pow (k : Nat) : ((2 : UInt64) ^ k).toNat = 2 ^ k % 2 ^ 64 := by
  induction k with
  | zero => rfl
  | succ k ih =>
    have htwo : (2 : UInt64).toNat = 2 := rfl
    rw [UInt64.pow_succ, UInt64.toNat_mul, ih, htwo, Nat.mod_mul_mod, pow_succ 2 k]

theorem toNat_two_pow_lt {k : Nat} (h : k < 64) : ((2 : UInt64) ^ k).toNat = 2 ^ k := by
  rw [toNat_two_pow, Nat.mod_eq_of_lt (Nat.pow_lt_pow_right (by decide) h)]

theorem two_pow_ge {k : Nat} (h : 64 ≤ k) : (2 : UInt64) ^ k = 0 := by
  apply UInt64.toNat_inj.mp
  rw [toNat_two_pow, Nat.mod_eq_zero_of_dvd (pow_dvd_pow 2 h)]
  rfl

theorem clampToPowerOf2_eq (diff : Float) : clampToPowerOf2 log2 diff = 2 ^ exponent log2 diff := by
  rw [clampToPowerOf2, exponent]
  split_ifs
  · rfl
  · rfl

/-- The clamp overflows if and only if its exponent does not fit. -/
theorem clamp_exact_iff (diff : Float) :
    (clampToPowerOf2 log2 diff).toNat = 2 ^ exponent log2 diff ↔ exponent log2 diff < 64 := by
  rw [clampToPowerOf2_eq]
  constructor
  · intro heq
    by_contra hge
    rw [two_pow_ge (not_lt.mp hge)] at heq
    have hpos : 0 < 2 ^ exponent log2 diff := by positivity
    change 0 = 2 ^ exponent log2 diff at heq
    omega
  · exact toNat_two_pow_lt

end Clamp

section Rule

variable {R : Type} [LT R] [DecidableLT R] [Mul R] [OfScientific R]

/-- Fewer shares per minute than half the target. -/
def Slow (sharesPerMin targetSharesPerMin : R) : Prop := sharesPerMin < targetSharesPerMin * 0.5

/-- More than twice as many. -/
def Fast (sharesPerMin targetSharesPerMin : R) : Prop := targetSharesPerMin * 2.0 < sharesPerMin

instance (sharesPerMin targetSharesPerMin : R) : Decidable (Slow sharesPerMin targetSharesPerMin) :=
  inferInstanceAs (Decidable (_ < _))

instance (sharesPerMin targetSharesPerMin : R) : Decidable (Fast sharesPerMin targetSharesPerMin) :=
  inferInstanceAs (Decidable (_ < _))

/-- The rule of one retarget. `floor` is the clamped minimum. -/
def newDiff (sharesPerMin targetSharesPerMin : R) (floor currentDiff : UInt64) : UInt64 :=
  if Slow sharesPerMin targetSharesPerMin then max (currentDiff / 2) floor
  else if Fast sharesPerMin targetSharesPerMin then currentDiff * 2
  else currentDiff

theorem toNat_max (a b : UInt64) : (max a b).toNat = max a.toNat b.toNat := by
  rw [show max a b = if a ≤ b then b else a from rfl]
  split
  · rename_i h
    exact (max_eq_right (UInt64.le_iff_toNat_le.mp h)).symm
  · rename_i h
    rw [UInt64.le_iff_toNat_le] at h
    omega

theorem toNat_half (d : UInt64) : (d / 2).toNat = d.toNat / 2 := UInt64.toNat_div d 2

theorem toNat_double (d : UInt64) : (d * 2).toNat = d.toNat * 2 % 2 ^ 64 := UInt64.toNat_mul d 2

/-- The floor is all that can make a halving raise the difficulty. -/
theorem half_le_iff (d floor : UInt64) : max (d / 2) floor ≤ d ↔ floor ≤ d := by
  rw [UInt64.le_iff_toNat_le, UInt64.le_iff_toNat_le, toNat_max, toNat_half]
  omega

/-- The last bit is all that can make a doubling lower it. -/
theorem le_double_iff (d : UInt64) : d ≤ d * 2 ↔ d < 2 ^ 63 := by
  have hlt := d.toNat_lt
  rw [UInt64.le_iff_toNat_le, UInt64.lt_iff_toNat_lt, toNat_double, toNat_two_pow_lt (by decide)]
  omega

theorem double_exact_iff (d : UInt64) : (d * 2).toNat = d.toNat * 2 ↔ d < 2 ^ 63 := by
  rw [UInt64.lt_iff_toNat_lt, toNat_double, toNat_two_pow_lt (by decide)]
  omega

/-- On the powers of two halving moves the exponent, as far as the floor. -/
theorem half_two_pow {e b : Nat} (he : e < 64) (hb : b < 64) :
    max ((2 : UInt64) ^ e / 2) (2 ^ b) = 2 ^ max (e - 1) b := by
  apply UInt64.toNat_inj.mp
  rw [toNat_max, toNat_half, toNat_two_pow_lt he, toNat_two_pow_lt hb,
    toNat_two_pow_lt (by omega)]
  cases e with
  | zero =>
    have hpos : 0 < 2 ^ b := by positivity
    simp
  | succ e =>
    rw [pow_succ, Nat.mul_div_cancel _ (by decide), Nat.add_sub_cancel]
    obtain hle | hle := le_total e b
    · rw [max_eq_right hle, max_eq_right (Nat.pow_le_pow_right (by decide) hle)]
    · rw [max_eq_left hle, max_eq_left (Nat.pow_le_pow_right (by decide) hle)]

/-- A difficulty that the rule can reach: a power of two, or what is left of one
that overflowed. -/
def Reached (difficulty : UInt64) : Prop := difficulty = 0 ∨ IsPower difficulty

theorem reached_two_pow (k : Nat) : Reached (2 ^ k) := by
  obtain hlt | hge := lt_or_ge k 64
  · exact .inr ⟨k, hlt, rfl⟩
  · exact .inl (two_pow_ge hge)

theorem reached_half {d : UInt64} (h : Reached d) : Reached (d / 2) := by
  obtain rfl | ⟨k, hk, rfl⟩ := h
  · exact .inl rfl
  · cases k with
    | zero => exact .inl rfl
    | succ k =>
      refine .inr ⟨k, by omega, ?_⟩
      apply UInt64.toNat_inj.mp
      rw [toNat_half, toNat_two_pow_lt hk, toNat_two_pow_lt (by omega), pow_succ,
        Nat.mul_div_cancel _ (by decide)]

theorem reached_double {d : UInt64} (h : Reached d) : Reached (d * 2) := by
  obtain rfl | ⟨k, hk, rfl⟩ := h
  · exact .inl rfl
  · exact reached_two_pow (k + 1)

theorem max_cases (a b : UInt64) : max a b = a ∨ max a b = b := by
  rw [show max a b = if a ≤ b then b else a from rfl]
  split
  · exact .inr rfl
  · exact .inl rfl

theorem reached_max {a b : UInt64} (ha : Reached a) (hb : Reached b) : Reached (max a b) := by
  obtain h | h := max_cases a b
  · rwa [h]
  · rwa [h]

/-- The cast to `f64` is exact on the powers of two. -/
theorem units_two_pow : ∀ k : Fin 64,
    (UInt64.toFloat (2 ^ k.val)).isFinite = true ∧
      units (UInt64.toFloat (2 ^ k.val)).toModel.unpack = (2 ^ k.val : Nat) * 2 ^ 1074 := by
  decide +kernel

theorem toFloat_reached {d : UInt64} (h : Reached d) :
    d.toFloat.isFinite = true ∧ toRat d.toFloat = d.toNat := by
  obtain rfl | ⟨k, hk, rfl⟩ := h
  · have hunits : units (UInt64.toFloat 0).toModel.unpack = 0 := by decide +kernel
    refine ⟨by decide +kernel, ?_⟩
    simp [toRat, hunits]
  · obtain ⟨hfinite, hunits⟩ := units_two_pow ⟨k, hk⟩
    refine ⟨hfinite, ?_⟩
    rw [toRat_of_units hunits, toNat_two_pow_lt hk, Int.cast_natCast]

theorem le_toFloat_mono {minShareDiff : Float} {a b : UInt64} (ha : Reached a) (hb : Reached b)
    (hab : a ≤ b) (h : minShareDiff ≤ a.toFloat) : minShareDiff ≤ b.toFloat := by
  obtain ⟨hfa, hra⟩ := toFloat_reached ha
  obtain ⟨hfb, hrb⟩ := toFloat_reached hb
  refine le_trans_finite hfa hfb ?_ h
  rw [hra, hrb, Nat.cast_le]
  exact UInt64.le_iff_toNat_le.mp hab

theorem le_max_iff {minShareDiff : Float} {a b : UInt64} (ha : Reached a) (hb : Reached b) :
    minShareDiff ≤ (max a b).toFloat ↔ minShareDiff ≤ a.toFloat ∨ minShareDiff ≤ b.toFloat := by
  have hmax := reached_max ha hb
  constructor
  · obtain h | h := max_cases a b
    · rw [h]
      exact .inl
    · rw [h]
      exact .inr
  · rintro (h | h)
    · refine le_toFloat_mono ha hmax ?_ h
      rw [UInt64.le_iff_toNat_le, toNat_max]
      exact le_max_left _ _
    · refine le_toFloat_mono hb hmax ?_ h
      rw [UInt64.le_iff_toNat_le, toNat_max]
      exact le_max_right _ _

/-- A doubling stays above any bound unless it overflows. -/
theorem le_double_iff_of_le {minShareDiff : Float} {d : UInt64} (hd : Reached d)
    (h : minShareDiff ≤ d.toFloat) :
    minShareDiff ≤ (d * 2).toFloat ↔ d < 2 ^ 63 ∨ minShareDiff ≤ 0.0 := by
  by_cases hlt : d < 2 ^ 63
  · exact iff_of_true (le_toFloat_mono hd (reached_double hd) ((le_double_iff d).mpr hlt) h)
      (.inl hlt)
  · have hzero : d * 2 = 0 := by
      obtain rfl | ⟨k, hk, rfl⟩ := hd
      · exact absurd (by decide +kernel) hlt
      · rw [UInt64.lt_iff_toNat_lt, toNat_two_pow_lt hk, toNat_two_pow_lt (by decide),
          Nat.pow_lt_pow_iff_right (by decide)] at hlt
        obtain rfl : k = 63 := by omega
        rw [← UInt64.pow_succ]
        exact two_pow_ge le_rfl
    have hcast : UInt64.toFloat 0 = 0.0 := rfl
    rw [hzero, hcast]
    simp [hlt]

end Rule

section Convergence

variable {R : Type} [Field R] [LinearOrder R] [IsStrictOrderedRing R]

/-- The difficulties that the rule goes through for a miner of constant work
rate: a window at difficulty `d` measures `workRate / d` shares per minute. -/
def difficulties (workRate target : R) (floor start : UInt64) (n : Nat) : UInt64 :=
  (fun d => newDiff (workRate / d.toNat) target floor d)^[n] start

/-- The thresholds of the rule on the exponent of the difficulty. -/
def slowAt (workRate target : R) (e : Nat) : Prop := Slow (workRate / 2 ^ e) target

def fastAt (workRate target : R) (e : Nat) : Prop := Fast (workRate / 2 ^ e) target

instance (workRate target : R) : DecidablePred (slowAt workRate target) :=
  fun _ => inferInstanceAs (Decidable (Slow _ _))

instance (workRate target : R) : DecidablePred (fastAt workRate target) :=
  fun _ => inferInstanceAs (Decidable (Fast _ _))

theorem slowAt_iff {workRate target : R} (e : Nat) :
    slowAt workRate target e ↔ workRate < target / 2 * 2 ^ e := by
  have hhalf : target * 0.5 = target / 2 := by
    norm_num
    ring
  rw [slowAt, Slow, hhalf, div_lt_iff₀ (by positivity)]

theorem fastAt_iff {workRate target : R} (e : Nat) :
    fastAt workRate target e ↔ 2 * target * 2 ^ e < workRate := by
  have hdouble : target * 2.0 = 2 * target := by
    norm_num
    ring
  rw [fastAt, Fast, hdouble, lt_div_iff₀ (by positivity)]

/-- The two thresholds are a factor of four apart, so that one doubling or
halving does not cross both. -/
theorem band {workRate target : R} (htarget : 0 < target) (hrate : workRate ≤ 2 * target * 2 ^ 63) :
    Hysteresis.Band (slowAt workRate target) (fastAt workRate target) 63 where
  slow_succ := by
    intro e hslow
    rw [slowAt_iff] at hslow ⊢
    apply hslow.trans
    gcongr
    · norm_num
    · omega
  apart := by
    intro e hfast hslow
    rw [fastAt_iff] at hfast
    rw [slowAt_iff, pow_succ] at hslow
    have hpos : 0 < target * 2 ^ e := by positivity
    nlinarith
  top := by
    rw [fastAt_iff, not_lt]
    exact hrate

omit [IsStrictOrderedRing R] in
/-- On the powers of two the rule moves the exponent. -/
theorem newDiff_two_pow (workRate target : R) {e b : Nat} (he : e ≤ 63) (hb : b ≤ 63) :
    newDiff (workRate / ((2 ^ e : UInt64).toNat : R)) target (2 ^ b) (2 ^ e) =
      2 ^ Hysteresis.adjust (slowAt workRate target) (fastAt workRate target) b e := by
  have hcast : ((2 ^ e : UInt64).toNat : R) = 2 ^ e := by
    rw [toNat_two_pow_lt (by omega), Nat.cast_pow, Nat.cast_ofNat]
  rw [newDiff, Hysteresis.adjust, hcast]
  change (if slowAt workRate target e then _ else if fastAt workRate target e then _ else _) = _
  split
  · exact half_two_pow (by omega) (by omega)
  · split
    · rfl
    · rfl

theorem difficulties_eq {workRate target : R} (htarget : 0 < target)
    (hrate : workRate ≤ 2 * target * 2 ^ 63) {a b : Nat} (ha : a ≤ 63) (hb : b ≤ 63) (n : Nat) :
    difficulties workRate target (2 ^ b) (2 ^ a) n =
      2 ^ (Hysteresis.adjust (slowAt workRate target) (fastAt workRate target) b)^[n] a := by
  have hrests := (band htarget hrate).rests hb ha
  induction n with
  | zero => rfl
  | succ n ih =>
    rw [difficulties, Function.iterate_succ_apply', ← difficulties, ih,
      newDiff_two_pow workRate target (hrests.bounded n) hb, Function.iterate_succ_apply']

/-- The difficulties move one way only, change at most 63 times and are then
where the miner is measured within a factor of two of the target, or at the
floor with a miner too slow for it. -/
structure Converges (workRate target : R) (floor : UInt64) (ds : Nat → UInt64) : Prop where
  oneWay : Monotone (fun n => (ds n).toNat) ∨ Antitone (fun n => (ds n).toNat)
  changes : {n | ds (n + 1) ≠ ds n}.encard ≤ 63
  settled : ∀ n, 63 ≤ n → ds n = ds 63
  rest : (target / 2 ≤ workRate / ((ds 63).toNat : R) ∧
      workRate / ((ds 63).toNat : R) ≤ 2 * target) ∨
    (ds 63 = floor ∧ workRate / ((ds 63).toNat : R) < target / 2)

/-- Vardiff converges and never oscillates. -/
theorem vardiff_converges {workRate target : R} (htarget : 0 < target)
    (hrate : workRate ≤ 2 * target * 2 ^ 63) {a b : Nat} (ha : a ≤ 63) (hb : b ≤ 63) :
    Converges workRate target (2 ^ b) (difficulties workRate target (2 ^ b) (2 ^ a)) := by
  have hrests := (band htarget hrate).rests hb ha
  generalize hlevels : (fun n => (Hysteresis.adjust (slowAt workRate target)
    (fastAt workRate target) b)^[n] a) = levels at hrests
  have hds : ∀ n, difficulties workRate target (2 ^ b) (2 ^ a) n = 2 ^ levels n := by
    intro n
    rw [← hlevels]
    exact difficulties_eq htarget hrate ha hb n
  generalize difficulties workRate target (2 ^ b) (2 ^ a) = ds at hds ⊢
  have hnat : ∀ n, (ds n).toNat = 2 ^ levels n := by
    intro n
    have hle := hrests.bounded n
    rw [hds, toNat_two_pow_lt (by omega)]
  have hcast : ((ds 63).toNat : R) = 2 ^ levels 63 := by
    rw [hnat, Nat.cast_pow, Nat.cast_ofNat]
  refine ⟨?_, ?_, ?_, ?_⟩
  · simp only [hnat]
    exact hrests.oneWay.imp (fun h _ _ hle => Nat.pow_le_pow_right (by decide) (h hle))
      (fun h _ _ hle => Nat.pow_le_pow_right (by decide) (h hle))
  · refine (Set.encard_le_encard ?_).trans hrests.changes
    intro n hne hsame
    apply hne
    rw [hds, hds, hsame]
  · intro n hn
    rw [hds, hds, hrests.settled n hn]
  · rw [hcast, le_div_iff₀ (by positivity), div_le_iff₀ (by positivity),
      div_lt_iff₀ (by positivity)]
    apply hrests.rest.imp
    · rintro ⟨hslow, hfast⟩
      rw [slowAt_iff] at hslow
      rw [fastAt_iff] at hfast
      exact ⟨not_lt.mp hslow, not_lt.mp hfast⟩
    · rintro ⟨hslow, hfloor⟩
      rw [slowAt_iff] at hslow
      exact ⟨by rw [hds, hfloor], hslow⟩

/-- From difficulty 1, with a floor of 2, and a miner who does 6000 shares of
difficulty 1 in a minute. -/
theorem vardiff_converges_fast_miner :
    Converges (6000 : ℚ) 20 (2 ^ 1) (difficulties (6000 : ℚ) 20 (2 ^ 1) (2 ^ 0)) :=
  vardiff_converges (by norm_num) (by norm_num) (by decide) (by decide)

end Convergence

end StratumPool.Vardiff
