import StratumPool.DiffEngine
import StratumPool.Telemetry
import StratumPool.Lib.Binary64
import Mathlib.Order.Interval.Finset.Fin

namespace StratumPool.WorkScale

open Lib.Binary64 StratumPool.Kaspa StratumPool.DiffEngine StratumPool.Telemetry

theorem poolTarget_lt (d : Float) : poolTarget d < 2 ^ 256 := by
  rw [poolTarget]
  split
  · decide
  · exact (Nat.div_le_self _ _).trans_lt (by decide)

/-- The hashes a share of difficulty `d` may have. -/
def acceptedHashes (d : Float) : Finset Uint256 := Finset.Iic ⟨poolTarget d, poolTarget_lt d⟩

theorem verifyShare_iff_accepted (crates : Crates) (header : Header) (nonce : UInt64) (d : Float) :
    (verifyShare crates header nonce d).1 = true ↔
      (crates.checkPow { header with nonce := nonce } nonce).2 ∈ acceptedHashes d := by
  rw [acceptedHashes, Finset.mem_Iic, Fin.le_def]
  exact decide_eq_true_iff

theorem card_acceptedHashes (d : Float) : (acceptedHashes d).card = poolTarget d + 1 :=
  Fin.card_Iic _

/-- The multiplication by the difficulty constant is exact on the powers of two. -/
theorem units_work_pow_two : ∀ k : Fin 64,
    units (work (UInt64.toFloat (2 ^ k.val))).toModel.unpack = 2 ^ (k.val + 32) * 2 ^ 1074 := by
  decide +kernel

theorem toRat_work_pow_two (k : Nat) (hk : k < 64) :
    toRat (work (UInt64.toFloat (2 ^ k))) = 2 ^ 32 * 2 ^ k := by
  rw [toRat_of_units (units_work_pow_two ⟨k, hk⟩), Int.cast_pow, Int.cast_ofNat, pow_add, mul_comm]

theorem work_mul_trials (k : Nat) (hk : k < 64) :
    toRat (work (UInt64.toFloat (2 ^ k))) * (poolTarget (UInt64.toFloat (2 ^ k)) + 1) =
      2 ^ 32 * 2 ^ 256 := by
  have htarget : ((poolTarget (UInt64.toFloat (2 ^ k)) : ℚ) + 1) * 2 ^ k = 2 ^ 256 := by
    exact_mod_cast poolTarget_pow_two k hk
  rw [toRat_work_pow_two k hk, mul_assoc, mul_comm (2 ^ k), htarget]

/-- A share books `2 ^ 32` times the hashes it takes to find one. -/
theorem work_outweighs_trials (k : Nat) (hk : k < 64) :
    toRat (work (UInt64.toFloat (2 ^ k))) * (poolTarget (UInt64.toFloat (2 ^ k)) + 1) =
        2 ^ 32 * 2 ^ 256 ∧
      toRat (work (UInt64.toFloat (2 ^ k))) * (poolTarget (UInt64.toFloat (2 ^ k)) + 1) ≠
        2 ^ 256 := by
  refine ⟨work_mul_trials k hk, ?_⟩
  rw [work_mul_trials k hk]
  norm_num

theorem work_outweighs_trials_256 :
    toRat (work (UInt64.toFloat (2 ^ (8 : Nat)))) * (poolTarget (UInt64.toFloat (2 ^ (8 : Nat))) + 1) =
        2 ^ 32 * 2 ^ 256 ∧
      toRat (work (UInt64.toFloat (2 ^ (8 : Nat)))) * (poolTarget (UInt64.toFloat (2 ^ (8 : Nat))) + 1) ≠
        2 ^ 256 :=
  work_outweighs_trials 8 (by decide)

/-- At difficulty 256 the two scales already disagree. -/
theorem work_mismatch_at_256 :
    ¬ ∀ k : Nat, k < 64 →
      toRat (work (UInt64.toFloat (2 ^ k))) * (poolTarget (UInt64.toFloat (2 ^ k)) + 1) =
        2 ^ 256 := by
  intro h
  have h8 := h 8 (by decide)
  rw [work_mul_trials 8 (by decide)] at h8
  norm_num at h8

end StratumPool.WorkScale
