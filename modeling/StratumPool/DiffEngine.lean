import StratumPool.Kaspa
import Mathlib.Tactic.Positivity
import Mathlib.Tactic.Ring

namespace StratumPool.DiffEngine

open StratumPool.Kaspa

def maxTarget : Nat := 2 ^ 256 - 1

def poolTarget (minShareDiff : Float) : Nat :=
  if minShareDiff ≤ 1.0 then maxTarget else maxTarget / minShareDiff.toUInt64.toNat

/-- Whether the nonce meets the pool target and whether it meets the network
target. -/
def verifyShare (crates : Crates) (header : Header) (nonce : UInt64) (minShareDiff : Float) :
    Bool × Bool :=
  let testingHeader := { header with nonce := nonce }
  let (isNetworkBlock, powHash) := crates.checkPow testingHeader nonce
  (decide (powHash.val ≤ poolTarget minShareDiff), isNetworkBlock)

/-- The casts on the way from a connection's difficulty to the target lose
nothing on the powers of two. -/
theorem castU64_pow_two : ∀ k : Fin 64,
    (UInt64.toFloat (2 ^ k.val)).toUInt64.toNat = 2 ^ k.val ∧
      (UInt64.toFloat (2 ^ k.val) ≤ 1.0 ↔ k.val = 0) := by
  decide +kernel

theorem poolTarget_pow_two (k : Nat) (hk : k < 64) :
    (poolTarget (UInt64.toFloat (2 ^ k)) + 1) * 2 ^ k = 2 ^ 256 := by
  obtain ⟨hcast, hone⟩ := castU64_pow_two ⟨k, hk⟩
  simp only at hcast hone
  by_cases h0 : k = 0
  · subst h0
    rw [poolTarget, if_pos (hone.mpr rfl)]
    rfl
  · rw [poolTarget, if_neg (fun h => h0 (hone.mp h)), hcast]
    have hsplit : 2 ^ 256 = 2 ^ (256 - k) * 2 ^ k := by
      rw [← pow_add]
      congr 1
      omega
    have hpos : 0 < 2 ^ (256 - k) := by positivity
    have hdiv : maxTarget / 2 ^ k = 2 ^ (256 - k) - 1 := by
      apply Nat.div_eq_of_lt_le
      · rw [Nat.sub_mul, maxTarget, hsplit]
        have : 1 ≤ 2 ^ k := Nat.one_le_two_pow
        omega
      · rw [Nat.sub_add_cancel hpos, ← hsplit]
        decide
    rw [hdiv, Nat.sub_add_cancel hpos, ← hsplit]

/-- At a power of two the pool target asks for that many leading zero bits. -/
theorem verifyShare_two_pow (crates : Crates) (header : Header) (nonce : UInt64) {k : Nat}
    (hk : k < 64) :
    (verifyShare crates header nonce (UInt64.toFloat (2 ^ k))).1 = true ↔
      (crates.checkPow { header with nonce := nonce } nonce).2.val < 2 ^ (256 - k) := by
  have hsplit : 2 ^ (256 - k) * 2 ^ k = 2 ^ 256 := by
    rw [← pow_add, Nat.sub_add_cancel (by omega)]
  have htarget : poolTarget (UInt64.toFloat (2 ^ k)) + 1 = 2 ^ (256 - k) :=
    Nat.eq_of_mul_eq_mul_right (by positivity) ((poolTarget_pow_two k hk).trans hsplit.symm)
  rw [← htarget, Nat.lt_succ_iff]
  exact decide_eq_true_iff

end StratumPool.DiffEngine
