import StratumPool.Lib.Binary64
import StratumPool.Lib.Nearest
import StratumPool.Treasury

namespace StratumPool.Decimals

open Lib.Binary64 Lib.Nearest StratumPool.Treasury

/-- The numbers of a treasury whose amounts come as doubles. -/
structure Doubles (R A : Type) extends Numbers R A where
  ofDouble : Float → A

/-- Every double by its value, and nothing rounded. -/
def rational : Doubles ℚ ℚ := { unrounded ℚ with ofDouble := toRat }

@[simp] theorem rational_toNumbers : rational.toNumbers = unrounded ℚ := rfl

@[simp] theorem rational_ofDouble (x : Float) : rational.ofDouble x = toRat x := rfl

/-- Redis writes a float into a field with at most seventeen decimals: it is a
number of units of the last of them. -/
abbrev Decimal := ℤ

namespace Decimal

def value (field : Decimal) : ℚ := field / 10 ^ 17

/-- `str::parse::<f64>` of the field. -/
def parse (field : Decimal) : Float :=
  let magnitude := Float.ofScientific field.natAbs true 17
  if field < 0 then -magnitude else magnitude

/-- The sum of a field and an increment in a long double of `bits` binary digits,
into which both are read first. Doubles are far from the ends of its range. -/
def longSum (bits : ℕ) (field : Decimal) (increment : ℚ) : ℚ :=
  binary bits (binary bits field.value + binary bits increment)

/-- `HINCRBYFLOAT`, which prints the sum with `%.17Lf`. -/
def incrByFloat (bits : ℕ) (field : Decimal) (increment : ℚ) : Decimal :=
  whole (longSum bits field increment * 10 ^ 17)

/-- The sum is not below zero by more than half a unit of the last decimal. -/
def Bears (bits : ℕ) (field : Decimal) (increment : ℚ) : Prop :=
  -(1 / 2) ≤ longSum bits field increment * 10 ^ 17

theorem incrByFloat_nonneg_iff (bits : ℕ) (field : Decimal) (increment : ℚ) :
    0 ≤ field.incrByFloat bits increment ↔ field.Bears bits increment :=
  whole_nonneg_iff _

/-- Whole amounts are summed exactly as long as the digits last. -/
theorem incrByFloat_whole {bits : ℕ} {n k : ℤ} (hn : |n| < 2 ^ bits) (hk : |k| < 2 ^ bits)
    (hsum : |n + k| < 2 ^ bits) :
    Decimal.incrByFloat bits (n * 10 ^ 17 : ℤ) k = (n + k) * 10 ^ 17 := by
  have hexact : ∀ {m : ℤ}, |m| < 2 ^ bits → binary bits m = m := by
    intro m hm
    simpa using binary_of_multiple (e := 0) hm
  have hvalue : Decimal.value (n * 10 ^ 17 : ℤ) = n := by
    rw [value]
    push_cast
    exact mul_div_cancel_right₀ _ (by norm_num)
  have hlong : longSum bits (n * 10 ^ 17 : ℤ) k = ((n + k : ℤ) : ℚ) := by
    rw [longSum, hvalue, hexact hn, hexact hk, ← Int.cast_add, hexact hsum]
  have hunits : ((n + k : ℤ) : ℚ) * 10 ^ 17 = (((n + k) * 10 ^ 17 : ℤ) : ℚ) := by
    push_cast
    rfl
  rw [incrByFloat, hlong, hunits, whole_intCast]

/-- What reads as 400000.0 does not bear a debit of as much. -/
example :
    let field := Decimal.incrByFloat 64 (400000 * 10 ^ 17) (-1 / 10 ^ 11)
    ¬ field.parse < 400000.0 ∧ field.incrByFloat 64 (-400000) = -1000444 := by decide +kernel

end Decimal

/-- What the mock provider reckons with. `sent` is the decimal number that the
Redis driver writes for a double. -/
def redis (bits : ℕ) (sent : Float → ℚ) : Doubles Decimal Float where
  absent := 0
  add field amount := field.incrByFloat bits (sent amount)
  zero := 0.0
  read := Decimal.parse
  less balance amount := decide (balance < amount)
  neg amount := -amount
  ofDouble := id

end StratumPool.Decimals
