import StratumPool.Lib.HexText

namespace StratumPool.Text

open Lib

/-- A Rust string as the sequence of its characters. -/
abbrev Str := List Char

def lit (s : String) : Str := s.toList

/-- `str::len`, which counts the bytes of the UTF-8 form. -/
def len (s : Str) : Nat := (s.map Char.utf8Size).sum

/-- `char::is_whitespace`: the Unicode `White_Space` property. -/
def isWhitespace (c : Char) : Bool :=
  let n := c.toNat
  (0x9 ≤ n && n ≤ 0xD) || n == 0x20 || n == 0x85 || n == 0xA0 || n == 0x1680 ||
    (0x2000 ≤ n && n ≤ 0x200A) || n == 0x2028 || n == 0x2029 || n == 0x202F || n == 0x205F ||
    n == 0x3000

def trim (s : Str) : Str := (s.dropWhile isWhitespace).rdropWhile isWhitespace

/-- `s.replace(c, "")` -/
def without (c : Char) (s : Str) : Str := s.filter (fun d => d != c)

/-- `s.trim_start_matches("0x")` takes off every leading `0x`, not only one. -/
def trimStart0x : Str → Str
  | '0' :: 'x' :: rest => trimStart0x rest
  | s => s

/-- `s.split('.')` -/
def splitDots (s : Str) : List Str := s.splitOn '.'

/-- `u64::from_str_radix(s, 16)`. A leading plus sign is accepted, as Rust's
integer parser does. -/
def fromStrRadix16 : Str → Option Nat
  | [] => none
  | ['+'] => none
  | '+' :: rest => HexText.digits (2 ^ 64) 0 rest
  | s => HexText.digits (2 ^ 64) 0 s

/-- A hexadecimal numeral that fits a `u64`, with or without a plus sign. -/
def Reads (s : Str) (n : Nat) : Prop :=
  ∃ ds, (s = ds ∨ s = '+' :: ds) ∧ ds ≠ [] ∧ (∀ c ∈ ds, HexText.isHex c = true) ∧
    HexText.value ds = n ∧ n < 2 ^ 64

theorem fromStrRadix16_plus (c : Char) (ds : Str) :
    fromStrRadix16 ('+' :: c :: ds) = HexText.digits (2 ^ 64) 0 (c :: ds) := rfl

theorem fromStrRadix16_unsigned {c : Char} (hc : c ≠ '+') (cs : Str) :
    fromStrRadix16 (c :: cs) = HexText.digits (2 ^ 64) 0 (c :: cs) := by
  rw [fromStrRadix16]
  · intro h
    cases h
  · exact fun h => hc (List.cons.inj h).1
  · exact fun _ h => hc (List.cons.inj h).1

theorem isHex_plus : HexText.isHex '+' = false := rfl

theorem fromStrRadix16_eq_some_iff {s : Str} {n : Nat} : fromStrRadix16 s = some n ↔ Reads s n := by
  have hdigits : ∀ ds, HexText.digits (2 ^ 64) 0 ds = some n ↔
      (∀ c ∈ ds, HexText.isHex c = true) ∧ HexText.value ds = n ∧ n < 2 ^ 64 :=
    fun ds => HexText.digits_eq_some_iff (by decide)
  cases s with
  | nil => simp [fromStrRadix16, Reads]
  | cons c cs =>
    by_cases hc : c = '+'
    · subst hc
      cases cs with
      | nil =>
        refine iff_of_false (by simp [fromStrRadix16]) ?_
        rintro ⟨ds, rfl | hs, hne, hhex, -⟩
        · simpa [isHex_plus] using hhex '+'
        · exact hne (List.cons.inj hs).2.symm
      | cons d cs =>
        rw [fromStrRadix16_plus, hdigits]
        constructor
        · exact fun h => ⟨d :: cs, .inr rfl, by simp, h⟩
        · rintro ⟨ds, rfl | hs, -, h⟩
          · simpa [isHex_plus] using h.1 '+'
          · rw [(List.cons.inj hs).2]
            exact h
    · rw [fromStrRadix16_unsigned hc, hdigits]
      constructor
      · exact fun h => ⟨c :: cs, .inl rfl, by simp, h⟩
      · rintro ⟨ds, rfl | hs, -, h⟩
        · exact h
        · exact absurd (List.cons.inj hs).1 hc

/-- `format!("{:04x}", id & 0xFFFF)` -/
def lowHex (id : UInt64) : Str := HexText.padded 4 (id &&& 0xFFFF).toNat

theorem low_toNat (id : UInt64) : (id &&& 0xFFFF).toNat = id.toNat % 65536 := by
  rw [UInt64.toNat_and]
  exact Nat.and_two_pow_sub_one_eq_mod id.toNat 16

theorem lowHex_eq_iff (a b : UInt64) : lowHex a = lowHex b ↔ a.toNat % 65536 = b.toNat % 65536 := by
  rw [lowHex, lowHex, (HexText.padded_injective 4).eq_iff, low_toNat, low_toNat]

end StratumPool.Text
