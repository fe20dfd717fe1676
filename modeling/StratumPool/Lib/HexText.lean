import Mathlib.Data.List.DropRight
import Mathlib.Data.Nat.Digits.Defs
import Mathlib.Tactic.IntervalCases
import Mathlib.Tactic.Linarith
import Mathlib.Tactic.Ring

namespace Lib.HexText

def digitVal (c : Char) : Option Nat :=
  if '0' ≤ c ∧ c ≤ '9' then some (c.toNat - '0'.toNat)
  else if 'a' ≤ c ∧ c ≤ 'f' then some (c.toNat - 'a'.toNat + 10)
  else if 'A' ≤ c ∧ c ≤ 'F' then some (c.toNat - 'A'.toNat + 10)
  else none

/-- Read hexadecimal digits after the value `acc`, most significant first. A
character that is no digit, or a value that reaches the bound, is a failure. -/
def digits (bound acc : Nat) : List Char → Option Nat
  | [] => some acc
  | c :: cs => do
      let d ← digitVal c
      if acc * 16 + d < bound then digits bound (acc * 16 + d) cs else none

/-- The lower-case numeral without leading zeros. -/
def numeral (n : Nat) : List Char := Nat.toDigits 16 n

def padded (width n : Nat) : List Char := (numeral n).leftpad width '0'

theorem digitVal_digitChar (d : Nat) (hd : d < 16) : digitVal (Nat.digitChar d) = some d := by
  interval_cases d <;> rfl

theorem digits_append (bound acc : Nat) (s t : List Char) :
    digits bound acc (s ++ t) = (digits bound acc s).bind (fun n => digits bound n t) := by
  induction s generalizing acc with
  | nil => rfl
  | cons c s ih =>
    cases hc : digitVal c with
    | none => simp [digits, hc]
    | some d =>
      by_cases hb : acc * 16 + d < bound
      · simp [digits, hc, hb, ih]
      · simp [digits, hc, hb]

theorem digits_numeral (bound n : Nat) (hn : n < bound) :
    digits bound 0 (numeral n) = some n := by
  induction n using Nat.strong_induction_on with
  | _ n ih =>
    rw [numeral]
    rw [Nat.toDigits_eq_if (by decide)]
    by_cases hs : n < 16
    · simp [hs, digits, digitVal_digitChar n hs, hn]
    · have hq := ih (n / 16) (by omega) (by omega)
      have hd := digitVal_digitChar (n % 16) (Nat.mod_lt n (by decide))
      have he : n / 16 * 16 + n % 16 = n := by omega
      simp only [hs, if_false]
      rw [digits_append]
      change (digits bound 0 (numeral (n / 16))).bind _ = _
      simp [hq, digits, hd, he, hn]

theorem digits_zeros (bound k : Nat) (hb : 0 < bound) (s : List Char) :
    digits bound 0 (List.replicate k '0' ++ s) = digits bound 0 s := by
  induction k with
  | zero => rfl
  | succ k ih =>
    have h0 : digitVal '0' = some 0 := rfl
    simp [List.replicate_succ, digits, h0, hb, ih]

theorem digits_padded (bound width n : Nat) (hn : n < bound) :
    digits bound 0 (padded width n) = some n := by
  rw [padded, List.leftpad, digits_zeros _ _ (by omega), digits_numeral _ _ hn]

theorem padded_injective (width : Nat) : Function.Injective (padded width) := by
  intro n m h
  have hn := digits_padded (n + m + 1) width n (by omega)
  have hm := digits_padded (n + m + 1) width m (by omega)
  rw [h, hm] at hn
  exact (Option.some.inj hn).symm

section Values

def isHex (c : Char) : Bool := (digitVal c).isSome

/-- The positional value of a run of digits that follows the value `acc`. -/
def valueFrom (acc : Nat) : List Char → Nat
  | [] => acc
  | c :: cs => valueFrom (acc * 16 + (digitVal c).getD 0) cs

def value (ds : List Char) : Nat := valueFrom 0 ds

theorem le_valueFrom (acc : Nat) (ds : List Char) : acc ≤ valueFrom acc ds := by
  induction ds generalizing acc with
  | nil => exact le_rfl
  | cons c ds ih =>
    have htail := ih (acc * 16 + (digitVal c).getD 0)
    rw [valueFrom]
    omega

theorem valueFrom_append (acc : Nat) (ds es : List Char) :
    valueFrom acc (ds ++ es) = valueFrom (valueFrom acc ds) es := by
  induction ds generalizing acc with
  | nil => rfl
  | cons c ds ih => exact ih _

theorem valueFrom_eq (acc : Nat) (ds : List Char) :
    valueFrom acc ds = acc * 16 ^ ds.length + value ds := by
  rw [value]
  induction ds generalizing acc with
  | nil => simp [valueFrom]
  | cons c ds ih =>
    rw [valueFrom, valueFrom, ih, ih (0 * 16 + (digitVal c).getD 0), List.length_cons, pow_succ]
    ring

theorem value_append (ds es : List Char) :
    value (ds ++ es) = value ds * 16 ^ es.length + value es := by
  rw [value, valueFrom_append, valueFrom_eq]
  rfl

theorem digitVal_lt {c : Char} {d : Nat} (h : digitVal c = some d) : d < 16 := by
  simp only [digitVal, Char.le_def, UInt32.le_iff_toNat_le] at h
  split_ifs at h with h0 ha hA
  · obtain ⟨h1, h2⟩ := h0
    simp at h h1 h2
    omega
  · obtain ⟨h1, h2⟩ := ha
    simp at h h1 h2
    omega
  · obtain ⟨h1, h2⟩ := hA
    simp at h h1 h2
    omega

theorem value_lt (ds : List Char) : value ds < 16 ^ ds.length := by
  induction ds with
  | nil => simp [value, valueFrom]
  | cons c ds ih =>
    have hc : (digitVal c).getD 0 < 16 := by
      cases h : digitVal c with
      | none => simp
      | some d => exact digitVal_lt h
    rw [value, valueFrom, valueFrom_eq, List.length_cons, pow_succ]
    nlinarith

theorem value_zeros (k : Nat) (ds : List Char) : value (List.replicate k '0' ++ ds) = value ds := by
  induction k with
  | zero => rfl
  | succ k ih => exact ih

theorem value_leftpad (width : Nat) (ds : List Char) : value (ds.leftpad width '0') = value ds :=
  value_zeros _ ds

theorem isHex_leftpad {width : Nat} {ds : List Char} :
    (∀ c ∈ ds.leftpad width '0', isHex c = true) ↔ ∀ c ∈ ds, isHex c = true := by
  constructor
  · exact fun h c hc => h c (List.mem_append_right _ hc)
  · intro h c hc
    obtain hc | hc := List.mem_append.mp hc
    · rw [(List.mem_replicate.mp hc).2]
      rfl
    · exact h c hc

/-- What reading gives: the positional value, unless a character is no digit or
the value reaches the bound. No value on the way is larger than the last. -/
theorem digits_eq_some_iff {bound acc n : Nat} {ds : List Char} (hacc : acc < bound) :
    digits bound acc ds = some n ↔
      (∀ c ∈ ds, isHex c = true) ∧ valueFrom acc ds = n ∧ n < bound := by
  induction ds generalizing acc with
  | nil =>
    simp only [digits, valueFrom, Option.some.injEq, List.not_mem_nil, false_implies, implies_true,
      true_and]
    exact ⟨fun h => ⟨h, h ▸ hacc⟩, fun h => h.1⟩
  | cons c ds ih =>
    have hge := le_valueFrom (acc * 16 + (digitVal c).getD 0) ds
    cases hc : digitVal c with
    | none => simp [digits, hc, isHex]
    | some d =>
      simp only [hc, Option.getD_some] at hge
      simp only [digits, hc, bind, Option.bind_some, List.forall_mem_cons, isHex, Option.isSome_some,
        true_and, valueFrom, Option.getD_some]
      by_cases hb : acc * 16 + d < bound
      · rw [if_pos hb]
        exact ih hb
      · rw [if_neg hb]
        refine iff_of_false (by simp) ?_
        rintro ⟨-, hv, hn⟩
        omega

theorem value_padded (width n : Nat) : value (padded width n) = n :=
  ((digits_eq_some_iff (Nat.succ_pos n)).mp (digits_padded (n + 1) width n (Nat.lt_succ_self n))).2.1

theorem isHex_padded (width n : Nat) : ∀ c ∈ padded width n, isHex c = true :=
  ((digits_eq_some_iff (Nat.succ_pos n)).mp (digits_padded (n + 1) width n (Nat.lt_succ_self n))).1

end Values

section Bytes

def isLower (c : Char) : Bool := ('0' ≤ c && c ≤ '9') || ('a' ≤ c && c ≤ 'f')

/-- Two digits for each byte, nothing else. -/
def bytes : List Char → Option (List UInt8)
  | [] => some []
  | [_] => none
  | a :: b :: rest => do
      let n ← digits 256 0 [a, b]
      let more ← bytes rest
      return UInt8.ofNat n :: more

/-- The number with these bytes, the lowest first. -/
def leValue : List UInt8 → Nat
  | [] => 0
  | b :: rest => b.toNat + 256 * leValue rest

/-- The low bytes of a number, the lowest first, read back. -/
theorem leValue_low (n width : Nat) :
    leValue ((List.range width).map (fun i => UInt8.ofNat (n / 256 ^ i))) = n % 256 ^ width := by
  induction width generalizing n with
  | zero => simp [leValue, Nat.mod_one]
  | succ width ih =>
    have hrest : (List.range width).map (fun i => UInt8.ofNat (n / 256 ^ (i + 1))) =
        (List.range width).map (fun i => UInt8.ofNat (n / 256 / 256 ^ i)) := by
      apply List.map_congr_left
      intro i _
      rw [pow_succ', Nat.div_div_eq_div_mul]
    have hbyte : (UInt8.ofNat n).toNat = n % 256 := UInt8.toNat_ofNat'
    rw [List.range_succ_eq_map, List.map_cons, List.map_map, leValue, pow_zero, Nat.div_one, hbyte,
      Function.comp_def, hrest, ih, pow_succ', Nat.mod_mul]

theorem isLower_digitChar (d : Nat) (hd : d < 16) : isLower (Nat.digitChar d) = true := by
  interval_cases d <;> rfl

theorem numeral_lower (n : Nat) : ∀ c ∈ numeral n, isLower c = true := by
  induction n using Nat.strong_induction_on with
  | _ n ih =>
    intro c hc
    rw [numeral, Nat.toDigits_eq_if (by decide)] at hc
    by_cases hs : n < 16
    · rw [if_pos hs, List.mem_singleton] at hc
      rw [hc]
      exact isLower_digitChar n hs
    · rw [if_neg hs] at hc
      obtain hc | hc := List.mem_append.mp hc
      · exact ih (n / 16) (by omega) c hc
      · rw [List.mem_singleton.mp hc]
        exact isLower_digitChar (n % 16) (Nat.mod_lt n (by decide))

theorem padded_lower (width n : Nat) : ∀ c ∈ padded width n, isLower c = true := by
  intro c hc
  obtain hc | hc := List.mem_append.mp hc
  · rw [(List.mem_replicate.mp hc).2]
    rfl
  · exact numeral_lower n c hc

theorem length_padded {width n : Nat} (hw : 0 < width) (hn : n < 16 ^ width) :
    (padded width n).length = width := by
  have hle : (numeral n).length ≤ width := Nat.toDigits_length 16 n width hw hn
  rw [padded, List.length_leftpad]
  omega

theorem bytes_padded (b : UInt8) (rest : List Char) :
    bytes (padded 2 b.toNat ++ rest) = (bytes rest).map (fun more => b :: more) := by
  have hb : b.toNat < 256 := b.toNat_lt
  obtain ⟨c, d, hcd⟩ := List.length_eq_two.mp (length_padded (by decide : 0 < 2) (n := b.toNat) hb)
  have hread := digits_padded 256 2 b.toNat hb
  rw [hcd] at hread ⊢
  cases hr : bytes rest <;> simp [bytes, hread, hr]

/-- Bytes written as two digits each read back. -/
theorem bytes_flatMap (bs : List UInt8) : bytes (bs.flatMap (fun b => padded 2 b.toNat)) = some bs := by
  induction bs with
  | nil => rfl
  | cons b bs ih => rw [List.flatMap_cons, bytes_padded, ih, Option.map_some]

theorem length_flatMap (bs : List UInt8) :
    (bs.flatMap (fun b => padded 2 b.toNat)).length = 2 * bs.length := by
  induction bs with
  | nil => rfl
  | cons b bs ih =>
    have hb := length_padded (by decide : 0 < 2) (n := b.toNat) b.toNat_lt
    rw [List.flatMap_cons, List.length_append, ih, hb, List.length_cons]
    omega

end Bytes

end Lib.HexText
