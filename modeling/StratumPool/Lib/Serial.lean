import Mathlib.Data.List.Basic
import Mathlib.Data.Nat.ModEq

namespace Lib.Serial

/-- The numbers are given out from zero on, the n-th at the n-th of the times,
and only their remainders are seen. -/
def IssuedAt (times : List Nat) (n t : Nat) : Prop := times[n]? = some t

theorem IssuedAt.append {times : List Nat} {n t : Nat} (h : IssuedAt times n t) (more : List Nat) :
    IssuedAt (times ++ more) n t := by
  have hlt := (List.getElem?_eq_some_iff.mp h).1
  rw [IssuedAt, List.getElem?_append_left hlt]
  exact h

theorem issuedAt_last (times : List Nat) (t : Nat) :
    IssuedAt (times ++ [t]) times.length t := List.getElem?_concat_length

/-- The number that the next one looks like was given out more than `window`
ago. -/
def Spaced (modulus window now : Nat) (times : List Nat) : Prop :=
  modulus ≤ times.length → ∀ t, IssuedAt times (times.length - modulus) t → t + window < now

theorem IssuedAt.le {times : List Nat} (hordered : times.Pairwise (· ≤ ·)) {n m t u : Nat}
    (ht : IssuedAt times n t) (hu : IssuedAt times m u) (h : n ≤ m) : t ≤ u := by
  obtain ⟨hn, rfl⟩ := List.getElem?_eq_some_iff.mp ht
  obtain ⟨hm, rfl⟩ := List.getElem?_eq_some_iff.mp hu
  obtain rfl | hlt := Nat.eq_or_lt_of_le h
  · exact le_rfl
  · exact List.pairwise_iff_getElem.mp hordered n m hn hm hlt

/-- The next number does not look like one that was given out within the
window. -/
theorem Spaced.fresh {modulus window now : Nat} {times : List Nat}
    (hspaced : Spaced modulus window now times) (hordered : times.Pairwise (· ≤ ·)) {n t : Nat}
    (hissued : IssuedAt times n t) (hrecent : now ≤ t + window) :
    n % modulus ≠ times.length % modulus := by
  intro hmod
  have hlt : n < times.length := (List.getElem?_eq_some_iff.mp hissued).1
  have hfar : n + modulus ≤ times.length := by
    obtain ⟨turns, hturns⟩ := (Nat.modEq_iff_dvd' hlt.le).mp hmod
    have hpos : 0 < turns := by
      apply Nat.pos_of_ne_zero
      rintro rfl
      omega
    have hle := Nat.le_mul_of_pos_right modulus hpos
    omega
  have hmodulus : 0 < modulus := by
    apply Nat.pos_of_ne_zero
    rintro rfl
    rw [Nat.mod_zero, Nat.mod_zero] at hmod
    omega
  have hback : times.length - modulus < times.length := by omega
  have hthen : IssuedAt times (times.length - modulus) times[times.length - modulus] :=
    List.getElem?_eq_getElem hback
  have hold := hspaced (by omega) _ hthen
  have hle := hissued.le hordered hthen (by omega)
  omega

end Lib.Serial
