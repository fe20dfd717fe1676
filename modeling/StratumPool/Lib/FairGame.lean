import Mathlib.Algebra.BigOperators.Fin
import Mathlib.Data.Fintype.BigOperators

namespace Lib.FairGame

variable {S V M : Type} [AddCommMonoid M]

/-- What a play wins that draws the values `vs` one after the other. The stake
and the next position may depend on all that was drawn before. -/
def won (next : S → V → S) (gain : S → V → M) : S → List V → M
  | _, [] => 0
  | s, v :: vs => gain s v + won next gain (next s v) vs

theorem won_add (next : S → V → S) (gain extra : S → V → M) (s : S) (vs : List V) :
    won next (fun s v => gain s v + extra s v) s vs =
      won next gain s vs + won next extra s vs := by
  induction vs generalizing s with
  | nil => exact (add_zero 0).symm
  | cons v vs ih => rw [won, won, won, ih, add_add_add_comm]

variable [Fintype V]

/-- What all the plays of `n` draws win together. -/
def total (next : S → V → S) (gain : S → V → M) (s : S) (n : Nat) : M :=
  ∑ vs : Fin n → V, won next gain s (List.ofFn vs)

@[simp] theorem total_zero (next : S → V → S) (gain : S → V → M) (s : S) :
    total next gain s 0 = 0 := by
  simp [total, won]

/-- The first draw decides the rest of the play. -/
theorem total_succ (next : S → V → S) (gain : S → V → M) (s : S) (n : Nat) :
    total next gain s (n + 1) =
      Fintype.card (Fin n → V) • ∑ v, gain s v + ∑ v, total next gain (next s v) n := by
  have hcons : ∀ v (vs : Fin n → V), won next gain s (List.ofFn (Fin.consEquiv _ (v, vs))) =
      gain s v + won next gain (next s v) (List.ofFn vs) := by
    intro v vs
    simp [Fin.consEquiv, List.ofFn_succ, won]
  rw [total, ← (Fin.consEquiv (fun _ : Fin (n + 1) => V)).sum_comp, Fintype.sum_prod_type]
  simp only [hcons, Finset.sum_add_distrib, Finset.sum_const, Finset.card_univ, Finset.sum_nsmul]
  rfl

/-- A game whose every round is fair is fair as a whole, whatever the stakes
are and whatever they depend on. -/
theorem total_eq {next : S → V → S} {I : S → Prop} (hnext : ∀ s v, I s → I (next s v))
    {gain fair : S → V → M} (hround : ∀ s, I s → ∑ v, gain s v = ∑ v, fair s v) {s : S} (hs : I s)
    (n : Nat) : total next gain s n = total next fair s n := by
  induction n generalizing s with
  | zero => rw [total_zero, total_zero]
  | succ n ih =>
    rw [total_succ, total_succ, hround s hs]
    congr 1
    apply Finset.sum_congr rfl
    intro v _
    exact ih (hnext s v hs)

theorem total_add (next : S → V → S) (gain extra : S → V → M) (s : S) (n : Nat) :
    total next (fun s v => gain s v + extra s v) s n =
      total next gain s n + total next extra s n := by
  simp only [total, won_add, Finset.sum_add_distrib]

end Lib.FairGame
