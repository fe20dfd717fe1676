import Mathlib.Data.List.Basic
import Mathlib.Logic.Function.Basic
import Mathlib.Tactic.SplitIfs

namespace Lib

/-- A store whose values can be read for a while after they were written.
`writes` is the history of all writes with their times. -/
structure Expiring (K V : Type) where
  cells : K → Option (V × Nat)
  now : Nat
  writes : List (K × Nat)
  written : ∀ k v t, cells k = some (v, t) → (k, t) ∈ writes
  latest : ∀ k w, (k, w) ∈ writes → ∃ v t, cells k = some (v, t) ∧ w ≤ t
  past : ∀ k w, (k, w) ∈ writes → w ≤ now

namespace Expiring

variable {K V : Type}

def empty (K V : Type) : Expiring K V :=
  ⟨fun _ => none, 0, [], by simp, by simp, by simp⟩

/-- What a read gives that counts a value for `ttl` after its write. -/
def get (s : Expiring K V) (ttl : Nat) (k : K) : Option V :=
  match s.cells k with
  | none => none
  | some (v, t) => if s.now ≤ t + ttl then some v else none

def wait (s : Expiring K V) (span : Nat) : Expiring K V :=
  { s with
    now := s.now + span
    past := fun k w h => Nat.le_trans (s.past k w h) (Nat.le_add_right _ _) }

def set [DecidableEq K] (s : Expiring K V) (k : K) (v : V) : Expiring K V :=
  { cells := Function.update s.cells k (some (v, s.now))
    now := s.now
    writes := s.writes ++ [(k, s.now)]
    written := by
      intro j u t h
      by_cases hj : j = k
      · subst hj
        rw [Function.update_self] at h
        cases h
        simp
      · rw [Function.update_of_ne hj] at h
        exact List.mem_append_left _ (s.written j u t h)
    latest := by
      intro j w h
      by_cases hj : j = k
      · subst hj
        refine ⟨v, s.now, Function.update_self .., ?_⟩
        obtain h | h := List.mem_append.mp h
        · exact s.past j w h
        · exact Nat.le_of_eq (Prod.mk.inj (List.mem_singleton.mp h)).2
      · rw [Function.update_of_ne hj]
        obtain h | h := List.mem_append.mp h
        · exact s.latest j w h
        · exact absurd (Prod.mk.inj (List.mem_singleton.mp h)).1 hj
    past := by
      intro j w h
      obtain h | h := List.mem_append.mp h
      · exact s.past j w h
      · exact Nat.le_of_eq (Prod.mk.inj (List.mem_singleton.mp h)).2 }

/-- The key was written at most `ttl` before `time`. -/
def WrittenBy (s : Expiring K V) (ttl : Nat) (k : K) (time : Nat) : Prop :=
  ∃ w, (k, w) ∈ s.writes ∧ w ≤ time ∧ time ≤ w + ttl

/-- A read finds something if and only if some write is recent enough: the last
one of the key then is too. -/
theorem get_isSome_iff (s : Expiring K V) (ttl : Nat) (k : K) :
    (s.get ttl k).isSome = true ↔ s.WrittenBy ttl k s.now := by
  constructor
  · intro h
    rw [get] at h
    split at h
    · cases h
    · rename_i v t hc
      split_ifs at h with hlive
      · exact ⟨t, s.written k v t hc, s.past k t (s.written k v t hc), hlive⟩
      · cases h
  · rintro ⟨w, hw, -, hlive⟩
    obtain ⟨v, t, hc, hle⟩ := s.latest k w hw
    have hread : s.get ttl k = some v := by
      rw [get, hc]
      exact if_pos (Nat.le_trans hlive (Nat.add_le_add_right hle ttl))
    rw [hread]
    rfl

end Expiring

end Lib
