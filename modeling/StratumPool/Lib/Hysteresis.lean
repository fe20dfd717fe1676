import Mathlib.Data.Set.Card
import Mathlib.Order.Monotone.Basic

namespace Lib.Hysteresis

section Settling

variable {α : Type}

/-- From an element of `I` the iteration stays in `I`, and each of its steps that
changes something lowers the measure. -/
structure Settles (f : α → α) (I : α → Prop) (measure : α → Nat) : Prop where
  keeps : ∀ x, I x → I (f x)
  drops : ∀ x, I x → f x ≠ x → measure (f x) < measure x

variable {f : α → α} {I : α → Prop} {measure : α → Nat}

theorem Settles.mem (h : Settles f I measure) {x : α} (hx : I x) (n : Nat) : I (f^[n] x) := by
  induction n generalizing x with
  | zero => exact hx
  | succ n ih => exact ih (h.keeps x hx)

theorem Settles.fixed (h : Settles f I measure) {x : α} (hx : I x) {n : Nat}
    (hn : measure x ≤ n) : f (f^[n] x) = f^[n] x := by
  induction n generalizing x with
  | zero =>
    by_contra hne
    have hlt := h.drops x hx hne
    omega
  | succ n ih =>
    by_cases hfix : f x = x
    · rw [Function.iterate_succ_apply, hfix]
      have hn : f^[n] x = x := Function.iterate_fixed hfix n
      rw [hn, hfix]
    · have hlt := h.drops x hx hfix
      exact ih (h.keeps x hx) (by omega)

theorem Settles.eq_of_le (h : Settles f I measure) {x : α} (hx : I x) {m n : Nat}
    (hm : measure x ≤ m) (hn : m ≤ n) : f^[n] x = f^[m] x := by
  induction n, hn using Nat.le_induction with
  | base => rfl
  | succ n hmn ih => rw [Function.iterate_succ_apply', h.fixed hx (hm.trans hmn), ih]

/-- The iteration changes at most as often as the measure of its start says. -/
theorem Settles.changes_le (h : Settles f I measure) {x : α} (hx : I x) :
    {n | f^[n + 1] x ≠ f^[n] x}.encard ≤ measure x := by
  have hsub : {n | f^[n + 1] x ≠ f^[n] x} ⊆ (Finset.range (measure x) : Set Nat) := by
    intro n hne
    rw [Finset.coe_range, Set.mem_Iio]
    by_contra hge
    apply hne
    rw [Function.iterate_succ_apply']
    exact h.fixed hx (not_lt.mp hge)
  apply (Set.encard_le_encard hsub).trans
  rw [Set.encard_coe_eq_coe_finsetCard, Finset.card_range]

theorem Settles.monotone [Preorder α] (h : Settles f I measure) {x : α} (hx : I x)
    (hle : ∀ y, I y → y ≤ f y) : Monotone (fun n => f^[n] x) := by
  apply monotone_nat_of_le_succ
  intro n
  rw [Function.iterate_succ_apply']
  exact hle _ (h.mem hx n)

theorem Settles.antitone [Preorder α] (h : Settles f I measure) {x : α} (hx : I x)
    (hle : ∀ y, I y → f y ≤ y) : Antitone (fun n => f^[n] x) := by
  apply antitone_nat_of_succ_le
  intro n
  rw [Function.iterate_succ_apply']
  exact hle _ (h.mem hx n)

end Settling

section Controller

/-- Higher levels are slower, and no level that follows a fast one is slow. -/
structure Band (slow fast : Nat → Prop) (top : Nat) : Prop where
  slow_succ : ∀ level, slow level → slow (level + 1)
  apart : ∀ level, fast level → ¬ slow (level + 1)
  top : ¬ fast top

variable {slow fast : Nat → Prop} {floor top : Nat}

theorem Band.not_fast (h : Band slow fast top) {level : Nat} (hs : slow level) : ¬ fast level :=
  fun hf => h.apart level hf (h.slow_succ level hs)

theorem Band.slow_of_le (h : Band slow fast top) {level : Nat} (hs : slow level) {above : Nat}
    (hle : level ≤ above) : slow above := by
  induction above, hle using Nat.le_induction with
  | base => exact hs
  | succ above _ ih => exact h.slow_succ above ih

variable [DecidablePred slow] [DecidablePred fast]

variable (slow fast floor) in
/-- A controller of a level: down where the level is too slow, though not past
the floor, and up where it is too fast. -/
def adjust (level : Nat) : Nat :=
  if slow level then max (level - 1) floor else if fast level then level + 1 else level

/-- From a level that is not slow the controller only goes up. -/
theorem Band.settles_up (h : Band slow fast top) :
    Settles (adjust slow fast floor) (fun level => ¬ slow level ∧ level ≤ top)
      (fun level => top - level) where
  keeps := by
    rintro level ⟨hslow, hle⟩
    rw [adjust, if_neg hslow]
    split
    · rename_i hfast
      have hne : level ≠ top := by
        rintro rfl
        exact h.top hfast
      exact ⟨h.apart level hfast, by omega⟩
    · exact ⟨hslow, hle⟩
  drops := by
    rintro level ⟨hslow, hle⟩ hne
    rw [adjust, if_neg hslow] at hne ⊢
    split at hne
    · rename_i hfast
      have htop : level ≠ top := by
        rintro rfl
        exact h.top hfast
      rw [if_pos hfast]
      omega
    · exact absurd rfl hne

/-- From a level above the floor that is not fast it only goes down. -/
theorem Band.settles_down (h : Band slow fast top) :
    Settles (adjust slow fast floor) (fun level => ¬ fast level ∧ floor ≤ level)
      (fun level => level - floor) where
  keeps := by
    rintro level ⟨hfast, hle⟩
    rw [adjust, if_neg hfast]
    split
    · rename_i hslow
      obtain hge | hlt := le_or_gt (level - 1) floor
      · rw [max_eq_right hge]
        refine ⟨?_, le_rfl⟩
        obtain rfl | hfloor : level = floor ∨ level = floor + 1 := by omega
        · exact hfast
        · rw [hfloor] at hslow
          exact fun hf => h.apart floor hf hslow
      · rw [max_eq_left hlt.le]
        refine ⟨fun hf => h.apart (level - 1) hf ?_, hlt.le⟩
        rwa [Nat.sub_add_cancel (by omega)]
    · exact ⟨hfast, hle⟩
  drops := by
    rintro level ⟨hfast, hle⟩ hne
    rw [adjust, if_neg hfast] at hne ⊢
    split at hne
    · rename_i hslow
      rw [if_pos hslow]
      omega
    · exact absurd rfl hne

/-- From a slow level below the floor it goes to the floor at once. -/
theorem Band.settles_floor (h : Band slow fast top) :
    Settles (adjust slow fast floor) (fun level => slow level ∧ level ≤ floor)
      (fun level => floor - level) where
  keeps := by
    rintro level ⟨hslow, hle⟩
    rw [adjust, if_pos hslow, max_eq_right (by omega)]
    exact ⟨h.slow_of_le hslow hle, le_rfl⟩
  drops := by
    rintro level ⟨hslow, hle⟩ hne
    rw [adjust, if_pos hslow, max_eq_right (by omega)] at hne ⊢
    omega

/-- Where the controller rests the level is neither slow nor fast, or it is the
floor. -/
theorem resting {level : Nat} (h : adjust slow fast floor level = level) :
    (¬ slow level ∧ ¬ fast level) ∨ (slow level ∧ level = floor) := by
  rw [adjust] at h
  split at h
  · rename_i hslow
    exact .inr ⟨hslow, by omega⟩
  · rename_i hslow
    split at h
    · omega
    · rename_i hfast
      exact .inl ⟨hslow, hfast⟩

/-- What the controller does over time: it moves one way only, at most `top`
times, and rests where it should. -/
structure Rests (slow fast : Nat → Prop) (floor top : Nat) (levels : Nat → Nat) : Prop where
  oneWay : Monotone levels ∨ Antitone levels
  changes : {n | levels (n + 1) ≠ levels n}.encard ≤ top
  settled : ∀ n, top ≤ n → levels n = levels top
  bounded : ∀ n, levels n ≤ top
  rest : (¬ slow (levels top) ∧ ¬ fast (levels top)) ∨
    (slow (levels top) ∧ levels top = floor)

theorem Settles.rests {I : Nat → Prop} {measure : Nat → Nat} {start : Nat}
    (h : Settles (adjust slow fast floor) I measure) (hstart : I start) (hm : measure start ≤ top)
    (hway : (∀ level, I level → level ≤ adjust slow fast floor level) ∨
      ∀ level, I level → adjust slow fast floor level ≤ level)
    (hb : ∀ n, (adjust slow fast floor)^[n] start ≤ top) :
    Rests slow fast floor top (fun n => (adjust slow fast floor)^[n] start) where
  oneWay := hway.imp (h.monotone hstart) (h.antitone hstart)
  changes := (h.changes_le hstart).trans (Nat.cast_le.mpr hm)
  settled := fun _ hn => h.eq_of_le hstart hm hn
  bounded := hb
  rest := resting (h.fixed hstart hm)

/-- The controller never oscillates, whatever its start and its floor. -/
theorem Band.rests (h : Band slow fast top) (hfloor : floor ≤ top) {start : Nat}
    (hstart : start ≤ top) :
    Rests slow fast floor top (fun n => (adjust slow fast floor)^[n] start) := by
  by_cases hslow : slow start
  · obtain hle | hlt := le_or_gt start floor
    · have hs : Settles (adjust slow fast floor) _ _ := h.settles_floor
      refine hs.rests ⟨hslow, hle⟩ (by omega) (.inl ?_) fun n => ?_
      · rintro level ⟨hl, hlevel⟩
        rw [adjust, if_pos hl]
        omega
      · exact (hs.mem ⟨hslow, hle⟩ n).2.trans hfloor
    · have hs : Settles (adjust slow fast floor) _ _ := h.settles_down
      have hin : ¬ fast start ∧ floor ≤ start := ⟨h.not_fast hslow, hlt.le⟩
      have hway : ∀ level, ¬ fast level ∧ floor ≤ level → adjust slow fast floor level ≤ level := by
        rintro level ⟨hl, hlevel⟩
        rw [adjust, if_neg hl]
        split <;> omega
      refine hs.rests hin (by omega) (.inr hway) fun n => ?_
      exact (hs.antitone hin hway (Nat.zero_le n)).trans hstart
  · have hs : Settles (adjust slow fast floor) _ _ := h.settles_up
    refine hs.rests ⟨hslow, hstart⟩ (by omega) (.inl ?_) fun n => (hs.mem ⟨hslow, hstart⟩ n).2
    rintro level ⟨hl, -⟩
    rw [adjust, if_neg hl]
    split <;> omega

end Controller

end Lib.Hysteresis
