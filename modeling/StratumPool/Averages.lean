import StratumPool.Lib.Decay
import StratumPool.LedgerRuns

namespace StratumPool.Averages

open Lib Lib.Runs Lib.Decay StratumPool.Text StratumPool.Telemetry StratumPool.Ledger

section Shares

variable {R : Type}

/-- The difficulty and the time of a step that is a share of the worker. -/
def sharesIn (worker : Str) : Action R → List (R × Nat)
  | .share name difficulty now => if name = worker then [(difficulty, now)] else []
  | .flush .. => []

def sharesOf (worker : Str) (as : List (Action R)) : List (R × Nat) :=
  as.flatMap (sharesIn worker)

theorem sharesOf_concat (worker : Str) (as : List (Action R)) (a : Action R) :
    sharesOf worker (as ++ [a]) = sharesOf worker as ++ sharesIn worker a := by
  simp [sharesOf]

end Shares

section Windows

/-- A reading of the clock in seconds. -/
noncomputable def clock (now : Nat) : ℝ := seconds now 0

noncomputable def pulses (shares : List (ℝ × Nat)) : List (ℝ × ℝ) :=
  shares.map fun share => (work share.1, clock share.2)

/-- The idle projection before the cut to zero. -/
def projected {R : Type} [Field R] (exp : R → R) (dtIdle tau ema : R) : R :=
  ema * (1 - (1 - exp (-dtIdle / tau)))

theorem emaWindows_pos (i : Fin 7) : (0 : ℝ) < emaWindows i := by
  fin_cases i <;> norm_num [emaWindows]

/-- The saturating difference is no less than the real one. -/
theorem clock_sub_le (now since : Nat) : clock now - clock since ≤ seconds now since := by
  have hnat : now ≤ now - since + since := by omega
  have hreal : (now : ℝ) ≤ ((now - since : Nat) : ℝ) + since := by exact_mod_cast hnat
  simp only [clock, seconds, Nat.sub_zero]
  linarith

theorem seconds_nonneg (now since : Nat) : (0 : ℝ) ≤ seconds now since := by
  rw [seconds]
  positivity

theorem seconds_add (since a : Nat) : (seconds (since + a) since : ℝ) = a / 1000 := by
  rw [seconds, Nat.add_sub_cancel_left]

theorem kept_eq (dtSec tau : ℝ) : 1 - (1 - Real.exp (-dtSec / tau)) = weight tau dtSec :=
  sub_sub_cancel _ _

theorem nextEma_eq (dtSec work tau ema : ℝ) :
    nextEma Real.exp dtSec work tau ema =
      if 0.001 < dtSec then spread tau work dtSec ema else burst tau work dtSec ema := by
  rw [nextEma]
  simp only [kept_eq]
  split <;> rfl

theorem projected_eq (dtIdle tau ema : ℝ) :
    projected Real.exp dtIdle tau ema = ema * weight tau dtIdle := by
  rw [projected, kept_eq]

theorem projectedEmas_eq (now : Nat) (state : WorkerState ℝ) (i : Fin 7) :
    projectedEmas Real.exp now state i =
      cutBelow 0.000001 (projected Real.exp (seconds now state.lastShareTs) (emaWindows i)
        (state.emas i)) := rfl

end Windows

section Bounds

/-- Every average is at most what is left of the work of the shares. -/
def Bounded (state : WorkerState ℝ) (shares : List (ℝ × Nat)) : Prop :=
  ∀ i, 0 ≤ state.emas i ∧
    state.emas i ≤ load (emaWindows i) (clock state.lastShareTs) (pulses shares)

variable {shares : List (ℝ × Nat)} {state : WorkerState ℝ}

theorem pulses_nonneg (h : ∀ share ∈ shares, 0 ≤ work share.1) :
    ∀ pulse ∈ pulses shares, 0 ≤ pulse.1 := by
  intro pulse hm
  obtain ⟨share, hshare, rfl⟩ := List.mem_map.mp hm
  exact h share hshare

theorem bounded_freshState (h : ∀ share ∈ shares, 0 ≤ work share.1) (now : Nat) :
    Bounded (freshState now) shares := by
  intro i
  exact ⟨le_rfl, load_nonneg (emaWindows_pos i) _ (pulses_nonneg h)⟩

/-- Both branches of the update respect the bound: the spread share because it
counts for no more than the burst would. -/
theorem bounded_bookShare (hshares : ∀ share ∈ shares, 0 ≤ work share.1) {difficulty : ℝ}
    (hwork : 0 ≤ work difficulty) (h : Bounded state shares) (now : Nat) :
    Bounded (bookShare Real.exp difficulty now state) (shares ++ [(difficulty, now)]) := by
  intro i
  obtain ⟨hnonneg, hle⟩ := h i
  have htau := emaWindows_pos i
  have hburst : burst (emaWindows i) (work difficulty) (seconds now state.lastShareTs)
      (state.emas i) ≤ load (emaWindows i) (clock now) (pulses (shares ++ [(difficulty, now)])) := by
    rw [pulses, List.map_append]
    exact burst_le_load htau (clock_sub_le now state.lastShareTs) (pulses_nonneg hshares) hle
  simp only [bookShare, nextEma_eq]
  split
  · rename_i hlong
    have hdt : (0 : ℝ) < seconds now state.lastShareTs := lt_trans (by norm_num) hlong
    exact ⟨spread_nonneg htau hwork hdt hnonneg, (spread_le_burst hwork hdt).trans hburst⟩
  · exact ⟨burst_nonneg htau hwork hnonneg, hburst⟩

end Bounds

section Runs

variable {worker : Str}

theorem lookup_share_self (engine : Engine ℝ) (difficulty : ℝ) (now : Nat) :
    (step Real.exp engine (.share worker difficulty now)).workerStates.lookup worker =
      some (bookShare Real.exp difficulty now
        ((engine.workerStates.lookup worker).getD (freshState now))) := by
  simp [step, share]

theorem bounded_step {engine : Engine ℝ} {shares : List (ℝ × Nat)} {a : Action ℝ}
    (hwork : ∀ share ∈ shares ++ sharesIn worker a, 0 ≤ work share.1)
    (h : ∀ state, engine.workerStates.lookup worker = some state → Bounded state shares) :
    ∀ state, (step Real.exp engine a).workerStates.lookup worker = some state →
      Bounded state (shares ++ sharesIn worker a) := by
  have hshares : ∀ share ∈ shares, 0 ≤ work share.1 :=
    fun share hm => hwork share (List.mem_append_left _ hm)
  intro state hstate
  cases a with
  | share name difficulty now =>
    by_cases hname : name = worker
    · subst hname
      have hnew : 0 ≤ work difficulty := hwork (difficulty, now) (by simp [sharesIn])
      rw [lookup_share_self] at hstate
      obtain rfl := Option.some.inj hstate
      rw [sharesIn, if_pos rfl]
      apply bounded_bookShare hshares hnew
      cases hold : engine.workerStates.lookup name with
      | none => exact bounded_freshState hshares now
      | some old => exact h old hold
    · rw [sharesIn, if_neg hname, List.append_nil]
      simp only [step, share, AList.lookup_insert_ne (Ne.symm hname)] at hstate
      exact h state hstate
  | flush now order ok =>
    rw [sharesIn, List.append_nil]
    simp only [step, lookup_flush, Option.bind_eq_some_iff] at hstate
    obtain ⟨old, hold, hkept⟩ := hstate
    obtain ⟨-, rfl⟩ := (flushState_eq_some_iff Real.exp).mp hkept
    have hbounded := h old hold
    rw [drained]
    split
    · exact hbounded
    · exact hbounded

theorem bounded_run (redis : Redis ℝ) {as : List (Action ℝ)}
    (hwork : ∀ share ∈ sharesOf worker as, 0 ≤ work share.1) :
    ∀ state, (run (step Real.exp) (boot redis) as).workerStates.lookup worker = some state →
      Bounded state (sharesOf worker as) := by
  induction as using List.reverseRecOn with
  | nil =>
    intro state hstate
    simp [boot] at hstate
  | append_singleton as a ih =>
    rw [sharesOf_concat] at hwork ⊢
    rw [run_concat]
    exact bounded_step hwork (ih fun share hm => hwork share (List.mem_append_left _ hm))

end Runs

section Averages

variable (redis : Redis ℝ) (worker : Str) (as : List (Action ℝ))

/-- The state as though the projection over a gap without shares were stored. -/
noncomputable def idleFor (gap : Nat) (state : WorkerState ℝ) : WorkerState ℝ :=
  { state with
    lastShareTs := state.lastShareTs + gap
    emas := projectedEmas Real.exp (state.lastShareTs + gap) state }

noncomputable def engineAfter : Engine ℝ := run (step Real.exp) (boot redis) as

/-- What the averages of a worker are after any run: at most what the shares so
far leave, moved by a share at most to the rate of its interval, and projected
over two gaps as over both at once, with the cut to zero or without. -/
structure AveragesBounded : Prop where
  stored : ∀ state, (engineAfter redis as).workerStates.lookup worker = some state → ∀ i,
    0 ≤ state.emas i ∧
      state.emas i ≤
        load (emaWindows i) (clock state.lastShareTs) (pulses (sharesOf worker as))
  between : ∀ state, (engineAfter redis as).workerStates.lookup worker = some state →
    ∀ difficulty now, state.lastShareTs + 1 < now → ∃ after,
      (step Real.exp (engineAfter redis as) (.share worker difficulty now)).workerStates.lookup
          worker = some after ∧
        ∀ i, after.emas i ∈
          Set.uIcc (state.emas i) (work difficulty / seconds now state.lastShareTs)
  idle : ∀ i gap gap' ema, projected Real.exp (gap + gap') (emaWindows i) ema =
    projected Real.exp gap' (emaWindows i) (projected Real.exp gap (emaWindows i) ema)
  idleCut : ∀ state, (engineAfter redis as).workerStates.lookup worker = some state →
    ∀ gap gap', projectedEmas Real.exp (state.lastShareTs + gap + gap') (idleFor gap state) =
      projectedEmas Real.exp (state.lastShareTs + gap + gap') state

theorem bookShare_mem_uIcc (state : WorkerState ℝ) (difficulty : ℝ) {now : Nat}
    (h : state.lastShareTs + 1 < now) (i : Fin 7) :
    (bookShare Real.exp difficulty now state).emas i ∈
      Set.uIcc (state.emas i) (work difficulty / seconds now state.lastShareTs) := by
  have hdt : (0.001 : ℝ) < seconds now state.lastShareTs := by
    have hmillis : (1 : ℝ) < ((now - state.lastShareTs : Nat) : ℝ) := by
      exact_mod_cast (by omega : 1 < now - state.lastShareTs)
    rw [seconds]
    linarith
  simp only [bookShare, nextEma_eq, if_pos hdt]
  exact spread_mem_uIcc (emaWindows_pos i) (seconds_nonneg _ _)

theorem projected_add (gap gap' tau ema : ℝ) :
    projected Real.exp (gap + gap') tau ema =
      projected Real.exp gap' tau (projected Real.exp gap tau ema) := by
  rw [projected_eq, projected_eq, projected_eq, weight_add, mul_assoc]

theorem projectedEmas_add (state : WorkerState ℝ) (gap gap' : Nat) :
    projectedEmas Real.exp (state.lastShareTs + gap + gap') (idleFor gap state) =
      projectedEmas Real.exp (state.lastShareTs + gap + gap') state := by
  funext i
  have hgap : (0 : ℝ) ≤ (gap' : ℝ) / 1000 := by positivity
  have hboth : ((gap + gap' : Nat) : ℝ) / 1000 = (gap : ℝ) / 1000 + (gap' : ℝ) / 1000 := by
    push_cast
    ring
  simp only [projectedEmas_eq, idleFor, seconds_add]
  rw [Nat.add_assoc, seconds_add, hboth, projected_add]
  simp only [projected_eq]
  exact cutBelow_weight (emaWindows_pos i) hgap (by norm_num) _

/-- The averages of a worker are bounded over every run in which its shares are
of no negative work, whatever the clock reads. -/
theorem averages_bounded (hwork : ∀ share ∈ sharesOf worker as, 0 ≤ work share.1) :
    AveragesBounded redis worker as where
  stored := bounded_run redis hwork
  between := by
    intro state hstate difficulty now hlater
    refine ⟨bookShare Real.exp difficulty now state, ?_, ?_⟩
    · rw [lookup_share_self, hstate, Option.getD_some]
    · exact bookShare_mem_uIcc state difficulty hlater
  idle := fun i gap gap' ema => projected_add gap gap' (emaWindows i) ema
  idleCut := fun state _ gap gap' => projectedEmas_add state gap gap'

/-- Two shares in one millisecond and a third a second later. -/
theorem burst_averages_bounded :
    AveragesBounded LedgerRuns.emptyRedis LedgerRuns.rig
      [.share LedgerRuns.rig 1 0, .share LedgerRuns.rig 1 0, .share LedgerRuns.rig 4 1000] := by
  apply averages_bounded
  intro share hm
  have hshares : share = (1, 0) ∨ share = (1, 0) ∨ share = (4, 1000) := by
    simpa [sharesOf, sharesIn] using hm
  obtain rfl | rfl | rfl := hshares <;> norm_num [work, kaspaDiffConstant]

end Averages

end StratumPool.Averages
