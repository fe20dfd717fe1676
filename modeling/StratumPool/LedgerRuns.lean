import StratumPool.Ledger
import Mathlib.Analysis.SpecialFunctions.Exp

namespace StratumPool.LedgerRuns

open Lib Lib.Runs StratumPool.Text StratumPool.Telemetry StratumPool.Ledger

variable {R : Type} [Field R] [LinearOrder R]

def ReachesRedis : Action R → Prop
  | .share .. => True
  | .flush _ _ ok => ok = true

section Runs

variable (exp : R → R)

/-- The step meets no worker whose credit it cannot hand over. -/
def KeepsCredit (engine : Engine R) : Action R → Prop
  | .share .. => True
  | .flush now _ ok => ∀ worker state, engine.workerStates.lookup worker = some state →
      0 < state.unflushedDifficulty → isOnline exp now state = true ∧ ok = true

def CreditOnline (engine : Engine R) : Action R → Prop
  | .share .. => True
  | .flush now _ _ => ∀ worker state, engine.workerStates.lookup worker = some state →
      0 < state.unflushedDifficulty → isOnline exp now state = true

theorem booked_after {engine : Engine R} (hb : AllBooked engine) {as : List (Action R)}
    (hpos : ∀ a ∈ as, Positive a) : AllBooked (run (step exp) engine as) := by
  induction as generalizing engine with
  | nil => exact hb
  | cons a as ih =>
    exact ih (booked_step exp hb a (hpos a List.mem_cons_self))
      (fun b hm => hpos b (List.mem_cons_of_mem _ hm))

theorem booked_boot (redis : Redis R) : AllBooked (boot redis) := by
  intro worker state hl
  simp [boot] at hl

theorem booked_run (redis : Redis R) {as : List (Action R)} (hpos : ∀ a ∈ as, Positive a) :
    Always (step exp) AllBooked (boot redis) as :=
  fun _ hp => booked_after exp (booked_boot redis) (fun a ha => hpos a (hp.subset ha))

theorem lostOver_concat (wallet : Str) (engine : Engine R) (as : List (Action R)) (a : Action R) :
    lostOver wallet exp engine (as ++ [a]) =
      lostOver wallet exp engine as + lost wallet exp (run (step exp) engine as) a := by
  induction as generalizing engine with
  | nil => simp [lostOver]
  | cons b as ih => simp [lostOver, ih, add_assoc]

theorem owed_nonneg {amount : R} (h : 0 ≤ amount) (wallet worker : Str) :
    0 ≤ owed wallet worker amount := by
  rw [owed]
  split_ifs
  · exact h
  · exact le_rfl

variable [IsStrictOrderedRing R]

theorem lost_share_nonneg (wallet : Str) {engine : Engine R} (hb : AllBooked engine) (now : Nat)
    (ok : Bool) (worker : Str) (state : WorkerState R)
    (hl : engine.workerStates.lookup worker = some state) :
    0 ≤ if isOnline exp now state ∧ ok then 0 else owed wallet worker state.unflushedDifficulty := by
  split_ifs
  · exact le_rfl
  · exact owed_nonneg (hb worker state hl).nonneg wallet worker

theorem lost_nonneg (wallet : Str) {engine : Engine R} (hb : AllBooked engine) (a : Action R) :
    0 ≤ lost wallet exp engine a := by
  cases a with
  | share => exact le_rfl
  | flush now order ok => exact Table.total_nonneg (lost_share_nonneg exp wallet hb now ok)

theorem lost_eq_zero_iff {engine : Engine R} (hb : AllBooked engine) (a : Action R) :
    (∀ wallet, lost wallet exp engine a = 0) ↔ KeepsCredit exp engine a := by
  cases a with
  | share => simp [lost, KeepsCredit]
  | flush now order ok =>
    simp only [lost, KeepsCredit,
      fun wallet => Table.total_eq_zero_iff (lost_share_nonneg exp wallet hb now ok)]
    constructor
    · intro h worker state hl hu
      have hw := h (walletOf worker) worker state hl
      simp only [owed, if_true, ite_eq_left_iff] at hw
      by_contra hn
      exact hu.ne' (hw hn)
    · intro h wallet worker state hl
      have hnn := (hb worker state hl).nonneg
      rw [ite_eq_left_iff]
      intro hn
      have h0 : state.unflushedDifficulty = 0 :=
        le_antisymm (not_lt.mp (fun hu => hn (h worker state hl hu))) hnn
      simp [owed, h0]

theorem lostOver_nonneg (wallet : Str) {engine : Engine R}
    (hb : AllBooked engine) {as : List (Action R)} (hpos : ∀ a ∈ as, Positive a) :
    0 ≤ lostOver wallet exp engine as := by
  induction as generalizing engine with
  | nil => exact le_rfl
  | cons a as ih =>
    apply add_nonneg (lost_nonneg exp wallet hb a)
    exact ih (booked_step exp hb a (hpos a List.mem_cons_self))
      (fun b hm => hpos b (List.mem_cons_of_mem _ hm))

theorem unflushed_nonneg (wallet : Str) {engine : Engine R} (hb : AllBooked engine) :
    0 ≤ unflushed wallet engine :=
  Table.total_nonneg (fun worker state hl => owed_nonneg (hb worker state hl).nonneg wallet worker)

/-- The books balance over a whole run: what the run received is in the
ledger, unflushed or lost. -/
theorem run_balance (wallet : Str) {engine : Engine R} (hb : AllBooked engine) {as : List (Action R)}
    (hpos : ∀ a ∈ as, Positive a) :
    ledger (run (step exp) engine as).redis wallet + unflushed wallet (run (step exp) engine as) +
        lostOver wallet exp engine as =
      ledger engine.redis wallet + unflushed wallet engine + receivedOver wallet as := by
  induction as generalizing engine with
  | nil => simp [lostOver, receivedOver]
  | cons a as ih =>
    have hstep := step_balance wallet exp hb a
    have hrest := ih (booked_step exp hb a (hpos a List.mem_cons_self))
      (fun b hm => hpos b (List.mem_cons_of_mem _ hm))
    simp only [receivedOver, lostOver, run_cons, List.map_cons, List.sum_cons] at hrest ⊢
    linarith

/-- The same from the start of the engine, where nothing is unflushed. -/
theorem boot_balance (wallet : Str) (redis : Redis R) {as : List (Action R)}
    (hpos : ∀ a ∈ as, Positive a) :
    ledger (run (step exp) (boot redis) as).redis wallet +
        unflushed wallet (run (step exp) (boot redis) as) + lostOver wallet exp (boot redis) as =
      ledger redis wallet + receivedOver wallet as := by
  have hbal := run_balance exp wallet (booked_boot redis) hpos
  have h0 : unflushed wallet (boot redis) = 0 := rfl
  rwa [h0, add_zero] at hbal

theorem ledger_mono_step (wallet : Str) {engine : Engine R} (hb : AllBooked engine) (a : Action R) :
    ledger engine.redis wallet ≤ ledger (step exp engine a).redis wallet := by
  cases a with
  | share => exact le_rfl
  | flush now order ok =>
    cases ok with
    | false => rw [step, redis_failed_flush]
    | true =>
      rw [step, ledger_flush]
      apply le_add_of_nonneg_right
      apply Table.total_nonneg
      intro worker state hl
      rw [credited]
      split_ifs
      · exact owed_nonneg (hb worker state hl).nonneg wallet worker
      · exact le_rfl

/-- No run takes anything from a ledger. -/
theorem ledger_mono (wallet : Str) {engine : Engine R} (hb : AllBooked engine) {as : List (Action R)}
    (hpos : ∀ a ∈ as, Positive a) :
    ledger engine.redis wallet ≤ ledger (run (step exp) engine as).redis wallet := by
  induction as generalizing engine with
  | nil => exact le_rfl
  | cons a as ih =>
    apply (ledger_mono_step exp wallet hb a).trans
    exact ih (booked_step exp hb a (hpos a List.mem_cons_self))
      (fun b hm => hpos b (List.mem_cons_of_mem _ hm))

theorem lostOver_eq_zero_iff (redis : Redis R) {as : List (Action R)}
    (hpos : ∀ a ∈ as, Positive a) :
    (∀ pre, pre <+: as → ∀ wallet, lostOver wallet exp (boot redis) pre = 0) ↔
      Guarded (step exp) (KeepsCredit exp) (boot redis) as := by
  apply prefix_iff_guarded (fun _ => rfl)
  intro pre a hp h0
  have hb := booked_run exp redis hpos pre (prefix_of_concat hp)
  rw [← lost_eq_zero_iff exp hb a]
  simp [lostOver_concat, h0]

/-- With every pipeline reaching Redis, the ledgers and the unflushed credit
account for all shares received at every point of a run if and only if no tick
finds a worker with unflushed credit offline. -/
theorem ledger_conserved_iff_online (redis : Redis R) {as : List (Action R)}
    (hpos : ∀ a ∈ as, Positive a) (hok : ∀ a ∈ as, ReachesRedis a) :
    (∀ pre, pre <+: as → ∀ wallet,
      ledger (run (step exp) (boot redis) pre).redis wallet - ledger redis wallet +
          unflushed wallet (run (step exp) (boot redis) pre) = receivedOver wallet pre) ↔
      Guarded (step exp) (CreditOnline exp) (boot redis) as := by
  have hguard : Guarded (step exp) (KeepsCredit exp) (boot redis) as ↔
      Guarded (step exp) (CreditOnline exp) (boot redis) as := by
    refine forall_congr' (fun pre => forall_congr' (fun a => forall_congr' (fun hp => ?_)))
    have ha := hok a (hp.subset (by simp))
    cases a with
    | share => exact Iff.rfl
    | flush now order ok =>
      simp only [ReachesRedis] at ha
      simp [KeepsCredit, CreditOnline, ha]
  rw [← hguard, ← lostOver_eq_zero_iff exp redis hpos]
  refine forall_congr' (fun pre => forall_congr' (fun hp => forall_congr' (fun wallet => ?_)))
  have hbal := boot_balance exp wallet redis (fun a ha => hpos a (hp.subset ha))
  constructor <;> intro h <;> linarith

end Runs

section Examples

def emptyRedis : Redis ℝ := ⟨fun _ => none, ∅, [], none, []⟩

theorem first_share_ema :
    (bookShare Real.exp 1 0 (freshState 0) : WorkerState ℝ).emas 2 = 536870912 := by
  simp [bookShare, freshState, nextEma, seconds, work, kaspaDiffConstant, emaWindows]
  norm_num

/-- One share of difficulty one leaves too slow a worker to outlive the thirty
idle seconds. -/
theorem first_share_offline :
    isOnline Real.exp 30000 (bookShare Real.exp 1 0 (freshState 0)) = false := by
  have hexp : Real.exp (-(30 / 8)) ≤ 1 := Real.exp_le_one_iff.mpr (by norm_num)
  have hrate : currentHashrate Real.exp 30000 (bookShare Real.exp 1 0 (freshState 0)) ≤ 5000000000 := by
    simp only [currentHashrate, projectedEmas, first_share_ema]
    split_ifs
    · have hs : -(seconds 30000 (bookShare Real.exp 1 0 (freshState 0) : WorkerState ℝ).lastShareTs) /
          emaWindows 2 = (-(30 / 8) : ℝ) := by
        simp [seconds, bookShare, emaWindows]
        norm_num
      rw [hs]
      linarith
    · norm_num
  have hidle : ¬ seconds (R := ℝ) 30000
      (bookShare Real.exp 1 0 (freshState 0) : WorkerState ℝ).lastShareTs < 30 := by
    simp [seconds, bookShare]
    norm_num
  simp [isOnline, hidle, not_lt.mpr hrate]

theorem online_of_recent (now : Nat) (state : WorkerState ℝ)
    (h : seconds (R := ℝ) now state.lastShareTs < 30) : isOnline Real.exp now state = true := by
  simp [isOnline, h]

theorem first_share_online :
    isOnline Real.exp 1000 (bookShare Real.exp 1 0 (freshState 0)) = true := by
  apply online_of_recent
  norm_num [seconds, bookShare]

def rig : Str := lit "kaspa:qz0.rig"

/-- After the first share there is one worker. -/
theorem lookup_first_share {redis : Redis ℝ} {name worker : Str} {difficulty : ℝ} {now : Nat}
    {state : WorkerState ℝ}
    (hl : (step Real.exp (boot redis) (.share name difficulty now)).workerStates.lookup worker =
      some state) :
    worker = name ∧ state = bookShare Real.exp difficulty now (freshState now) := by
  by_cases hw : worker = name
  · subst hw
    simp only [step, share, boot, AList.lookup_insert, AList.lookup_empty, Option.getD_none,
      Option.some.injEq] at hl
    exact ⟨rfl, hl.symm⟩
  · simp only [step, share, boot, AList.lookup_insert_ne hw, AList.lookup_empty, reduceCtorEq] at hl

/-- A share and a tick thirty seconds later. -/
def stalledRun : List (Action ℝ) := [.share rig 1 0, .flush 30000 (.asStored _) true]

theorem stalled_positive : ∀ a ∈ stalledRun, Positive a := by simp [stalledRun, Positive]

theorem stalled_lost : lostOver (walletOf rig) Real.exp (boot emptyRedis) stalledRun = 1 := by
  have hoff := first_share_offline
  simp only [stalledRun, lostOver, lost, step, share, boot, AList.lookup_empty, Option.getD_none,
    Table.total_insert_empty, zero_add, add_zero, hoff]
  simp [owed, bookShare, freshState]

theorem stalled_credit_vanishes :
    ¬ ∀ redis : Redis ℝ, ∀ as : List (Action ℝ), (∀ a ∈ as, Positive a) →
      (∀ a ∈ as, ReachesRedis a) → ∀ wallet,
        ledger (run (step Real.exp) (boot redis) as).redis wallet - ledger redis wallet +
          unflushed wallet (run (step Real.exp) (boot redis) as) = receivedOver wallet as := by
  intro h
  have hrun := h emptyRedis stalledRun stalled_positive (by simp [stalledRun, ReachesRedis])
    (walletOf rig)
  have hbal := boot_balance Real.exp (walletOf rig) emptyRedis stalled_positive
  rw [stalled_lost] at hbal
  linarith

/-- A share and a tick one second later. -/
def promptRun : List (Action ℝ) := [.share rig 1 0, .flush 1000 (.asStored _) true]

/-- A share flushed one second later is conserved. -/
theorem prompt_credit_conserved :
    ledger (run (step Real.exp) (boot emptyRedis) promptRun).redis (walletOf rig) -
        ledger emptyRedis (walletOf rig) +
      unflushed (walletOf rig) (run (step Real.exp) (boot emptyRedis) promptRun) =
      receivedOver (walletOf rig) promptRun := by
  have honline : Guarded (step Real.exp) (CreditOnline Real.exp) (boot emptyRedis) promptRun := by
    simp only [promptRun, guarded_cons, guarded_nil, and_true, CreditOnline, true_and]
    intro worker state hl _
    obtain ⟨rfl, rfl⟩ := lookup_first_share hl
    exact first_share_online
  exact (ledger_conserved_iff_online Real.exp emptyRedis (by simp [promptRun, Positive])
    (by simp [promptRun, ReachesRedis])).mpr honline promptRun List.prefix_rfl (walletOf rig)

end Examples

end StratumPool.LedgerRuns
