import StratumPool.FailedFlush
import Mathlib.Algebra.BigOperators.Group.Finset.Basic

namespace StratumPool.Views

open Lib Lib.Runs StratumPool.Text StratumPool.Telemetry StratumPool.Ledger StratumPool.LedgerRuns
  StratumPool.FailedFlush

variable {R : Type} [Field R]

def workerShares (redis : Redis R) (worker : Str) : R := number redis (.workerShares worker)

/-- The difficulties of the events that name a worker. -/
def workerCredit (worker : Str) (events : List (OracleEvent R)) : R :=
  (events.map (fun e => if e.worker = worker then e.difficulty else 0)).sum

/-- The difficulties of the events of a wallet's workers. -/
def walletCredit (wallet : Str) (events : List (OracleEvent R)) : R :=
  (events.map (fun e => owed wallet e.worker e.difficulty)).sum

def namesIn : Action R → List Str
  | .share worker _ _ => [worker]
  | .flush .. => []

def workerNames (as : List (Action R)) : Finset Str := (as.flatMap namesIn).toFinset

/-- The three books of an engine that started on `redis`. -/
structure Agree (redis : Redis R) (engine : Engine R) (workers : Finset Str) : Prop where
  unflushed : ∀ worker state, engine.workerStates.lookup worker = some state →
    state.unflushedDifficulty = (state.unflushedOracleShares.map Prod.fst).sum
  shares : ∀ wallet, ledger engine.redis wallet - ledger redis wallet =
    ∑ worker ∈ workers with walletOf worker = wallet,
      (workerShares engine.redis worker - workerShares redis worker)
  events : ∃ events, engine.redis.shareBuffer = redis.shareBuffer ++ events ∧
    ∀ wallet, ledger engine.redis wallet - ledger redis wallet = walletCredit wallet events

/-- The running sum of a worker is the sum of its event list. -/
def Summed (state : WorkerState R) : Prop :=
  state.unflushedDifficulty = (state.unflushedOracleShares.map Prod.fst).sum

def AllSummed (engine : Engine R) : Prop :=
  ∀ worker state, engine.workerStates.lookup worker = some state → Summed state

section Credits

@[simp] theorem workerCredit_append (worker : Str) (es fs : List (OracleEvent R)) :
    workerCredit worker (es ++ fs) = workerCredit worker es + workerCredit worker fs := by
  simp [workerCredit]

@[simp] theorem walletCredit_append (wallet : Str) (es fs : List (OracleEvent R)) :
    walletCredit wallet (es ++ fs) = walletCredit wallet es + walletCredit wallet fs := by
  simp [walletCredit]

theorem workerCredit_eventsOf (worker name : Str) (state : WorkerState R) :
    workerCredit name (eventsOf worker state) =
      if worker = name then (state.unflushedOracleShares.map Prod.fst).sum else 0 := by
  rw [workerCredit, eventsOf, List.map_map]
  by_cases hw : worker = name
  · simp [hw, Function.comp_def]
  · simp [hw, Function.comp_def]

theorem walletCredit_eventsOf (worker wallet : Str) (state : WorkerState R) :
    walletCredit wallet (eventsOf worker state) =
      owed wallet worker (state.unflushedOracleShares.map Prod.fst).sum := by
  rw [walletCredit, eventsOf, List.map_map]
  by_cases hw : walletOf worker = wallet
  · simp [owed, hw, Function.comp_def]
  · simp [owed, hw, Function.comp_def]

/-- Grouped by wallet, the credit of the workers is the credit of the wallet. -/
theorem sum_workerCredit (wallet : Str) (workers : Finset Str) (events : List (OracleEvent R))
    (h : ∀ e ∈ events, e.worker ∈ workers) :
    ∑ worker ∈ workers with walletOf worker = wallet, workerCredit worker events =
      walletCredit wallet events := by
  induction events with
  | nil => simp [workerCredit, walletCredit]
  | cons e events ih =>
    have hrest := ih (fun f hf => h f (List.mem_cons_of_mem e hf))
    have hone : ∑ worker ∈ workers with walletOf worker = wallet,
        (if e.worker = worker then e.difficulty else 0) = owed wallet e.worker e.difficulty := by
      rw [Finset.sum_ite_eq, owed]
      simp [h e List.mem_cons_self]
    simp only [workerCredit, walletCredit, List.map_cons, List.sum_cons] at hrest ⊢
    rw [Finset.sum_add_distrib, hone, hrest]

end Credits

section Pipeline

/-- Commands that add to the ledgers, to the share counts of the workers and
to the share buffer the same difficulties. -/
structure Balanced (cs : List (Cmd R)) : Prop where
  wallets : ∀ wallet, (cs.map (gain wallet)).sum = walletCredit wallet (cs.filterMap pushed)
  workers : ∀ worker,
    (cs.map (gainAt (.workerShares worker))).sum = workerCredit worker (cs.filterMap pushed)

theorem Balanced.append {cs ds : List (Cmd R)} (hc : Balanced cs) (hd : Balanced ds) :
    Balanced (cs ++ ds) := by
  constructor
  · intro wallet
    simp [hc.wallets wallet, hd.wallets wallet]
  · intro worker
    simp [hc.workers worker, hd.workers worker]

theorem gainAt_pushes (key : Key) (worker : Str) (shares : List (R × Nat)) :
    ((shares.map (fun s => Cmd.rpush ⟨worker, s.1, s.2⟩)).map (gainAt key)).sum = 0 := by
  induction shares with
  | nil => rfl
  | cons s shares ih => simpa [gainAt] using ih

variable [LinearOrder R] (exp : R → R) (now : Nat)

theorem gainAt_workerCmds (worker name : Str) (state : WorkerState R) :
    ((workerCmds exp now worker state).map (gainAt (.workerShares name))).sum =
      if isOnline exp now state ∧ 0 < state.unflushedDifficulty then
        (if worker = name then state.unflushedDifficulty else 0)
      else 0 := by
  rw [workerCmds, creditCmds]
  by_cases hon : isOnline exp now state = true
  · by_cases hu : 0 < state.unflushedDifficulty
    · simp only [hon, hu, if_true, and_self, List.map_cons, List.map_append, List.sum_cons,
        List.sum_append, gainAt_pushes]
      by_cases hw : worker = name <;> simp [gainAt, hw]
    · simp [hon, hu, gainAt]
  · simp [hon, gainAt]

theorem balanced_workerCmds (worker : Str) {state : WorkerState R} (hs : Summed state) :
    Balanced (workerCmds exp now worker state) := by
  constructor
  · intro wallet
    rw [gain_workerCmds, pushed_workerCmds, credited, creditedEvents]
    by_cases h : isOnline exp now state = true ∧ 0 < state.unflushedDifficulty
    · rw [if_pos h, if_pos h, walletCredit_eventsOf, hs]
    · rw [if_neg h, if_neg h]
      rfl
  · intro name
    rw [gainAt_workerCmds, pushed_workerCmds, creditedEvents]
    by_cases h : isOnline exp now state = true ∧ 0 < state.unflushedDifficulty
    · rw [if_pos h, if_pos h, workerCredit_eventsOf, hs]
    · rw [if_neg h, if_neg h]
      rfl

theorem balanced_pipeline (entries : Entries R) (hs : ∀ e ∈ entries, Summed e.2) :
    Balanced (pipeline exp now entries) := by
  have hlast : ∀ rate : R, ∀ p q : Payload R,
      Balanced [.set .poolHashrate rate, .setTelemetry p, .publish q] := by
    intro rate p q
    constructor <;> intro name <;>
      simp [gain, gainAt, pushed, walletCredit, workerCredit, List.filterMap_cons]
  have hworkers : Balanced (entries.flatMap (fun e => workerCmds exp now e.1 e.2)) := by
    induction entries with
    | nil => constructor <;> intro name <;> rfl
    | cons e entries ih =>
      rw [List.flatMap_cons]
      exact (balanced_workerCmds exp now e.1 (hs e List.mem_cons_self)).append
        (ih (fun f hf => hs f (List.mem_cons_of_mem e hf)))
  exact hworkers.append (hlast _ _ _)

end Pipeline

section Runs

/-- What the engine has added to its numbers since the start is what the
events it has pushed since then amount to. -/
structure InStep (redis : Redis R) (engine : Engine R) (events : List (OracleEvent R)) : Prop where
  buffer : engine.redis.shareBuffer = redis.shareBuffer ++ events
  wallets : ∀ wallet, ledger engine.redis wallet = ledger redis wallet + walletCredit wallet events
  workers : ∀ worker,
    workerShares engine.redis worker = workerShares redis worker + workerCredit worker events

theorem inStep_boot (redis : Redis R) : InStep redis (boot redis) [] := by
  constructor <;> simp [boot, walletCredit, workerCredit]

theorem allSummed_boot (redis : Redis R) : AllSummed (boot redis) := by
  intro worker state hl
  simp [boot] at hl

theorem InStep.execAll {redis : Redis R} {engine : Engine R} {events : List (OracleEvent R)}
    (h : InStep redis engine events) {cs : List (Cmd R)} (hc : Balanced cs)
    (hset : ∀ k v, Cmd.set k v ∈ cs → k = .poolHashrate ∨ ∃ worker, k = .workerHashrate worker)
    {states : Table Str (WorkerState R)} {gauge : Str → Option R} :
    InStep redis ⟨states, gauge, engine.redis.execAll cs⟩ (events ++ cs.filterMap pushed) := by
  have hspare : ∀ key, key ≠ .poolHashrate → (∀ worker, key ≠ .workerHashrate worker) →
      ∀ k v, Cmd.set k v ∈ cs → k ≠ key := by
    rintro key hp hw k v hm rfl
    obtain h | ⟨worker, h⟩ := hset k v hm
    · exact hp h
    · exact hw worker h
  constructor
  · rw [shareBuffer_execAll, h.buffer, List.append_assoc]
  · intro wallet
    have hl := number_execAll (.ledgerWallet wallet) engine.redis cs (hspare _ (by simp) (by simp))
    have hg : (cs.map (gainAt (.ledgerWallet wallet))).sum =
        walletCredit wallet (cs.filterMap pushed) := hc.wallets wallet
    rw [hg] at hl
    rw [walletCredit_append, ← add_assoc, ← h.wallets wallet]
    exact hl
  · intro worker
    have hl := number_execAll (.workerShares worker) engine.redis cs (hspare _ (by simp) (by simp))
    rw [hc.workers worker] at hl
    rw [workerCredit_append, ← add_assoc, ← h.workers worker]
    exact hl

omit [Field R] in
/-- The names of the arrived events are those of the shares. -/
theorem arrivedOver_names (as : List (Action R)) :
    ∀ e ∈ arrivedOver as, e.worker ∈ workerNames as := by
  intro e he
  induction as with
  | nil => simp [arrivedOver] at he
  | cons a as ih =>
    rw [arrivedOver, List.map_cons, List.sum_cons, Multiset.mem_add] at he
    simp only [workerNames, List.flatMap_cons, List.toFinset_append, Finset.mem_union]
    obtain he | he := he
    · left
      cases a with
      | share worker difficulty now =>
        rw [arrived, Multiset.mem_singleton] at he
        simp [namesIn, he]
      | flush => simp [arrived] at he
    · exact .inr (ih he)

variable [LinearOrder R] (exp : R → R)

theorem inStep_step {redis : Redis R} {engine : Engine R} {events : List (OracleEvent R)}
    (hs : AllSummed engine) (h : InStep redis engine events) (a : Action R) :
    ∃ more, InStep redis (step exp engine a) (events ++ more) := by
  cases a with
  | share worker difficulty now =>
    refine ⟨[], ?_⟩
    rw [List.append_nil]
    exact ⟨h.buffer, h.wallets, h.workers⟩
  | flush now order ok =>
    rw [step, flush]
    by_cases hn : (order.apply engine.workerStates.entries).isEmpty = true
    · refine ⟨[], ?_⟩
      simpa [hn] using h
    · cases ok with
      | false =>
        refine ⟨[], ?_⟩
        simp only [hn, Bool.false_eq_true, if_false, List.append_nil]
        exact ⟨h.buffer, h.wallets, h.workers⟩
      | true =>
        have hentries : ∀ e ∈ order.apply engine.workerStates.entries, Summed e.2 := by
          intro e he
          have hm := (order.perm _).mem_iff.mp he
          exact hs e.1 e.2 ((Table.mem_entries_iff _ e.1 e.2).mp hm)
        simp only [hn, Bool.false_eq_true, if_false, if_true]
        exact ⟨_, h.execAll (balanced_pipeline exp now _ hentries)
          (fun k v hm => set_of_pipeline exp now hm)⟩

theorem allSummed_step {engine : Engine R} (hs : AllSummed engine) (a : Action R) :
    AllSummed (step exp engine a) := by
  apply states_step exp hs a
  · intro now
    rfl
  · intro worker difficulty now _ state hstate
    rw [Summed] at hstate
    simp [Summed, bookShare, hstate]
  · intro state hstate
    rw [drained]
    split
    · rfl
    · exact hstate

theorem allSummed_run (redis : Redis R) (as : List (Action R)) :
    Always (step exp) AllSummed (boot redis) as :=
  always_of_invariant (allSummed_boot redis) (fun _ a hs => allSummed_step exp hs a) as

theorem inStep_run (redis : Redis R) (as : List (Action R)) :
    ∃ events, InStep redis (run (step exp) (boot redis) as) events := by
  refine (always_of_invariant
    (I := fun engine => AllSummed engine ∧ ∃ events, InStep redis engine events) ?_ ?_ as).last.2
  · exact ⟨allSummed_boot redis, [], inStep_boot redis⟩
  · rintro engine a ⟨hs, events, h⟩
    obtain ⟨more, hm⟩ := inStep_step exp hs h a
    exact ⟨allSummed_step exp hs a, events ++ more, hm⟩

/-- What is pushed has arrived before, once for each time it is pushed. -/
theorem pushed_arrived {redis : Redis R} {as : List (Action R)} {events : List (OracleEvent R)}
    (h : InStep redis (run (step exp) (boot redis) as) events) :
    (events : Multiset (OracleEvent R)) ≤ arrivedOver as := by
  have hle := (events_run exp (boot redis) as).2
  have hboot : heldEvents (boot redis) = 0 := rfl
  rw [buffered, h.buffer, ← Multiset.coe_add, hboot, add_zero, buffered, boot, add_assoc] at hle
  exact (Multiset.le_add_right _ _).trans ((add_le_add_iff_left _).mp hle)

theorem pushed_names {redis : Redis R} {as : List (Action R)} {events : List (OracleEvent R)}
    (h : InStep redis (run (step exp) (boot redis) as) events) :
    ∀ e ∈ events, e.worker ∈ workerNames as :=
  fun e he => arrivedOver_names as e (Multiset.mem_of_le (pushed_arrived exp h) he)

/-- However ticks, clocks and failures fall, the unflushed sums are the sums of
the unflushed events, and what the ledger of a wallet gained is what its
workers' counts gained and what the pushed events of its workers amount to. -/
theorem views_agree (redis : Redis R) {as : List (Action R)} (workers : Finset Str)
    (hnames : workerNames as ⊆ workers) :
    Agree redis (run (step exp) (boot redis) as) workers := by
  obtain ⟨events, h⟩ := inStep_run exp redis as
  have hevents : ∀ e ∈ events, e.worker ∈ workers := fun e he => hnames (pushed_names exp h e he)
  constructor
  · intro worker state hl
    exact (allSummed_run exp redis as).last worker state hl
  · intro wallet
    simp only [h.workers, add_sub_cancel_left]
    rw [sum_workerCredit wallet workers events hevents, h.wallets wallet, add_sub_cancel_left]
  · refine ⟨events, h.buffer, ?_⟩
    intro wallet
    rw [h.wallets wallet, add_sub_cancel_left]

end Runs

section Examples

/-- Two workers of one wallet, and a tick whose pipeline fails between two that
reach Redis. -/
theorem views_agree_two_workers :
    Agree emptyRedis
      (run (step Real.exp) (boot emptyRedis)
        [.share rig 1 0, .flush 1000 (.asStored _) true, .share (lit "kaspa:qz0.pit") 2 1500,
          .flush 2000 (.asStored _) false, .share rig 4 2500, .flush 3000 (.asStored _) true])
      {rig, lit "kaspa:qz0.pit"} :=
  views_agree Real.exp emptyRedis {rig, lit "kaspa:qz0.pit"} (by decide)

end Examples

end StratumPool.Views
