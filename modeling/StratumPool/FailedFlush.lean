import StratumPool.LedgerRuns

namespace StratumPool.FailedFlush

open Lib Lib.Runs StratumPool.Text StratumPool.Telemetry StratumPool.Ledger StratumPool.LedgerRuns

variable {R : Type} [Field R]

section Held

def heldDifficulty (engine : Engine R) (worker : Str) : R :=
  (engine.workerStates.lookup worker).elim 0 WorkerState.unflushedDifficulty

def heldShares (engine : Engine R) (worker : Str) : List (R × Nat) :=
  (engine.workerStates.lookup worker).elim [] WorkerState.unflushedOracleShares

def eventsOf (worker : Str) (state : WorkerState R) : List (OracleEvent R) :=
  state.unflushedOracleShares.map (fun s => ⟨worker, s.1, s.2⟩)

def heldEvents (engine : Engine R) : Multiset (OracleEvent R) :=
  Table.total (fun worker state => (eventsOf worker state : Multiset (OracleEvent R)))
    engine.workerStates

def buffered (engine : Engine R) : Multiset (OracleEvent R) := engine.redis.shareBuffer

def arrived : Action R → Multiset (OracleEvent R)
  | .share worker difficulty now => {⟨worker, difficulty, now⟩}
  | .flush .. => 0

def arrivedOver (as : List (Action R)) : Multiset (OracleEvent R) := (as.map arrived).sum

def StillHeld (before after : Engine R) : Prop :=
  ∀ worker, heldDifficulty after worker = heldDifficulty before worker ∧
    heldShares after worker = heldShares before worker

variable [LinearOrder R]

/-- Everything the first engine held unflushed is in the ledgers and in the
share buffer of the second, where `as` are the steps from the one to the other:
what else came in is at most what these steps brought. -/
structure HandedOver (before after : Engine R) (as : List (Action R)) : Prop where
  ledger_ge : ∀ wallet,
    ledger before.redis wallet + unflushed wallet before ≤ ledger after.redis wallet
  ledger_le : ∀ wallet, ledger after.redis wallet ≤
    ledger before.redis wallet + unflushed wallet before + receivedOver wallet as
  buffer_ge : buffered before + heldEvents before ≤ buffered after
  buffer_le : buffered after ≤ buffered before + heldEvents before + arrivedOver as

end Held

section Pushes

def pushed : Cmd R → Option (OracleEvent R)
  | .rpush event => some event
  | _ => none

theorem shareBuffer_exec (redis : Redis R) (c : Cmd R) :
    (redis.exec c).shareBuffer = redis.shareBuffer ++ (pushed c).toList := by
  cases c <;> simp [Redis.exec, pushed]

theorem shareBuffer_execAll (redis : Redis R) (cs : List (Cmd R)) :
    (redis.execAll cs).shareBuffer = redis.shareBuffer ++ cs.filterMap pushed := by
  induction cs generalizing redis with
  | nil => simp [Redis.execAll]
  | cons c cs ih =>
    have hrest := ih (redis.exec c)
    rw [shareBuffer_exec] at hrest
    simp only [Redis.execAll, List.foldl_cons] at hrest ⊢
    rw [hrest]
    cases hc : pushed c <;> simp [hc]

variable [LinearOrder R] (exp : R → R) (now : Nat)

def creditedEvents (worker : Str) (state : WorkerState R) : List (OracleEvent R) :=
  if isOnline exp now state ∧ 0 < state.unflushedDifficulty then eventsOf worker state else []

theorem pushed_workerCmds (worker : Str) (state : WorkerState R) :
    (workerCmds exp now worker state).filterMap pushed = creditedEvents exp now worker state := by
  have hpush : ∀ shares : List (R × Nat),
      (shares.map (fun s => Cmd.rpush ⟨worker, s.1, s.2⟩)).filterMap pushed =
        shares.map (fun s => (⟨worker, s.1, s.2⟩ : OracleEvent R)) := by
    intro shares
    induction shares with
    | nil => rfl
    | cons s shares ih => simpa [pushed] using ih
  rw [workerCmds, creditCmds, creditedEvents, eventsOf]
  by_cases hon : isOnline exp now state = true
  · by_cases hu : 0 < state.unflushedDifficulty
    · simp only [hon, hu, if_true, and_self, List.cons_append, List.nil_append, List.filterMap_cons,
        pushed, hpush]
    · simp [hon, hu, pushed]
  · simp [hon, pushed]

theorem pushed_pipeline (entries : Entries R) :
    (pipeline exp now entries).filterMap pushed =
      entries.flatMap (fun e => creditedEvents exp now e.1 e.2) := by
  simp [pipeline, List.filterMap_append, List.filterMap_flatMap, pushed_workerCmds, pushed]

/-- What a worker adds to the share buffer in a tick. -/
def handed (ok : Bool) (worker : Str) (state : WorkerState R) : Multiset (OracleEvent R) :=
  if ok then (creditedEvents exp now worker state : Multiset (OracleEvent R)) else 0

theorem buffered_flush (engine : Engine R)
    (order : IterOrder (Sigma fun _ : Str => WorkerState R)) (ok : Bool) :
    buffered (flush exp engine now order ok) =
      buffered engine + Table.total (handed exp now ok) engine.workerStates := by
  cases ok with
  | false =>
    rw [buffered, redis_failed_flush]
    simp [handed, Table.total, buffered]
  | true =>
    rw [buffered, buffered, flush]
    simp only [List.isEmpty_iff, order.eq_nil_iff]
    split
    · rename_i hn
      simp [Table.total, hn]
    · simp only [if_true, shareBuffer_execAll, pushed_pipeline]
      rw [← Multiset.coe_add, Table.flatMap_order]
      rfl

end Pushes

section Arrivals

variable [LinearOrder R] (exp : R → R)

theorem heldEvents_share (engine : Engine R) (worker : Str) (difficulty : R) (now : Nat) :
    heldEvents (share exp engine worker difficulty now) =
      heldEvents engine + {⟨worker, difficulty, now⟩} := by
  apply Table.total_insert_of_gain
  cases hs : engine.workerStates.lookup worker with
  | none => rfl
  | some state => simp [eventsOf, bookShare, ← Multiset.coe_add]

/-- A worker's events are handed over or stay with it, never both. -/
theorem handed_add_left_le (now : Nat) (ok : Bool) (worker : Str) (state : WorkerState R) :
    handed exp now ok worker state +
        (flushState exp now worker state).elim 0
          (fun left => (eventsOf worker left : Multiset (OracleEvent R))) ≤
      eventsOf worker state := by
  by_cases hon : isOnline exp now state = true
  · by_cases hu : 0 < state.unflushedDifficulty <;> cases ok <;>
      simp [handed, flushState, drained, creditedEvents, eventsOf, hon, hu]
  · cases ok <;> simp [handed, flushState, creditedEvents, hon]

/-- No step takes an event out of the share buffer, and none makes one up. -/
theorem events_step (engine : Engine R) (a : Action R) :
    buffered engine ≤ buffered (step exp engine a) ∧
      buffered (step exp engine a) + heldEvents (step exp engine a) ≤
        buffered engine + heldEvents engine + arrived a := by
  cases a with
  | share worker difficulty now =>
    refine ⟨le_rfl, ?_⟩
    rw [step, heldEvents_share, ← add_assoc]
    rfl
  | flush now order ok =>
    simp only [step, arrived, add_zero]
    rw [buffered_flush]
    refine ⟨Multiset.le_add_right _ _, ?_⟩
    rw [heldEvents, total_flush, add_assoc, ← Table.total_add]
    gcongr
    apply Table.total_mono
    intro worker state _
    exact handed_add_left_le exp now ok worker state

theorem events_run (engine : Engine R) (as : List (Action R)) :
    buffered engine ≤ buffered (run (step exp) engine as) ∧
      buffered (run (step exp) engine as) + heldEvents (run (step exp) engine as) ≤
        buffered engine + heldEvents engine + arrivedOver as := by
  induction as generalizing engine with
  | nil => simp [arrivedOver]
  | cons a as ih =>
    obtain ⟨hge, hle⟩ := events_step exp engine a
    obtain ⟨hge', hle'⟩ := ih (step exp engine a)
    refine ⟨hge.trans hge', hle'.trans ?_⟩
    calc buffered (step exp engine a) + heldEvents (step exp engine a) + arrivedOver as
        ≤ buffered engine + heldEvents engine + arrived a + arrivedOver as := by gcongr
      _ = buffered engine + heldEvents engine + arrivedOver (a :: as) := by
          rw [add_assoc, arrivedOver, arrivedOver, List.map_cons, List.sum_cons]

end Arrivals

variable [LinearOrder R] [IsStrictOrderedRing R] (exp : R → R)

theorem shares_nil {state : WorkerState R} (hb : Booked state)
    (hu : ¬ 0 < state.unflushedDifficulty) : state.unflushedOracleShares = [] := by
  by_contra hne
  apply hu
  rw [hb.sum]
  refine List.sum_pos _ ?_ (by simpa using hne)
  intro d hd
  obtain ⟨s, hs, rfl⟩ := List.mem_map.mp hd
  exact hb.pos s hs

/-- Nothing is unflushed. -/
def Idle (engine : Engine R) : Prop :=
  ∀ worker state, engine.workerStates.lookup worker = some state → state.unflushedDifficulty = 0

theorem unflushed_idle (wallet : Str) {engine : Engine R} (hi : Idle engine) :
    unflushed wallet engine = 0 := by
  refine (Table.total_eq_zero_iff ?_).mpr ?_ <;> intro worker state hl <;>
    simp [owed, hi worker state hl]

theorem heldEvents_idle {engine : Engine R} (hb : AllBooked engine) (hi : Idle engine) :
    heldEvents engine = 0 := by
  have hnil : heldEvents engine = Table.total (fun _ _ => 0) engine.workerStates := by
    apply Table.total_congr
    intro worker state hl
    simp [eventsOf, shares_nil (hb worker state hl) (hi worker state hl).not_gt]
  simpa [Table.total] using hnil

omit [IsStrictOrderedRing R] in
theorem flushState_unflushed {now : Nat} {worker : Str} {state left : WorkerState R}
    (hnn : 0 ≤ state.unflushedDifficulty) (hf : flushState exp now worker state = some left) :
    left.unflushedDifficulty = 0 := by
  obtain ⟨-, rfl⟩ := (flushState_eq_some_iff exp).mp hf
  rw [drained]
  split
  · rfl
  · exact le_antisymm (not_lt.mp ‹_›) hnn

/-- A tick leaves nothing unflushed, whether its pipeline reached Redis or
not. -/
theorem idle_flush {engine : Engine R} (hb : AllBooked engine) (now : Nat)
    (order : IterOrder (Sigma fun _ : Str => WorkerState R)) (ok : Bool) :
    Idle (flush exp engine now order ok) := by
  intro worker left hl
  rw [lookup_flush, Option.bind_eq_some_iff] at hl
  obtain ⟨state, hs, hf⟩ := hl
  exact flushState_unflushed exp (hb worker state hs).nonneg hf

omit [LinearOrder R] [IsStrictOrderedRing R] in
theorem heldDifficulty_idle {engine : Engine R} (hi : Idle engine) (worker : Str) :
    heldDifficulty engine worker = 0 := by
  rw [heldDifficulty]
  cases hl : engine.workerStates.lookup worker with
  | none => rfl
  | some state => exact hi worker state hl

theorem heldShares_idle {engine : Engine R} (hb : AllBooked engine) (hi : Idle engine)
    (worker : Str) : heldShares engine worker = [] := by
  rw [heldShares]
  cases hl : engine.workerStates.lookup worker with
  | none => rfl
  | some state => exact shares_nil (hb worker state hl) (hi worker state hl).not_gt

theorem stillHeld_flush_iff {engine : Engine R} (hb : AllBooked engine) (now : Nat)
    (order : IterOrder (Sigma fun _ : Str => WorkerState R)) (ok : Bool) :
    StillHeld engine (flush exp engine now order ok) ↔ Idle engine := by
  have hafter := idle_flush exp hb now order ok
  constructor
  · intro hheld worker state hl
    have h0 := (hheld worker).1
    rw [heldDifficulty_idle hafter] at h0
    simpa [heldDifficulty, hl] using h0.symm
  · intro hi worker
    have hb' := booked_step exp hb (.flush now order ok) trivial
    exact ⟨(heldDifficulty_idle hafter worker).trans (heldDifficulty_idle hi worker).symm,
      (heldShares_idle hb' hafter worker).trans (heldShares_idle hb hi worker).symm⟩

def Fails : Action R → Prop
  | .share .. => False
  | .flush _ _ ok => ok = false

def WritesNothing : Action R → Prop
  | .share .. => True
  | .flush _ _ ok => ok = false

/-- The failed ticks of a run keep what they could not write, and the first
tick to reach Redis after some of them hands it over, whatever shares come in
between. -/
structure FailuresKeepCredit (engine : Engine R) (as : List (Action R)) : Prop where
  held : ∀ pre a, pre ++ [a] <+: as → Fails a →
    StillHeld (run (step exp) engine pre) (step exp (run (step exp) engine pre) a)
  recovered : ∀ pre a between now order, Fails a → (∀ b ∈ between, WritesNothing b) →
    pre ++ (a :: between ++ [.flush now order true]) <+: as →
      HandedOver (run (step exp) engine pre)
        (run (step exp) engine (pre ++ (a :: between ++ [.flush now order true])))
        (a :: between ++ [.flush now order true])

def IdleAtFailure (engine : Engine R) (a : Action R) : Prop := Fails a → Idle engine

/-- Where nothing is unflushed there is nothing to hand over. -/
theorem handedOver_of_idle {engine : Engine R} (hb : AllBooked engine) (hi : Idle engine)
    {as : List (Action R)} (hpos : ∀ a ∈ as, Positive a) :
    HandedOver engine (run (step exp) engine as) as := by
  obtain ⟨hge, hle⟩ := events_run exp engine as
  constructor
  · intro wallet
    rw [unflushed_idle wallet hi, add_zero]
    exact ledger_mono exp wallet hb hpos
  · intro wallet
    have hbal := run_balance exp wallet hb hpos
    have hlost := lostOver_nonneg exp wallet hb hpos
    have hleft := unflushed_nonneg wallet (booked_after exp hb hpos)
    linarith
  · rwa [heldEvents_idle hb hi, add_zero]
  · exact (Multiset.le_add_right _ _).trans hle

/-- Failed ticks lose no credit in a run if and only if none of them finds any
credit unflushed. -/
theorem failures_keep_credit_iff_idle (redis : Redis R) {as : List (Action R)}
    (hpos : ∀ a ∈ as, Positive a) :
    FailuresKeepCredit exp (boot redis) as ↔ Guarded (step exp) IdleAtFailure (boot redis) as := by
  have hbooked := booked_run exp redis hpos
  have hfirst : ∀ pre a, pre ++ [a] <+: as → Fails a →
      (StillHeld (run (step exp) (boot redis) pre) (step exp (run (step exp) (boot redis) pre) a) ↔
        Idle (run (step exp) (boot redis) pre)) := by
    intro pre a hp ha
    have hb := hbooked pre (prefix_of_concat hp)
    cases a with
    | share => exact ha.elim
    | flush now order ok => exact stillHeld_flush_iff exp hb now order ok
  constructor
  · intro hk pre a hp ha
    exact (hfirst pre a hp ha).mp (hk.held pre a hp ha)
  · intro hg
    refine ⟨fun pre a hp ha => (hfirst pre a hp ha).mpr (hg pre a hp ha), ?_⟩
    intro pre a between now order ha _ hp
    have hpa : pre ++ [a] <+: as :=
      List.IsPrefix.trans ⟨between ++ [.flush now order true], by simp⟩ hp
    rw [run_append]
    apply handedOver_of_idle exp (hbooked pre (prefix_of_concat hpa)) (hg pre a hpa ha)
    exact fun b hb => hpos b (hp.subset (List.mem_append_right pre hb))

section Examples

theorem booked_first_share :
    AllBooked (run (step Real.exp) (boot emptyRedis) [.share rig 1 0]) := by
  have hpos : ∀ a ∈ [Action.share rig (1 : ℝ) 0], Positive a := by simp [Positive]
  exact (booked_run Real.exp emptyRedis hpos).last

theorem heldDifficulty_first_share :
    heldDifficulty (run (step Real.exp) (boot emptyRedis) [.share rig 1 0]) rig = 1 := by
  simp only [heldDifficulty, run_cons, run_nil, step, share, AList.lookup_insert]
  simp [boot, bookShare, freshState]

/-- One share, and a tick that fails to write it. -/
theorem failed_tick_drops_credit :
    ¬ ∀ redis : Redis ℝ, ∀ as : List (Action ℝ), (∀ a ∈ as, Positive a) →
      FailuresKeepCredit Real.exp (boot redis) as := by
  intro h
  have hrun := h emptyRedis [.share rig 1 0, .flush 1000 (.asStored _) false] (by simp [Positive])
  have hheld := hrun.held [.share rig 1 0] (.flush 1000 (.asStored _) false) List.prefix_rfl rfl
  have h1 := (hheld rig).1
  have hafter := idle_flush Real.exp booked_first_share 1000 (.asStored _) false
  rw [step, heldDifficulty_idle hafter, heldDifficulty_first_share] at h1
  exact zero_ne_one h1

theorem written_credit_survives_failure :
    FailuresKeepCredit Real.exp (boot emptyRedis)
      [.share rig 1 0, .flush 1000 (.asStored _) true, .flush 2000 (.asStored _) false,
        .flush 3000 (.asStored _) true] := by
  apply (failures_keep_credit_iff_idle Real.exp emptyRedis (by simp [Positive])).mpr
  have hi := idle_flush Real.exp booked_first_share 1000 (.asStored _) true
  simp only [guarded_cons, guarded_nil, and_true, IdleAtFailure, Fails, false_implies, true_and]
  exact ⟨by simp, fun _ => hi, by simp⟩

end Examples

end StratumPool.FailedFlush
