import StratumPool.LedgerRuns

namespace StratumPool.Status

open Lib Lib.Runs StratumPool.Text StratumPool.Telemetry StratumPool.Ledger

variable {R : Type}

def rateOf (redis : Redis R) (worker : Str) : Option R := redis.numbers (.workerHashrate worker)

section Commands

variable [Add R] [Zero R]

theorem execAll_append (redis : Redis R) (cs ds : List (Cmd R)) :
    redis.execAll (cs ++ ds) = (redis.execAll cs).execAll ds := List.foldl_append

def written : Cmd R → Option Key
  | .set key _ => some key
  | .incrByFloat key _ => some key
  | _ => none

theorem numbers_execAll {key : Key} (redis : Redis R) {cs : List (Cmd R)}
    (h : ∀ c ∈ cs, written c ≠ some key) : (redis.execAll cs).numbers key = redis.numbers key := by
  induction cs generalizing redis with
  | nil => rfl
  | cons c cs ih =>
    have hrest := ih (redis.exec c) fun d hd => h d (List.mem_cons_of_mem c hd)
    have hfirst : (redis.exec c).numbers key = redis.numbers key := by
      have hc := h c List.mem_cons_self
      cases c with
      | set k value =>
        have hne : key ≠ k := fun he => hc (by rw [he]; rfl)
        simp [Redis.exec, Function.update_of_ne hne]
      | incrByFloat k increment =>
        have hne : key ≠ k := fun he => hc (by rw [he]; rfl)
        simp [Redis.exec, Function.update_of_ne hne]
      | _ => rfl
    exact hrest.trans hfirst

theorem poolWorkers_pushes (worker : Str) (redis : Redis R) (shares : List (R × Nat)) :
    (redis.execAll (shares.map (fun share => .rpush ⟨worker, share.1, share.2⟩))).poolWorkers =
      redis.poolWorkers := by
  induction shares generalizing redis with
  | nil => rfl
  | cons share shares ih => exact ih (redis.exec (.rpush ⟨worker, share.1, share.2⟩))

variable [LT R] [DecidableLT R]

omit [Add R] in
theorem written_creditCmds (worker : Str) (state : WorkerState R) {key : Key}
    (hledger : ∀ wallet, key ≠ .ledgerWallet wallet) (hshares : ∀ name, key ≠ .workerShares name) :
    ∀ c ∈ creditCmds worker state, written c ≠ some key := by
  intro c hc
  rw [creditCmds] at hc
  split at hc
  · simp only [List.cons_append, List.nil_append, List.mem_cons, List.mem_map] at hc
    obtain rfl | rfl | rfl | ⟨share, -, rfl⟩ := hc
    · exact fun he => hledger _ (Option.some.inj he).symm
    · simp [written]
    · exact fun he => hshares _ (Option.some.inj he).symm
    · simp [written]
  · cases hc

variable [Sub R] [Mul R] [Div R] [Neg R] [One R] [NatCast R] [OfScientific R] (exp : R → R)
  (now : Nat)

theorem poolWorkers_workerCmds (redis : Redis R) (worker : Str) (state : WorkerState R) :
    (redis.execAll (workerCmds exp now worker state)).poolWorkers =
      if isOnline exp now state then
        if 0 < state.unflushedDifficulty then insert worker redis.poolWorkers else redis.poolWorkers
      else redis.poolWorkers.erase worker := by
  rw [workerCmds]
  split
  · rw [creditCmds]
    split
    · exact poolWorkers_pushes worker _ _
    · rfl
  · rfl

theorem rateOf_workerCmds (redis : Redis R) (name : Str) (state : WorkerState R) (worker : Str) :
    rateOf (redis.execAll (workerCmds exp now name state)) worker =
      if worker = name then some (if isOnline exp now state then currentHashrate exp now state else 0)
      else rateOf redis worker := by
  have hset : ∀ value : R, Function.update redis.numbers (.workerHashrate name) (some value)
      (.workerHashrate worker) = if worker = name then some value else rateOf redis worker := by
    intro value
    by_cases hw : worker = name
    · rw [hw, Function.update_self, if_pos rfl]
    · rw [Function.update_of_ne (fun he => hw (Key.workerHashrate.inj he)), if_neg hw, rateOf]
  rw [workerCmds]
  split
  · have hcredit : ∀ c ∈ creditCmds name state, written c ≠ some (.workerHashrate worker) :=
      written_creditCmds name state (by simp) (by simp)
    exact (numbers_execAll _ hcredit).trans (hset _)
  · exact hset 0

/-- Whether a worker is in the set after the commands for all the entries, and
what its rate is then. -/
def listedAfter (before : Prop) : Option (WorkerState R) → Prop
  | none => before
  | some state => isOnline exp now state = true ∧ (0 < state.unflushedDifficulty ∨ before)

def rateAfter (before : Option R) : Option (WorkerState R) → Option R
  | none => before
  | some state => some (if isOnline exp now state then currentHashrate exp now state else 0)

theorem entries_spec {entries : Entries R} (hnd : entries.NodupKeys) (redis : Redis R)
    (worker : Str) :
    (worker ∈ (redis.execAll (entries.flatMap (fun e => workerCmds exp now e.1 e.2))).poolWorkers ↔
        listedAfter exp now (worker ∈ redis.poolWorkers) (entries.dlookup worker)) ∧
      rateOf (redis.execAll (entries.flatMap (fun e => workerCmds exp now e.1 e.2))) worker =
        rateAfter exp now (rateOf redis worker) (entries.dlookup worker) := by
  induction entries generalizing redis with
  | nil => exact ⟨Iff.rfl, rfl⟩
  | cons e entries ih =>
    obtain ⟨hnew, hrest⟩ := List.nodupKeys_cons.mp hnd
    obtain ⟨hlisted, hrate⟩ := ih hrest (redis.execAll (workerCmds exp now e.1 e.2))
    rw [List.flatMap_cons, execAll_append, hlisted, hrate, poolWorkers_workerCmds,
      rateOf_workerCmds]
    by_cases hw : worker = e.1
    · subst hw
      rw [List.dlookup_eq_none.mpr hnew, List.dlookup_cons_eq, listedAfter, listedAfter, rateAfter,
        rateAfter, if_pos rfl]
      refine ⟨?_, rfl⟩
      cases hon : isOnline exp now e.2 with
      | true => by_cases hu : 0 < e.2.unflushedDifficulty <;> simp [hu]
      | false => simp
    · have hmem : (worker ∈ if isOnline exp now e.2 then
          if 0 < e.2.unflushedDifficulty then insert e.1 redis.poolWorkers else redis.poolWorkers
          else redis.poolWorkers.erase e.1) ↔ worker ∈ redis.poolWorkers := by
        split_ifs <;> simp [hw]
      rw [List.dlookup_cons_ne _ _ hw, if_neg hw, propext hmem]
      exact ⟨Iff.rfl, rfl⟩

theorem flush_of_empty {engine : Engine R} (h : engine.workerStates.entries = [])
    (order : IterOrder (Sigma fun _ : Str => WorkerState R)) (ok : Bool) :
    flush exp engine now order ok = engine := by
  rw [flush, if_pos]
  rw [order.isEmpty_apply, h]
  rfl

theorem redis_flush {engine : Engine R} (hne : engine.workerStates.entries ≠ [])
    (order : IterOrder (Sigma fun _ : Str => WorkerState R)) :
    (flush exp engine now order true).redis =
      engine.redis.execAll (pipeline exp now (order.apply engine.workerStates.entries)) := by
  simp only [flush, order.isEmpty_apply, List.isEmpty_eq_false_iff.mpr hne, Bool.false_eq_true,
    if_false, if_true]

/-- What the entries of the map leave in Redis stays there to the end of the
pipeline. -/
theorem listed_flush {engine : Engine R} (hne : engine.workerStates.entries ≠ [])
    (order : IterOrder (Sigma fun _ : Str => WorkerState R)) (worker : Str) :
    worker ∈ (flush exp engine now order true).redis.poolWorkers ↔
      listedAfter exp now (worker ∈ engine.redis.poolWorkers)
        (engine.workerStates.lookup worker) := by
  rw [redis_flush exp now hne order, pipeline, execAll_append,
    ← Table.dlookup_order order engine.workerStates]
  exact (entries_spec exp now (Table.nodupKeys_order order engine.workerStates) _ worker).1

theorem rate_flush (engine : Engine R) (order : IterOrder (Sigma fun _ : Str => WorkerState R))
    (worker : Str) :
    rateOf (flush exp engine now order true).redis worker =
      rateAfter exp now (rateOf engine.redis worker) (engine.workerStates.lookup worker) := by
  by_cases hempty : engine.workerStates.entries = []
  · have hnone : engine.workerStates.lookup worker = none := by simp [AList.lookup, hempty]
    rw [flush_of_empty exp now hempty, hnone, rateAfter]
  · have hnd := Table.nodupKeys_order order engine.workerStates
    rw [redis_flush exp now hempty order, pipeline, execAll_append,
      ← Table.dlookup_order order engine.workerStates,
      ← (entries_spec exp now hnd engine.redis worker).2, rateOf, rateOf]
    simp [Redis.execAll, Redis.exec]

end Commands

variable [Field R]

section Flush

variable [LinearOrder R] (exp : R → R) (now : Nat)

/-- What the online workers hash together. -/
def onlineRate (engine : Engine R) : R :=
  Table.total (fun _ state => if isOnline exp now state then currentHashrate exp now state else 0)
    engine.workerStates

theorem totalHashrate_payload (entries : Entries R) :
    (payload exp now entries).totalHashrate =
      (entries.map (fun e =>
        if isOnline exp now e.2 then currentHashrate exp now e.2 else 0)).sum := by
  rw [payload]
  induction entries with
  | nil => rfl
  | cons e entries ih => cases hon : isOnline exp now e.2 <;> simpa [hon] using ih

/-- What a pipeline that reaches Redis leaves there of the workers' status. -/
structure Written (engine after : Engine R) : Prop where
  listed : ∀ worker, worker ∈ after.redis.poolWorkers ↔
    listedAfter exp now (worker ∈ engine.redis.poolWorkers) (engine.workerStates.lookup worker)
  rate : ∀ worker, rateOf after.redis worker =
    rateAfter exp now (rateOf engine.redis worker) (engine.workerStates.lookup worker)
  pool : after.redis.numbers .poolHashrate = some (onlineRate exp now engine)

theorem written_flush {engine : Engine R} (hne : engine.workerStates.entries ≠ [])
    (order : IterOrder (Sigma fun _ : Str => WorkerState R)) :
    Written exp now engine (flush exp engine now order true) := by
  refine ⟨listed_flush exp now hne order, rate_flush exp now engine order, ?_⟩
  rw [redis_flush exp now hne order, pipeline, execAll_append, onlineRate, Table.total,
    ← Table.sum_order _ order, ← totalHashrate_payload]
  simp [Redis.execAll, Redis.exec]

/-- A worker stays if and only if it is online. -/
theorem stays_iff (engine : Engine R) (order : IterOrder (Sigma fun _ : Str => WorkerState R))
    (ok : Bool) (worker : Str) :
    ((flush exp engine now order ok).workerStates.lookup worker).isSome = true ↔
      ∃ state, engine.workerStates.lookup worker = some state ∧ isOnline exp now state = true := by
  rw [lookup_flush]
  cases engine.workerStates.lookup worker with
  | none => simp
  | some state =>
    rw [Option.bind_some, flushState]
    cases hon : isOnline exp now state <;> simp [hon]

end Flush

/-- The engine with the history of its lost commands: `unlisted` are the workers
for which no `SADD` reached Redis since they joined, `missed` those whose
eviction did not reach it and that have not come back, `missedLast` says the
same of the last worker's, `started` that there ever was one. -/
structure State (R : Type) where
  engine : Engine R
  unlisted : Str → Bool
  missed : Str → Bool
  missedLast : Bool
  started : Bool

def boot (R : Type) : State R :=
  ⟨Telemetry.boot ⟨fun _ => none, ∅, [], none, []⟩, fun _ => false, fun _ => false, false, false⟩

section Recovery

variable [LinearOrder R] (exp : R → R)

def workerOf (state : State R) (worker : Str) : Option (WorkerState R) :=
  state.engine.workerStates.lookup worker

def empty (state : State R) : Bool := state.engine.workerStates.entries.isEmpty

def step (state : State R) (a : Action R) : State R :=
  let engine := Telemetry.step exp state.engine a
  match a with
  | .share worker _ _ =>
      { engine
        unlisted :=
          if (workerOf state worker).isNone then Function.update state.unlisted worker true
          else state.unlisted
        missed := Function.update state.missed worker false
        missedLast := false
        started := true }
  | .flush now _ ok =>
      { state with
        engine
        unlisted := fun worker =>
          match workerOf state worker with
          | some st =>
              state.unlisted worker &&
                !(ok && isOnline exp now st && decide (0 < st.unflushedDifficulty))
          | none => state.unlisted worker
        missed := fun worker =>
          match workerOf state worker with
          | some st => if isOnline exp now st then state.missed worker else !ok
          | none => state.missed worker
        missedLast :=
          if empty state then state.missedLast else !ok && engine.workerStates.entries.isEmpty }

/-- The history changes nothing in the engine. -/
theorem engine_refines :
    Refines (step exp) (Telemetry.step exp) State.engine (fun _ a => some a) := by
  intro state a
  cases a <;> rfl

/-- What Redis shows after a tick whose pipeline reached it, or, where there are
no workers left, after a tick that could have reached it. -/
def StatusRight (state : State R) : Action R → Prop
  | .flush now order true =>
      let after := flush exp state.engine now order true
      if empty state then state.started = true → after.redis.numbers .poolHashrate = some 0
      else
        (∀ worker, worker ∈ after.redis.poolWorkers ↔
          (after.workerStates.lookup worker).isSome = true) ∧
        (∀ worker, after.workerStates.lookup worker = none →
          rateOf after.redis worker = none ∨ rateOf after.redis worker = some 0) ∧
        after.redis.numbers .poolHashrate =
          some (Table.total (fun worker _ => (rateOf after.redis worker).getD 0) after.workerStates)
  | _ => True

/-- No lost command shows at a tick that reaches Redis: a worker without one of
its own that was never listed since it joined is in the set all the same, one
whose eviction was lost is out of it all the same. -/
def Repaired (state : State R) : Action R → Prop
  | .flush now _ true =>
      if empty state then
        state.missedLast = true → state.engine.redis.numbers .poolHashrate = some 0
      else
        (∀ worker st, workerOf state worker = some st → isOnline exp now st = true →
          ¬ 0 < st.unflushedDifficulty → state.unlisted worker = true →
            worker ∈ state.engine.redis.poolWorkers) ∧
        ∀ worker, workerOf state worker = none → state.missed worker = true →
          worker ∉ state.engine.redis.poolWorkers ∧
            (rateOf state.engine.redis worker = none ∨ rateOf state.engine.redis worker = some 0)
  | _ => True

/-- Where no command was lost Redis has the status right. -/
structure Inv (state : State R) : Prop where
  listed : ∀ worker, (workerOf state worker).isSome = true → state.unlisted worker = false →
    worker ∈ state.engine.redis.poolWorkers
  gone : ∀ worker, workerOf state worker = none → state.missed worker = false →
    worker ∉ state.engine.redis.poolWorkers ∧
      (rateOf state.engine.redis worker = none ∨ rateOf state.engine.redis worker = some 0)
  quiet : empty state = true → state.started = true → state.missedLast = false →
    state.engine.redis.numbers .poolHashrate = some 0
  begun : empty state = false ∨ state.missedLast = true → state.started = true

omit [LinearOrder R] in
theorem inv_boot : Inv (boot R) where
  listed := by simp [workerOf, boot, Telemetry.boot]
  gone := by simp [boot, Telemetry.boot, rateOf]
  quiet := by simp [boot]
  begun := by simp [boot, empty, Telemetry.boot]

omit [Field R] [LinearOrder R] in
theorem entries_ne_nil {state : State R} (h : empty state = false) :
    state.engine.workerStates.entries ≠ [] := List.isEmpty_eq_false_iff.mp h

omit [Field R] [LinearOrder R] in
theorem entries_eq_nil {state : State R} (h : empty state = true) :
    state.engine.workerStates.entries = [] := List.isEmpty_iff.mp h

omit [Field R] [LinearOrder R] in
theorem workerOf_of_empty {state : State R} (h : empty state = true) (worker : Str) :
    workerOf state worker = none := by
  simp [workerOf, AList.lookup, entries_eq_nil h]

/-- The rates that Redis has of the workers that stay are those the pool's sum
is made of. -/
theorem total_rates {state : State R} {now : Nat}
    {order : IterOrder (Sigma fun _ : Str => WorkerState R)}
    (h : Written exp now state.engine (flush exp state.engine now order true)) :
    Table.total (fun worker _ => (rateOf (flush exp state.engine now order true).redis worker).getD 0)
        (flush exp state.engine now order true).workerStates = onlineRate exp now state.engine := by
  rw [total_flush, onlineRate]
  apply Table.total_congr
  intro worker st hst
  rw [h.rate, hst, rateAfter, flushState, Option.getD_some]
  cases isOnline exp now st <;> rfl

/-- One worker after a tick that reaches Redis, by whether it stays, goes or was
not there. -/
theorem worker_right_iff {state : State R} (hi : Inv state) {now : Nat}
    {order : IterOrder (Sigma fun _ : Str => WorkerState R)}
    (h : Written exp now state.engine (flush exp state.engine now order true)) (worker : Str) :
    ((worker ∈ (flush exp state.engine now order true).redis.poolWorkers ↔
          ((flush exp state.engine now order true).workerStates.lookup worker).isSome = true) ∧
        ((flush exp state.engine now order true).workerStates.lookup worker = none →
          rateOf (flush exp state.engine now order true).redis worker = none ∨
            rateOf (flush exp state.engine now order true).redis worker = some 0)) ↔
      ((∀ st, workerOf state worker = some st → isOnline exp now st = true →
          ¬ 0 < st.unflushedDifficulty → state.unlisted worker = true →
            worker ∈ state.engine.redis.poolWorkers) ∧
        (workerOf state worker = none → state.missed worker = true →
          worker ∉ state.engine.redis.poolWorkers ∧
            (rateOf state.engine.redis worker = none ∨
              rateOf state.engine.redis worker = some 0))) := by
  have hlisted := hi.listed worker
  have hgone := hi.gone worker
  rw [h.listed, h.rate, lookup_flush, workerOf] at *
  cases hst : state.engine.workerStates.lookup worker with
  | none =>
    simp only [hst, forall_const] at hgone
    cases hmissed : state.missed worker with
    | true => simp [listedAfter, rateAfter]
    | false =>
      obtain ⟨hnot, hzero⟩ := hgone hmissed
      simp [listedAfter, rateAfter, hnot, hzero]
  | some st =>
    simp only [hst, Option.isSome_some, forall_const] at hlisted
    cases hon : isOnline exp now st with
    | false => simp [listedAfter, rateAfter, flushState, hon]
    | true =>
      cases hun : state.unlisted worker with
      | true =>
        obtain hu | hu := lt_or_ge 0 st.unflushedDifficulty
        · simp [listedAfter, flushState, hon, hu, not_le.mpr hu]
        · simp [listedAfter, flushState, hon, hu, not_lt.mpr hu]
      | false => simp [listedAfter, flushState, hon, hlisted hun]

theorem statusRight_iff {state : State R} (hi : Inv state) (a : Action R) :
    StatusRight exp state a ↔ Repaired exp state a := by
  cases a with
  | share worker difficulty now => exact Iff.rfl
  | flush now order ok =>
    cases ok with
    | false => exact Iff.rfl
    | true =>
      simp only [StatusRight, Repaired]
      cases hempty : empty state with
      | true =>
        rw [flush_of_empty exp now (entries_eq_nil hempty)]
        simp only [if_true]
        constructor
        · exact fun hright hmissed => hright (hi.begun (.inr hmissed))
        · intro hrepaired hstarted
          cases hmissed : state.missedLast with
          | true => exact hrepaired hmissed
          | false => exact hi.quiet hempty hstarted hmissed
      | false =>
        have hwritten := written_flush exp now (entries_ne_nil hempty) order
        have hworkers := forall_congr' (worker_right_iff exp hi hwritten)
        rw [forall_and, forall_and] at hworkers
        simp only [Bool.false_eq_true, if_false, hwritten.pool, total_rates exp hwritten, and_true]
        exact hworkers

theorem workerOf_share (state : State R) (name : Str) (difficulty : R) (now : Nat) (worker : Str) :
    (workerOf (step exp state (.share name difficulty now)) worker).isSome = true ↔
      worker = name ∨ (workerOf state worker).isSome = true := by
  simp only [workerOf, step, Telemetry.step, share]
  by_cases hw : worker = name
  · subst hw
    simp
  · simp [hw, AList.lookup_insert_ne hw]

theorem inv_share {state : State R} (hi : Inv state) (name : Str) (difficulty : R) (now : Nat) :
    Inv (step exp state (.share name difficulty now)) where
  listed := by
    intro worker hsome hlisted
    rw [workerOf_share] at hsome
    apply hi.listed worker
    · obtain rfl | hsome := hsome
      · by_contra hnone
        simp [step, Option.not_isSome_iff_eq_none.mp hnone] at hlisted
      · exact hsome
    · simp only [step] at hlisted
      split at hlisted
      · by_cases hw : worker = name
        · simp [hw] at hlisted
        · simpa [Function.update_of_ne hw] using hlisted
      · exact hlisted
  gone := by
    intro worker hnone hmissed
    have hsome := workerOf_share exp state name difficulty now worker
    rw [hnone] at hsome
    simp only [Option.isSome_none, Bool.false_eq_true, false_iff, not_or] at hsome
    apply hi.gone worker (Option.not_isSome_iff_eq_none.mp hsome.2)
    simpa [step, Function.update_of_ne hsome.1] using hmissed
  quiet := by
    intro hempty
    have hin := (workerOf_share exp state name difficulty now name).mpr (.inl rfl)
    simp [workerOf_of_empty hempty] at hin
  begun := fun _ => rfl

theorem workerOf_flush (state : State R) (now : Nat)
    (order : IterOrder (Sigma fun _ : Str => WorkerState R)) (ok : Bool) (worker : Str) :
    workerOf (step exp state (.flush now order ok)) worker =
      (workerOf state worker).bind (flushState exp now worker) :=
  lookup_flush exp state.engine now order ok worker

theorem inv_failed_flush {state : State R} (hi : Inv state) (hempty : empty state = false) (now : Nat)
    (order : IterOrder (Sigma fun _ : Str => WorkerState R)) :
    Inv (step exp state (.flush now order false)) := by
  have hredis : (step exp state (.flush now order false)).engine.redis = state.engine.redis :=
    redis_failed_flush exp state.engine now order
  refine ⟨?_, ?_, ?_, ?_⟩
  · intro worker hsome hlisted
    rw [hredis]
    rw [workerOf_flush] at hsome
    cases hst : workerOf state worker with
    | none => simp [hst] at hsome
    | some st => exact hi.listed worker (by simp [hst]) (by simpa [step, hst] using hlisted)
  · intro worker hnone hmissed
    rw [hredis]
    rw [workerOf_flush] at hnone
    cases hst : workerOf state worker with
    | none => exact hi.gone worker hst (by simpa [step, hst] using hmissed)
    | some st =>
      cases hon : isOnline exp now st <;> simp [step, hst, hon, flushState] at hnone hmissed
  · intro hempty' _ hmissed
    have hnil := entries_eq_nil hempty'
    simp [step, hempty] at hmissed
    exact absurd hnil hmissed
  · exact fun _ => hi.begun (.inl hempty)

theorem inv_good_flush {state : State R} (hi : Inv state) (hempty : empty state = false) (now : Nat)
    (order : IterOrder (Sigma fun _ : Str => WorkerState R)) :
    Inv (step exp state (.flush now order true)) := by
  have hwritten : Written exp now state.engine (step exp state (.flush now order true)).engine :=
    written_flush exp now (entries_ne_nil hempty) order
  refine ⟨?_, ?_, ?_, ?_⟩
  · intro worker hsome hlisted
    rw [hwritten.listed, ← workerOf]
    rw [workerOf_flush] at hsome
    cases hst : workerOf state worker with
    | none => simp [hst] at hsome
    | some st =>
      cases hon : isOnline exp now st with
      | false => simp [hst, hon, flushState] at hsome
      | true =>
        refine ⟨hon, ?_⟩
        by_cases hu : 0 < st.unflushedDifficulty
        · exact .inl hu
        · exact .inr (hi.listed worker (by simp [hst]) (by simpa [step, hst, hon, hu] using hlisted))
  · intro worker hnone hmissed
    rw [hwritten.listed, hwritten.rate, ← workerOf]
    rw [workerOf_flush] at hnone
    cases hst : workerOf state worker with
    | none => exact hi.gone worker hst (by simpa [step, hst] using hmissed)
    | some st =>
      cases hon : isOnline exp now st with
      | false => simp [listedAfter, rateAfter, hon]
      | true => simp [hst, hon, flushState] at hnone
  · intro hempty' _ _
    have hnone : ∀ worker st, state.engine.workerStates.lookup worker = some st →
        isOnline exp now st = false := by
      intro worker st hst
      have hgone := workerOf_of_empty hempty' worker
      rw [workerOf_flush, workerOf, hst, Option.bind_some] at hgone
      exact (flushState_eq_none_iff exp).mp hgone
    have hzero : onlineRate exp now state.engine = 0 := by
      apply Table.total_eq_zero
      intro worker st hst
      simp [hnone worker st hst]
    rw [hwritten.pool, hzero]
  · exact fun _ => hi.begun (.inl hempty)

theorem inv_step {state : State R} (hi : Inv state) (a : Action R) : Inv (step exp state a) := by
  cases a with
  | share worker difficulty now => exact inv_share exp hi worker difficulty now
  | flush now order ok =>
    cases hempty : empty state with
    | false =>
      cases ok with
      | false => exact inv_failed_flush exp hi hempty now order
      | true => exact inv_good_flush exp hi hempty now order
    | true =>
      have hsame : step exp state (.flush now order ok) = state := by
        have hengine := flush_of_empty exp now (entries_eq_nil hempty) order ok
        simp [step, Telemetry.step, hengine, workerOf_of_empty hempty, hempty]
      rw [hsame]
      exact hi

end Recovery

section Examples

open LedgerRuns (rig online_of_recent first_share_online)

noncomputable def joined : State ℝ := step Real.exp (boot ℝ) (.share rig 1 0)

/-- A tick one second after the first share, whose pipeline fails. -/
noncomputable def dropped : State ℝ := step Real.exp joined (.flush 1000 (.asStored _) false)

theorem workerOf_dropped : workerOf dropped rig =
    some { bookShare Real.exp 1 0 (freshState 0) with
      unflushedDifficulty := 0, unflushedOracleShares := [] } := by
  have hfirst : workerOf joined rig = some (bookShare Real.exp 1 0 (freshState 0)) := by
    simp [workerOf, joined, step, boot, Telemetry.step, Telemetry.boot, share, -AList.insert_empty]
  have hcredit : (0 : ℝ) < (bookShare Real.exp 1 0 (freshState 0)).unflushedDifficulty := by
    simp [bookShare, freshState]
  rw [dropped, workerOf_flush, hfirst, Option.bind_some, flushState, if_pos first_share_online, drained,
    if_pos hcredit]

end Examples

end StratumPool.Status
