import StratumPool.Telemetry
import Mathlib.Tactic.Ring
import Mathlib.Tactic.Linarith
import Mathlib.Algebra.Order.BigOperators.Group.List

namespace StratumPool.Ledger

open Lib StratumPool.Text StratumPool.Telemetry

variable {R : Type}

section Flush

variable [Sub R] [Mul R] [Div R] [Neg R] [Zero R] [One R] [NatCast R] [OfScientific R] [LT R]
  [DecidableLT R] (exp : R → R)

/-- A flush drops the workers that are offline, and drains the others. -/
theorem flushState_eq_none_iff {now : Nat} {worker : Str} {state : WorkerState R} :
    flushState exp now worker state = none ↔ isOnline exp now state = false := by
  rw [flushState]
  cases isOnline exp now state <;> simp

theorem flushState_eq_some_iff {now : Nat} {worker : Str} {state after : WorkerState R} :
    flushState exp now worker state = some after ↔
      isOnline exp now state = true ∧ drained state = after := by
  rw [flushState]
  cases isOnline exp now state <;> simp

variable [Add R]

theorem lookup_flush (engine : Engine R) (now : Nat)
    (order : IterOrder (Sigma fun _ : Str => WorkerState R)) (ok : Bool) (worker : Str) :
    (flush exp engine now order ok).workerStates.lookup worker =
      (engine.workerStates.lookup worker).bind (flushState exp now worker) := by
  rw [flush]
  simp only [List.isEmpty_iff, order.eq_nil_iff]
  split
  · rename_i hn
    have hl : engine.workerStates.lookup worker = none := by simp [AList.lookup, hn]
    rw [hl]
    rfl
  · exact Table.lookup_filterMapVals _ _ _

end Flush

variable [Field R]

def number (redis : Redis R) (key : Key) : R := (redis.numbers key).getD 0

def ledger (redis : Redis R) (wallet : Str) : R := (redis.numbers (.ledgerWallet wallet)).getD 0

/-- The part of an amount booked for one worker that is owed to the wallet. -/
def owed (wallet worker : Str) (amount : R) : R := if walletOf worker = wallet then amount else 0

def unflushed (wallet : Str) (engine : Engine R) : R :=
  Table.total (fun worker state => owed wallet worker state.unflushedDifficulty)
    engine.workerStates

def received (wallet : Str) : Action R → R
  | .share worker difficulty _ => owed wallet worker difficulty
  | .flush .. => 0

section Pipeline

variable (wallet : Str)

def gain : Cmd R → R
  | .incrByFloat key increment => if key = .ledgerWallet wallet then increment else 0
  | _ => 0

def gainAt (key : Key) : Cmd R → R
  | .incrByFloat k increment => if k = key then increment else 0
  | _ => 0

def SparesLedgers : Cmd R → Prop
  | .set key _ => ∀ w, key ≠ .ledgerWallet w
  | _ => True

theorem number_exec (key : Key) (redis : Redis R) (c : Cmd R)
    (hc : ∀ k v, c = .set k v → k ≠ key) :
    number (redis.exec c) key = number redis key + gainAt key c := by
  cases c with
  | set k value => simp [number, Redis.exec, gainAt, Function.update_of_ne (hc k value rfl).symm]
  | incrByFloat k increment =>
    by_cases hk : k = key
    · subst hk
      simp [number, Redis.exec, gainAt]
    · simp [number, Redis.exec, gainAt, hk, Function.update_of_ne (Ne.symm hk)]
  | sadd worker => simp [number, Redis.exec, gainAt]
  | srem worker => simp [number, Redis.exec, gainAt]
  | rpush event => simp [number, Redis.exec, gainAt]
  | setTelemetry p => simp [number, Redis.exec, gainAt]
  | publish p => simp [number, Redis.exec, gainAt]

theorem number_execAll (key : Key) (redis : Redis R) (cs : List (Cmd R))
    (hcs : ∀ k v, Cmd.set k v ∈ cs → k ≠ key) :
    number (redis.execAll cs) key = number redis key + (cs.map (gainAt key)).sum := by
  induction cs generalizing redis with
  | nil => simp [Redis.execAll]
  | cons c cs ih =>
    have hrest := ih (redis.exec c) (fun k v hm => hcs k v (List.mem_cons_of_mem c hm))
    have hfirst : ∀ k v, c = .set k v → k ≠ key := by
      rintro k v rfl
      exact hcs k v List.mem_cons_self
    rw [number_exec key redis c hfirst] at hrest
    simpa [Redis.execAll, add_assoc] using hrest

theorem ledger_execAll (redis : Redis R) (cs : List (Cmd R)) (hcs : ∀ c ∈ cs, SparesLedgers c) :
    ledger (redis.execAll cs) wallet = ledger redis wallet + (cs.map (gain wallet)).sum :=
  number_execAll (.ledgerWallet wallet) redis cs (fun k v hm => hcs (.set k v) hm wallet)

variable [LinearOrder R] (exp : R → R) (now : Nat)

/-- A worker's commands overwrite no number but its hashrate. -/
theorem set_of_workerCmds {worker : Str} {state : WorkerState R} {key : Key} {value : R}
    (h : .set key value ∈ workerCmds exp now worker state) : key = .workerHashrate worker := by
  rw [workerCmds, creditCmds] at h
  split at h
  · obtain h | h := List.mem_cons.mp h
    · cases h
      rfl
    · split at h <;> simp at h
  · simp only [List.mem_cons, List.not_mem_nil, or_false, reduceCtorEq] at h
    cases h
    rfl

theorem set_of_pipeline {entries : Entries R} {key : Key} {value : R}
    (h : .set key value ∈ pipeline exp now entries) :
    key = .poolHashrate ∨ ∃ worker, key = .workerHashrate worker := by
  simp only [pipeline, List.mem_append, List.mem_flatMap, List.mem_cons, List.not_mem_nil,
    or_false, reduceCtorEq] at h
  obtain ⟨e, _, h⟩ | h := h
  · exact .inr ⟨e.1, set_of_workerCmds exp now h⟩
  · cases h
    exact .inl rfl

theorem pipeline_spares (entries : Entries R) :
    ∀ c ∈ pipeline exp now entries, SparesLedgers c := by
  intro c hc
  cases c with
  | set key value =>
    intro w
    obtain rfl | ⟨worker, rfl⟩ := set_of_pipeline exp now hc <;> simp
  | _ => trivial

/-- What one worker's commands add to the wallet. -/
def credited (worker : Str) (state : WorkerState R) : R :=
  if isOnline exp now state ∧ 0 < state.unflushedDifficulty then
    owed wallet worker state.unflushedDifficulty
  else 0

theorem gain_workerCmds (worker : Str) (state : WorkerState R) :
    ((workerCmds exp now worker state).map (gain wallet)).sum =
      credited wallet exp now worker state := by
  have hpush : ∀ shares : List (R × Nat),
      ((shares.map (fun s => Cmd.rpush ⟨worker, s.1, s.2⟩)).map (gain wallet)).sum = 0 := by
    intro shares
    induction shares with
    | nil => rfl
    | cons s shares ih => simpa [gain] using ih
  rw [workerCmds, creditCmds, credited]
  by_cases hon : isOnline exp now state = true
  · by_cases hu : 0 < state.unflushedDifficulty
    · simp only [hon, hu, if_true, and_self, List.map_cons, List.map_append, List.sum_cons,
        List.sum_append, hpush]
      by_cases hw : walletOf worker = wallet <;> simp [gain, owed, hw]
    · simp [hon, hu, gain]
  · simp [hon, gain]

theorem gain_pipeline (entries : Entries R) :
    ((pipeline exp now entries).map (gain wallet)).sum =
      (entries.map (fun e => credited wallet exp now e.1 e.2)).sum := by
  have hworkers : ∀ es : Entries R,
      ((es.flatMap (fun e => workerCmds exp now e.1 e.2)).map (gain wallet)).sum =
        (es.map (fun e => credited wallet exp now e.1 e.2)).sum := by
    intro es
    induction es with
    | nil => rfl
    | cons e es ih => simp [gain_workerCmds, ih]
  simp [pipeline, hworkers, gain]

end Pipeline

variable [LinearOrder R]

/-- The running sum and the event list of a worker tell the same story. -/
structure Booked (state : WorkerState R) : Prop where
  sum : state.unflushedDifficulty = (state.unflushedOracleShares.map Prod.fst).sum
  pos : ∀ s ∈ state.unflushedOracleShares, 0 < s.1

def AllBooked (engine : Engine R) : Prop :=
  ∀ worker state, engine.workerStates.lookup worker = some state → Booked state

def Positive : Action R → Prop
  | .share _ difficulty _ => 0 < difficulty
  | .flush .. => True

section Booking

variable (exp : R → R)

theorem booked_fresh (now : Nat) : Booked (freshState now : WorkerState R) := ⟨rfl, by simp [freshState]⟩

theorem booked_share {state : WorkerState R} (hb : Booked state) {difficulty : R}
    (hd : 0 < difficulty) (now : Nat) : Booked (bookShare exp difficulty now state) := by
  refine ⟨by simp [bookShare, hb.sum], ?_⟩
  intro s hs
  obtain hs | hs := List.mem_append.mp hs
  · exact hb.pos s hs
  · rw [List.mem_singleton.mp hs]
    exact hd

theorem booked_drained {state : WorkerState R} (hb : Booked state) : Booked (drained state) := by
  rw [drained]
  split
  · exact ⟨rfl, by simp⟩
  · exact hb

/-- A property of single worker states that new workers have, shares keep and
drains keep is kept by every step. -/
theorem states_step {P : WorkerState R → Prop} {engine : Engine R}
    (h : ∀ worker state, engine.workerStates.lookup worker = some state → P state) (a : Action R)
    (hfresh : ∀ now, P (freshState now))
    (hshare : ∀ worker difficulty now, a = .share worker difficulty now →
      ∀ state, P state → P (bookShare exp difficulty now state))
    (hdrained : ∀ state, P state → P (drained state)) :
    ∀ worker state, (step exp engine a).workerStates.lookup worker = some state → P state := by
  intro worker state hl
  cases a with
  | share name difficulty now =>
    simp only [step, share] at hl
    by_cases hw : worker = name
    · subst hw
      rw [AList.lookup_insert] at hl
      cases hl
      apply hshare worker difficulty now rfl
      cases hs : engine.workerStates.lookup worker with
      | none => exact hfresh now
      | some st => exact h worker st hs
    · rw [AList.lookup_insert_ne hw] at hl
      exact h worker state hl
  | flush now order ok =>
    simp only [step, lookup_flush, Option.bind_eq_some_iff] at hl
    obtain ⟨st, hst, hf⟩ := hl
    obtain ⟨-, rfl⟩ := (flushState_eq_some_iff exp).mp hf
    exact hdrained st (h worker st hst)

theorem booked_step {engine : Engine R} (hb : AllBooked engine) (a : Action R) (ha : Positive a) :
    AllBooked (step exp engine a) := by
  apply states_step exp hb a booked_fresh
  · rintro worker difficulty now rfl state hs
    exact booked_share exp hs ha now
  · exact fun _ hs => booked_drained hs

end Booking

section Balance

variable (wallet : Str) (exp : R → R)

/-- What a step takes out of the worker states without adding it to a ledger:
the credit of a worker that is evicted, and every credit when the pipeline does
not reach Redis. -/
def lost (engine : Engine R) : Action R → R
  | .share .. => 0
  | .flush now _ ok =>
      Table.total
        (fun worker state =>
          if isOnline exp now state ∧ ok then 0 else owed wallet worker state.unflushedDifficulty)
        engine.workerStates

def lostOver (engine : Engine R) : List (Action R) → R
  | [] => 0
  | a :: as => lost wallet exp engine a + lostOver (step exp engine a) as

def receivedOver (as : List (Action R)) : R := (as.map (received wallet)).sum

theorem unflushed_share (engine : Engine R) (worker : Str) (difficulty : R) (now : Nat) :
    unflushed wallet (share exp engine worker difficulty now) =
      unflushed wallet engine + owed wallet worker difficulty := by
  apply Table.total_insert_of_gain _ worker _ engine.workerStates _
  cases hs : engine.workerStates.lookup worker with
  | none =>
    by_cases hw : walletOf worker = wallet <;> simp [owed, hw, bookShare, freshState]
  | some st =>
    by_cases hw : walletOf worker = wallet <;> simp [owed, hw, bookShare]

theorem ledger_flush (engine : Engine R) (now : Nat)
    (order : IterOrder (Sigma fun _ : Str => WorkerState R)) :
    ledger (flush exp engine now order true).redis wallet =
      ledger engine.redis wallet +
        Table.total (credited wallet exp now) engine.workerStates := by
  rw [flush]
  simp only [List.isEmpty_iff, order.eq_nil_iff]
  split
  · rename_i hn
    simp [Table.total, hn]
  · simp only [if_true]
    rw [ledger_execAll wallet _ _ (pipeline_spares exp now _), gain_pipeline, Table.sum_order]
    rfl

theorem redis_failed_flush (engine : Engine R) (now : Nat)
    (order : IterOrder (Sigma fun _ : Str => WorkerState R)) :
    (flush exp engine now order false).redis = engine.redis := by
  rw [flush]
  simp only [Bool.false_eq_true, if_false]
  split <;> rfl

/-- A flush leaves the uncredited rest of each worker where the worker stays,
and nothing where it goes. -/
theorem total_flush {M : Type} [AddCommMonoid M] (φ : Str → WorkerState R → M) (engine : Engine R)
    (now : Nat) (order : IterOrder (Sigma fun _ : Str => WorkerState R)) (ok : Bool) :
    Table.total φ (flush exp engine now order ok).workerStates =
      Table.total (fun worker state => (flushState exp now worker state).elim 0 (φ worker))
        engine.workerStates := by
  rw [← Table.total_filterMapVals]
  apply Table.total_ext
  intro worker
  rw [lookup_flush, Table.lookup_filterMapVals]

theorem unflushed_flush (engine : Engine R) (now : Nat)
    (order : IterOrder (Sigma fun _ : Str => WorkerState R)) (ok : Bool) :
    unflushed wallet (flush exp engine now order ok) =
      Table.total
        (fun worker state => (flushState exp now worker state).elim 0
          (fun left => owed wallet worker left.unflushedDifficulty))
        engine.workerStates :=
  total_flush exp _ engine now order ok

variable [IsStrictOrderedRing R]

theorem Booked.nonneg {state : WorkerState R} (hb : Booked state) :
    0 ≤ state.unflushedDifficulty := by
  rw [hb.sum]
  apply List.sum_nonneg
  intro d hd
  obtain ⟨s, hs, rfl⟩ := List.mem_map.mp hd
  exact (hb.pos s hs).le

/-- A worker's credit stays with it, is lost, or goes to the ledger. -/
theorem owed_split {worker : Str} {state : WorkerState R} (hb : Booked state) (now : Nat) (ok : Bool) :
    owed wallet worker state.unflushedDifficulty =
      (flushState exp now worker state).elim 0
          (fun left => owed wallet worker left.unflushedDifficulty) +
        (if isOnline exp now state ∧ ok then 0 else owed wallet worker state.unflushedDifficulty) +
        (if ok then credited wallet exp now worker state else 0) := by
  by_cases hon : isOnline exp now state = true
  · by_cases hu : 0 < state.unflushedDifficulty
    · cases ok <;> simp [flushState, drained, credited, hon, hu, owed]
    · have h0 : state.unflushedDifficulty = 0 := le_antisymm (not_lt.mp hu) hb.nonneg
      cases ok <;> simp [flushState, drained, credited, hon, h0, owed]
  · cases ok <;> simp [flushState, credited, hon]

theorem unflushed_split {engine : Engine R} (hb : AllBooked engine) (now : Nat)
    (order : IterOrder (Sigma fun _ : Str => WorkerState R)) (ok : Bool) :
    unflushed wallet engine =
      unflushed wallet (flush exp engine now order ok) + lost wallet exp engine (.flush now order ok) +
        Table.total (fun worker state => if ok then credited wallet exp now worker state else 0)
          engine.workerStates := by
  rw [unflushed_flush, lost, ← Table.total_add, ← Table.total_add]
  apply Table.total_congr
  intro worker state hl
  exact owed_split wallet exp (hb worker state hl) now ok

/-- Nothing is lost from the books: what a wallet was owed before a step and
what it earns in it is in the ledger afterwards, still unflushed, or lost. -/
theorem step_balance {engine : Engine R} (hb : AllBooked engine) (a : Action R) :
    ledger (step exp engine a).redis wallet + unflushed wallet (step exp engine a) +
        lost wallet exp engine a =
      ledger engine.redis wallet + unflushed wallet engine + received wallet a := by
  cases a with
  | share worker difficulty now =>
    simp only [step, unflushed_share, lost, received]
    simp only [share]
    ring
  | flush now order ok =>
    rw [unflushed_split wallet exp hb now order ok]
    simp only [step, received]
    cases ok with
    | true =>
      rw [ledger_flush]
      simp only [if_true]
      ring
    | false =>
      have hzero : Table.total (fun _ _ => (0 : R)) engine.workerStates = 0 := by simp [Table.total]
      rw [redis_failed_flush]
      simp only [Bool.false_eq_true, if_false, hzero]
      ring

end Balance

end StratumPool.Ledger
