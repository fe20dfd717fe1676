import StratumPool.Lib.Runs
import StratumPool.Lib.Table
import StratumPool.Json
import Mathlib.Algebra.Order.Field.Basic
import Mathlib.Data.Fin.VecNotation
import Mathlib.Data.Finset.Basic
import Mathlib.Data.Rat.Cast.OfScientific

namespace StratumPool.Telemetry

open Lib StratumPool.Text StratumPool.Json

def kaspaDiffConstant {R : Type} [OfScientific R] : R := 4294967296.0

/-- The number of hashes booked for one share. -/
def work {R : Type} [Mul R] [OfScientific R] (difficulty : R) : R := difficulty * kaspaDiffConstant

structure WorkerState (R : Type) where
  lastShareTs : Nat
  emas : Fin 7 → R
  sharesContributed : R
  unflushedDifficulty : R
  unflushedOracleShares : List (R × Nat)

/-- The Redis keys under which the engine keeps a number. -/
inductive Key where
  | ledgerWallet (wallet : Str)
  | workerShares (worker : Str)
  | workerHashrate (worker : Str)
  | poolHashrate
  deriving DecidableEq

def Key.render : Key → Str
  | .ledgerWallet wallet => lit "perennia:ledger:wallet:" ++ wallet
  | .workerShares worker => lit "worker:" ++ worker ++ lit ":shares"
  | .workerHashrate worker => lit "worker:" ++ worker ++ lit ":hashrate"
  | .poolHashrate => lit "pool:hashrate"

theorem shares_ne_hashrate (a b : Str) : a ++ lit ":shares" ≠ b ++ lit ":hashrate" := by
  intro h
  have hlast := congrArg List.getLast? h
  simp [lit, List.getLast?_append] at hlast

/-- No two of these names are one key in Redis. -/
theorem Key.render_injective : Function.Injective Key.render := by
  intro k j h
  cases k <;> cases j <;> simp [Key.render, lit] at h ⊢
  case ledgerWallet.ledgerWallet => exact h
  case workerShares.workerShares => exact h
  case workerHashrate.workerHashrate => exact h
  case workerShares.workerHashrate => exact shares_ne_hashrate _ _ h
  case workerHashrate.workerShares => exact shares_ne_hashrate _ _ h.symm

structure OracleEvent (R : Type) where
  worker : Str
  difficulty : R
  timestamp : Nat

def OracleEvent.toJson {R : Type} (e : OracleEvent R) : Value R :=
  .object [(lit "difficulty", .number (.float e.difficulty)),
    (lit "timestamp", .number (.posInt e.timestamp)), (lit "worker", .string e.worker)]

structure WorkerRow (R : Type) where
  fullIdentity : Str
  walletAddress : Str
  name : Str
  trackingRate : R
  sharesContributed : R
  blocksFound : Nat
  status : Str
  harmonicMesh : Fin 7 → R

structure Payload (R : Type) where
  totalHashrate : R
  workers : List (WorkerRow R)

/-- The commands a flush puts in its pipeline. The set is `pool:workers`, the
list `perennia:oracle:share_buffer`, the text `perennia:telemetry` and the
channel `pool_telemetry`. -/
inductive Cmd (R : Type) where
  | set (key : Key) (value : R)
  | incrByFloat (key : Key) (increment : R)
  | sadd (worker : Str)
  | srem (worker : Str)
  | rpush (event : OracleEvent R)
  | setTelemetry (payload : Payload R)
  | publish (payload : Payload R)

structure Redis (R : Type) where
  numbers : Key → Option R
  poolWorkers : Finset Str
  shareBuffer : List (OracleEvent R)
  telemetry : Option (Payload R)
  published : List (Payload R)

structure Engine (R : Type) where
  workerStates : Table Str (WorkerState R)
  workerHashrate : Str → Option R
  redis : Redis R

def boot {R : Type} (redis : Redis R) : Engine R := ⟨∅, fun _ => none, redis⟩

variable {R : Type} [Add R] [Sub R] [Mul R] [Div R] [Neg R] [Zero R] [One R] [NatCast R]
  [OfScientific R] [LT R] [DecidableLT R]

def emaWindows : Fin 7 → R := ![1, 3, 8, 21, 55, 144, 377]

def Redis.exec (redis : Redis R) : Cmd R → Redis R
  | .set key value => { redis with numbers := Function.update redis.numbers key (some value) }
  | .incrByFloat key increment =>
      { redis with
        numbers := Function.update redis.numbers key
          (some ((redis.numbers key).getD 0 + increment)) }
  | .sadd worker => { redis with poolWorkers := insert worker redis.poolWorkers }
  | .srem worker => { redis with poolWorkers := redis.poolWorkers.erase worker }
  | .rpush event => { redis with shareBuffer := redis.shareBuffer ++ [event] }
  | .setTelemetry payload => { redis with telemetry := some payload }
  | .publish payload => { redis with published := redis.published ++ [payload] }

def Redis.execAll (redis : Redis R) (pipeline : List (Cmd R)) : Redis R :=
  pipeline.foldl Redis.exec redis

section Share

variable (exp : R → R)

def freshState (now : Nat) : WorkerState R := ⟨now, fun _ => 0, 0, 0, []⟩

/-- Seconds from one millisecond reading to a later one, zero if the clock
went back. -/
def seconds (now since : Nat) : R := ((now - since : Nat) : R) / 1000

def nextEma (dtSec work tau ema : R) : R :=
  let alpha := 1 - exp (-dtSec / tau)
  let contribution := if 0.001 < dtSec then work / dtSec * alpha else work / tau
  ema * (1 - alpha) + contribution

/-- The state of a worker after one more share. -/
def bookShare (difficulty : R) (now : Nat) (state : WorkerState R) : WorkerState R :=
  { lastShareTs := now
    emas := fun i =>
      nextEma exp (seconds now state.lastShareTs) (work difficulty) (emaWindows i) (state.emas i)
    sharesContributed := state.sharesContributed + difficulty
    unflushedDifficulty := state.unflushedDifficulty + difficulty
    unflushedOracleShares := state.unflushedOracleShares ++ [(difficulty, now)] }

def share (engine : Engine R) (fullWorkerName : Str) (difficulty : R) (now : Nat) : Engine R :=
  let state := (engine.workerStates.lookup fullWorkerName).getD (freshState now)
  { engine with
    workerStates := engine.workerStates.insert fullWorkerName (bookShare exp difficulty now state) }

end Share

section Flush

variable (exp : R → R)

def projectedEmas (now : Nat) (state : WorkerState R) : Fin 7 → R := fun i =>
  let alpha := 1 - exp (-(seconds now state.lastShareTs) / emaWindows i)
  let projected := state.emas i * (1 - alpha)
  if 0.000001 < projected then projected else 0

def currentHashrate (now : Nat) (state : WorkerState R) : R := projectedEmas exp now state 2

def isOnline (now : Nat) (state : WorkerState R) : Bool :=
  5000000000 < currentHashrate exp now state ∨ seconds (R := R) now state.lastShareTs < 30

def walletOf (fullWorker : Str) : Str := (splitDots fullWorker).headD []

def workerNameOf (fullWorker : Str) : Str :=
  let parts := splitDots fullWorker
  if 1 < parts.length then List.intercalate ['.'] parts.tail else fullWorker

def creditCmds (fullWorker : Str) (state : WorkerState R) : List (Cmd R) :=
  if 0 < state.unflushedDifficulty then
    [.incrByFloat (.ledgerWallet (walletOf fullWorker)) state.unflushedDifficulty,
      .sadd fullWorker,
      .incrByFloat (.workerShares fullWorker) state.unflushedDifficulty] ++
    state.unflushedOracleShares.map (fun share => .rpush ⟨fullWorker, share.1, share.2⟩)
  else []

def workerCmds (now : Nat) (fullWorker : Str) (state : WorkerState R) : List (Cmd R) :=
  if isOnline exp now state then
    .set (.workerHashrate fullWorker) (currentHashrate exp now state) ::
      creditCmds fullWorker state
  else [.set (.workerHashrate fullWorker) 0, .srem fullWorker]

def drained (state : WorkerState R) : WorkerState R :=
  if 0 < state.unflushedDifficulty then
    { state with unflushedDifficulty := 0, unflushedOracleShares := [] }
  else state

/-- What the flush leaves of a worker: nothing once the worker is offline. -/
def flushState (now : Nat) (_ : Str) (state : WorkerState R) : Option (WorkerState R) :=
  if isOnline exp now state then some (drained state) else none

def workerRow (now : Nat) (fullWorker : Str) (state : WorkerState R) : WorkerRow R :=
  { fullIdentity := fullWorker
    walletAddress := walletOf fullWorker
    name := workerNameOf fullWorker
    trackingRate := currentHashrate exp now state
    sharesContributed := state.sharesContributed
    blocksFound := 0
    status := lit "online"
    harmonicMesh := projectedEmas exp now state }

abbrev Entries (R : Type) := List (Sigma fun _ : Str => WorkerState R)

def payload (now : Nat) (entries : Entries R) : Payload R :=
  let online := entries.filter (fun e => isOnline exp now e.2)
  { totalHashrate := (online.map (fun e => currentHashrate exp now e.2)).sum
    workers := online.map (fun e => workerRow exp now e.1 e.2) }

def pipeline (now : Nat) (entries : Entries R) : List (Cmd R) :=
  let telemetry := payload exp now entries
  entries.flatMap (fun e => workerCmds exp now e.1 e.2) ++
    [.set .poolHashrate telemetry.totalHashrate, .setTelemetry telemetry, .publish telemetry]

def setGauges (now : Nat) (entries : Entries R) (gauge : Str → Option R) : Str → Option R :=
  entries.foldl
    (fun g e =>
      if isOnline exp now e.2 then
        Function.update g e.1 (some (currentHashrate exp now e.2 / 1e12))
      else g)
    gauge

/-- One tick of the flush interval. `order` is the order in which this tick's
loop meets the workers, `ok` whether the pipeline reached Redis. -/
def flush (engine : Engine R) (now : Nat) (order : IterOrder (Sigma fun _ : Str => WorkerState R))
    (ok : Bool) : Engine R :=
  let entries := order.apply engine.workerStates.entries
  if entries.isEmpty then engine
  else
    { workerStates := Table.filterMapVals (flushState exp now) engine.workerStates
      workerHashrate := setGauges exp now entries engine.workerHashrate
      redis := if ok then engine.redis.execAll (pipeline exp now entries) else engine.redis }

end Flush

inductive Action (R : Type) where
  | share (worker : Str) (difficulty : R) (now : Nat)
  | flush (now : Nat) (order : IterOrder (Sigma fun _ : Str => WorkerState R)) (ok : Bool)

def step (exp : R → R) (engine : Engine R) : Action R → Engine R
  | .share worker difficulty now => share exp engine worker difficulty now
  | .flush now order ok => flush exp engine now order ok

end StratumPool.Telemetry
