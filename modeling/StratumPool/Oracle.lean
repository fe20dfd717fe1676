import StratumPool.Lib.HandOff
import StratumPool.Lib.Table
import StratumPool.Json
import Mathlib.Algebra.Notation.Defs

namespace StratumPool.Oracle

open Lib StratumPool.Text StratumPool.Json

variable {R : Type}

section Tables

structure YieldReservoir (R : Type) where
  streamingBalanceKas : R
  totalYieldKas : R

structure TaxLedgerEvent (R : Type) where
  walletAddress : Str
  assetTicker : Str
  eventType : Str
  grossProceedsUsd : R
  amountTokens : R
  spotPriceAtExecution : R

structure NetworkBlock (R : Type) where
  blockHash : Str
  workerId : Str
  nonce : Int
  networkDiff : R

/-- The three tables the oracle writes, the first and the last one by their
primary keys. -/
structure Db (R : Type) where
  yieldReservoirs : Table Str (YieldReservoir R)
  taxLedgerEvents : List (TaxLedgerEvent R)
  networkBlocks : Table Str (NetworkBlock R)

/-- What a column does with spaces beyond its length. Postgres cuts them off; a
column that refuses them refuses every text that is too long. -/
inductive Excess where
  | cut
  | refused
  deriving DecidableEq

/-- Whether a `VARCHAR(n)` column takes a text: it counts characters, and no
text holds a NUL. -/
def fitsVarchar (excess : Excess) (n : Nat) (s : Str) : Bool :=
  !s.contains (Char.ofNat 0) &&
    (s.length ≤ n || (excess = .cut && (s.drop n).all (· == ' ')))

def storedVarchar (n : Nat) (s : Str) : Str := s.take n

/-- A row of the aggregated upsert as the table gets it. -/
def storedRow (row : Str × R) : Str × R := (storedVarchar 255 row.1, row.2)

def storedTaxEvent (event : TaxLedgerEvent R) : TaxLedgerEvent R :=
  { event with
    walletAddress := storedVarchar 255 event.walletAddress
    assetTicker := storedVarchar 20 event.assetTicker
    eventType := storedVarchar 50 event.eventType }

def storedBlock (block : NetworkBlock R) : NetworkBlock R :=
  { block with
    blockHash := storedVarchar 64 block.blockHash
    workerId := storedVarchar 255 block.workerId }

variable [Add R] (excess : Excess)

def addYield (old : Option (YieldReservoir R)) (delta : R) : YieldReservoir R :=
  match old with
  | none => ⟨delta, delta⟩
  | some row => ⟨row.streamingBalanceKas + delta, row.totalYieldKas + delta⟩

/-- The aggregated upsert. It fails as a whole when it meets a wallet twice, as
stored, or a wallet that its column does not take. -/
def upsertReservoirs (reservoirs : Table Str (YieldReservoir R)) (rows : List (Str × R)) :
    Option (Table Str (YieldReservoir R)) :=
  let stored := rows.map storedRow
  if (stored.map Prod.fst).Nodup ∧ rows.all (fun row => fitsVarchar excess 255 row.1) then
    some (stored.foldl (fun t row => t.insert row.1 (addYield (t.lookup row.1) row.2)) reservoirs)
  else none

omit [Add R] in
def taxEventFits (reservoirs : Table Str (YieldReservoir R)) (event : TaxLedgerEvent R) : Bool :=
  fitsVarchar excess 255 event.walletAddress && fitsVarchar excess 20 event.assetTicker &&
    fitsVarchar excess 50 event.eventType &&
    (reservoirs.lookup (storedTaxEvent event).walletAddress).isSome

omit [Add R] in
def insertTaxEvents (reservoirs : Table Str (YieldReservoir R)) (ledger : List (TaxLedgerEvent R))
    (events : List (TaxLedgerEvent R)) : Option (List (TaxLedgerEvent R)) :=
  if events.all (taxEventFits excess reservoirs) then some (ledger ++ events.map storedTaxEvent)
  else none

omit [Add R] in
def blockFits (block : NetworkBlock R) : Bool :=
  fitsVarchar excess 64 block.blockHash && fitsVarchar excess 255 block.workerId

end Tables

section Events

variable [Add R] [Mul R] [OfScientific R] [NatCast R] [IntCast R] (parse : Str → Option (Value R))

/-- The wallet and the yield of a buffered share. -/
def yieldOf (rawEvt : Str) : Option (Str × R) :=
  match parse rawEvt with
  | none => none
  | some jsonVal =>
      let worker := (jsonVal.field (lit "worker")).asStr.getD []
      let diff := (jsonVal.field (lit "difficulty")).asF64.getD 0.0
      if worker.isEmpty then none
      else some ((splitDots worker).head?.getD worker, diff * 0.000005)

def walletAggregates (shareEvents : List Str) : Table Str R :=
  shareEvents.foldl
    (fun t rawEvt =>
      match yieldOf parse rawEvt with
      | none => t
      | some (wallet, kasDelta) => t.insert wallet ((t.lookup wallet).getD 0.0 + kasDelta))
    ∅

def blockOf (rawBlock : Str) : Option (NetworkBlock R) :=
  match parse rawBlock with
  | none => none
  | some jsonVal =>
      let blockHash := (jsonVal.field (lit "block_hash")).asStr.getD []
      if blockHash.isEmpty then none
      else some
        { blockHash
          workerId := (jsonVal.field (lit "worker")).asStr.getD (lit "unknown")
          nonce := (jsonVal.field (lit "nonce")).asI64.getD 0
          networkDiff := (jsonVal.field (lit "network_diff")).asF64.getD 0.0 }

end Events

/-- Which calls of one transaction reach Postgres and take effect there. -/
structure Transaction where
  begin : Bool
  upsert : Bool
  taxInsert : Bool
  commit : Bool

section Batches

variable [Add R] [Mul R] [OfScientific R] (excess : Excess)

def taxEvent (kasSpotPrice : R) (row : Str × R) : TaxLedgerEvent R :=
  { walletAddress := row.1
    assetTicker := lit "KAS"
    eventType := lit "YIELD"
    grossProceedsUsd := row.2 * kasSpotPrice
    amountTokens := row.2
    spotPriceAtExecution := kasSpotPrice }

/-- The tables after the transaction over the aggregated rows, if it commits.
`spot` is the price Redis answers with, if it does. -/
def creditYield (db : Db R) (rows : List (Str × R)) (spot : Option R) (tx : Transaction) :
    Option (Db R) := do
  guard (rows ≠ [] ∧ tx.begin ∧ tx.upsert)
  let reservoirs ← upsertReservoirs excess db.yieldReservoirs rows
  guard tx.taxInsert
  let events := rows.map (taxEvent (spot.getD 0.16))
  let ledger ← insertTaxEvents excess reservoirs db.taxLedgerEvents events
  guard tx.commit
  return { db with yieldReservoirs := reservoirs, taxLedgerEvents := ledger }

variable [NatCast R] [IntCast R] (parse : Str → Option (Value R))

abbrev AggregateOrder (R : Type) := IterOrder (Sigma fun _ : Str => R)

def aggregatedRows (order : AggregateOrder R) (shareEvents : List Str) : List (Str × R) :=
  (order.apply (walletAggregates parse shareEvents).entries).map (fun e => (e.1, e.2))

def creditShares (db : Db R) (order : AggregateOrder R) (shareEvents : List Str) (spot : Option R)
    (tx : Transaction) : Option (Db R) :=
  creditYield excess db (aggregatedRows parse order shareEvents) spot tx

omit [Add R] [Mul R] in
/-- One block insert, `ok` telling whether it reaches Postgres. -/
def insertBlock (db : Db R) (rawBlock : Str) (ok : Bool) : Db R :=
  match blockOf parse rawBlock with
  | none => db
  | some block =>
      if ok ∧ blockFits excess block ∧
          (db.networkBlocks.lookup (storedBlock block).blockHash).isNone then
        { db with
          networkBlocks := db.networkBlocks.insert (storedBlock block).blockHash (storedBlock block) }
      else db

omit [Add R] [Mul R] in
def blockTakes (rawBlock : Str) (ok : Bool) : Bool :=
  match blockOf parse rawBlock with
  | none => false
  | some block => ok && blockFits excess block

end Batches

/-- The two halves of a tick. -/
inductive Phase where
  | shares
  | blocks
  deriving DecidableEq

/-- The two Redis buffers with what the daemon has in hand of them, and the
tables. -/
structure State (R : Type) where
  share : HandOff Str
  block : HandOff Str
  phase : Phase
  db : Db R

def boot (db : Db R) : State R := ⟨.empty Str, .empty Str, .shares, db⟩

/-- Pushes by the other tasks and the calls of the daemon, each with its
outcome. Every insert of `applyBlocks` has its own, by the number its element
was pushed under. -/
inductive Action (R : Type) where
  | pushShare (rawEvt : Str)
  | pushBlock (rawBlock : Str)
  | readShares (ok : Bool)
  | trimShares (ok : Bool)
  | applyShares (order : AggregateOrder R) (spot : Option R) (tx : Transaction)
  | readBlocks (ok : Bool)
  | trimBlocks (ok : Bool)
  | applyBlocks (ok : Nat → Bool)

section Daemon

variable [Add R] [Mul R] [OfScientific R] [NatCast R] [IntCast R] (excess : Excess) (parse : Str → Option (Value R))

omit [Add R] [Mul R] [OfScientific R] [NatCast R] [IntCast R] in
/-- `lrange share_buffer 0 500`; an error reads as an empty list. -/
def readShares (state : State R) (ok : Bool) : State R :=
  if state.phase = .shares ∧ state.share.stage = .idle then
    let share := state.share.read 501 ok
    { state with share, phase := if share.stage = .read then .shares else .blocks }
  else state

omit [Add R] [Mul R] [OfScientific R] [NatCast R] [IntCast R] in
/-- `lrange block_buffer 0 50` -/
def readBlocks (state : State R) (ok : Bool) : State R :=
  if state.phase = .blocks ∧ state.block.stage = .idle then
    let block := state.block.read 51 ok
    { state with block, phase := if block.stage = .read then .blocks else .shares }
  else state

def sharesTake (state : State R) (order : AggregateOrder R) (spot : Option R) (tx : Transaction) :
    Bool :=
  (creditShares excess parse state.db order (state.share.hand.map Prod.snd) spot tx).isSome

def applyShares (state : State R) (order : AggregateOrder R) (spot : Option R) (tx : Transaction) :
    State R :=
  if state.share.stage = .trimmed then
    { state with
      share := state.share.settle (fun e =>
        sharesTake excess parse state order spot tx && (yieldOf parse e.2).isSome)
      phase := .blocks
      db := (creditShares excess parse state.db order (state.share.hand.map Prod.snd) spot tx).getD
        state.db }
  else state

omit [Add R] [Mul R] in
def applyBlocks (state : State R) (ok : Nat → Bool) : State R :=
  if state.block.stage = .trimmed then
    { state with
      block := state.block.settle (fun e => blockTakes excess parse e.2 (ok e.1))
      phase := .shares
      db := state.block.hand.foldl (fun db e => insertBlock excess parse db e.2 (ok e.1)) state.db }
  else state

def step (state : State R) : Action R → State R
  | .pushShare rawEvt => { state with share := state.share.push rawEvt }
  | .pushBlock rawBlock => { state with block := state.block.push rawBlock }
  | .readShares ok => readShares state ok
  | .trimShares ok => { state with share := state.share.trim ok }
  | .applyShares order spot tx => applyShares excess parse state order spot tx
  | .readBlocks ok => readBlocks state ok
  | .trimBlocks ok => { state with block := state.block.trim ok }
  | .applyBlocks ok => applyBlocks excess parse state ok

end Daemon

end StratumPool.Oracle
