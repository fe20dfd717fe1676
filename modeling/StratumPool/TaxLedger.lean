import StratumPool.Reflection

namespace StratumPool.TaxLedger

open Lib Lib.Runs StratumPool.Text StratumPool.Json StratumPool.Oracle StratumPool.Yield
  StratumPool.Reflection

variable {R : Type} [Field R]

def yieldRows (db : Db R) (w : Str) : List (TaxLedgerEvent R) :=
  db.taxLedgerEvents.filter (fun event => event.walletAddress == w && event.eventType == lit "YIELD")

/-- What the two tables owe each other. A missing reservoir holds nothing. -/
structure Consistent (db : Db R) : Prop where
  balances : ∀ w, column YieldReservoir.totalYieldKas db w =
    column YieldReservoir.streamingBalanceKas db w
  taxed : ∀ w, column YieldReservoir.totalYieldKas db w =
    ((yieldRows db w).map TaxLedgerEvent.amountTokens).sum
  referenced : ∀ event ∈ db.taxLedgerEvents,
    (db.yieldReservoirs.lookup event.walletAddress).isSome = true
  gross : ∀ event ∈ db.taxLedgerEvents,
    event.grossProceedsUsd = event.amountTokens * event.spotPriceAtExecution

section Credit

theorem yieldRows_credited (db : Db R) (rows : List (Str × R)) (spot : Option R) (w : Str) :
    ((yieldRows (credited db rows spot) w).map TaxLedgerEvent.amountTokens).sum =
      ((yieldRows db w).map TaxLedgerEvent.amountTokens).sum +
        (rows.map (fun row => storedFor w row.1 row.2)).sum := by
  have hyield : ∀ event ∈ (storedRows rows).map (taxEvent (spot.getD 0.16)),
      (event.walletAddress == w && event.eventType == lit "YIELD") = (event.walletAddress == w) := by
    intro event he
    obtain ⟨row, _, rfl⟩ := List.mem_map.mp he
    simp [taxEvent]
  rw [yieldRows, credited, List.filter_append, List.map_append, List.sum_append,
    List.filter_congr hyield, taxed_rows, sum_storedRows]
  rfl

/-- An upsert takes no reservoir away. -/
theorem reservoir_stays (rows : List (Str × R)) (t : Table Str (YieldReservoir R)) {w : Str}
    (h : (t.lookup w).isSome = true) : ((rows.foldl upsertRow t).lookup w).isSome = true := by
  induction rows generalizing t with
  | nil => exact h
  | cons row rows ih =>
    apply ih
    by_cases hw : w = row.1
    · rw [hw, upsertRow, AList.lookup_insert]
      rfl
    · rwa [upsertRow, AList.lookup_insert_ne hw]

theorem reservoir_made {rows : List (Str × R)} (hn : (rows.map Prod.fst).Nodup)
    (t : Table Str (YieldReservoir R)) {row : Str × R} (hr : row ∈ rows) :
    ((rows.foldl upsertRow t).lookup row.1).isSome = true := by
  have hlookup := lookup_fold_of_mem hn (show (row.1, row.2) ∈ rows from hr) t
  rw [hlookup]
  rfl

theorem consistent_credited {db : Db R} (h : Consistent db) {rows : List (Str × R)}
    (hn : ((storedRows rows).map Prod.fst).Nodup) (spot : Option R) :
    Consistent (credited db rows spot) := by
  constructor
  · intro w
    rw [column_credited totalYield_accrues, column_credited streamingBalance_accrues, h.balances]
  · intro w
    rw [column_credited totalYield_accrues, yieldRows_credited, h.taxed]
  · intro event he
    obtain he | he := List.mem_append.mp he
    · exact reservoir_stays (storedRows rows) _ (h.referenced event he)
    · obtain ⟨row, hr, rfl⟩ := List.mem_map.mp he
      exact reservoir_made hn _ hr
  · intro event he
    obtain he | he := List.mem_append.mp he
    · exact h.gross event he
    · obtain ⟨row, _, rfl⟩ := List.mem_map.mp he
      rfl

end Credit

section Runs

variable (excess : Excess) (parse : Str → Option (Value R))

theorem consistent_creditShares {db : Db R} (h : Consistent db) (order : AggregateOrder R)
    (shareEvents : List Str) (spot : Option R) (tx : Transaction) :
    Consistent ((creditShares excess parse db order shareEvents spot tx).getD db) := by
  cases hc : creditShares excess parse db order shareEvents spot tx with
  | none => exact h
  | some after =>
    obtain ⟨_, hfit, _, rfl⟩ := creditYield_some hc
    exact consistent_credited h hfit.apart spot

theorem consistent_of_same {db after : Db R} (h : Consistent db)
    (hy : after.yieldReservoirs = db.yieldReservoirs)
    (ht : after.taxLedgerEvents = db.taxLedgerEvents) : Consistent after := by
  obtain ⟨yields, taxes, blocks⟩ := after
  obtain rfl : yields = db.yieldReservoirs := hy
  obtain rfl : taxes = db.taxLedgerEvents := ht
  exact ⟨h.balances, h.taxed, h.referenced, h.gross⟩

theorem consistent_step {state : Oracle.State R} (h : Consistent state.db) (a : Oracle.Action R) :
    Consistent (Oracle.step excess parse state a).db := by
  cases a with
  | applyShares order spot tx =>
    simp only [Oracle.step, applyShares]
    split
    · exact consistent_creditShares excess parse h order _ spot tx
    · exact h
  | applyBlocks ok =>
    simp only [Oracle.step, applyBlocks]
    split
    · obtain ⟨hy, ht⟩ := insertBlocks_yields excess parse ok state.block.hand state.db
      exact consistent_of_same h hy ht
    · exact h
  | pushShare rawEvt => exact h
  | pushBlock rawBlock => exact h
  | readShares ok =>
    simp only [Oracle.step, readShares]
    split <;> exact h
  | readBlocks ok =>
    simp only [Oracle.step, readBlocks]
    split <;> exact h
  | trimShares ok => exact h
  | trimBlocks ok => exact h

/-- Whatever the batches are and whichever calls fail, the yields and the tax
rows agree in every state of a run, and no batch names a wallet twice. -/
theorem tax_ledger_agrees {db : Db R} (h : Consistent db) (as : List (Oracle.Action R)) :
    Always (Oracle.step excess parse) (fun state => Consistent state.db) (Oracle.boot db) as ∧
      ∀ order shareEvents, ((aggregatedRows parse order shareEvents).map Prod.fst).Nodup := by
  refine ⟨?_, aggregatedRows_nodup parse⟩
  exact always_of_invariant (I := fun state : Oracle.State R => Consistent state.db) h
    (fun _ a hc => consistent_step excess parse hc a) as

end Runs

section Examples

theorem consistent_empty : Consistent emptyDb := by
  constructor
  · intro w
    rfl
  · intro w
    rfl
  · intro event he
    cases he
  · intro event he
    cases he

/-- A batch whose commit fails and one that is taken. -/
def retriedRun : List (Oracle.Action ℚ) :=
  [.pushShare (sampleText rig), .readShares true, .trimShares true,
    .applyShares (.asStored _) (some 0.2) ⟨true, true, true, false⟩,
    .readBlocks true, .pushShare (sampleText rig), .readShares true, .trimShares true,
    .applyShares (.asStored _) none ⟨true, true, true, true⟩]

theorem tax_ledger_agrees_retried :
    Always (Oracle.step .cut (sampleParse [rig])) (fun state => Consistent state.db)
        (Oracle.boot emptyDb) retriedRun ∧
      ∀ order shareEvents,
        ((aggregatedRows (sampleParse [rig]) order shareEvents).map Prod.fst).Nodup :=
  tax_ledger_agrees .cut (sampleParse [rig]) consistent_empty retriedRun

end Examples

end StratumPool.TaxLedger
