import StratumPool.OracleRuns
import StratumPool.Yield
import Mathlib.Algebra.Field.Basic
import Mathlib.Data.Rat.Cast.OfScientific
import Mathlib.Tactic.NormNum.OfScientific

namespace StratumPool.Reflection

open Lib Lib.Runs StratumPool.Text StratumPool.Json StratumPool.Oracle StratumPool.Yield

variable {R : Type} [Field R] (excess : Excess) (parse : Str → Option (Value R))

section Columns

/-- One of the two sums kept for a wallet. -/
def column (col : YieldReservoir R → R) (db : Db R) (w : Str) : R :=
  (db.yieldReservoirs.lookup w).elim 0 col

def Accrues (col : YieldReservoir R → R) : Prop :=
  ∀ old delta, col (addYield old delta) = old.elim 0 col + delta

theorem totalYield_accrues : Accrues (YieldReservoir.totalYieldKas : YieldReservoir R → R) := by
  intro old delta
  cases old <;> simp [addYield]

theorem streamingBalance_accrues :
    Accrues (YieldReservoir.streamingBalanceKas : YieldReservoir R → R) := by
  intro old delta
  cases old <;> simp [addYield]

def taxedYield (db : Db R) (w : Str) : R :=
  ((db.taxLedgerEvents.filter (fun event => event.walletAddress == w)).map
    TaxLedgerEvent.amountTokens).sum

def rowFor (w : Str) (wallet : Str) (kasDelta : R) : R := if wallet = w then kasDelta else 0

def storedFor (w : Str) (wallet : Str) (kasDelta : R) : R :=
  rowFor w (storedVarchar 255 wallet) kasDelta

/-- The yield one buffered event brings the wallet, under the name that Postgres
stores. -/
def deltaTo (w : Str) (rawEvt : Str) : R :=
  (yieldOf parse rawEvt).elim 0 (fun row => storedFor w row.1 row.2)

theorem column_fold {col : YieldReservoir R → R} (hc : Accrues col) (w : Str)
    (rows : List (Str × R)) (t : Table Str (YieldReservoir R)) :
    ((rows.foldl upsertRow t).lookup w).elim 0 col =
      (t.lookup w).elim 0 col + (rows.map (fun row => rowFor w row.1 row.2)).sum := by
  induction rows generalizing t with
  | nil => simp
  | cons row rows ih =>
    rw [List.foldl_cons, ih, List.map_cons, List.sum_cons, ← add_assoc]
    congr 1
    by_cases hw : row.1 = w
    · subst hw
      simpa [upsertRow, rowFor] using hc _ _
    · simp [upsertRow, AList.lookup_insert_ne (Ne.symm hw), rowFor, hw]

theorem taxed_rows (w : Str) (price : R) (rows : List (Str × R)) :
    (((rows.map (taxEvent price)).filter (fun event => event.walletAddress == w)).map
      TaxLedgerEvent.amountTokens).sum = (rows.map (fun row => rowFor w row.1 row.2)).sum := by
  induction rows with
  | nil => rfl
  | cons row rows ih =>
    by_cases hw : row.1 = w <;> simp [taxEvent, rowFor, hw] at ih ⊢ <;> exact ih

/-- No row has a name that is too long for its column. -/
theorem storedFor_of_long {w : Str} (h : 255 < w.length) (wallet : Str) (kasDelta : R) :
    storedFor w wallet kasDelta = 0 := by
  refine if_neg (fun heq => ?_)
  have hlen := congrArg List.length heq
  rw [storedVarchar, List.length_take] at hlen
  omega

theorem deltaTo_of_long {w : Str} (h : 255 < w.length) (rawEvt : Str) : deltaTo parse w rawEvt = 0 := by
  rw [deltaTo]
  cases yieldOf parse rawEvt with
  | none => rfl
  | some row => exact storedFor_of_long h row.1 row.2

theorem sum_storedRows (w : Str) (rows : List (Str × R)) :
    ((storedRows rows).map (fun row => rowFor w row.1 row.2)).sum =
      (rows.map (fun row => storedFor w row.1 row.2)).sum := by
  rw [storedRows, List.map_map]
  rfl

theorem column_credited {col : YieldReservoir R → R} (hc : Accrues col) (db : Db R)
    (rows : List (Str × R)) (spot : Option R) (w : Str) :
    column col (credited db rows spot) w =
      column col db w + (rows.map (fun row => storedFor w row.1 row.2)).sum := by
  rw [← sum_storedRows]
  exact column_fold hc w (storedRows rows) db.yieldReservoirs

theorem taxed_credited (db : Db R) (rows : List (Str × R)) (spot : Option R) (w : Str) :
    taxedYield (credited db rows spot) w =
      taxedYield db w + (rows.map (fun row => storedFor w row.1 row.2)).sum := by
  simp only [taxedYield, credited, List.filter_append, List.map_append, List.sum_append, taxed_rows,
    sum_storedRows]

theorem zero_literal : (0.0 : R) = 0 := by
  have hq : (0.0 : ℚ) = 0 := by norm_num
  rw [← Rat.cast_ofScientific, hq, Rat.cast_zero]

theorem total_aggregates (w : Str) (shareEvents : List Str) :
    Table.total (storedFor w) (walletAggregates parse shareEvents) =
      (shareEvents.map (deltaTo parse w)).sum := by
  induction shareEvents using List.reverseRecOn with
  | nil => rfl
  | append_singleton events rawEvt ih =>
    rw [List.map_append, List.sum_append, ← ih, walletAggregates, List.foldl_append]
    simp only [List.foldl_cons, List.foldl_nil, List.map_cons, List.map_nil, List.sum_cons,
      List.sum_nil, add_zero]
    cases hy : yieldOf parse rawEvt with
    | none => simp [deltaTo, hy, walletAggregates]
    | some row =>
      refine (Table.total_insert_of_gain _ row.1 _ _ (deltaTo parse w rawEvt) ?_)
      by_cases hw : storedVarchar 255 row.1 = w
      · cases hl : (events.foldl _ ∅ : Table Str R).lookup row.1 <;>
          simp [deltaTo, hy, storedFor, rowFor, hw, zero_literal]
      · cases hl : (events.foldl _ ∅ : Table Str R).lookup row.1 <;>
          simp [deltaTo, hy, storedFor, rowFor, hw]

theorem sum_aggregatedRows (order : AggregateOrder R) (w : Str) (shareEvents : List Str) :
    ((aggregatedRows parse order shareEvents).map (fun row => storedFor w row.1 row.2)).sum =
      (shareEvents.map (deltaTo parse w)).sum := by
  rw [← total_aggregates, aggregatedRows, List.map_map]
  exact Table.sum_order (fun e => storedFor w e.1 e.2) order _

end Columns

section Runs

/-- A sum that grows by what a credited batch brings the wallet grows by it in a
tick whose transaction commits. -/
theorem creditShares_gain {view : Db R → Str → R}
    (hview : ∀ db rows spot w, view (credited db rows spot) w =
      view db w + (rows.map (fun row => storedFor w row.1 row.2)).sum)
    (db : Db R) (order : AggregateOrder R) (shareEvents : List Str) (spot : Option R)
    (tx : Transaction) (w : Str) :
    view ((creditShares excess parse db order shareEvents spot tx).getD db) w =
      view db w +
        if (creditShares excess parse db order shareEvents spot tx).isSome then
          (shareEvents.map (deltaTo parse w)).sum
        else 0 := by
  cases h : creditShares excess parse db order shareEvents spot tx with
  | none => simp
  | some after =>
    obtain ⟨_, _, _, rfl⟩ := creditYield_some h
    simp [hview, sum_aggregatedRows]

theorem creditShares_blocks (db : Db R) (order : AggregateOrder R) (shareEvents : List Str)
    (spot : Option R) (tx : Transaction) :
    ((creditShares excess parse db order shareEvents spot tx).getD db).networkBlocks =
      db.networkBlocks := by
  cases h : creditShares excess parse db order shareEvents spot tx with
  | none => rfl
  | some after =>
    obtain ⟨_, _, _, rfl⟩ := creditYield_some h
    rfl

/-- The events that take effect with a batch bring what the whole batch does. -/
theorem sum_took (w : Str) (takes : Bool) (hand : List (Nat × Str)) :
    ((hand.filter (fun e => takes && (yieldOf parse e.2).isSome)).map
        (fun e => deltaTo parse w e.2)).sum =
      if takes then ((hand.map Prod.snd).map (deltaTo parse w)).sum else 0 := by
  cases takes with
  | false => simp
  | true =>
    induction hand with
    | nil => rfl
    | cons e hand ih =>
      cases hy : yieldOf parse e.2 with
      | none =>
        have hd : deltaTo parse w e.2 = 0 := by simp [deltaTo, hy]
        simpa [hy, hd] using ih
      | some row => simpa [hy] using ih

/-- The tables account for the events that have been applied, each as often as
it has been. -/
structure Reflects (db : Db R) (state : State R) : Prop where
  yields : ∀ col : YieldReservoir R → R, Accrues col → ∀ w,
    column col state.db w =
      column col db w + (state.share.applied.map (fun e => deltaTo parse w e.2)).sum
  taxed : ∀ w, taxedYield state.db w =
    taxedYield db w + (state.share.applied.map (fun e => deltaTo parse w e.2)).sum
  blocks : ∀ e ∈ state.block.applied, ∀ block, blockOf parse e.2 = some block →
    (state.db.networkBlocks.lookup (storedBlock block).blockHash).isSome = true

theorem insertBlock_keeps (db : Db R) (rawBlock : Str) (ok : Bool) {hash : Str}
    (h : (db.networkBlocks.lookup hash).isSome = true) :
    ((insertBlock excess parse db rawBlock ok).networkBlocks.lookup hash).isSome = true := by
  rw [insertBlock]
  split
  · exact h
  · split_ifs
    · rename_i block _ _
      by_cases hh : hash = (storedBlock block).blockHash
      · rw [hh, AList.lookup_insert]
        rfl
      · rwa [AList.lookup_insert_ne hh]
    · exact h

theorem insertBlock_takes (db : Db R) {rawBlock : Str} {ok : Bool} {block : NetworkBlock R}
    (hb : blockOf parse rawBlock = some block) (ht : blockTakes excess parse rawBlock ok = true) :
    ((insertBlock excess parse db rawBlock ok).networkBlocks.lookup
      (storedBlock block).blockHash).isSome = true := by
  simp only [blockTakes, hb, Bool.and_eq_true] at ht
  simp only [insertBlock, hb, ht.1, ht.2, true_and]
  split
  · rw [AList.lookup_insert]
    rfl
  · rename_i hnone
    exact Option.isSome_iff_ne_none.mpr (by simpa using hnone)

theorem insertBlocks_reflect (ok : Nat → Bool) (hand : List (Nat × Str)) (db : Db R) {hash : Str}
    (h : (db.networkBlocks.lookup hash).isSome = true ∨
      ∃ e ∈ hand, blockTakes excess parse e.2 (ok e.1) = true ∧
        ∃ block, blockOf parse e.2 = some block ∧ (storedBlock block).blockHash = hash) :
    ((hand.foldl (fun db e => insertBlock excess parse db e.2 (ok e.1)) db).networkBlocks.lookup
      hash).isSome = true := by
  induction hand generalizing db with
  | nil => simpa using h
  | cons e hand ih =>
    apply ih _
    obtain hd | ⟨f, hf, ht, block, hb, hh⟩ := h
    · exact .inl (insertBlock_keeps excess parse db e.2 (ok e.1) hd)
    · obtain rfl | hf := List.mem_cons.mp hf
      · exact .inl (hh ▸ insertBlock_takes excess parse db hb ht)
      · exact .inr ⟨f, hf, ht, block, hb, hh⟩

theorem reflects_applyShares {db : Db R} {state : State R} (hr : Reflects parse db state)
    (order : AggregateOrder R) (spot : Option R) (tx : Transaction) :
    Reflects parse db (applyShares excess parse state order spot tx) := by
  rw [applyShares]
  split
  · rename_i hs
    refine ⟨?_, ?_, ?_⟩
    · intro col hcol w
      rw [HandOff.applied_settle hs, List.map_append, List.sum_append, sum_took,
        creditShares_gain excess parse (column_credited hcol), hr.yields col hcol w, add_assoc]
      rfl
    · intro w
      rw [HandOff.applied_settle hs, List.map_append, List.sum_append, sum_took,
        creditShares_gain excess parse taxed_credited, hr.taxed w, add_assoc]
      rfl
    · simpa only [creditShares_blocks] using hr.blocks
  · exact hr

theorem reflects_applyBlocks {db : Db R} {state : State R} (hr : Reflects parse db state)
    (ok : Nat → Bool) : Reflects parse db (applyBlocks excess parse state ok) := by
  rw [applyBlocks]
  split
  · rename_i hs
    obtain ⟨hyields, htaxes⟩ := insertBlocks_yields excess parse ok state.block.hand state.db
    refine ⟨?_, ?_, ?_⟩
    · intro col hcol w
      rw [← hr.yields col hcol w]
      simp only [column, hyields]
    · intro w
      rw [← hr.taxed w]
      simp only [taxedYield, htaxes]
    · intro e he block hb
      rw [HandOff.applied_settle hs] at he
      obtain he | he := List.mem_append.mp he
      · exact insertBlocks_reflect excess parse ok _ _ (.inl (hr.blocks e he block hb))
      · obtain ⟨hm, ht⟩ := List.mem_filter.mp he
        exact insertBlocks_reflect excess parse ok _ _ (.inr ⟨e, hm, ht, block, hb, rfl⟩)
  · exact hr

theorem reflects_step {db : Db R} {state : State R} (hr : Reflects parse db state)
    (a : Oracle.Action R) : Reflects parse db (Oracle.step excess parse state a) := by
  cases a with
  | applyShares order spot tx => exact reflects_applyShares excess parse hr order spot tx
  | applyBlocks ok => exact reflects_applyBlocks excess parse hr ok
  | pushShare rawEvt => exact ⟨hr.yields, hr.taxed, hr.blocks⟩
  | pushBlock rawBlock => exact ⟨hr.yields, hr.taxed, hr.blocks⟩
  | readShares ok =>
    simp only [Oracle.step, readShares, HandOff.read]
    split_ifs <;> exact ⟨hr.yields, hr.taxed, hr.blocks⟩
  | readBlocks ok =>
    simp only [Oracle.step, readBlocks, HandOff.read]
    split_ifs <;> exact ⟨hr.yields, hr.taxed, hr.blocks⟩
  | trimShares ok =>
    simp only [Oracle.step, HandOff.trim]
    split_ifs <;> exact ⟨hr.yields, hr.taxed, hr.blocks⟩
  | trimBlocks ok =>
    simp only [Oracle.step, HandOff.trim]
    split_ifs <;> exact ⟨hr.yields, hr.taxed, hr.blocks⟩

/-- In every state of a run the yield and the taxed amount of a wallet are what
the applied events add up to, and every applied block has its row. -/
theorem tables_reflect_applied (db : Db R) (as : List (Oracle.Action R)) :
    Always (Oracle.step excess parse) (Reflects parse db) (boot db) as := by
  refine always_of_invariant ?_ (fun _ a hr => reflects_step excess parse hr a) as
  exact ⟨fun col _ w => by simp [boot, HandOff.empty], fun w => by simp [boot, HandOff.empty],
    by simp [boot, HandOff.empty]⟩

end Runs

end StratumPool.Reflection
