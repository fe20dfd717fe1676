import StratumPool.Reflection

namespace StratumPool.Delivery

open Lib Lib.Runs StratumPool.Text StratumPool.Json StratumPool.Oracle StratumPool.OracleRuns
  StratumPool.Yield StratumPool.Reflection

section Delivered

variable {R : Type} [Field R] (excess : Excess) (parse : Str → Option (Value R))

/-- Every event is still buffered or in the tables throughout a run if and only
if whatever Postgres does not take was not removed from its buffer before. -/
theorem events_delivered_iff (db : Db R) (as : List (Oracle.Action R)) :
    Always (Oracle.step excess parse) (fun state => NothingLost parse state ∧ Reflects parse db state)
        (boot db) as ↔
      Guarded (Oracle.step excess parse) (TakenOrKept excess parse) (boot db) as := by
  rw [← nothing_lost_iff_taken_or_kept]
  constructor
  · exact fun h pre hp => (h pre hp).1
  · exact fun h pre hp => ⟨h pre hp, tables_reflect_applied excess parse db as pre hp⟩

/-- Where every batch is removed from the buffer, the tables hold each share
event at most once. -/
theorem events_applied_once (db : Db R) {as : List (Oracle.Action R)}
    (hg : Guarded (Oracle.step excess parse) (TrimSucceeds parse) (boot db) as) :
    Always (Oracle.step excess parse)
      (fun state => state.share.applied.Nodup ∧ Reflects parse db state) (boot db) as := by
  intro pre hp
  exact ⟨applied_once_of_trimmed excess parse db hg pre hp,
    tables_reflect_applied excess parse db as pre hp⟩

end Delivered

section Examples

theorem yieldOf_rig :
    yieldOf (sampleParse [rig]) (sampleText rig) = some (lit "kaspa:qz0", 1 * 0.000005) :=
  yieldOf_sample (sampleParse_head rig []) (by decide)

theorem rows_rig : aggregatedRows (sampleParse [rig]) (.asStored _) [sampleText rig] =
    [(lit "kaspa:qz0", 0.0 + 1 * 0.000005)] := by
  simp [aggregatedRows, walletAggregates, yieldOf_rig, IterOrder.asStored]

theorem sharesTake_rig {state : State ℚ} (h : state.share.hand = [(0, sampleText rig)]) :
    sharesTake .cut (sampleParse [rig]) state (.asStored _) none ⟨true, true, true, true⟩ = true := by
  have hfit : RowsFit .cut (aggregatedRows (sampleParse [rig]) (.asStored _) [sampleText rig]) := by
    rw [rows_rig]
    exact ⟨by simp; decide, by simp [storedRows]⟩
  have hne : aggregatedRows (sampleParse [rig]) (.asStored _) [sampleText rig] ≠ [] := by
    simp [rows_rig]
  rw [sharesTake, creditShares, h]
  simp only [List.map_cons, List.map_nil]
  rw [creditYield_of_fit state.db none hne hfit ⟨rfl, rfl, rfl, rfl⟩]
  rfl

/-- A transaction that cannot begin costs the event that was trimmed before. -/
theorem trimmed_event_lost :
    ¬ ∀ parse : Str → Option (Value ℚ), ∀ db : Db ℚ, ∀ as : List (Oracle.Action ℚ),
      Always (Oracle.step .cut parse) (fun state => NothingLost parse state ∧ Reflects parse db state)
        (boot db) as := by
  intro h
  have hlast := (h (sampleParse [rig]) emptyDb [.pushShare (sampleText rig), .readShares true,
    .trimShares true, .applyShares (.asStored _) none ⟨false, true, true, true⟩]).last.1.1
  have hwork : shareWork (sampleParse [rig]) (sampleText rig) = true := by simp [shareWork, yieldOf_rig]
  simp [Oracle.step, boot, HandOff.empty, HandOff.push, readShares, HandOff.read, HandOff.trim,
    applyShares, HandOff.settle, sharesTake, creditShares, creditYield, guard, HandOff.Lossless,
    hwork] at hlast

/-- An event whose removal fails is read and credited again. -/
theorem untrimmed_event_doubled :
    ¬ ∀ parse : Str → Option (Value ℚ), ∀ db : Db ℚ, ∀ as : List (Oracle.Action ℚ),
      (∀ order spot tx, Oracle.Action.applyShares order spot tx ∈ as → Reachable tx) →
      Always (Oracle.step .cut parse) (fun state => state.share.applied.Nodup) (boot db) as := by
  intro h
  have hlast := (h (sampleParse [rig]) emptyDb [.pushShare (sampleText rig), .readShares true,
    .trimShares false, .applyShares (.asStored _) none ⟨true, true, true, true⟩, .readBlocks true,
    .readShares true, .trimShares true, .applyShares (.asStored _) none ⟨true, true, true, true⟩]
    (by
      intro order spot tx htx
      simp at htx
      rw [htx.2.2]
      exact ⟨rfl, rfl, rfl, rfl⟩)).last
  have hwork : (yieldOf (sampleParse [rig]) (sampleText rig)).isSome = true := by simp [yieldOf_rig]
  simp [Oracle.step, boot, HandOff.empty, HandOff.push, readShares, readBlocks, HandOff.read,
    HandOff.trim, applyShares, HandOff.settle, sharesTake_rig, hwork] at hlast

theorem trimmed_event_applied_once :
    Always (Oracle.step .cut (sampleParse [rig]))
      (fun state => state.share.applied.Nodup ∧ Reflects (sampleParse [rig]) emptyDb state)
      (boot emptyDb)
      [.pushShare (sampleText rig), .readShares true, .trimShares true,
        .applyShares (.asStored _) none ⟨true, true, true, true⟩] :=
  events_applied_once .cut (sampleParse [rig]) emptyDb (by simp [TrimSucceeds])

end Examples

end StratumPool.Delivery
