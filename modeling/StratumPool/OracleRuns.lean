import StratumPool.Yield

namespace StratumPool.OracleRuns

open Lib Lib.Runs Lib.HandOff StratumPool.Text StratumPool.Json StratumPool.Oracle
  StratumPool.Yield

variable {R : Type} [Add R] [Mul R] [OfScientific R] [NatCast R] [IntCast R]
  (excess : Excess) (parse : Str → Option (Value R))

section Refinement

def shareTook (state : State R) (order : AggregateOrder R) (spot : Option R) (tx : Transaction)
    (e : Nat × Str) : Bool :=
  sharesTake excess parse state order spot tx && (yieldOf parse e.2).isSome

/-- What a step does to the share buffer. -/
def shareAct (state : State R) : Oracle.Action R → Option (HandOff.Act Str)
  | .pushShare rawEvt => some (.push rawEvt)
  | .readShares ok => if state.phase = .shares then some (.read 501 ok) else none
  | .trimShares ok => some (.trim ok)
  | .applyShares order spot tx => some (.settle (shareTook excess parse state order spot tx))
  | _ => none

omit [Add R] [Mul R] in
def blockAct (state : State R) : Oracle.Action R → Option (HandOff.Act Str)
  | .pushBlock rawBlock => some (.push rawBlock)
  | .readBlocks ok => if state.phase = .blocks then some (.read 51 ok) else none
  | .trimBlocks ok => some (.trim ok)
  | .applyBlocks ok => some (.settle (fun e => blockTakes excess parse e.2 (ok e.1)))
  | _ => none

omit [Add R] [Mul R] [OfScientific R] [NatCast R] [IntCast R] in
theorem read_of_busy {h : HandOff Str} (hs : h.stage ≠ .idle) (limit : Nat) (ok : Bool) :
    h.read limit ok = h := by
  simp [HandOff.read, hs]

omit [Add R] [Mul R] [OfScientific R] [NatCast R] [IntCast R] in
theorem settle_of_not_trimmed {h : HandOff Str} (hs : h.stage ≠ .trimmed)
    (took : Nat × Str → Bool) : h.settle took = h := by
  simp [HandOff.settle, hs]

theorem share_refines :
    Refines (Oracle.step excess parse) HandOff.step State.share (shareAct excess parse) := by
  intro state a
  cases a with
  | pushShare rawEvt => rfl
  | trimShares ok => rfl
  | pushBlock rawBlock => rfl
  | trimBlocks ok => rfl
  | readShares ok =>
    simp only [Oracle.step, readShares, shareAct]
    by_cases hp : state.phase = .shares
    · by_cases hs : state.share.stage = .idle
      · simp [hp, hs, HandOff.step]
      · simp [hp, hs, HandOff.step, read_of_busy hs]
    · simp [hp]
  | applyShares order spot tx =>
    simp only [Oracle.step, applyShares, shareAct, Option.elim_some, HandOff.step]
    by_cases hs : state.share.stage = .trimmed
    · simp only [hs, if_true]
      rfl
    · simp only [hs, if_false, settle_of_not_trimmed hs]
  | readBlocks ok =>
    simp only [Oracle.step, readBlocks, shareAct]
    split <;> rfl
  | applyBlocks ok =>
    simp only [Oracle.step, applyBlocks, shareAct]
    split <;> rfl

theorem block_refines :
    Refines (Oracle.step excess parse) HandOff.step State.block (blockAct excess parse) := by
  intro state a
  cases a with
  | pushShare rawEvt => rfl
  | trimShares ok => rfl
  | pushBlock rawBlock => rfl
  | trimBlocks ok => rfl
  | readBlocks ok =>
    simp only [Oracle.step, readBlocks, blockAct]
    by_cases hp : state.phase = .blocks
    · by_cases hs : state.block.stage = .idle
      · simp [hp, hs, HandOff.step]
      · simp [hp, hs, HandOff.step, read_of_busy hs]
    · simp [hp]
  | applyBlocks ok =>
    simp only [Oracle.step, applyBlocks, blockAct, Option.elim_some, HandOff.step]
    by_cases hs : state.block.stage = .trimmed
    · simp only [hs, if_true]
    · simp only [hs, if_false, settle_of_not_trimmed hs]
  | readShares ok =>
    simp only [Oracle.step, readShares, blockAct]
    split <;> rfl
  | applyShares order spot tx =>
    simp only [Oracle.step, applyShares, blockAct]
    split <;> rfl

end Refinement

section Losses

omit [Add R] in
def shareWork (rawEvt : Str) : Bool := (yieldOf parse rawEvt).isSome

omit [Add R] [Mul R] in
def blockWork (rawBlock : Str) : Bool := (blockOf parse rawBlock).isSome

/-- Between two reads every event that asks for work in Postgres is still
buffered or has taken effect there. -/
def NothingLost (state : State R) : Prop :=
  Lossless (shareWork parse) state.share ∧ Lossless (blockWork parse) state.block

/-- Postgres takes the work that is attempted, or its events are still buffered
or took effect in an earlier tick. -/
def TakenOrKept (state : State R) : Oracle.Action R → Prop
  | .applyShares _ _ tx => state.share.stage = .trimmed →
      ∀ e ∈ state.share.hand, shareWork parse e.2 = true →
        (Reachable tx ∧ Fits parse excess (state.share.hand.map Prod.snd)) ∨
          e ∈ state.share.buffer ∨ e ∈ state.share.applied
  | .applyBlocks ok => state.block.stage = .trimmed →
      ∀ e ∈ state.block.hand, ∀ block, blockOf parse e.2 = some block →
        (ok e.1 = true ∧ blockFits excess block = true) ∨
          e ∈ state.block.buffer ∨ e ∈ state.block.applied
  | _ => True

theorem shareTook_iff (state : State R) (order : AggregateOrder R) (spot : Option R)
    (tx : Transaction) {e : Nat × Str} (he : e ∈ state.share.hand)
    (hw : shareWork parse e.2 = true) :
    shareTook excess parse state order spot tx e = true ↔
      Reachable tx ∧ Fits parse excess (state.share.hand.map Prod.snd) := by
  have hsome := creditShares_isSome excess parse order state.db (state.share.hand.map Prod.snd) spot tx
  have hex : ∃ rawEvt ∈ state.share.hand.map Prod.snd, (yieldOf parse rawEvt).isSome = true :=
    ⟨e.2, List.mem_map_of_mem he, hw⟩
  rw [shareTook, Bool.and_eq_true, sharesTake, hsome]
  simp only [hex, and_true]
  exact and_iff_left hw

omit [Add R] [Mul R] in
theorem blockTakes_iff {rawBlock : Str} {block : NetworkBlock R}
    (hb : blockOf parse rawBlock = some block) (ok : Bool) :
    blockTakes excess parse rawBlock ok = true ↔ ok = true ∧ blockFits excess block = true := by
  simp [blockTakes, hb]

theorem takenOrKept_iff_covered (state : State R) (a : Oracle.Action R) :
    TakenOrKept excess parse state a ↔
      (∀ b, shareAct excess parse state a = some b → Covered (shareWork parse) state.share b) ∧
        ∀ b, blockAct excess parse state a = some b → Covered (blockWork parse) state.block b := by
  cases a with
  | applyShares order spot tx =>
    simp only [TakenOrKept, shareAct, blockAct, Option.some.injEq, forall_eq', Covered,
      reduceCtorEq, false_implies, implies_true, and_true]
    refine forall_congr' (fun _ => forall_congr' (fun e => forall_congr' (fun he =>
      forall_congr' (fun hw => ?_))))
    rw [shareTook_iff excess parse state order spot tx he hw]
  | applyBlocks ok =>
    simp only [TakenOrKept, shareAct, blockAct, Option.some.injEq, forall_eq', Covered,
      reduceCtorEq, false_implies, implies_true, true_and, blockWork, Option.isSome_iff_exists,
      forall_exists_index]
    refine forall_congr' (fun _ => forall_congr' (fun e => forall_congr' (fun _ =>
      forall_congr' (fun block => forall_congr' (fun hb => ?_)))))
    rw [blockTakes_iff excess parse hb]
  | pushShare rawEvt => simp [TakenOrKept, shareAct, blockAct, Covered]
  | pushBlock rawBlock => simp [TakenOrKept, shareAct, blockAct, Covered]
  | readShares ok =>
    by_cases hp : state.phase = .shares <;> simp [TakenOrKept, shareAct, blockAct, Covered, hp]
  | readBlocks ok =>
    by_cases hp : state.phase = .blocks <;> simp [TakenOrKept, shareAct, blockAct, Covered, hp]
  | trimShares ok => simp [TakenOrKept, shareAct, blockAct, Covered]
  | trimBlocks ok => simp [TakenOrKept, shareAct, blockAct, Covered]

/-- The oracle loses no event in a run if and only if whatever fails to take
effect was not removed from its buffer before. -/
theorem nothing_lost_iff_taken_or_kept (db : Db R) (as : List (Oracle.Action R)) :
    Always (Oracle.step excess parse) (NothingLost parse) (boot db) as ↔
      Guarded (Oracle.step excess parse) (TakenOrKept excess parse) (boot db) as := by
  have hshare := lossless_iff (share_refines excess parse) (shareWork parse) (s := boot db) rfl as
  have hblock := lossless_iff (block_refines excess parse) (blockWork parse) (s := boot db) rfl as
  constructor
  · intro h pre a hp
    refine (takenOrKept_iff_covered excess parse _ a).mpr ⟨?_, ?_⟩
    · exact hshare.mp (fun p hpp => (h p hpp).1) pre a hp
    · exact hblock.mp (fun p hpp => (h p hpp).2) pre a hp
  · intro h pre hp
    have hcov := fun p a hpa => (takenOrKept_iff_covered excess parse _ a).mp (h p a hpa)
    exact ⟨hshare.mpr (fun p a hpa => (hcov p a hpa).1) pre hp,
      hblock.mpr (fun p a hpa => (hcov p a hpa).2) pre hp⟩

end Losses

section Doubles

/-- The call that removes a batch succeeds unless the batch credits nobody. -/
def TrimSucceeds (state : State R) : Oracle.Action R → Prop
  | .trimShares ok => state.share.stage = .read →
      ok = true ∨ ∀ e ∈ state.share.hand, shareWork parse e.2 = false
  | _ => True

/-- No share event is applied twice in a run whose batches are all removed. -/
theorem applied_once_of_trimmed (db : Db R) {as : List (Oracle.Action R)}
    (hg : Guarded (Oracle.step excess parse) (TrimSucceeds parse) (boot db) as) :
    Always (Oracle.step excess parse) (fun state => state.share.applied.Nodup) (boot db) as := by
  refine once_of_trimmed (share_refines excess parse) (shareWork parse) ?_ rfl ?_
  · intro state a took ha e ht
    cases a with
    | applyShares order spot tx =>
      simp only [shareAct, Option.some.injEq, Act.settle.injEq] at ha
      rw [← ha, shareTook, Bool.and_eq_true] at ht
      exact ht.2
    | readShares ok =>
      simp only [shareAct] at ha
      split at ha <;> cases ha
    | _ => cases ha
  · intro pre a hp b hb
    have hs := hg pre a hp
    cases a with
    | trimShares ok =>
      cases hb
      exact hs
    | readShares ok =>
      simp only [shareAct] at hb
      split at hb <;> cases hb
      trivial
    | _ => cases hb <;> trivial

end Doubles

section Batches

/-- The events a step pushes, by buffer. -/
def pushedShares : Oracle.Action R → List Str
  | .pushShare rawEvt => [rawEvt]
  | _ => []

def pushedBlocks : Oracle.Action R → List Str
  | .pushBlock rawBlock => [rawBlock]
  | _ => []

/-- The batches of the ticks of a run, each read with one `lrange`. -/
def shareBatches (db : Db R) (as : List (Oracle.Action R)) : List (List (Nat × Str)) :=
  expand (Oracle.step excess parse) (fun t a => (shareAct excess parse t a).elim [] (batch t.share)) (boot db) as

def blockBatches (db : Db R) (as : List (Oracle.Action R)) : List (List (Nat × Str)) :=
  expand (Oracle.step excess parse) (fun t a => (blockAct excess parse t a).elim [] (batch t.block)) (boot db) as

/-- Both kinds of `ltrim` succeed. What the other calls do decides nothing about
who reads an event: a read that fails reads nothing. -/
def RemovalSucceeds : Oracle.Action R → Prop
  | .trimShares ok => ok = true
  | .trimBlocks ok => ok = true
  | _ => True

theorem pushes_shareAct (state : State R) (a : Oracle.Action R) :
    (shareAct excess parse state a).elim [] Act.pushes = pushedShares a := by
  cases a with
  | readShares ok =>
    by_cases hp : state.phase = .shares <;> simp [shareAct, hp, pushedShares, Act.pushes]
  | _ => rfl

omit [Add R] [Mul R] in
theorem pushes_blockAct (state : State R) (a : Oracle.Action R) :
    (blockAct excess parse state a).elim [] Act.pushes = pushedBlocks a := by
  cases a with
  | readBlocks ok =>
    by_cases hp : state.phase = .blocks <;> simp [blockAct, hp, pushedBlocks, Act.pushes]
  | _ => rfl

theorem removes_shareAct {state : State R} {a : Oracle.Action R} (ha : RemovalSucceeds a)
    (b : HandOff.Act Str) (hb : shareAct excess parse state a = some b) : Removes b := by
  cases a with
  | trimShares ok =>
    cases hb
    exact ha
  | readShares ok =>
    simp only [shareAct] at hb
    split at hb <;> cases hb
    trivial
  | _ => cases hb <;> trivial

omit [Add R] [Mul R] in
theorem removes_blockAct {state : State R} {a : Oracle.Action R} (ha : RemovalSucceeds a)
    (b : HandOff.Act Str) (hb : blockAct excess parse state a = some b) : Removes b := by
  cases a with
  | trimBlocks ok =>
    cases hb
    exact ha
  | readBlocks ok =>
    simp only [blockAct] at hb
    split at hb <;> cases hb
    trivial
  | _ => cases hb <;> trivial

/-- Every event pushed to either buffer is read in exactly one tick, in the
order of the pushes, or is still to be read. -/
theorem events_read_once (db : Db R) {as : List (Oracle.Action R)}
    (hok : ∀ a ∈ as, RemovalSucceeds a) :
    ∀ pre, pre <+: as →
      ReadOnce (pre.flatMap pushedShares) (shareBatches excess parse db pre)
          (run (Oracle.step excess parse) (boot db) pre).share ∧
        ReadOnce (pre.flatMap pushedBlocks) (blockBatches excess parse db pre)
          (run (Oracle.step excess parse) (boot db) pre).block := by
  intro pre hp
  have hshare := readOnce (share_refines excess parse) (s := boot db) rfl
    (guarded_of_forall fun t a ha => removes_shareAct excess parse (hok a ha)) pre hp
  have hblock := readOnce (block_refines excess parse) (s := boot db) rfl
    (guarded_of_forall fun t a ha => removes_blockAct excess parse (hok a ha)) pre hp
  simp only [pushes_shareAct, expand_flatMap] at hshare
  simp only [pushes_blockAct, expand_flatMap] at hblock
  exact ⟨hshare, hblock⟩

/-- A tick reads two events, and a third one is pushed before it removes them. -/
def pushedBetween : List (Oracle.Action ℚ) :=
  [.pushShare (lit "a"), .pushShare (lit "b"), .readShares true, .pushShare (lit "c"),
    .trimShares true]

theorem pushedBetween_read_once :
    ReadOnce [lit "a", lit "b", lit "c"] (shareBatches .cut (fun _ => none) emptyDb pushedBetween)
      (run (Oracle.step .cut (fun _ => none)) (boot emptyDb) pushedBetween).share :=
  (events_read_once .cut (fun _ => none) emptyDb (by simp [pushedBetween, RemovalSucceeds])
    pushedBetween List.prefix_rfl).1

example : shareBatches .cut (fun _ => none) emptyDb pushedBetween = [[(0, lit "a"), (1, lit "b")]] := by
  rfl

end Batches

end StratumPool.OracleRuns
