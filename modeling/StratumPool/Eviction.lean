import StratumPool.Averages
import StratumPool.Document

namespace StratumPool.Eviction

open Lib Lib.Runs Lib.Decay StratumPool.Text StratumPool.Telemetry StratumPool.Ledger
open StratumPool.LedgerRuns (ReachesRedis)
open StratumPool.Status (rateOf written_flush redis_flush flush_of_empty listedAfter rateAfter)
open StratumPool.Averages (sharesIn sharesOf bounded_run projected_eq projectedEmas_eq
  seconds_nonneg emaWindows_pos)
open StratumPool.Document (telemetry_pipeline rows_payload)

section Deadline

/-- How many seconds after its last share a worker is no longer online, by its
average over eight seconds. -/
noncomputable def deadline (ema : ℝ) : ℝ := max 30.0 (8.0 * Real.log (ema / 5000000000.0))

theorem deadline_eq (ema : ℝ) :
    deadline ema = max 30 (emaWindows 2 * Real.log (ema / 5000000000)) := by
  have hwindow : (emaWindows 2 : ℝ) = 8 := rfl
  rw [deadline, hwindow]
  norm_num

/-- The cut of small averages to zero decides nothing about who is online. -/
theorem online_iff {state : WorkerState ℝ} (hema : 0 ≤ state.emas 2) (now : Nat) :
    isOnline Real.exp now state = true ↔ seconds now state.lastShareTs < deadline (state.emas 2) := by
  have hdt := seconds_nonneg now state.lastShareTs
  have hcut : (5000000000 : ℝ) < currentHashrate Real.exp now state ↔
      5000000000 < state.emas 2 * weight (emaWindows 2) (seconds now state.lastShareTs) := by
    rw [currentHashrate, projectedEmas_eq, projected_eq, cutBelow]
    split
    · rfl
    · rename_i hsmall
      constructor
      · intro h
        linarith
      · intro h
        linarith
  rw [isOnline, decide_eq_true_iff, hcut,
    lt_mul_weight_iff (emaWindows_pos 2) hdt hema (by norm_num), deadline_eq, lt_max_iff, or_comm]

end Deadline

section Quiet

variable {worker : Str}

/-- The worker is nowhere to be seen. -/
structure Gone (engine : Engine ℝ) (worker : Str) : Prop where
  left : engine.workerStates.lookup worker = none
  unlisted : worker ∉ engine.redis.poolWorkers
  rate : rateOf engine.redis worker = some 0
  unshown : ∀ document, engine.redis.telemetry = some document →
    worker ∉ document.workers.map WorkerRow.fullIdentity

/-- The worker is as it was after its last share, its unflushed credit apart. -/
def Idle (last : WorkerState ℝ) (engine : Engine ℝ) (worker : Str) : Prop :=
  ∃ state, engine.workerStates.lookup worker = some state ∧ state.emas = last.emas ∧
    state.lastShareTs = last.lastShareTs

/-- A tick no earlier than the deadline of a worker with this average, which has
been idle since then. -/
def IsLate (ema : ℝ) (since : Nat) : Action ℝ → Prop
  | .share .. => False
  | .flush now _ _ => deadline ema ≤ seconds now since

theorem entries_ne_nil {engine : Engine ℝ} {state : WorkerState ℝ}
    (h : engine.workerStates.lookup worker = some state) : engine.workerStates.entries ≠ [] := by
  intro hempty
  simp [AList.lookup, hempty] at h

/-- A tick shows the workers that were in the map and are online. -/
theorem shown_flush {engine : Engine ℝ} (hne : engine.workerStates.entries ≠ []) (now : Nat)
    (order : IterOrder (Sigma fun _ : Str => WorkerState ℝ)) {document : Payload ℝ}
    (h : (flush Real.exp engine now order true).redis.telemetry = some document)
    (hshown : worker ∈ document.workers.map WorkerRow.fullIdentity) :
    ∃ state, engine.workerStates.lookup worker = some state ∧
      isOnline Real.exp now state = true := by
  rw [redis_flush Real.exp now hne, (telemetry_pipeline Real.exp now engine.redis _).1] at h
  cases h
  obtain ⟨row, hrow, rfl⟩ := List.mem_map.mp hshown
  obtain ⟨e, he, hon, rfl⟩ := rows_payload Real.exp now _ row hrow
  have hmem := (order.perm engine.workerStates.entries).mem_iff.mp he
  exact ⟨e.2, (Table.mem_entries_iff _ e.1 e.2).mp hmem, hon⟩

/-- Without a share of its own a worker that is gone stays gone. -/
theorem gone_step {engine : Engine ℝ} (h : Gone engine worker) {a : Action ℝ}
    (hquiet : sharesIn worker a = []) (hok : ReachesRedis a) :
    Gone (step Real.exp engine a) worker := by
  cases a with
  | share name difficulty now =>
    have hname : worker ≠ name := by
      rintro rfl
      simp [sharesIn] at hquiet
    refine ⟨?_, h.unlisted, h.rate, h.unshown⟩
    rw [step, share, AList.lookup_insert_ne hname]
    exact h.left
  | flush now order ok =>
    obtain rfl : ok = true := hok
    by_cases hempty : engine.workerStates.entries = []
    · rw [step, flush_of_empty Real.exp now hempty]
      exact h
    · have hwritten := written_flush Real.exp now hempty order
      refine ⟨?_, ?_, ?_, ?_⟩
      · rw [step, lookup_flush, h.left]
        rfl
      · rw [step, hwritten.listed, h.left]
        exact h.unlisted
      · rw [step, hwritten.rate, h.left]
        exact h.rate
      · intro document hdocument hshown
        obtain ⟨state, hstate, -⟩ := shown_flush hempty now order hdocument hshown
        rw [h.left] at hstate
        cases hstate

/-- The first late tick takes the worker away, an earlier one does not. -/
theorem idle_flush {engine : Engine ℝ} {last : WorkerState ℝ} (h : Idle last engine worker)
    (hema : 0 ≤ last.emas 2) (now : Nat)
    (order : IterOrder (Sigma fun _ : Str => WorkerState ℝ)) :
    (deadline (last.emas 2) ≤ seconds now last.lastShareTs →
        Gone (flush Real.exp engine now order true) worker) ∧
      (seconds now last.lastShareTs < deadline (last.emas 2) →
        Idle last (flush Real.exp engine now order true) worker) := by
  obtain ⟨state, hstate, hemas, hlast⟩ := h
  have honline : isOnline Real.exp now state = true ↔
      seconds now last.lastShareTs < deadline (last.emas 2) := by
    rw [online_iff (by rwa [hemas]), hemas, hlast]
  have hne := entries_ne_nil hstate
  have hwritten := written_flush Real.exp now hne order
  refine ⟨fun hlate => ?_, fun hearly => ?_⟩
  · have hoff : isOnline Real.exp now state = false := by
      rw [← Bool.not_eq_true, honline]
      exact not_lt.mpr hlate
    refine ⟨?_, ?_, ?_, ?_⟩
    · rw [lookup_flush, hstate, Option.bind_some]
      exact (flushState_eq_none_iff Real.exp).mpr hoff
    · rw [hwritten.listed, hstate, listedAfter, hoff]
      simp
    · rw [hwritten.rate, hstate, rateAfter, hoff]
      rfl
    · intro document hdocument hshown
      obtain ⟨shown, hshown, hon⟩ := shown_flush hne now order hdocument hshown
      rw [hstate] at hshown
      cases hshown
      rw [hoff] at hon
      cases hon
  · refine ⟨drained state, ?_, ?_, ?_⟩
    · rw [lookup_flush, hstate, Option.bind_some]
      exact (flushState_eq_some_iff Real.exp).mpr ⟨honline.mpr hearly, rfl⟩
    · rw [← hemas, drained]
      split <;> rfl
    · rw [← hlast, drained]
      split <;> rfl

/-- What is left of a worker after a run without a share of it. -/
theorem quiet_run {engine : Engine ℝ} {last : WorkerState ℝ}
    (hstate : engine.workerStates.lookup worker = some last) (hema : 0 ≤ last.emas 2)
    {as : List (Action ℝ)} (hquiet : sharesOf worker as = []) (hok : ∀ a ∈ as, ReachesRedis a) :
    (∃ a ∈ as, IsLate (last.emas 2) last.lastShareTs a) ∧
        Gone (run (step Real.exp) engine as) worker ∨
      (∀ a ∈ as, ¬ IsLate (last.emas 2) last.lastShareTs a) ∧
        Idle last (run (step Real.exp) engine as) worker := by
  induction as using List.reverseRecOn with
  | nil => exact .inr ⟨by simp, last, hstate, rfl, rfl⟩
  | append_singleton pre a ih =>
    rw [Averages.sharesOf_concat, List.append_eq_nil_iff] at hquiet
    have hreaches := hok a (by simp)
    rw [run_concat]
    obtain ⟨⟨b, hb, hlate⟩, hgone⟩ | ⟨hearly, hidle⟩ :=
      ih hquiet.1 (fun b hb => hok b (List.mem_append_left _ hb))
    · exact .inl ⟨⟨b, List.mem_append_left _ hb, hlate⟩, gone_step hgone hquiet.2 hreaches⟩
    · cases a with
      | share name difficulty now =>
        right
        refine ⟨?_, ?_⟩
        · intro b hb
          obtain hb | hb := List.mem_append.mp hb
          · exact hearly b hb
          · rw [List.mem_singleton.mp hb]
            exact id
        · obtain ⟨state, hlookup, hsame⟩ := hidle
          have hname : worker ≠ name := by
            rintro rfl
            simp [sharesIn] at hquiet
          refine ⟨state, ?_, hsame⟩
          rw [step, share, AList.lookup_insert_ne hname]
          exact hlookup
      | flush now order ok =>
        obtain rfl : ok = true := hreaches
        obtain ⟨hgone, hstay⟩ := idle_flush hidle hema now order
        by_cases hlate : deadline (last.emas 2) ≤ seconds now last.lastShareTs
        · exact .inl ⟨⟨_, List.mem_append_right _ List.mem_cons_self, hlate⟩, hgone hlate⟩
        · right
          refine ⟨?_, hstay (not_le.mp hlate)⟩
          intro b hb
          obtain hb | hb := List.mem_append.mp hb
          · exact hearly b hb
          · rw [List.mem_singleton.mp hb]
            exact hlate

end Quiet

section Runs

/-- A miner that stops is gone from the map, the list, the numbers and the
document with the first tick at its deadline or later, and not before. -/
theorem gone_iff_late (redis : Redis ℝ) {worker : Str} {pre as : List (Action ℝ)}
    (hwork : ∀ share ∈ sharesOf worker pre, 0 ≤ work share.1) {last : WorkerState ℝ}
    (hlast : (run (step Real.exp) (boot redis) pre).workerStates.lookup worker = some last)
    (hquiet : sharesOf worker as = []) (hok : ∀ a ∈ as, ReachesRedis a) :
    Gone (run (step Real.exp) (boot redis) (pre ++ as)) worker ↔
      ∃ a ∈ as, IsLate (last.emas 2) last.lastShareTs a := by
  have hema : 0 ≤ last.emas 2 := (bounded_run redis hwork last hlast 2).1
  rw [run_append]
  obtain ⟨hlate, hgone⟩ | ⟨hearly, state, hstate, -⟩ := quiet_run hlast hema hquiet hok
  · exact iff_of_true hgone hlate
  · refine iff_of_false ?_ ?_
    · intro hgone
      rw [hgone.left] at hstate
      cases hstate
    · rintro ⟨a, ha, hlate⟩
      exact hearly a ha hlate

end Runs

section Examples

open StratumPool.LedgerRuns (rig emptyRedis first_share_ema)

/-- One share of difficulty one leaves too little to outlast the thirty seconds. -/
theorem deadline_first_share :
    deadline ((bookShare Real.exp 1 0 (freshState 0)).emas 2) = 30 := by
  have hlog : Real.log (536870912 / 5000000000) ≤ 0 :=
    Real.log_nonpos (by norm_num) (by norm_num)
  rw [deadline_eq, first_share_ema]
  apply max_eq_left
  have hnonpos := mul_nonpos_of_nonneg_of_nonpos (emaWindows_pos 2).le hlog
  linarith

theorem stopped_rig_gone :
    Gone (run (step Real.exp) (boot emptyRedis)
      ([.share rig 1 0] ++ [.flush 1000 (.asStored _) true, .flush 30000 (.asStored _) true]))
      rig := by
  have hlast : (run (step Real.exp) (boot emptyRedis) [.share rig 1 0]).workerStates.lookup rig =
      some (bookShare Real.exp 1 0 (freshState 0)) := by
    simp [step, share, boot, -AList.insert_empty]
  have hwork : ∀ share ∈ sharesOf rig [Action.share rig 1 0], (0 : ℝ) ≤ work share.1 := by
    intro share hshare
    obtain rfl : share = (1, 0) := by simpa [sharesOf, sharesIn] using hshare
    norm_num [work, kaspaDiffConstant]
  have hok : ∀ a ∈ [Action.flush 1000 (.asStored _) true, .flush 30000 (.asStored _) true],
      ReachesRedis (R := ℝ) a := by
    simp [ReachesRedis]
  apply (gone_iff_late emptyRedis hwork hlast rfl hok).mpr
  refine ⟨.flush 30000 (.asStored _) true, by simp, ?_⟩
  rw [IsLate, deadline_first_share]
  norm_num [seconds, bookShare]

end Examples

end StratumPool.Eviction
